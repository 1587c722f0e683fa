import Mathlib.Data.List.Forall2
import Mathlib.Data.List.Pairwise
import ContractAudit.Normalization

/-!
# The ids of the findings of a run

An id that the service supplies is taken as it stands.  The others are generated: the kind of the
finding and a number that goes up over all replies of a run.  So two generated ids never agree,
and a generated id identifies its finding in a run unless the service supplied the same text.

    (findings next draft records).outcome = .ok found → the drafts, numbered from `next` on
                                                            (findings_eq_ok)
    generated ids identify ↔ none of them was also supplied (identified_entriesOfRun_iff)
-/

namespace ContractAudit

open Record (LintOutput LintRecord Response VulnerabilityRecord)

/-! ## Numbering drafts -/

namespace Numbering

theorem assign_cons (next : Nat) (d : Finding) (drafts : List Finding) :
    assign next (d :: drafts) =
      if d.id.isEmpty then
        ({ d with id := lead d.kind ++ Decimal.digits next } :: (assign (next + 1) drafts).1,
          (assign (next + 1) drafts).2)
      else (d :: (assign next drafts).1, (assign next drafts).2) := rfl

/-- What does not depend on the id is kept by numbering. -/
theorem forall₂_assign {α : Type} {R : α → Finding → Prop} {items : List α}
    {drafts : List Finding} (hid : ∀ a d id, R a d → R a { d with id := id })
    (h : List.Forall₂ R items drafts) (next : Nat) :
    List.Forall₂ R items (assign next drafts).1 := by
  induction h generalizing next with
  | nil => exact .nil
  | cons hr _ ih =>
    rw [assign_cons]
    split
    · exact .cons (hid _ _ _ hr) (ih (next + 1))
    · exact .cons hr (ih next)

/-- Only ids are changed by numbering. -/
theorem assign_forall₂ (next : Nat) (drafts : List Finding) :
    List.Forall₂ (fun d f => ∃ id, f = { d with id := id }) drafts (assign next drafts).1 := by
  refine forall₂_assign ?_ (List.forall₂_same.2 fun d _ => ⟨d.id, rfl⟩) next
  rintro d _ id ⟨-, rfl⟩
  exact ⟨id, rfl⟩

theorem le_assign (next : Nat) (drafts : List Finding) : next ≤ (assign next drafts).2 := by
  induction drafts generalizing next with
  | nil => exact Nat.le_refl _
  | cons d drafts ih =>
    rw [assign_cons]
    split
    · exact Nat.le_of_succ_le (ih (next + 1))
    · exact ih next

theorem assign_append (next : Nat) (drafts more : List Finding) :
    assign next (drafts ++ more) =
      ((assign next drafts).1 ++ (assign (assign next drafts).2 more).1,
        (assign (assign next drafts).2 more).2) := by
  induction drafts generalizing next with
  | nil => rfl
  | cons d drafts ih =>
    rw [List.cons_append, assign_cons, assign_cons]
    split
    · rw [ih]
      rfl
    · rw [ih]
      rfl

end Numbering

namespace Normalization

/-- Without a fault every item has its value. -/
theorem upToFault_forall₂ {α β ε : Type} {f : α → Except ε β} {xs : List α}
    (h : (upToFault f xs).2 = none) :
    List.Forall₂ (fun x y => f x = .ok y) xs (upToFault f xs).1 := by
  induction xs with
  | nil => exact .nil
  | cons x xs ih =>
    unfold upToFault at h ⊢
    cases hx : f x with
    | error e =>
      rw [hx] at h
      cases h
    | ok y =>
      rw [hx] at h
      exact .cons hx (ih h)

/-- The findings of records are their drafts with numbers, also where a fault drops them. -/
theorem findings_eq {α : Type} (next : Nat) (draft : α → Except Decimal.Fault Finding)
    (records : List α) :
    findings next draft records =
      ⟨match (upToFault draft records).2 with
        | none => .ok (Numbering.assign next (upToFault draft records).1).1
        | some f => .error (.number f),
      (Numbering.assign next (upToFault draft records).1).2⟩ := by
  unfold findings
  cases h : (upToFault draft records).2 with
  | none => simp only [h]
  | some f => simp only [h]

theorem findings_eq_ok {α : Type} {next : Nat} {draft : α → Except Decimal.Fault Finding}
    {records : List α} {found : List Finding}
    (h : (findings next draft records).outcome = .ok found) :
    ∃ drafts, List.Forall₂ (fun r d => draft r = .ok d) records drafts ∧
      found = (Numbering.assign next drafts).1 ∧
      (findings next draft records).next = (Numbering.assign next drafts).2 := by
  have hdrafts := @upToFault_forall₂ α Finding Decimal.Fault draft records
  rw [findings_eq] at h ⊢
  cases hfault : (upToFault draft records).2 with
  | some f =>
    rw [hfault] at h
    cases h
  | none =>
    rw [hfault] at h
    exact ⟨_, hdrafts hfault, (Except.ok.inj h).symm, rfl⟩

end Normalization

/-! ## Origins of ids -/

/-- Where the id of a finding comes from: the service, or the count of the run. -/
inductive IdOrigin
  | supplied (id : Text)
  | generated (number : Nat)
  deriving DecidableEq

/-- The id of a finding of some kind. -/
def IdOrigin.id (kind : FindingKind) : IdOrigin → Text
  | supplied id => id
  | generated number => Numbering.lead kind ++ Decimal.digits number

/-- A finding of a run, with the origin of its id. -/
structure Entry where
  finding : Finding
  origin : IdOrigin
  deriving DecidableEq

namespace Entry

def IsGenerated (e : Entry) : Prop := ∃ number, e.origin = .generated number

instance : DecidablePred IsGenerated
  | ⟨_, .supplied _⟩ => .isFalse fun ⟨_, h⟩ => by cases h
  | ⟨_, .generated number⟩ => .isTrue ⟨number, rfl⟩

/-- A generated id is the id of no other finding. -/
def Identified (es : List Entry) : Prop :=
  es.Pairwise fun a b => a.IsGenerated ∨ b.IsGenerated → a.finding.id ≠ b.finding.id

instance : DecidablePred Identified := fun es => inferInstanceAs (Decidable (es.Pairwise _))

/-- The findings with their origins, a number being drawn from `next` on wherever no id is
supplied. -/
def list (next : Nat) : List (Option Text) → List Finding → List Entry
  | some id :: ids, f :: fs => ⟨f, .supplied id⟩ :: list next ids fs
  | none :: ids, f :: fs => ⟨f, .generated next⟩ :: list (next + 1) ids fs
  | _, _ => []

/-- What numbering from `next` up to `last` makes of findings. -/
structure IsNumbered (next : Nat) (es : List Entry) (last : Nat) : Prop where
  le : next ≤ last
  id_eq : ∀ e ∈ es, e.finding.id = e.origin.id e.finding.kind
  bounds : ∀ e ∈ es, ∀ n, e.origin = .generated n → next ≤ n ∧ n < last
  increasing : es.Pairwise fun a b =>
    ∀ m n, a.origin = .generated m → b.origin = .generated n → m < n

theorem IsNumbered.skip {next last : Nat} (h : next ≤ last) : IsNumbered next [] last where
  le := h
  id_eq := List.forall_mem_nil _
  bounds := List.forall_mem_nil _
  increasing := .nil

theorem IsNumbered.append {next mid last : Nat} {es fs : List Entry}
    (h : IsNumbered next es mid) (h' : IsNumbered mid fs last) :
    IsNumbered next (es ++ fs) last where
  le := Nat.le_trans h.le h'.le
  id_eq := List.forall_mem_append.2 ⟨h.id_eq, h'.id_eq⟩
  bounds := by
    refine List.forall_mem_append.2 ⟨fun e he n hn => ?_, fun e he n hn => ?_⟩
    · obtain ⟨hnext, hmid⟩ := h.bounds e he n hn
      exact ⟨hnext, Nat.lt_of_lt_of_le hmid h'.le⟩
    · obtain ⟨hmid, hlast⟩ := h'.bounds e he n hn
      exact ⟨Nat.le_trans h.le hmid, hlast⟩
  increasing := by
    refine List.pairwise_append.2 ⟨h.increasing, h'.increasing, ?_⟩
    intro a ha b hb m n hm hn
    exact Nat.lt_of_lt_of_le (h.bounds a ha m hm).2 (h'.bounds b hb n hn).1

theorem IsNumbered.supplied {next : Nat} {f : Finding} {id : Text} (h : f.id = id) :
    IsNumbered next [⟨f, .supplied id⟩] next where
  le := Nat.le_refl _
  id_eq := List.forall_mem_singleton.2 h
  bounds := by simp
  increasing := List.pairwise_singleton _ _

theorem IsNumbered.generated {next : Nat} {f : Finding}
    (h : f.id = Numbering.lead f.kind ++ Decimal.digits next) :
    IsNumbered next [⟨f, .generated next⟩] (next + 1) where
  le := Nat.le_succ _
  id_eq := List.forall_mem_singleton.2 h
  bounds := by simp
  increasing := List.pairwise_singleton _ _

/-- A draft has the id that is supplied, or the empty one. -/
def IsDraft (id : Option Text) (d : Finding) : Prop := d.id = id.getD [] ∧ id ≠ some []

/-- One step for each draft: its id is kept or drawn. -/
theorem isNumbered_list {ids : List (Option Text)} {drafts : List Finding}
    (h : List.Forall₂ IsDraft ids drafts) (next : Nat) :
    IsNumbered next (list next ids (Numbering.assign next drafts).1)
      (Numbering.assign next drafts).2 := by
  induction h generalizing next with
  | nil => exact .skip (Nat.le_refl _)
  | @cons id d ids drafts hd _ ih =>
    obtain ⟨hid, hne⟩ := hd
    unfold Numbering.assign
    cases id with
    | none =>
      rw [if_pos (by rw [hid]; rfl)]
      exact (IsNumbered.generated rfl).append (ih (next + 1))
    | some id =>
      have hempty : d.id.isEmpty = false := by
        rw [hid]
        exact List.isEmpty_eq_false_iff.2 fun h => hne (congrArg some h)
      rw [if_neg (by rw [hempty]; exact Bool.false_ne_true)]
      exact (IsNumbered.supplied hid).append (ih next)

theorem map_finding_list {ids : List (Option Text)} {fs : List Finding}
    (h : ids.length = fs.length) (next : Nat) : (list next ids fs).map (·.finding) = fs := by
  induction ids generalizing next fs with
  | nil => rw [List.eq_nil_of_length_eq_zero h.symm]; rfl
  | cons id ids ih =>
    cases fs with
    | nil => cases h
    | cons f fs =>
      have hlen := Nat.succ.inj h
      cases id with
      | none => exact congrArg (f :: ·) (ih hlen (next + 1))
      | some id => exact congrArg (f :: ·) (ih hlen next)

/-- The findings are drafts with these ids that were numbered from `next` up to `last`. -/
def IsDrawn (next : Nat) (ids : List (Option Text)) (fs : List Finding) (last : Nat) : Prop :=
  ∃ drafts, List.Forall₂ IsDraft ids drafts ∧ Numbering.assign next drafts = (fs, last)

/-- Drafts without an id, of which numbers have been drawn. -/
theorem forall₂_assign_none {drafts : List Finding} (h : ∀ d ∈ drafts, IsDraft none d)
    (next : Nat) :
    List.Forall₂ IsDraft ((Numbering.assign next drafts).1.map fun _ => none) drafts := by
  rw [List.forall₂_map_left_iff]
  exact ((List.forall₂_and_left drafts _).2
    ⟨h, Numbering.assign_forall₂ next drafts⟩).flip.imp fun _ _ hd => hd.1

theorem IsDrawn.isNumbered {next last : Nat} {ids : List (Option Text)} {fs : List Finding}
    (h : IsDrawn next ids fs last) : IsNumbered next (list next ids fs) last := by
  obtain ⟨drafts, hdrafts, he⟩ := h
  have hlist := isNumbered_list hdrafts next
  rw [he] at hlist
  exact hlist

theorem IsDrawn.map_finding {next last : Nat} {ids : List (Option Text)} {fs : List Finding}
    (h : IsDrawn next ids fs last) : (list next ids fs).map (·.finding) = fs := by
  obtain ⟨drafts, hdrafts, he⟩ := h
  have hlen := (Numbering.assign_forall₂ next drafts).length_eq
  rw [he] at hlen
  exact map_finding_list (hdrafts.length_eq.trans hlen) next

/-- Two generated ids agree only if the numbers do. -/
theorem number_eq_of_id_eq {kind kind' : FindingKind} {m n : Nat}
    (h : Numbering.lead kind ++ Decimal.digits m = Numbering.lead kind' ++ Decimal.digits n) :
    m = n := by
  have hlen : (Numbering.lead kind).length = (Numbering.lead kind').length := by
    cases kind <;> cases kind' <;> rfl
  exact Decimal.digits_injective (List.append_inj h hlen).2

/-- **Generated ids identify their findings** if and only if no id that the service supplied is a
generated one. -/
theorem IsNumbered.identified_iff {next last : Nat} {es : List Entry}
    (h : IsNumbered next es last) :
    Identified es ↔ ∀ e ∈ es, ∀ g ∈ es, ∀ id number,
      e.origin = .supplied id → g.origin = .generated number →
        id ≠ Numbering.lead g.finding.kind ++ Decimal.digits number := by
  constructor
  · intro hid e he g hg id number hsupplied hgenerated
    have : Std.Symm fun a b : Entry =>
        a.IsGenerated ∨ b.IsGenerated → a.finding.id ≠ b.finding.id :=
      ⟨fun a b hab hor heq => hab hor.symm heq.symm⟩
    have hne : e ≠ g := by
      rintro rfl
      cases hsupplied.symm.trans hgenerated
    have hids := List.Pairwise.forall hid he hg hne (Or.inr ⟨number, hgenerated⟩)
    rw [h.id_eq e he, h.id_eq g hg, hsupplied, hgenerated] at hids
    exact hids
  · intro hall
    refine h.increasing.imp_of_mem fun {a b} ha hb hlt hor => ?_
    rw [h.id_eq a ha, h.id_eq b hb]
    cases hao : a.origin with
    | supplied id =>
      cases hbo : b.origin with
      | supplied id' =>
        rcases hor with ⟨n, hn⟩ | ⟨n, hn⟩
        · cases hao.symm.trans hn
        · cases hbo.symm.trans hn
      | generated n => exact hall a ha b hb id n hao hbo
    | generated m =>
      cases hbo : b.origin with
      | supplied id => exact (hall b hb a ha id m hbo hao).symm
      | generated n =>
        intro heq
        exact absurd (number_eq_of_id_eq heq) (Nat.ne_of_lt (hlt m n hao hbo))

end Entry

/-! ## Replies -/

/-- The findings of a reply, vulnerabilities before issues. -/
def Findings.all (found : Findings) : List Finding := found.vulnerabilities ++ found.lint

namespace Normalization

/-- The findings of a reply, or none if it cannot be turned into findings. -/
def foundIn : Except NormalizationFault Findings → List Finding
  | .ok found => found.all
  | .error _ => []

/-- The ids that the service supplies for the findings of a reply: those of the vulnerabilities
that have one, and none for issues. -/
def suppliedIds (r : Response) (found : Findings) : List (Option Text) :=
  ((checkVulnerabilities (r.result.getD [])).value.map fun record => nonempty? record.id) ++
    found.lint.map fun _ => none

/-- The findings of a reply with the origins of their ids. -/
def entries (depth next : Nat) (linting : Bool) (r : Response) : List Entry :=
  match (ofResponse next linting r depth).value.outcome with
  | .ok found => Entry.list next (suppliedIds r found) found.all
  | .error _ => []

theorem isDraft_ofVulnerability {r : VulnerabilityRecord} {d : Finding}
    (h : Finding.ofVulnerability r = .ok d) : Entry.IsDraft (nonempty? r.id) d := by
  have hd : d.id = r.id.getD [] := by
    unfold Finding.ofVulnerability at h
    cases hl : Finding.locationsOf r with
    | error f =>
      rw [hl] at h
      cases h
    | ok locations =>
      rw [hl] at h
      cases h
      rfl
  cases hid : r.id with
  | none => exact ⟨by rw [hd, hid]; rfl, Option.some_ne_none _ |>.symm⟩
  | some id =>
    cases id with
    | nil => exact ⟨by rw [hd, hid]; rfl, Option.some_ne_none _ |>.symm⟩
    | cons c id => exact ⟨by rw [hd, hid]; rfl, by simp [nonempty?]⟩

theorem isDraft_ofLintRecord {r : LintRecord} {d : Finding}
    (h : Finding.ofLintRecord r = .ok d) : Entry.IsDraft none d := by
  unfold Finding.ofLintRecord at h
  cases hs : LintSeverity.ofMark r.severity with
  | error f =>
    rw [hs] at h
    cases h
  | ok level =>
    rw [hs] at h
    cases h
    exact ⟨rfl, Option.some_ne_none _ |>.symm⟩

/-- The issues of a reply, if the linter is asked and says something. -/
def issues (depth : Nat) (linting : Bool) (output : Option LintOutput) :
    Except NormalizationFault (List LintRecord) :=
  match output with
  | none => .ok []
  | some output => if linting && ! output.isEmpty then (lintRecords depth output).value else .ok []

/-- The drafts of the findings of a reply up to the first fault, vulnerabilities before issues. -/
def drafts (depth : Nat) (linting : Bool) (r : Response) : List Finding :=
  let found := upToFault Finding.ofVulnerability (checkVulnerabilities (r.result.getD [])).value
  match found.2, issues depth linting r.linter with
  | none, .ok records => found.1 ++ (upToFault Finding.ofLintRecord records).1
  | _, _ => found.1

theorem value_lintPart (depth next : Nat) (linting : Bool) (output : Option LintOutput) :
    (lintPart depth next linting output).value =
      match issues depth linting output with
      | .error f => ⟨.error f, next⟩
      | .ok records => lint next records := by
  unfold lintPart issues
  cases output with
  | none => rfl
  | some output =>
    simp only []
    split
    · unfold lintFindings
      rw [Logged.value_bind]
      cases (lintRecords depth output).value <;> rfl
    · rfl

/-- A reply draws the numbers of its drafts, however it ends. -/
theorem next_ofResponse (depth next : Nat) (linting : Bool) (r : Response) :
    (ofResponse next linting r depth).value.next =
      (Numbering.assign next (drafts depth linting r)).2 := by
  unfold ofResponse drafts
  rw [Logged.value_bind]
  generalize (checkVulnerabilities (r.result.getD [])).value = records
  unfold vulnerabilities
  rw [findings_eq]
  cases hv : (upToFault Finding.ofVulnerability records).2 with
  | some f =>
    simp only [hv]
    rfl
  | none =>
    simp only [hv, Logged.value_bind, Logged.value_pure, value_lintPart]
    cases issues depth linting r.linter with
    | error f => rfl
    | ok issues =>
      simp only [lint]
      rw [findings_eq, Numbering.assign_append]

/-- The findings of a reply are its drafts, numbered from `next` on. -/
theorem drafts_of_ok {depth next : Nat} {linting : Bool} {r : Response} {found : Findings}
    (h : (ofResponse next linting r depth).value.outcome = .ok found) :
    List.Forall₂ Entry.IsDraft (suppliedIds r found) (drafts depth linting r) ∧
      (Numbering.assign next (drafts depth linting r)).1 = found.all := by
  unfold ofResponse at h
  unfold suppliedIds drafts
  rw [Logged.value_bind] at h
  generalize (checkVulnerabilities (r.result.getD [])).value = records at h ⊢
  unfold vulnerabilities at h
  rw [findings_eq] at h
  have hdrafts := @upToFault_forall₂ _ _ _ Finding.ofVulnerability records
  cases hv : (upToFault Finding.ofVulnerability records).2 with
  | some f =>
    rw [hv] at h
    cases h
  | none =>
    simp only [hv, Logged.value_bind, Logged.value_pure, value_lintPart] at h
    cases hi : issues depth linting r.linter with
    | error f =>
      rw [hi] at h
      cases h
    | ok issues =>
      simp only [hi, lint] at h
      rw [findings_eq] at h
      have hissues := @upToFault_forall₂ _ _ _ Finding.ofLintRecord issues
      cases hl : (upToFault Finding.ofLintRecord issues).2 with
      | some f =>
        rw [hl] at h
        cases h
      | none =>
        rw [hl] at h
        obtain rfl := Except.ok.inj h
        have hnone := ((List.forall₂_and_left _ issues).1
          ((hissues hl).flip.imp fun d _ hr => ⟨isDraft_ofLintRecord hr, hr⟩)).1
        simp only [hv]
        refine ⟨List.rel_append ?_ (Entry.forall₂_assign_none hnone _), ?_⟩
        · rw [List.forall₂_map_left_iff]
          exact (hdrafts hv).imp fun _ _ => isDraft_ofVulnerability
        · rw [Numbering.assign_append]
          rfl

theorem isDrawn_ofResponse {depth next : Nat} {linting : Bool} {r : Response} {found : Findings}
    (h : (ofResponse next linting r depth).value.outcome = .ok found) :
    Entry.IsDrawn next (suppliedIds r found) found.all
      (ofResponse next linting r depth).value.next := by
  obtain ⟨hdrafts, hall⟩ := drafts_of_ok h
  exact ⟨drafts depth linting r, hdrafts, Prod.ext hall (next_ofResponse depth next linting r).symm⟩

theorem le_ofResponse (depth next : Nat) (linting : Bool) (r : Response) :
    next ≤ (ofResponse next linting r depth).value.next := by
  rw [next_ofResponse]
  exact Numbering.le_assign next _

theorem isNumbered_entries (depth next : Nat) (linting : Bool) (r : Response) :
    Entry.IsNumbered next (entries depth next linting r)
      (ofResponse next linting r depth).value.next := by
  unfold entries
  split
  · next found h => exact (isDrawn_ofResponse h).isNumbered
  · exact .skip (le_ofResponse depth next linting r)

theorem map_finding_entries (depth next : Nat) (linting : Bool) (r : Response) :
    (entries depth next linting r).map (·.finding) =
      foundIn (ofResponse next linting r depth).value.outcome := by
  unfold entries
  split
  · next found h =>
    rw [h]
    exact (isDrawn_ofResponse h).map_finding
  · next f h =>
    rw [h]
    rfl

/-! ## Runs -/

/-- What becomes of the replies of a run, the numbers going on from reply to reply. -/
def outcomes (depth : Nat) (linting : Bool) :
    Nat → List Response → List (Except NormalizationFault Findings)
  | _, [] => []
  | next, r :: rest =>
    (ofResponse next linting r depth).value.outcome ::
      outcomes depth linting (ofResponse next linting r depth).value.next rest

/-- The findings of a run with the origins of their ids. -/
def entriesOfRun (depth : Nat) (linting : Bool) : Nat → List Response → List Entry
  | _, [] => []
  | next, r :: rest =>
    entries depth next linting r ++
      entriesOfRun depth linting (ofResponse next linting r depth).value.next rest

theorem isNumbered_entriesOfRun (depth : Nat) (linting : Bool) (next : Nat) (rs : List Response) :
    ∃ last, Entry.IsNumbered next (entriesOfRun depth linting next rs) last := by
  induction rs generalizing next with
  | nil => exact ⟨next, .skip (Nat.le_refl _)⟩
  | cons r rs ih =>
    obtain ⟨last, h⟩ := ih (ofResponse next linting r depth).value.next
    exact ⟨last, (isNumbered_entries depth next linting r).append h⟩

theorem map_finding_entriesOfRun (depth : Nat) (linting : Bool) (next : Nat) (rs : List Response) :
    (entriesOfRun depth linting next rs).map (·.finding) =
      (outcomes depth linting next rs).flatMap foundIn := by
  induction rs generalizing next with
  | nil => rfl
  | cons r rs ih =>
    unfold entriesOfRun outcomes
    rw [List.map_append, List.flatMap_cons, map_finding_entries, ih]

/-- **When generated ids identify their findings.**  The entries of a run are its findings, and
the numbers of the generated ids go up; a generated id is the id of no other finding of the run if
and only if the service supplied no id that is a generated one. -/
theorem identified_entriesOfRun_iff (depth : Nat) (linting : Bool) (next : Nat)
    (rs : List Response) :
    (entriesOfRun depth linting next rs).map (·.finding) =
      (outcomes depth linting next rs).flatMap foundIn ∧
    (∃ last, Entry.IsNumbered next (entriesOfRun depth linting next rs) last) ∧
    (Entry.Identified (entriesOfRun depth linting next rs) ↔
      ∀ e ∈ entriesOfRun depth linting next rs, ∀ g ∈ entriesOfRun depth linting next rs,
        ∀ id number, e.origin = .supplied id → g.origin = .generated number →
          id ≠ Numbering.lead g.finding.kind ++ Decimal.digits number) := by
  obtain ⟨last, h⟩ := isNumbered_entriesOfRun depth linting next rs
  exact ⟨map_finding_entriesOfRun depth linting next rs, ⟨last, h⟩, h.identified_iff⟩

/-- The first reply supplies the id that is generated for the finding of the second. -/
theorem generated_id_repeats_supplied :
    ¬ Entry.Identified (entriesOfRun Json.usualDepth true 1
      [{ result := some [.obj [("id", .str "vuln-1"), ("check", .str "x")]] },
        { result := some [.obj [("check", .str "y")]] }]) := by
  decide +kernel

end Normalization

end ContractAudit
