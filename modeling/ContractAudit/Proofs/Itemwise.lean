import ContractAudit.Proofs.Normalization
import ContractAudit.Proofs.Numbering

/-!
# Items one by one

Items that do not have their form are left out before anything is numbered, so nothing but a warning
tells of them; and a list of items is turned into findings like its parts, one after the other, the
numbers going on.  The numbers that a run draws are 1, 2, 3 and so on, also where a fault drops the
findings that were to have them.

    findings next draft (rs ++ ss) = (findings next draft rs).andThen (findings · draft ss)
                                                            (findings_append)
    numbers (ofDrafts next drafts) = next, next + 1, …      (numbers_ofDrafts)
-/

namespace ContractAudit

open Record (Checked LintOutput LintRecord Response VulnerabilityRecord)

/-- The findings of a step and those of a second one that goes on with the numbers.  A fault of the
first step leaves the second one out. -/
def Numbered.andThen (first : Numbered (List Finding)) (second : Nat → Numbered (List Finding)) :
    Numbered (List Finding) :=
  match first.outcome with
  | .error f => ⟨.error f, first.next⟩
  | .ok found => ⟨(second first.next).outcome.map (found ++ ·), (second first.next).next⟩

/-! ## Lists of items -/

namespace Normalization

/-- The item does not have its form. -/
def IsMalformed {α : Type} (check : Json → Checked α) (v : Json) : Prop :=
  ∃ issues, check v = .bad issues

/-- Items are turned into findings one by one: what has not its form leaves no trace, anything else
is one finding, and a list is its beginning and then its rest. -/
structure IsItemwise (normalize : Nat → List Json → Numbered (List Finding))
    (malformed : Json → Prop) : Prop where
  single : ∀ next v found, ¬ malformed v → (normalize next [v]).outcome = .ok found →
    found.length = 1
  skip : ∀ next xs b ys, malformed b →
    normalize next (xs ++ [b] ++ ys) = normalize next (xs ++ ys)
  append : ∀ next xs ys,
    normalize next (xs ++ ys) = (normalize next xs).andThen fun next => normalize next ys

/-- A fault among the first items ends the list, and one among the others keeps the first. -/
theorem upToFault_append {α β ε : Type} (f : α → Except ε β) (xs ys : List α) :
    upToFault f (xs ++ ys) =
      match (upToFault f xs).2 with
      | some e => ((upToFault f xs).1, some e)
      | none => ((upToFault f xs).1 ++ (upToFault f ys).1, (upToFault f ys).2) := by
  induction xs with
  | nil => rfl
  | cons x xs ih =>
    rw [List.cons_append, upToFault, upToFault]
    cases f x with
    | error e => rfl
    | ok b =>
      simp only [ih]
      cases (upToFault f xs).2 <;> rfl

/-- **A list of records is its beginning and then its rest.** -/
theorem findings_append {α : Type} (next : Nat) (draft : α → Except Decimal.Fault Finding)
    (records more : List α) :
    findings next draft (records ++ more) =
      (findings next draft records).andThen fun next => findings next draft more := by
  simp only [findings_eq, upToFault_append]
  unfold Numbered.andThen
  cases hfirst : (upToFault draft records).2 with
  | some f => rfl
  | none =>
    simp only [Numbering.assign_append]
    cases (upToFault draft more).2 <;> rfl

theorem length_findings {α : Type} {next : Nat} {draft : α → Except Decimal.Fault Finding}
    {records : List α} {found : List Finding}
    (h : (findings next draft records).outcome = .ok found) : found.length = records.length := by
  obtain ⟨drafts, hdrafts, rfl, -⟩ := findings_eq_ok h
  have hnumbered := (Numbering.assign_forall₂ next drafts).length_eq
  exact hnumbered.symm.trans hdrafts.length_eq.symm

theorem isItemwise_checkEach {α : Type} (check : Json → Checked α) (what : Text)
    (draft : α → Except Decimal.Fault Finding) :
    IsItemwise (fun next items => findings next draft (checkEach check what 0 items).value)
      (IsMalformed check) where
  single next v found := by
    intro hv h
    rw [length_findings h, value_checkEach]
    cases hcheck : check v with
    | ok a =>
      simp only [List.filterMap_cons, hcheck, Checked.toOption, List.filterMap_nil,
        List.length_singleton]
    | bad issues => exact absurd ⟨issues, hcheck⟩ hv
  skip next xs b ys := by
    rintro ⟨issues, hb⟩
    have hnone : (check b).toOption = none := by rw [hb]; rfl
    simp only [value_checkEach, List.filterMap_append, List.filterMap_cons, hnone,
      List.filterMap_nil, List.append_nil]
  append next xs ys := by
    simp only [value_checkEach, List.filterMap_append, findings_append]

/-- Whichever way the linter puts its items, as a list, in an object or as text, they are turned
into the same findings. -/
theorem value_lintFindings_of_isItems {depth next : Nat} {output : LintOutput} {items : List Json}
    (h : IsItems depth output items) :
    (lintFindings depth next output).value = lint next (checkLint items).value := by
  unfold lintFindings
  rw [Logged.value_bind]
  cases h with
  | list => rfl
  | results h =>
    unfold lintRecords
    simp only [h]
    rfl
  | text hj hread hv =>
    unfold lintRecords lintOfText
    simp only [(looksLikeJson_iff _).1 hj, if_true, hread, lintOfJson_eq, hv]
    rfl

end Normalization

/-! ## Numbers that are drawn -/

/-- The number of a generated id. -/
def IdOrigin.number? : IdOrigin → Option Nat
  | supplied _ => none
  | generated number => some number

namespace Entry

/-- The numbers of the generated ids. -/
def numbers (es : List Entry) : List Nat := es.filterMap (·.origin.number?)

/-- Drafts with numbers from `next` on, and with the origins of their ids. -/
def ofDrafts (next : Nat) (drafts : List Finding) : List Entry :=
  list next (drafts.map fun d => nonempty? (some d.id)) (Numbering.assign next drafts).1

theorem ofDrafts_cons (next : Nat) (d : Finding) (drafts : List Finding) :
    ofDrafts next (d :: drafts) =
      if d.id.isEmpty then
        ⟨{ d with id := Numbering.lead d.kind ++ Decimal.digits next }, .generated next⟩ ::
          ofDrafts (next + 1) drafts
      else ⟨d, .supplied d.id⟩ :: ofDrafts next drafts := by
  unfold ofDrafts
  rw [Numbering.assign_cons, List.map_cons]
  cases hid : d.id with
  | nil => rfl
  | cons c t => rfl

theorem ofDrafts_append (next : Nat) (drafts more : List Finding) :
    ofDrafts next (drafts ++ more) =
      ofDrafts next drafts ++ ofDrafts (Numbering.assign next drafts).2 more := by
  induction drafts generalizing next with
  | nil => rfl
  | cons d drafts ih =>
    rw [List.cons_append, ofDrafts_cons, ofDrafts_cons, Numbering.assign_cons]
    split
    · rw [ih, List.cons_append]
    · rw [ih, List.cons_append]

/-- **No number is left out.** -/
theorem numbers_ofDrafts (next : Nat) (drafts : List Finding) :
    numbers (ofDrafts next drafts) =
      List.range' next (numbers (ofDrafts next drafts)).length := by
  induction drafts generalizing next with
  | nil => rfl
  | cons d drafts ih =>
    rw [ofDrafts_cons]
    split
    · show next :: numbers (ofDrafts (next + 1) drafts) = _
      rw [ih (next + 1)]
      simp only [numbers, List.filterMap_cons, IdOrigin.number?, List.length_cons,
        List.range'_succ]
    · exact ih next

theorem assign_snd (next : Nat) (drafts : List Finding) :
    (Numbering.assign next drafts).2 = next + (numbers (ofDrafts next drafts)).length := by
  induction drafts generalizing next with
  | nil => rfl
  | cons d drafts ih =>
    rw [ofDrafts_cons, Numbering.assign_cons]
    split
    · show (Numbering.assign (next + 1) drafts).2 =
        next + (numbers (ofDrafts (next + 1) drafts)).length.succ
      rw [ih (next + 1), Nat.add_right_comm]
      rfl
    · exact ih next

theorem id_eq_of_mem_ofDrafts {next : Nat} {drafts : List Finding} {e : Entry}
    (h : e ∈ ofDrafts next drafts) : e.finding.id = e.origin.id e.finding.kind := by
  induction drafts generalizing next with
  | nil => cases h
  | cons d drafts ih =>
    rw [ofDrafts_cons] at h
    split at h
    · rcases List.mem_cons.1 h with rfl | h
      · rfl
      · exact ih h
    · rcases List.mem_cons.1 h with rfl | h
      · rfl
      · exact ih h

/-- The id that a draft was made with is told by the draft. -/
theorem IsDraft.eq {id : Option Text} {d : Finding} (h : IsDraft id d) :
    id = nonempty? (some d.id) := by
  obtain ⟨hid, hne⟩ := h
  rw [hid]
  cases id with
  | none => rfl
  | some id =>
    cases id with
    | nil => exact absurd rfl hne
    | cons c t => rfl

end Entry

namespace Normalization

/-- All that a run makes, with the origins of the ids: the findings that it returns, and those of a
reply that a fault has ended. -/
def madeInRun (depth : Nat) (linting : Bool) (next : Nat) (rs : List Response) : List Entry :=
  Entry.ofDrafts next (rs.flatMap (drafts depth linting))

theorem madeInRun_cons (depth : Nat) (linting : Bool) (next : Nat) (r : Response)
    (rs : List Response) :
    madeInRun depth linting next (r :: rs) =
      Entry.ofDrafts next (drafts depth linting r) ++
        madeInRun depth linting (ofResponse next linting r depth).value.next rs := by
  unfold madeInRun
  rw [List.flatMap_cons, Entry.ofDrafts_append, next_ofResponse]

/-- The number that comes next after a run. -/
def nextAfterRun (depth : Nat) (linting : Bool) : Nat → List Response → Nat
  | next, [] => next
  | next, r :: rest => nextAfterRun depth linting (ofResponse next linting r depth).value.next rest

theorem nextAfterRun_eq (depth : Nat) (linting : Bool) (next : Nat) (rs : List Response) :
    nextAfterRun depth linting next rs =
      next + (Entry.numbers (madeInRun depth linting next rs)).length := by
  unfold madeInRun
  rw [← Entry.assign_snd]
  induction rs generalizing next with
  | nil => rfl
  | cons r rs ih =>
    rw [List.flatMap_cons, Numbering.assign_append, ← next_ofResponse]
    exact ih _

theorem entries_of_ok {depth next : Nat} {linting : Bool} {r : Response} {found : Findings}
    (h : (ofResponse next linting r depth).value.outcome = .ok found) :
    entries depth next linting r = Entry.ofDrafts next (drafts depth linting r) := by
  obtain ⟨hdrafts, hall⟩ := drafts_of_ok h
  have hids : suppliedIds r found =
      (drafts depth linting r).map fun d => nonempty? (some d.id) := by
    have heq := hdrafts.imp fun _ _ hd => hd.eq
    rw [← List.forall₂_map_right_iff (f := fun d : Finding => nonempty? (some d.id))] at heq
    exact List.forall₂_eq_eq_eq ▸ heq
  unfold entries Entry.ofDrafts
  rw [h, hall, ← hids]

/-- A fault only leaves out what the reply has made. -/
theorem entries_sublist (depth next : Nat) (linting : Bool) (r : Response) :
    (entries depth next linting r).Sublist (Entry.ofDrafts next (drafts depth linting r)) := by
  cases h : (ofResponse next linting r depth).value.outcome with
  | error f =>
    unfold entries
    rw [h]
    exact List.nil_sublist _
  | ok found => rw [entries_of_ok h]

theorem entriesOfRun_sublist (depth : Nat) (linting : Bool) (next : Nat) (rs : List Response) :
    (entriesOfRun depth linting next rs).Sublist (madeInRun depth linting next rs) := by
  induction rs generalizing next with
  | nil => exact List.Sublist.refl _
  | cons r rs ih =>
    unfold entriesOfRun
    rw [madeInRun_cons]
    exact (entries_sublist depth next linting r).append (ih _)

theorem entriesOfRun_eq {depth : Nat} {linting : Bool} {next : Nat} {rs : List Response}
    (h : ∀ o ∈ outcomes depth linting next rs, ∃ found, o = .ok found) :
    entriesOfRun depth linting next rs = madeInRun depth linting next rs := by
  induction rs generalizing next with
  | nil => rfl
  | cons r rs ih =>
    unfold outcomes at h
    obtain ⟨⟨found, hfound⟩, hrest⟩ := List.forall_mem_cons.1 h
    unfold entriesOfRun
    rw [madeInRun_cons, entries_of_ok hfound, ih hrest]

/-! ## Top theorem -/

/-- The numbers of a run are drawn one after the other. -/
structure IsConsecutive (depth : Nat) (linting : Bool) (rs : List Response) : Prop where
  /-- The numbers are 1, 2, 3 and so on. -/
  numbers_eq : Entry.numbers (madeInRun depth linting 1 rs) =
    List.range' 1 (Entry.numbers (madeInRun depth linting 1 rs)).length
  /-- As many are drawn as are made, also by a reply that a fault ends. -/
  next_eq : nextAfterRun depth linting 1 rs =
    1 + (Entry.numbers (madeInRun depth linting 1 rs)).length
  id_eq : ∀ e ∈ madeInRun depth linting 1 rs, e.finding.id = e.origin.id e.finding.kind
  /-- What is returned is what is made, as far as no fault has ended its reply. -/
  returned : (entriesOfRun depth linting 1 rs).Sublist (madeInRun depth linting 1 rs)
  complete : (∀ o ∈ outcomes depth linting 1 rs, ∃ found, o = .ok found) →
    entriesOfRun depth linting 1 rs = madeInRun depth linting 1 rs
  /-- The findings come in the order of the replies, vulnerabilities before issues. -/
  in_order : (entriesOfRun depth linting 1 rs).map (·.finding) =
    (outcomes depth linting 1 rs).flatMap foundIn

/-- **A malformed item affects nothing but itself, and numbers are consecutive.**  Vulnerabilities
and issues are turned into findings item by item, whichever way the linter puts its items; and the
generated ids of a run carry the numbers 1, 2, 3 and so on in the order of its findings. -/
theorem isItemwise_and_isConsecutive :
    IsItemwise (fun next items => vulnerabilities next (checkVulnerabilities items).value)
      (IsMalformed VulnerabilityRecord.ofJson) ∧
    (∀ depth, IsItemwise (fun next items => (lintFindings depth next (.list items)).value)
      (IsMalformed LintRecord.ofJson)) ∧
    (∀ depth next output items, IsItems depth output items →
      (lintFindings depth next output).value = (lintFindings depth next (.list items)).value) ∧
    ∀ depth linting rs, IsConsecutive depth linting rs := by
  refine ⟨isItemwise_checkEach _ _ _, fun _ => isItemwise_checkEach _ _ _, ?_, ?_⟩
  · intro depth next output items h
    exact (value_lintFindings_of_isItems h).trans (value_lintFindings_of_isItems (.list items)).symm
  · intro depth linting rs
    exact {
      numbers_eq := Entry.numbers_ofDrafts 1 _
      next_eq := nextAfterRun_eq depth linting 1 rs
      id_eq := fun e he => Entry.id_eq_of_mem_ofDrafts he
      returned := entriesOfRun_sublist depth linting 1 rs
      complete := entriesOfRun_eq
      in_order := map_finding_entriesOfRun depth linting 1 rs }

/-- Three replies: an item that is no object and an id from the service; an issue that is lost with
the number it drew, for the severity of the next one cannot be read; and one more vulnerability. -/
def mixedReplies : List Response :=
  [{ result := some [.int 3, .obj [("check", .str "x")],
      .obj [("id", .str "s"), ("check", .str "y")]]
     linter := some (.list [.obj [("message", .str "m")]]) },
    { linter := some (.list [.obj [("message", .str "n")], .obj [("severity", .str "²")]]) },
    { result := some [.obj [("check", .str "z")]] }]

theorem isItemwise_and_isConsecutive_mixed :
    Entry.numbers (madeInRun Json.usualDepth true 1 mixedReplies) = [1, 2, 3, 4] ∧
    (entriesOfRun Json.usualDepth true 1 mixedReplies).map (·.finding.id) =
      ["vuln-1", "s", "lint-2", "vuln-4"] ∧
    (vulnerabilities 1 (checkVulnerabilities
        ([.obj [("check", .str "x")]] ++ [.int 3] ++ [.obj [("check", .str "z")]])).value) =
      vulnerabilities 1 (checkVulnerabilities
        ([.obj [("check", .str "x")]] ++ [.obj [("check", .str "z")]])).value ∧
    (lintFindings Json.usualDepth 5
        (.object [("results", .arr [.obj [("message", .str "m")]])])).value =
      (lintFindings Json.usualDepth 5 (.list [.obj [("message", .str "m")]])).value := by
  obtain ⟨hvulnerabilities, -, hforms, hrun⟩ := isItemwise_and_isConsecutive
  have hlen : (Entry.numbers (madeInRun Json.usualDepth true 1 mixedReplies)).length = 4 := by
    decide +kernel
  refine ⟨?_, by decide +kernel, ?_, ?_⟩
  · rw [(hrun _ true mixedReplies).numbers_eq, hlen]
    rfl
  · exact hvulnerabilities.skip 1 _ (.int 3) _ ⟨_, rfl⟩
  · exact hforms _ 5 _ _ (.results rfl)

end Normalization

end ContractAudit
