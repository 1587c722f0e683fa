import ContractAudit.Proofs.Batching
import ContractAudit.Proofs.ImportClosure

/-!
# Which replies a run survives

A run over an open project with source files has findings if a reply was accepted, and fails as a
whole if none was, as long as no reply escapes and requests can be sent.  These
conditions are exact, for the whole project as for one file with its imports.

    ws.EndsWell ↔ no reply escapes, and requests can be sent or there is nothing to send
                                                            (contained_iff)
-/

namespace ContractAudit.Workspace

/-- The run has findings if some reply was accepted, and has failed in all groups if none was. -/
def EndsWell (ws : Workspace) (outcome : Except AnalysisFault Findings) (xs : List Exchange) :
    Prop :=
  ((∃ found, outcome = .ok found) ∧ ∃ x ∈ xs, ws.Accepts x) ∨
    ((∃ count, outcome = .error (.allFailed count)) ∧ ∀ x ∈ xs, ¬ ws.Accepts x)

theorem EndsWell.wentThrough {ws : Workspace} {outcome : Except AnalysisFault Findings}
    {xs : List Exchange} (h : ws.EndsWell outcome xs) : WentThrough outcome :=
  h.imp And.left And.left

/-- The call has findings, or its submission has failed in an expected way. -/
def EndsExpected (outcome : Except AnalysisFault Findings) : Prop :=
  (∃ found, outcome = .ok found) ∨ ∃ f, outcome = .error (.submission f) ∧ f.isExpected = true

@[simp] theorem endsExpected_ok (found : Findings) : EndsExpected (.ok found) :=
  Or.inl ⟨found, rfl⟩

@[simp] theorem endsExpected_submission (f : SubmissionFault) :
    EndsExpected (.error (.submission f)) ↔ f.isExpected = true := by
  constructor
  · rintro (⟨found, h⟩ | ⟨g, h, hg⟩)
    · cases h
    · obtain rfl : f = g := by simpa using h
      exact hg
  · exact fun h => Or.inr ⟨f, rfl, h⟩

@[simp] theorem not_endsExpected_normalization (f : NormalizationFault) :
    ¬ EndsExpected (.error (.normalization f)) := by
  rintro (⟨found, h⟩ | ⟨g, h, -⟩) <;> cases h

variable {σ : Type} {ws : Workspace} {answer : Service σ} {service : σ} {tally : Tally}

/-! ## The whole project -/

/-- What a run ends with is what its exchanges say. -/
theorem endsWell_of_passage {groups : List (List Text)} {c : Course (σ × List Exchange)}
    {xs : List Exchange} (h : ws.Passage groups ⟨{}, 1, {}, (service, [])⟩ c xs) (count : Nat) :
    ws.EndsWell (endOfRun count (.ok c)).outcome xs := by
  have hs : c.tally.succeeded = true ↔ ∃ x ∈ xs, ws.Accepts x := by
    rw [h.succeeded]
    exact or_iff_right Bool.false_ne_true
  simp only [endOfRun]
  cases hc : c.tally.succeeded with
  | true => exact Or.inl ⟨⟨c.found, rfl⟩, hs.1 hc⟩
  | false =>
    refine Or.inr ⟨⟨count, rfl⟩, fun x hx ha => ?_⟩
    rw [hs.2 ⟨x, hx, ha⟩] at hc
    cases hc

section
variable {files : List Text} (hws : ws.WellFormed) (hopen : ws.tree.isDirectory ws.root = true)
  (hs : ws.FaultsExpected)
  (hscan : (Scan.run ws.rules ws.tree ws.root).value = .ok files) (hne : files ≠ [])
include hws hopen hs hscan hne

/-- A run that has not gone through all groups has met a reply that escapes, or had something to
send and no address. -/
theorem endsWell_or_halt :
    ws.EndsWell (ws.complete answer service (ws.beginAll tally).value).value.outcome
      (ws.exchanges answer service (ws.beginAll tally).value) ∨
    (∃ x ∈ ws.exchanges answer service (ws.beginAll tally).value, ws.Escapes x) ∨
    ¬ ws.CanSend ∧ ∃ p ∈ files, ws.later.Reads p := by
  obtain ⟨groups, hgroups⟩ := exists_groups hs.source hscan hne
  obtain ⟨found, g, hfound, -, hbuild, hpart⟩ := groups_eq_ok hgroups
  obtain rfl := Except.ok.inj (hscan.symm.trans hfound)
  have hfile : ∀ {group}, group ∈ groups → ∀ p ∈ group, p ∈ files :=
    fun hg p hp => mem_files_of_mem_group hbuild hpart hg hp
  rcases run_spec tally hopen hgroups with ⟨c, hpass, ho⟩ | ⟨f, hhalt, -, -⟩
  · rw [ho]
    exact Or.inl (endsWell_of_passage hpass groups.length)
  · cases hhalt with
    | read hg hb =>
      obtain ⟨b, hb'⟩ := exists_bundle hs.later fun p hp =>
        ne_nil_of_mem_files hws hscan (hfile hg p hp)
      cases hb.symm.trans hb'
    | request hg hb hnil hr =>
      refine Or.inr (Or.inr ⟨fun hu => ?_, ?_⟩)
      · obtain ⟨r, hr'⟩ := (request_eq_ok_iff _ _).2 hu
        cases hr.symm.trans hr'
      · obtain ⟨⟨n, t⟩, rest, rfl⟩ := List.exists_cons_of_ne_nil hnil
        obtain ⟨p, hp, hload⟩ := (bundle_spec hb).2.2 n t List.mem_cons_self
        exact ⟨p, hfile hg p hp, t, (SourceFile.load_eq_ok_iff.1 hload).2.2⟩
    | reply hx he => exact Or.inr (Or.inl ⟨_, hx, he⟩)

theorem endsWell_iff :
    ws.EndsWell (ws.complete answer service (ws.beginAll tally).value).value.outcome
      (ws.exchanges answer service (ws.beginAll tally).value) ↔
    (∀ x ∈ ws.exchanges answer service (ws.beginAll tally).value, ¬ ws.Escapes x) ∧
    (ws.CanSend ∨ ∀ p ∈ files, ¬ ws.later.Reads p) := by
  constructor
  · intro h
    obtain ⟨groups, c, hgroups, hpass⟩ := exists_passage h.wentThrough
    refine ⟨hpass.contained, ?_⟩
    by_cases hreads : ∃ p ∈ files, ws.later.Reads p
    · -- a file that can be read has been sent, and so requests can be sent
      obtain ⟨p, hp, t, hread⟩ := hreads
      obtain ⟨found, g, hfound, -, hbuild, hpart⟩ := groups_eq_ok hgroups
      obtain rfl := Except.ok.inj (hscan.symm.trans hfound)
      obtain ⟨name, hname, -⟩ := exists_load (ne_nil_of_mem_files hws hscan hp) hread
      obtain ⟨i, -, -⟩ := exists_sent_of_read hws hscan hbuild hpart hpass.requests hpass.bundled
        hp hread hname
      obtain ⟨x, hx, -⟩ := List.mem_map.1 (List.getElem_mem i.2)
      exact Or.inl ((request_eq_ok_iff _ _).1 ⟨x.1, hpass.requested x hx⟩)
    · exact Or.inr fun p hp hr => hreads ⟨p, hp, hr⟩
  · rintro ⟨hcontained, hendpoint⟩
    rcases endsWell_or_halt hws hopen hs hscan hne with h | ⟨x, hx, he⟩ | ⟨hu, p, hp, hr⟩
    · exact h
    · exact absurd he (hcontained x hx)
    · exact absurd hr ((hendpoint.resolve_left hu) p hp)

end

/-! ## One file -/

section
variable {file : Option Text} {named t : Text} (hws : ws.WellFormed)
  (hopen : ws.tree.isDirectory ws.root = true) (hs : ws.FaultsExpected)
  (hnamed : ws.activePath? file = some named) (hsource : ws.rules.isSource named = true)
  (hread : ws.source.read (Path.absolute ws.cwd named) = .ok t)
include hws hopen hs hnamed hsource hread

/-- A file that can be read has a closure, of which a request is made. -/
theorem value_beginCurrent (tally : Tally) :
    ∃ b, (ws.beginCurrent tally file).value =
      match (ws.request b).value with
      | .error f => .done {} (.error (.submission f))
      | .ok r => ⟨{}, .waiting ⟨r, .last⟩⟩ := by
  have hcanonical : Path.IsCanonical (Path.absolute ws.cwd named) :=
    Path.isCanonical_absolute hws.cwd named
  obtain ⟨name, -, hload⟩ := exists_load (Path.ne_nil_of_isCanonical hcanonical) hread
  obtain ⟨s, hclosure, -, -⟩ := ImportClosure.exists_ofSeed ws.rules hws.cwd
    (isCanonical_root hws).1 hs.source hcanonical hload
  unfold beginCurrent isOpen load
  simp only [hnamed, hopen, if_true, Logged.value_bind, Logged.value_pure, Bool.not_true,
    Bool.false_eq_true, if_false, hsource, hload, sendClosure]
  unfold closure
  rw [hclosure]
  simp only [Logged.value_bind]
  refine ⟨Bundle.ofFiles s.files.reverse, ?_⟩
  cases (ws.request (Bundle.ofFiles s.files.reverse)).value <;> rfl

theorem endsExpected_iff :
    EndsExpected (ws.complete answer service (ws.beginCurrent tally file).value).value.outcome ↔
    (∀ x ∈ ws.exchanges answer service (ws.beginCurrent tally file).value, ¬ ws.Escapes x) ∧
      ws.CanSend := by
  obtain ⟨b, hbegin⟩ := value_beginCurrent hws hopen hs hnamed hsource hread tally
  rw [hbegin]
  cases hr : (ws.request b).value with
  | error f =>
    have hunusable : ¬ ws.CanSend := by
      intro hu
      obtain ⟨r, hr'⟩ := (request_eq_ok_iff _ b).2 hu
      cases hr.symm.trans hr'
    simp only [value_complete_done, hunusable, and_false, iff_false, endsExpected_submission]
    rw [Submission.isExpected_of_request hr]
    exact Bool.false_ne_true
  | ok r =>
    have husable : ws.CanSend := (request_eq_ok_iff _ b).1 ⟨r, hr⟩
    have hxs : ws.exchanges answer service ⟨{}, .waiting ⟨r, .last⟩⟩ =
        [(r, (answer service r).1)] := by
      unfold exchanges
      rw [(value_complete_last ..).1]
      rfl
    simp only [husable, and_true, hxs, List.forall_mem_singleton, (value_complete_last ..).2]
    cases hf : (ws.response r (answer service r).1).value with
    | error f => rw [← isExpected_iff hf, endsExpected_submission]
    | ok response =>
      rw [← isOk_findings_iff 1 hf]
      simp only []
      cases (ws.findings 1 response).value.outcome with
      | error f => simp [Except.mapError]
      | ok found => simp [Except.mapError]

end

/-! ## Top theorem -/

/-- **The replies that a call survives.**  A run over the project ends well, and a call for one
file as expected, if and only if no reply escapes and what there is to send can be sent. -/
theorem contained_iff {σ : Type} (ws : Workspace) (hws : ws.WellFormed)
    (hopen : ws.tree.isDirectory ws.root = true) (hs : ws.FaultsExpected)
    (answer : Service σ) (service : σ) (tally : Tally) :
    (∀ files, (Scan.run ws.rules ws.tree ws.root).value = .ok files → files ≠ [] →
      (ws.EndsWell (ws.complete answer service (ws.beginAll tally).value).value.outcome
          (ws.exchanges answer service (ws.beginAll tally).value) ↔
        (∀ x ∈ ws.exchanges answer service (ws.beginAll tally).value, ¬ ws.Escapes x) ∧
        (ws.CanSend ∨ ∀ p ∈ files, ¬ ws.later.Reads p))) ∧
    ∀ file named, ws.activePath? file = some named → ws.rules.isSource named = true →
      ws.source.Reads (Path.absolute ws.cwd named) →
      (EndsExpected (ws.complete answer service (ws.beginCurrent tally file).value).value.outcome ↔
        (∀ x ∈ ws.exchanges answer service (ws.beginCurrent tally file).value, ¬ ws.Escapes x) ∧
          ws.CanSend) := by
  refine ⟨fun files hscan hne => endsWell_iff hws hopen hs hscan hne, ?_⟩
  rintro file named hnamed hsource ⟨t, hread⟩
  exact endsExpected_iff hws hopen hs hnamed hsource hread

/-- Of three groups one cannot be sent, one has an answer that is no JSON, and one has no
findings. -/
theorem contained_iff_broken :
    let tree : FileTree := .directory [("ws", .directory
      [("A.sol", .file []), ("B.sol", .file []), ("C.sol", .file [])])]
    let source : TextSource := .ofTexts
      [("/ws/A.sol", "contract A {}"), ("/ws/B.sol", "contract B {}"),
        ("/ws/C.sol", "contract C {}")]
      (.system .missing)
    let ws : Workspace := { cwd := "/", settings := .ofWorkspace "ws", tree, source }
    let answer : Service Nat := fun n _ =>
      (if n = 0 then .broken "timed out" else .answer 200 (if n = 1 then [91] else [123, 125]),
        n + 1)
    ws.WellFormed ∧ ws.tree.isDirectory ws.root = true ∧ ws.FaultsExpected ∧
      ws.EndsWell (ws.complete answer 0 (ws.beginAll {}).value).value.outcome
        (ws.exchanges answer 0 (ws.beginAll {}).value) ∧
      (∀ x ∈ ws.exchanges answer 0 (ws.beginAll {}).value, ¬ ws.Escapes x) ∧
      EndsExpected
        (ws.complete answer 1 (ws.beginCurrent {} (some "ws/B.sol")).value).value.outcome ∧
      ∀ x ∈ ws.exchanges answer 1 (ws.beginCurrent {} (some "ws/B.sol")).value,
        ¬ ws.Escapes x := by
  intro tree source ws answer
  have hws : ws.WellFormed := by decide +kernel
  have hopen : ws.tree.isDirectory ws.root = true := by decide +kernel
  have hsource : ws.source.FaultsExpected := TextSource.faultsExpected_ofTexts fun _ => rfl
  have hs : ws.FaultsExpected := ⟨hsource, hsource⟩
  have hscan : (Scan.run ws.rules ws.tree ws.root).value =
      .ok ["/ws/A.sol", "/ws/B.sol", "/ws/C.sol"] := by decide +kernel
  have hwell : ws.EndsWell (ws.complete answer 0 (ws.beginAll {}).value).value.outcome
      (ws.exchanges answer 0 (ws.beginAll {}).value) :=
    Or.inl ⟨⟨{}, by decide +kernel⟩, by decide +kernel⟩
  have hexpected : EndsExpected
      (ws.complete answer 1 (ws.beginCurrent {} (some "ws/B.sol")).value).value.outcome :=
    Or.inr ⟨.json ['['] (.malformed .value 0), by decide +kernel, rfl⟩
  have hnamed : ws.activePath? (some "ws/B.sol") = some "ws/B.sol".toList := by decide +kernel
  have hread : ws.source.read (Path.absolute ws.cwd "ws/B.sol".toList) =
      .ok "contract B {}".toList := by decide +kernel
  obtain ⟨hall, -⟩ := contained_iff ws hws hopen hs answer 0 {}
  obtain ⟨-, hone⟩ := contained_iff ws hws hopen hs answer 1 {}
  exact ⟨hws, hopen, hs, hwell, ((hall _ hscan (List.cons_ne_nil _ _)).1 hwell).1, hexpected,
    ((hone _ _ hnamed (by decide +kernel) ⟨_, hread⟩).1 hexpected).1⟩

/-- A reply that is nested too deep takes away the findings of the group before it. -/
theorem nested_reply_discards_findings :
    let tree : FileTree := .directory [("ws", .directory
      [("A.sol", .file []), ("B.sol", .file [])])]
    let source : TextSource := .ofTexts
      [("/ws/A.sol", "contract A {}"), ("/ws/B.sol", "contract B {}")]
      (.system .missing)
    let ws : Workspace := { cwd := "/", settings := .ofWorkspace "ws", tree, source }
    let answer : Service Nat := fun n _ =>
      (.answer 200 (if n = 0 then [123, 125] else List.replicate 1000 91), n + 1)
    let xs := ws.exchanges answer 0 (ws.beginAll {}).value
    ws.WellFormed ∧ ws.tree.isDirectory ws.root = true ∧ ws.FaultsExpected ∧
      (Scan.run ws.rules ws.tree ws.root).value = .ok ["/ws/A.sol", "/ws/B.sol"] ∧
      (∃ x ∈ xs, ws.Accepts x) ∧
      ¬ ws.EndsWell (ws.complete answer 0 (ws.beginAll {}).value).value.outcome xs := by
  intro tree source ws answer xs
  have hsource : ws.source.FaultsExpected := TextSource.faultsExpected_ofTexts fun _ => rfl
  refine ⟨by decide +kernel, by decide +kernel, ⟨hsource, hsource⟩, by decide +kernel,
    by decide +kernel, fun h => ?_⟩
  have hout : (ws.complete answer 0 (ws.beginAll {}).value).value.outcome =
      .error (.submission (.json (List.replicate 1000 '[') (.tooDeep false))) := by decide +kernel
  rw [hout] at h
  rcases h with ⟨⟨found, h⟩, -⟩ | ⟨⟨count, h⟩, -⟩ <;> cases h

end ContractAudit.Workspace
