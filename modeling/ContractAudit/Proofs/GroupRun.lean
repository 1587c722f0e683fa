import ContractAudit.Analysis.Completion

/-!
# A run over groups, one group after the other

A call is a program that stops at each request and goes on with the reply.  Seen from outside, a
run over groups is a loop: `groupStep` is its body, `Course` what it carries along, and
`runGroups` the loop itself, which a fault that is not expected leaves at once.

    the end of `nextGroup` on some groups = the end of `runGroups` on them
                                                            (value_complete_nextGroup)
-/

namespace ContractAudit

/-- What a run over groups carries from one group to the next. -/
structure Course (σ : Type) where
  tally : Tally
  next : Nat
  found : Findings
  service : σ

namespace Workspace

variable {σ : Type} (ws : Workspace) (answer : Service σ)

/-- What becomes of a run when a request of its is sent. -/
def submitGroup (c : Course σ) (r : Request) : Except (Ending σ) (Course σ) :=
  let (reply, service) := answer c.service r
  match (ws.response r reply).value with
  | .error f =>
    if f.isExpected then .ok { c with tally := c.tally.fail, service := service }
    else .error ⟨.error (.submission f), c.tally, service⟩
  | .ok response =>
    let numbered := (ws.findings c.next response).value
    match numbered.outcome with
    | .error f => .error ⟨.error (.normalization f), c.tally.submit r.bundle, service⟩
    | .ok found => .ok ⟨c.tally.submit r.bundle, numbered.next, c.found ++ found, service⟩

/-- What becomes of a run at one group: its end, or where it stands afterwards. -/
def groupStep (c : Course σ) (group : List Text) : Except (Ending σ) (Course σ) :=
  match (ws.bundle group).value with
  | .error f => .error ⟨.error (.read f), c.tally, c.service⟩
  | .ok [] => .ok { c with tally := c.tally.skip }
  | .ok b =>
    match (ws.request b).value with
    | .error f => .error ⟨.error (.submission f), c.tally, c.service⟩
    | .ok r => ws.submitGroup answer c r

/-- A run over some groups. -/
def runGroups : List (List Text) → Course σ → Except (Ending σ) (Course σ)
  | [], c => .ok c
  | group :: rest, c =>
    match ws.groupStep answer c group with
    | .error e => .error e
    | .ok c => runGroups rest c

/-- The end of a run of `count` groups. -/
def endOfRun (count : Nat) : Except (Ending σ) (Course σ) → Ending σ
  | .error e => e
  | .ok c =>
    ⟨if c.tally.succeeded then .ok c.found else .error (.allFailed count), c.tally, c.service⟩

/-! ## One reply after the other -/

theorem completeWithin_eq (fuel fuel' : Nat) (service : σ) (s : Stage) (h : s.work ≤ fuel)
    (h' : s.work ≤ fuel') :
    ws.completeWithin answer fuel service s h = ws.completeWithin answer fuel' service s h' := by
  induction fuel generalizing fuel' service s with
  | zero =>
    obtain ⟨tally, p | outcome⟩ := s
    · exact absurd h (Nat.not_le_of_gt p.plan.work_pos)
    · simp only [completeWithin]
  | succ fuel ih =>
    obtain ⟨tally, p | outcome⟩ := s
    · cases fuel' with
      | zero => exact absurd h' (Nat.not_le_of_gt p.plan.work_pos)
      | succ fuel' =>
        simp only [completeWithin]
        rw [ih]
    · simp only [completeWithin]

@[simp] theorem value_complete_done (service : σ) (tally : Tally)
    (outcome : Except AnalysisFault Findings) :
    (ws.complete answer service (.done tally outcome)).value = ⟨outcome, tally, service⟩ := by
  unfold complete Stage.done
  simp only [completeWithin]
  rfl

/-- A call that waits goes on with the reply. -/
theorem value_complete_waiting (service : σ) (tally : Tally) (p : Pending) :
    (ws.complete answer service ⟨tally, .waiting p⟩).value =
      (ws.complete answer (answer service p.request).2
        (ws.resume tally p (answer service p.request).1).value).value := by
  unfold complete
  rw [completeWithin_eq ws answer _ (p.plan.work - 1 + 1) service ⟨tally, .waiting p⟩
    (Nat.le_refl _) (by have := p.plan.work_pos; simp; omega)]
  simp only [completeWithin]
  rw [completeWithin_eq]

/-! ## One group after the other -/

variable {ws} in
theorem bundle_of_request {b : Bundle} {r : Request} (h : (ws.request b).value = .ok r) :
    r.bundle = b := by
  unfold Workspace.request Submission.request at h
  rw [Logged.value_bind] at h
  split at h
  · cases h
  · split at h
    · obtain rfl := Except.ok.inj h
      rfl
    · cases h

/-- The call at a request is where the loop sends it. -/
theorem value_complete_request (count index : Nat) (rest : List (List Text)) (c : Course σ)
    (r : Request) (hrest : ∀ index (c : Course σ),
      (ws.complete answer c.service
        (ws.nextGroup count c.next c.found index rest c.tally).value).value =
      endOfRun count (ws.runGroups answer rest c)) :
    (ws.complete answer c.service
      ⟨c.tally, .waiting ⟨r, .groups ⟨count, index, rest, c.next, c.found⟩⟩⟩).value =
    endOfRun count (match ws.submitGroup answer c r with
      | .error e => .error e
      | .ok c => ws.runGroups answer rest c) := by
  rw [value_complete_waiting]
  unfold submitGroup resume
  simp only [Logged.value_bind]
  cases hr : (ws.response r (answer c.service r).1).value with
  | error f =>
    simp only [afterFault]
    cases f.isExpected with
    | true => exact hrest _ ⟨c.tally.fail, c.next, c.found, _⟩
    | false => exact value_complete_done ..
  | ok response =>
    simp only [Logged.value_bind, Plan.next]
    cases hn : (ws.findings c.next response).value.outcome with
    | error f => exact value_complete_done ..
    | ok found =>
      simp only [Logged.value_bind, afterFindings]
      exact hrest _ ⟨_, _, c.found ++ found, _⟩

/-- **The call over some groups is the loop over them.** -/
theorem value_complete_nextGroup (count index : Nat) (groups : List (List Text)) (c : Course σ) :
    (ws.complete answer c.service
      (ws.nextGroup count c.next c.found index groups c.tally).value).value =
    endOfRun count (ws.runGroups answer groups c) := by
  induction groups generalizing index c with
  | nil => exact value_complete_done ..
  | cons group rest ih =>
    unfold nextGroup runGroups groupStep
    simp only [Logged.value_bind]
    cases hb : (ws.bundle group).value with
    | error f => exact value_complete_done ..
    | ok b =>
      cases b with
      | nil => exact ih _ ⟨c.tally.skip, c.next, c.found, c.service⟩
      | cons file files =>
        simp only [Logged.value_bind]
        cases hr : (ws.request (file :: files)).value with
        | error f => exact value_complete_done ..
        | ok r => exact value_complete_request ws answer count index rest c r ih

/-- **A run over the whole project is the loop over its groups.** -/
theorem value_complete_beginAll (service : σ) (tally : Tally) :
    (ws.complete answer service (ws.beginAll tally).value).value =
      if ws.tree.isDirectory ws.root then
        match ws.groups.value with
        | .error f => ⟨.error f, {}, service⟩
        | .ok groups =>
          endOfRun groups.length (ws.runGroups answer groups ⟨{}, 1, {}, service⟩)
      else ⟨.error .noWorkspace, tally, service⟩ := by
  unfold beginAll isOpen
  cases ws.tree.isDirectory ws.root with
  | false => exact value_complete_done ..
  | true =>
    simp only [Logged.value_bind, if_true, Logged.value_pure, Bool.not_true, Bool.false_eq_true,
      if_false]
    cases ws.groups.value with
    | error f => exact value_complete_done ..
    | ok groups => exact value_complete_nextGroup ws answer _ _ groups ⟨{}, 1, {}, service⟩

/-! ## What a group does -/

section
variable {ws answer} {c c' : Course σ} {e : Ending σ}

theorem submitGroup_eq_ok {r : Request} (h : ws.submitGroup answer c r = .ok c') :
    (∃ f, (ws.response r (answer c.service r).1).value = .error f ∧
      f.isExpected = true ∧
      c' = { c with tally := c.tally.fail, service := (answer c.service r).2 }) ∨
    ∃ response found, (ws.response r (answer c.service r).1).value = .ok response ∧
      (ws.findings c.next response).value.outcome = .ok found ∧
      c' = ⟨c.tally.submit r.bundle,
        (ws.findings c.next response).value.next,
        c.found ++ found, (answer c.service r).2⟩ := by
  unfold submitGroup at h
  simp only [] at h
  split at h
  · next f hr =>
    split at h
    · next hf => exact Or.inl ⟨f, hr, hf, (Except.ok.inj h).symm⟩
    · cases h
  · next response hr =>
    split at h
    · cases h
    · next found hn => exact Or.inr ⟨response, found, hr, hn, (Except.ok.inj h).symm⟩

theorem submitGroup_eq_error {r : Request} (h : ws.submitGroup answer c r = .error e) :
    e.service = (answer c.service r).2 ∧
    ((∃ f, (ws.response r (answer c.service r).1).value = .error f ∧
      f.isExpected = false ∧ e.outcome = .error (.submission f)) ∨
    ∃ response f, (ws.response r (answer c.service r).1).value = .ok response ∧
      (ws.findings c.next response).value.outcome = .error f ∧
      e.outcome = .error (.normalization f)) := by
  unfold submitGroup at h
  simp only [] at h
  split at h
  · next f hr =>
    split at h
    · cases h
    · next hf =>
      obtain rfl := Except.error.inj h
      exact ⟨rfl, Or.inl ⟨f, hr, by simpa using hf, rfl⟩⟩
  · next response hr =>
    split at h
    · next f hn =>
      obtain rfl := Except.error.inj h
      exact ⟨rfl, Or.inr ⟨response, f, hr, hn, rfl⟩⟩
    · cases h

theorem groupStep_eq_ok {group : List Text} (h : ws.groupStep answer c group = .ok c') :
    ((ws.bundle group).value = .ok [] ∧ c' = { c with tally := c.tally.skip }) ∨
    ∃ r, (ws.bundle group).value = .ok r.bundle ∧ r.bundle ≠ [] ∧
      (ws.request r.bundle).value = .ok r ∧
      ws.submitGroup answer c r = .ok c' := by
  unfold groupStep at h
  split at h
  · cases h
  · next hb => exact Or.inl ⟨hb, (Except.ok.inj h).symm⟩
  · next b hne hb =>
    split at h
    · cases h
    · next r hr =>
      obtain rfl := bundle_of_request hr
      exact Or.inr ⟨r, hb, hne, hr, h⟩

theorem groupStep_eq_error {group : List Text} (h : ws.groupStep answer c group = .error e) :
    (∃ f, (ws.bundle group).value = .error f ∧ e.outcome = .error (.read f)) ∨
    (∃ b f, (ws.bundle group).value = .ok b ∧ b ≠ [] ∧
      (ws.request b).value = .error f ∧ e.outcome = .error (.submission f)) ∨
    ∃ r, (ws.bundle group).value = .ok r.bundle ∧
      (ws.request r.bundle).value = .ok r ∧
      ws.submitGroup answer c r = .error e := by
  unfold groupStep at h
  split at h
  · next f hb => exact Or.inl ⟨f, hb, by rw [← Except.error.inj h]⟩
  · cases h
  · next b hne hb =>
    split at h
    · next f hr => exact Or.inr (Or.inl ⟨b, f, hb, hne, hr, by rw [← Except.error.inj h]⟩)
    · next r hr =>
      obtain rfl := bundle_of_request hr
      exact Or.inr (Or.inr ⟨r, hb, hr, h⟩)

end

end Workspace

end ContractAudit
