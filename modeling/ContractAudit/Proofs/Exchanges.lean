import ContractAudit.Proofs.GroupRun
import ContractAudit.Proofs.Submission
import ContractAudit.Proofs.Workspace

/-!
# What a run sends and receives

`Service.recording` keeps, beside the state of a service, each request with its reply, and does
not change the course of a run.  What it has kept at the end are the `exchanges` of a call.  Each
group adds at most one of them: `Passage` says what has become of the groups that a run has gone
through, and `Halt` why it has not gone on.

    ws.runGroups answer.recording groups c = .ok c' → Passage of all groups
                                                            (passage_runGroups)
    ws.runGroups answer.recording groups c = .error e → Halt at one of them
                                                            (halt_runGroups)
-/

namespace ContractAudit

open Record (Response)

/-- The service that keeps, beside its state, what it was sent and what it answered. -/
def Service.recording {σ : Type} (answer : Service σ) : Service (σ × List Exchange) :=
  fun s r => ((answer s.1 r).1, (answer s.1 r).2, s.2 ++ [(r, (answer s.1 r).1)])

namespace Workspace

variable {σ : Type} (ws : Workspace) (answer : Service σ)

/-- What a call sends and receives, in this order. -/
def exchanges (service : σ) (s : Stage) : List Exchange :=
  (ws.complete answer.recording (service, []) s).value.service.2

/-- The reply has a response. -/
abbrev Accepts (x : Exchange) : Prop := x.Accepted ws.depths.body

/-- The reply ends the whole run. -/
abbrev Escapes (x : Exchange) : Prop := x.Escapes ws.settings.linting ws.depths

/-- There is an address to send to, and a key that fits into a header. -/
abbrev CanSend : Prop := ws.endpoint.IsUsable ws.libraries.address

theorem request_eq_ok_iff (b : Bundle) :
    (∃ r, (ws.request b).value = .ok r) ↔ ws.CanSend :=
  Submission.request_eq_ok_iff ..

theorem accepts_iff (x : Exchange) :
    ws.Accepts x ↔ ∃ response, (ws.response x.1 x.2).value = .ok response :=
  Submission.accepted_iff ..

variable {ws} in
/-- A reply without a response costs a run one group, unless it escapes. -/
theorem isExpected_iff {x : Exchange} {f : SubmissionFault}
    (h : (ws.response x.1 x.2).value = .error f) : f.isExpected = true ↔ ¬ ws.Escapes x :=
  Exchange.isExpected_iff h

variable {ws} in
/-- A response gives findings, unless the reply escapes. -/
theorem isOk_findings_iff {x : Exchange} {response : Response} (next : Nat)
    (h : (ws.response x.1 x.2).value = .ok response) :
    (ws.findings next response).value.outcome.isOk = true ↔ ¬ ws.Escapes x :=
  Exchange.isOk_iff next h

/-! ## Recording changes nothing -/

theorem completeWithin_recording (fuel : Nat) (service : σ) (seen : List Exchange) (s : Stage)
    (h : s.work ≤ fuel) :
    (ws.completeWithin answer.recording fuel (service, seen) s h).value.outcome =
      (ws.completeWithin answer fuel service s h).value.outcome ∧
    (ws.completeWithin answer.recording fuel (service, seen) s h).value.tally =
      (ws.completeWithin answer fuel service s h).value.tally := by
  induction fuel generalizing service seen s with
  | zero =>
    obtain ⟨tally, p | outcome⟩ := s
    · exact absurd h (Nat.not_le_of_gt p.plan.work_pos)
    · simp only [completeWithin]
      exact ⟨rfl, rfl⟩
  | succ fuel ih =>
    obtain ⟨tally, p | outcome⟩ := s
    · simp only [completeWithin]
      exact ih _ (seen ++ [(p.request, (answer service p.request).1)]) _ _
    · simp only [completeWithin]
      exact ⟨rfl, rfl⟩

/-- The outcome of a call is the same with the service that keeps its exchanges. -/
theorem outcome_recording (service : σ) (s : Stage) :
    (ws.complete answer.recording (service, []) s).value.outcome =
      (ws.complete answer service s).value.outcome :=
  (completeWithin_recording ws answer s.work service [] s (Nat.le_refl _)).1

/-- So is the tally. -/
theorem tally_recording (service : σ) (s : Stage) :
    (ws.complete answer.recording (service, []) s).value.tally =
      (ws.complete answer service s).value.tally :=
  (completeWithin_recording ws answer s.work service [] s (Nat.le_refl _)).2

/-! ## From group to group -/

/-- What is sent of a group. -/
def sentOf? (group : List Text) : Option Bundle :=
  match (ws.bundle group).value with
  | .ok (file :: files) => some (file :: files)
  | _ => none

variable {ws answer}

theorem sentOf?_eq_some {group : List Text} {b : Bundle} :
    ws.sentOf? group = some b ↔ (ws.bundle group).value = .ok b ∧ b ≠ [] := by
  unfold sentOf?
  split
  · next file files h =>
    rw [h, Option.some.injEq, Except.ok.injEq]
    exact ⟨fun e => ⟨e, e ▸ List.cons_ne_nil file files⟩, fun e => e.1⟩
  · next h =>
    constructor
    · intro e
      cases e
    · rintro ⟨hb, hne⟩
      obtain ⟨file, files, rfl⟩ := List.exists_cons_of_ne_nil hne
      exact absurd hb (h file files)

variable (ws) in
/-- A run has gone from `c` to `c'` through some groups, with these exchanges: it has sent what is
to be sent of each group, some reply was accepted if the tally says so, and none has escaped. -/
structure Passage (groups : List (List Text)) (c c' : Course (σ × List Exchange))
    (xs : List Exchange) : Prop where
  service : c'.service.2 = c.service.2 ++ xs
  sent : xs.map (·.1.bundle) = groups.filterMap ws.sentOf?
  bundled : ∀ group ∈ groups, ∃ b, (ws.bundle group).value = .ok b
  requested : ∀ x ∈ xs, (ws.request x.1.bundle).value = .ok x.1
  succeeded : c'.tally.succeeded = true ↔ c.tally.succeeded = true ∨ ∃ x ∈ xs, ws.Accepts x
  contained : ∀ x ∈ xs, ¬ ws.Escapes x

theorem Passage.nil (c : Course (σ × List Exchange)) : ws.Passage [] c c [] where
  service := (List.append_nil _).symm
  sent := rfl
  bundled := by simp
  requested := by simp
  succeeded := by simp
  contained := by simp

theorem Passage.append {groups more : List (List Text)} {c c' c'' : Course (σ × List Exchange)}
    {xs ys : List Exchange} (h : ws.Passage groups c c' xs) (h' : ws.Passage more c' c'' ys) :
    ws.Passage (groups ++ more) c c'' (xs ++ ys) where
  service := by rw [h'.service, h.service, List.append_assoc]
  sent := by rw [List.map_append, h.sent, h'.sent, List.filterMap_append]
  bundled group hg := (List.mem_append.1 hg).elim (h.bundled group) (h'.bundled group)
  requested x hx := (List.mem_append.1 hx).elim (h.requested x) (h'.requested x)
  succeeded := by
    rw [h'.succeeded, h.succeeded, or_assoc]
    simp only [List.mem_append, or_and_right, exists_or]
  contained x hx := (List.mem_append.1 hx).elim (h.contained x) (h'.contained x)

theorem Passage.requests {groups : List (List Text)} {c c' : Course (σ × List Exchange)}
    {xs : List Exchange} (h : ws.Passage groups c c' xs) :
    (xs.map (·.1)).map (·.bundle) = groups.filterMap ws.sentOf? := by
  rw [List.map_map]
  exact h.sent

@[simp] theorem succeeded_skip (t : Tally) : t.skip.succeeded = t.succeeded := rfl

@[simp] theorem succeeded_fail (t : Tally) : t.fail.succeeded = t.succeeded := rfl

@[simp] theorem succeeded_submit (t : Tally) (b : Bundle) : (t.submit b).succeeded = true := by
  simp [Tally.succeeded, Tally.submit]

/-- One group is one passage, with an exchange unless there is nothing to send. -/
theorem passage_groupStep {group : List Text} {c c' : Course (σ × List Exchange)}
    (h : ws.groupStep answer.recording c group = .ok c') :
    ∃ xs, ws.Passage [group] c c' xs := by
  rcases groupStep_eq_ok h with ⟨hb, rfl⟩ | ⟨r, hb, hne, hr, hsubmit⟩
  · have hsent : ws.sentOf? group = none := by
      unfold sentOf?
      rw [hb]
    exact ⟨[], (List.append_nil _).symm, by simp [hsent],
      fun g hg => ⟨[], List.mem_singleton.1 hg ▸ hb⟩, by simp, by simp, by simp⟩
  · have hsent : ws.sentOf? group = some r.bundle := sentOf?_eq_some.2 ⟨hb, hne⟩
    have hbundled : ∀ g ∈ [group], ∃ b, (ws.bundle g).value = .ok b :=
      fun g hg => ⟨r.bundle, List.mem_singleton.1 hg ▸ hb⟩
    have hreply : (answer.recording c.service r).1 = (answer c.service.1 r).1 := rfl
    refine ⟨[(r, (answer c.service.1 r).1)], ?_⟩
    rcases submitGroup_eq_ok hsubmit with ⟨f, hf, he, rfl⟩ | ⟨response, found, hf, hfound, rfl⟩
    · rw [hreply] at hf
      have hnot : ¬ ws.Accepts (r, (answer c.service.1 r).1) := by
        rw [accepts_iff]
        rintro ⟨response, ho⟩
        cases hf.symm.trans ho
      refine ⟨rfl, by simp [hsent], hbundled, by simpa using hr, by simp [hnot], ?_⟩
      intro x hx
      obtain rfl := List.mem_singleton.1 hx
      exact (isExpected_iff hf).1 he
    · rw [hreply] at hf
      have hacc : ws.Accepts (r, (answer c.service.1 r).1) :=
        (accepts_iff _ _).2 ⟨response, hf⟩
      refine ⟨rfl, by simp [hsent], hbundled, by simpa using hr, by simp [hacc], ?_⟩
      intro x hx
      obtain rfl := List.mem_singleton.1 hx
      exact (isOk_findings_iff c.next hf).1 (isOk_iff.2 ⟨found, hfound⟩)

/-- **A run through all its groups.** -/
theorem passage_runGroups {groups : List (List Text)} {c c' : Course (σ × List Exchange)}
    (h : ws.runGroups answer.recording groups c = .ok c') :
    ∃ xs, ws.Passage groups c c' xs := by
  induction groups generalizing c with
  | nil =>
    obtain rfl := Except.ok.inj h
    exact ⟨[], .nil c⟩
  | cons group rest ih =>
    unfold runGroups at h
    split at h
    · cases h
    · next c₁ hstep =>
      obtain ⟨xs, hxs⟩ := passage_groupStep hstep
      obtain ⟨ys, hys⟩ := ih h
      exact ⟨xs ++ ys, hxs.append hys⟩

variable (ws) in
/-- Why a run has come to an end before its last group: a file of a group cannot be read, a
request cannot be made, or a reply has escaped. -/
inductive Halt (groups : List (List Text)) (xs : List Exchange) : Prop
  | read {group : List Text} {f : ReadFault} (hg : group ∈ groups)
      (hb : (ws.bundle group).value = .error f)
  | request {group : List Text} {b : Bundle} {f : SubmissionFault} (hg : group ∈ groups)
      (hb : (ws.bundle group).value = .ok b) (hne : b ≠ [])
      (hr : (ws.request b).value = .error f)
  | reply {x : Exchange} (hx : x ∈ xs) (he : ws.Escapes x)

theorem halt_groupStep {group : List Text} {c : Course (σ × List Exchange)}
    {e : Ending (σ × List Exchange)} (h : ws.groupStep answer.recording c group = .error e) :
    ws.Halt [group] e.service.2 ∧ ∃ f, e.outcome = .error f ∧ f.isReported = false := by
  have hg : group ∈ [group] := List.mem_singleton.2 rfl
  rcases groupStep_eq_error h with ⟨f, hb, ho⟩ | ⟨b, f, hb, hne, hr, ho⟩ | ⟨r, hb, hr, hsubmit⟩
  · exact ⟨.read hg hb, _, ho, rfl⟩
  · exact ⟨.request hg hb hne hr, _, ho, Submission.isExpected_of_request hr⟩
  · obtain ⟨hservice, hfault⟩ := submitGroup_eq_error hsubmit
    have hx : (r, (answer c.service.1 r).1) ∈ e.service.2 := by
      rw [hservice]
      exact List.mem_append_right _ (List.mem_singleton.2 rfl)
    rcases hfault with ⟨f, hf, he, ho⟩ | ⟨response, f, hf, hn, ho⟩
    · refine ⟨.reply hx ?_, _, ho, he⟩
      rw [← not_not (a := ws.Escapes _), ← isExpected_iff hf, he]
      exact Bool.false_ne_true
    · refine ⟨.reply hx ?_, _, ho, rfl⟩
      rw [← not_not (a := ws.Escapes _), ← isOk_findings_iff c.next hf, hn]
      exact Bool.false_ne_true

theorem Halt.mono {groups more : List (List Text)} {xs : List Exchange}
    (hsub : ∀ group ∈ groups, group ∈ more) (h : ws.Halt groups xs) : ws.Halt more xs := by
  cases h with
  | read hg hb => exact .read (hsub _ hg) hb
  | request hg hb hne hr => exact .request (hsub _ hg) hb hne hr
  | reply hx he => exact .reply hx he

/-- **A run that ends before its last group** ends with a defect. -/
theorem halt_runGroups {groups : List (List Text)} {c : Course (σ × List Exchange)}
    {e : Ending (σ × List Exchange)} (h : ws.runGroups answer.recording groups c = .error e) :
    ws.Halt groups e.service.2 ∧ ∃ f, e.outcome = .error f ∧ f.isReported = false := by
  induction groups generalizing c with
  | nil => cases h
  | cons group rest ih =>
    unfold runGroups at h
    split at h
    · next e' hstep =>
      obtain rfl := Except.error.inj h
      obtain ⟨hhalt, hout⟩ := halt_groupStep hstep
      refine ⟨hhalt.mono fun g hg => ?_, hout⟩
      exact List.mem_singleton.1 hg ▸ List.mem_cons_self
    · next c₁ hstep =>
      obtain ⟨hhalt, hout⟩ := ih h
      exact ⟨hhalt.mono fun g hg => List.mem_cons_of_mem group hg, hout⟩

/-! ## A run over the whole project -/

/-- The run has gone through all groups: it has findings, or none of its groups has. -/
def WentThrough (outcome : Except AnalysisFault Findings) : Prop :=
  (∃ found, outcome = .ok found) ∨ ∃ count, outcome = .error (.allFailed count)

theorem not_wentThrough {outcome : Except AnalysisFault Findings} {f : AnalysisFault}
    (h : outcome = .error f) (hf : ∀ count, f ≠ .allFailed count) : ¬ WentThrough outcome := by
  rintro (⟨found, ho⟩ | ⟨count, ho⟩)
  · cases h.symm.trans ho
  · exact hf count (Except.error.inj (h.symm.trans ho))

/-- **A run over groups** has gone through all of them, or has come to an end at one. -/
theorem run_spec {service : σ} {groups : List (List Text)} (tally : Tally)
    (hopen : ws.tree.isDirectory ws.root = true) (hg : ws.groups.value = .ok groups) :
    (∃ c, ws.Passage groups ⟨{}, 1, {}, (service, [])⟩ c
        (ws.exchanges answer service (ws.beginAll tally).value) ∧
      (ws.complete answer service (ws.beginAll tally).value).value.outcome =
        (endOfRun groups.length (.ok c)).outcome) ∨
    ∃ f, ws.Halt groups (ws.exchanges answer service (ws.beginAll tally).value) ∧
      (ws.complete answer service (ws.beginAll tally).value).value.outcome = .error f ∧
      f.isReported = false := by
  unfold exchanges
  rw [← outcome_recording, value_complete_beginAll, if_pos hopen, hg]
  simp only []
  cases hrun : ws.runGroups answer.recording groups ⟨{}, 1, {}, (service, [])⟩ with
  | error e =>
    obtain ⟨hhalt, f, ho, hf⟩ := halt_runGroups hrun
    exact Or.inr ⟨f, hhalt, ho, hf⟩
  | ok c =>
    obtain ⟨xs, hxs⟩ := passage_runGroups hrun
    have hservice : c.service.2 = xs := hxs.service.trans (List.nil_append xs)
    refine Or.inl ⟨c, ?_, rfl⟩
    simp only [endOfRun, hservice]
    exact hxs

/-- A run that has gone through all groups has sent what is to be sent of each. -/
theorem exists_passage {service : σ} {tally : Tally}
    (h : WentThrough (ws.complete answer service (ws.beginAll tally).value).value.outcome) :
    ∃ groups c, ws.groups.value = .ok groups ∧
      ws.Passage groups ⟨{}, 1, {}, (service, [])⟩ c
        (ws.exchanges answer service (ws.beginAll tally).value) := by
  cases hopen : ws.tree.isDirectory ws.root with
  | false =>
    rw [value_complete_beginAll, hopen] at h
    exact absurd h (not_wentThrough rfl fun _ => AnalysisFault.noConfusion)
  | true =>
    cases hg : ws.groups.value with
    | error f =>
      rw [value_complete_beginAll, if_pos hopen, hg] at h
      rcases groups_eq_error hg with ⟨g, rfl⟩ | rfl | ⟨g, rfl⟩ <;>
        exact absurd h (not_wentThrough rfl fun _ => AnalysisFault.noConfusion)
    | ok groups =>
      rcases run_spec tally hopen hg with ⟨c, hpass, -⟩ | ⟨f, -, ho, hf⟩
      · exact ⟨groups, c, rfl, hpass⟩
      · refine absurd h (not_wentThrough ho ?_)
        rintro count rfl
        cases hf

/-! ## A call that waits for one reply -/

theorem value_complete_last (ws : Workspace) (answer : Service σ) (service : σ) (tally : Tally)
    (r : Request) :
    (ws.complete answer service ⟨tally, .waiting ⟨r, .last⟩⟩).value.service =
      (answer service r).2 ∧
    (ws.complete answer service ⟨tally, .waiting ⟨r, .last⟩⟩).value.outcome =
      match (ws.response r (answer service r).1).value with
      | .error f => .error (.submission f)
      | .ok response =>
        (ws.findings 1 response).value.outcome.mapError
          .normalization := by
  rw [value_complete_waiting]
  unfold resume
  simp only [Logged.value_bind]
  cases (ws.response r (answer service r).1).value with
  | error f =>
    simp only [afterFault, Logged.value_pure, value_complete_done]
    exact ⟨trivial, trivial⟩
  | ok response =>
    simp only [Logged.value_bind, Plan.next]
    cases (ws.findings 1 response).value.outcome with
    | error f =>
      simp only [Logged.value_pure, value_complete_done]
      exact ⟨trivial, rfl⟩
    | ok found =>
      simp only [Logged.value_bind, afterFindings, Logged.value_pure, value_complete_done]
      exact ⟨trivial, rfl⟩

end Workspace

end ContractAudit
