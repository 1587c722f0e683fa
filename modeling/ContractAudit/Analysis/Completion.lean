import ContractAudit.Analysis

/-! Calls up to their end.

Every reply brings a call nearer to its end (`work_resume_lt`), so that `complete` needs no more
replies than a call has groups. -/

namespace ContractAudit

/-- A service that keeps a state, and answers each request. -/
abbrev Service (σ : Type) := σ → Request → Reply × σ

namespace Workspace

theorem work_nextGroup_le (ws : Workspace) (count next : Nat) (found : Findings) (index : Nat)
    (groups : List (List Text)) (tally : Tally) :
    (ws.nextGroup count next found index groups tally).value.work ≤ groups.length := by
  induction groups generalizing index tally with
  | nil => exact Nat.le_refl 0
  | cons group rest ih =>
    simp only [nextGroup, Logged.value_bind]
    split
    · exact Nat.zero_le _
    · exact Nat.le_succ_of_le (ih _ _)
    · simp only [Logged.value_bind]
      split
      · exact Nat.zero_le _
      · exact Nat.le_refl _

theorem work_afterFault_lt (ws : Workspace) (tally : Tally) (f : SubmissionFault) (plan : Plan) :
    (ws.afterFault tally f plan).value.work < plan.work := by
  cases plan with
  | last => exact Nat.one_pos
  | groups run =>
    simp only [afterFault]
    split
    · exact Nat.lt_succ_of_le (work_nextGroup_le ..)
    · exact Nat.succ_pos _

theorem work_afterFindings_lt (ws : Workspace) (tally : Tally) (next : Nat) (found : Findings)
    (plan : Plan) : (ws.afterFindings tally next found plan).value.work < plan.work := by
  cases plan with
  | last => exact Nat.one_pos
  | groups run => exact Nat.lt_succ_of_le (work_nextGroup_le ..)

/-- Every reply brings a call nearer to its end. -/
theorem work_resume_lt (ws : Workspace) (tally : Tally) (p : Pending) (reply : Reply) :
    (ws.resume tally p reply).value.work < p.plan.work := by
  simp only [resume, Logged.value_bind]
  split
  · exact work_afterFault_lt ..
  · simp only [Logged.value_bind]
    split
    · cases p.plan <;> exact Nat.succ_pos _
    · exact work_afterFindings_lt ..

/-- The end of a call, and the state of the service then. -/
structure Ending (σ : Type) where
  outcome : Except AnalysisFault Findings
  tally : Tally
  service : σ

/-- A call up to its end, with the replies of a service, of which there are at most `fuel`. -/
def completeWithin {σ : Type} (ws : Workspace) (answer : Service σ) :
    (fuel : Nat) → (service : σ) → (s : Stage) → s.work ≤ fuel → Logged (Ending σ)
  | _, service, ⟨tally, .done outcome⟩, _ => pure ⟨outcome, tally, service⟩
  | 0, _, ⟨_, .waiting p⟩, enough => absurd enough (Nat.not_le_of_gt p.plan.work_pos)
  | fuel + 1, service, ⟨tally, .waiting p⟩, enough =>
    let (reply, service) := answer service p.request
    let next := ws.resume tally p reply
    let last := completeWithin ws answer fuel service next.value
      (Nat.le_of_lt_succ (Nat.lt_of_lt_of_le (work_resume_lt ws tally p reply) enough))
    ⟨last.value, next.log ++ last.log⟩

/-- A call up to its end, with the replies of a service. -/
def complete {σ : Type} (ws : Workspace) (answer : Service σ) (service : σ) (s : Stage) :
    Logged (Ending σ) :=
  completeWithin ws answer s.work service s (Nat.le_refl _)

end Workspace

end ContractAudit
