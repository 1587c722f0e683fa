import ContractAudit.Analysis.Completion

/-! The analyzer, and several calls on it.

An analyzer takes one call at a time: it is busy while a call of its waits, and refuses another one
then.  Its tally is that of the last call that got as far as looking at files.

Calls may be started at any moment, and replies come in any order.  A session keeps where each
call stands, in the order in which the calls were started.  `settle` answers the calls that wait,
the earliest first, until none waits. -/

namespace ContractAudit

/-! ## The analyzer -/

/-- What an analyzer keeps from call to call. -/
structure Analyzer where
  /-- A call waits. -/
  busy : Bool := false
  tally : Tally := {}
  deriving DecidableEq

namespace Analyzer

/-- The analyzer once a call of its stands at a stage. -/
def ofStage (s : Stage) : Analyzer := ⟨s.progress.isWaiting, s.tally⟩

def start (ws : Workspace) (a : Analyzer) (c : Call) : Logged (Analyzer × Progress) := do
  if a.busy then return (a, .done (.error .busy))
  let stage ← ws.begin a.tally c
  return (ofStage stage, stage.progress)

/-- Goes on with a call that waits. -/
def resume (ws : Workspace) (a : Analyzer) (p : Pending) (reply : Reply) :
    Logged (Analyzer × Progress) := do
  let stage ← ws.resume a.tally p reply
  return (ofStage stage, stage.progress)

end Analyzer

/-! ## Sessions -/

/-- Something that happens to an analyzer. -/
inductive Event
  | start (c : Call)
  /-- The reply to the call at place `k`. -/
  | reply (k : Nat) (r : Reply)

/-- An analyzer and its calls. -/
structure Session where
  analyzer : Analyzer := {}
  calls : List Progress := []

namespace Session

def start (ws : Workspace) (s : Session) (c : Call) : Logged Session := do
  let (analyzer, progress) ← s.analyzer.start ws c
  return ⟨analyzer, s.calls ++ [progress]⟩

/-- The session after a reply; one to a call that does not wait is dropped. -/
def reply (ws : Workspace) (s : Session) (k : Nat) (r : Reply) : Logged Session :=
  match s.calls[k]? with
  | some (.waiting p) => do
    let (analyzer, progress) ← s.analyzer.resume ws p r
    return ⟨analyzer, s.calls.set k progress⟩
  | _ => pure s

def step (ws : Workspace) (s : Session) : Event → Logged Session
  | .start c => s.start ws c
  | .reply k r => s.reply ws k r

def run (ws : Workspace) (events : List Event) (s : Session) : Logged Session :=
  events.foldlM (step ws) s

/-- The session after some calls have been started one after the other. -/
def startAll (ws : Workspace) (calls : List Call) (s : Session) : Logged Session :=
  run ws (calls.map .start) s

/-- The first call that waits from place `k` on, with its place. -/
def waitingFrom? (k : Nat) : List Progress → Option (Nat × Pending)
  | [] => none
  | .waiting p :: _ => some (k, p)
  | .done _ :: rest => waitingFrom? (k + 1) rest

/-- The first call that waits, with its place. -/
def waiting? (s : Session) : Option (Nat × Pending) := waitingFrom? 0 s.calls

/-- How many replies the calls wait for at most. -/
def work (s : Session) : Nat := s.calls.foldr (fun c n => c.work + n) 0

/-- The session after at most `fuel` replies of a service. -/
def settleWith {σ : Type} (ws : Workspace) (answer : Service σ) :
    (fuel : Nat) → σ → Session → Logged (Session × σ)
  | 0, state, s => pure (s, state)
  | fuel + 1, state, s =>
    match s.waiting? with
    | none => pure (s, state)
    | some (k, p) => do
      let (r, state) := answer state p.request
      settleWith ws answer fuel state (← s.reply ws k r)

/-- The session once no call waits any more, and the state of the service then. -/
def settle {σ : Type} (ws : Workspace) (answer : Service σ) (state : σ) (s : Session) :
    Logged (Session × σ) :=
  settleWith ws answer s.work state s

/-- The outcomes of the calls that have come to their end. -/
def outcomes (s : Session) : List (Except AnalysisFault Findings) :=
  s.calls.filterMap fun
    | .done outcome => some outcome
    | .waiting _ => none

def clear (s : Session) : Session := { s with calls := [] }

end Session

end ContractAudit
