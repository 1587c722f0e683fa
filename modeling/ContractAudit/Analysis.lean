import ContractAudit.Workspace

/-! Analyses.

A call asks for the findings of all groups of a project, or for those of one file with its
imports.  It goes on until it has a request to send and then waits; `resume` takes the reply and
goes on.  Groups are sent one after the other: a group that fails is counted and passed over, and
the findings of the others stand in the order of the groups, numbered throughout.  The tally says
what has become of the groups. -/

namespace ContractAudit

/-- How many groups were submitted, failed and were skipped, and how much was sent in those
submitted. -/
structure Tally where
  submitted : Nat := 0
  failed : Nat := 0
  skipped : Nat := 0
  files : Nat := 0
  bytes : Nat := 0
  deriving DecidableEq

namespace Tally

def submit (t : Tally) (b : Bundle) : Tally :=
  { t with submitted := t.submitted + 1, files := t.files + b.length, bytes := t.bytes + b.size }

def fail (t : Tally) : Tally := { t with failed := t.failed + 1 }

/-- The tally after a group of which nothing could be sent. -/
def skip (t : Tally) : Tally := { t with skipped := t.skipped + 1 }

/-- At least one group was submitted. -/
def succeeded (t : Tally) : Bool := t.submitted != 0

end Tally

/-- What is asked for. -/
inductive Call
  /-- The findings of the whole project. -/
  | all
  /-- The findings of one file, or of the active file of the settings. -/
  | current (file : Option Text)
  deriving DecidableEq

/-- Where a run over groups stands while a group of its is away. -/
structure GroupRun where
  count : Nat
  /-- The place of the group that is away, the first one being 1. -/
  index : Nat
  /-- The groups after it. -/
  rest : List (List Text)
  /-- The next number of a finding. -/
  next : Nat
  found : Findings

/-- How a call goes on after its reply. -/
inductive Plan
  /-- The reply is all that the call waits for. -/
  | last
  | groups (run : GroupRun)

namespace Plan

def next : Plan → Nat
  | last => 1
  | groups run => run.next

/-- How many replies there are at most, the awaited one included. -/
def work : Plan → Nat
  | last => 1
  | groups run => run.rest.length + 1

theorem work_pos (p : Plan) : 0 < p.work := by
  cases p <;> exact Nat.succ_pos _

end Plan

/-- A call that waits for the reply to a request. -/
structure Pending where
  request : Request
  plan : Plan

/-- Where a call stands. -/
inductive Progress
  | waiting (p : Pending)
  | done (outcome : Except AnalysisFault Findings)

namespace Progress

def isWaiting : Progress → Bool
  | waiting _ => true
  | done _ => false

def work : Progress → Nat
  | waiting p => p.plan.work
  | done _ => 0

end Progress

/-- Where a call stands, and the tally then. -/
structure Stage where
  tally : Tally
  progress : Progress

namespace Stage

/-- A call that has come to its end. -/
def done (tally : Tally) (outcome : Except AnalysisFault Findings) : Stage :=
  ⟨tally, .done outcome⟩

def work (s : Stage) : Nat := s.progress.work

@[simp] theorem work_done (tally : Tally) (outcome : Except AnalysisFault Findings) :
    (done tally outcome).work = 0 := rfl

@[simp] theorem work_waiting (tally : Tally) (p : Pending) :
    work ⟨tally, .waiting p⟩ = p.plan.work := rfl

end Stage

namespace Workspace

/-- The end of a run over groups. -/
def closeRun (count : Nat) (found : Findings) (tally : Tally) : Stage :=
  .done tally (if tally.succeeded then .ok found else .error (.allFailed count))

/-- A run over groups from the group at place `index` on, up to the next request. -/
def nextGroup (ws : Workspace) (count next : Nat) (found : Findings) :
    (index : Nat) → List (List Text) → Tally → Logged Stage
  | _, [], tally => pure (closeRun count found tally)
  | index, group :: rest, tally => do
    Logged.info ("[Batch] Analyzing file group " ++ Decimal.digits index ++ "/"
      ++ Decimal.digits count ++ " with " ++ Decimal.digits group.length ++ " files")
    match ← ws.bundle group with
    | .error f => return .done tally (.error (.read f))
    | .ok [] =>
      Logged.warning ("[Batch] Skipping empty file group " ++ Decimal.digits index)
      ws.nextGroup count next found (index + 1) rest tally.skip
    | .ok bundle =>
      match ← ws.request bundle with
      | .error f => return .done tally (.error (.submission f))
      | .ok request =>
        return ⟨tally, .waiting ⟨request, .groups ⟨count, index, rest, next, found⟩⟩⟩

def beginAll (ws : Workspace) (tally : Tally) : Logged Stage := do
  if ! (← ws.isOpen) then return .done tally (.error .noWorkspace)
  match ← ws.groups with
  | .error f => return .done {} (.error f)
  | .ok groups => ws.nextGroup groups.length 1 {} 1 groups {}

/-- The path that a call names, or that of the active file; an empty path names none. -/
def activePath? (ws : Workspace) (file : Option Text) : Option Text :=
  (nonempty? file).orElse fun _ => nonempty? (some ws.settings.activeFile)

/-- Sends a file with its imports. -/
def sendClosure (ws : Workspace) (seed : SourceFile) : Logged Stage := do
  Logged.info ("Analyzing Solidity document: " ++ seed.relative)
  match ← ws.closure seed with
  | .error f => return .done {} (.error (.read f))
  | .ok closure =>
    let bundle := Bundle.ofFiles closure.files
    Logged.debug ("Finished processing imports, total files: " ++ Decimal.digits bundle.length)
    match ← ws.request bundle with
    | .error f => return .done {} (.error (.submission f))
    | .ok request => return ⟨{}, .waiting ⟨request, .last⟩⟩

/-- An analysis of one file, up to its request. -/
def beginCurrent (ws : Workspace) (tally : Tally) (file : Option Text) : Logged Stage := do
  match ws.activePath? file with
  | none =>
    Logged.error "No active editor found"
    return .done tally (.error .noActiveFile)
  | some named =>
    if ! (← ws.isOpen) then return .done tally (.error .noWorkspace)
    if ! ws.rules.isSource named then
      Logged.error ("Active file is not a Solidity file: " ++ named)
      return .done tally (.error .notSource)
    let path := Path.absolute ws.cwd named
    match ws.load path with
    | .ok seed => ws.sendClosure seed
    | .error f =>
      return .done tally (.error (if f.isExpected then .unreadable path f else .read f))

def begin (ws : Workspace) (tally : Tally) : Call → Logged Stage
  | .all => ws.beginAll tally
  | .current file => ws.beginCurrent tally file

/-- How many findings each file has, in the order in which the files first occur. -/
def countByFile (fs : List Finding) : List (Text × Nat) :=
  fs.foldl (fun counts f =>
    put f.primaryFile ((lookup? f.primaryFile counts).getD 0 + 1) counts) []

/-- The entries about the findings of a reply. -/
def sayFound (found : Findings) : Logged Unit := do
  Logged.info ("Analysis complete: found " ++ Decimal.digits found.vulnerabilities.length
    ++ " vulnerabilities")
  if ! found.lint.isEmpty then
    Logged.info ("Linting complete: found " ++ Decimal.digits found.lint.length ++ " issues")
    let counts := (countByFile found.lint).map fun c => (c.1, Json.int c.2)
    Logged.debug ("Linter issues by file: " ++ Json.shown (.obj counts))

/-- A call whose submission has failed. -/
def afterFault (ws : Workspace) (tally : Tally) (f : SubmissionFault) : Plan → Logged Stage
  | .last =>
    pure (.done (if f.isExpected then tally.fail else tally) (.error (.submission f)))
  | .groups run =>
    if f.isExpected then do
      Logged.warning ("[Batch] Error analyzing file group " ++ Decimal.digits run.index ++ ": "
        ++ f.message)
      ws.nextGroup run.count run.next run.found (run.index + 1) run.rest tally.fail
    else pure (.done tally (.error (.submission f)))

/-- A call with the findings of its reply, `next` being the next number of a finding. -/
def afterFindings (ws : Workspace) (tally : Tally) (next : Nat) (found : Findings) :
    Plan → Logged Stage
  | .last => pure (.done tally (.ok found))
  | .groups run => ws.nextGroup run.count next (run.found ++ found) (run.index + 1) run.rest tally

/-- A call with its reply, up to its next request. -/
def resume (ws : Workspace) (tally : Tally) (p : Pending) (reply : Reply) : Logged Stage := do
  match ← ws.response p.request reply with
  | .error f => ws.afterFault tally f p.plan
  | .ok response =>
    let tally := tally.submit p.request.bundle
    let numbered ← ws.findings p.plan.next response
    match numbered.outcome with
    | .error f => return .done tally (.error (.normalization f))
    | .ok found =>
      sayFound found
      ws.afterFindings tally numbered.next found p.plan

end Workspace

end ContractAudit
