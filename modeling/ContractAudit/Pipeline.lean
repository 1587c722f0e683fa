import ContractAudit.Analysis.Completion
import ContractAudit.FindingFilter
import ContractAudit.Report

/-! A run from the settings to the saved report.

`start` makes the filter of the settings and begins the call that they name.  Once the findings
are there, `publish` filters and sorts them, and writes the files of the run.  `exitCode` says
how the program ends. -/

namespace ContractAudit.Pipeline

/-- A file that a run writes. -/
structure Artifact where
  path : Text
  text : Text
  deriving DecidableEq

/-- What a run has written in the end. -/
structure Publication where
  shown : Findings
  artifacts : List Artifact

def heavyRule : Text := List.replicate 59 '═'

def lightRule : Text := List.replicate 59 '─'

/-- The head of the log. -/
def banner : Logged Unit := do
  Logged.info ('╔' :: heavyRule ++ ['╗'])
  Logged.info "║          SOLIDITY ANALYSIS PIPELINE                       ║"
  Logged.info ('╚' :: heavyRule ++ ['╝'])

/-- The filter of some settings. -/
def filterOf (s : Settings) : Logged FindingFilter :=
  FindingFilter.ofWords (some s.severities) s.lintSeverities s.lintCategories s.ignoreRules
    s.ignorePresets

/-- The call that some settings name. -/
def callOf (s : Settings) : Call :=
  match s.mode with
  | .all => .all
  | .current => .current none

/-- The filter of a run, and where its call stands. -/
def start (ws : Workspace) : Logged (FindingFilter × Stage) := do
  let filter ← filterOf ws.settings
  banner
  return (filter, ← ws.begin {} (callOf ws.settings))

/-- The directory of all files that runs write. -/
def artifactsRoot : Text := "__artifacts__"

/-- The directory of the files that a run writes, `stamp` being the time of the run. -/
def directory (stamp : Text) (mode : Mode) : Text :=
  Path.join artifactsRoot (stamp ++ '.' :: label mode)

/-- Why the files of a run cannot be written to `directory`.  Where the directory of all such files
has to be, there must be a directory or nothing. -/
def writeFault? (ws : Workspace) (directory : Text) : Option AnalysisFault :=
  let place := Path.join ws.cwd artifactsRoot
  match ws.tree.find place with
  | .ok (.directory _) => none
  | .ok _ => some (.write .notDirectory directory)
  | .error .missing =>
    if ws.tree.hasEntry place then some (.write .present artifactsRoot) else none
  | .error f => some (.write f directory)

def artifacts (directory : Text) (r : Findings) : List Artifact :=
  [
    ⟨Path.join directory "findings.json", Json.indented 0 r.toJson⟩,
    ⟨Path.join directory "report.md", Report.text Report.defaultTitle r⟩
  ]

/-- The entries about the tally of a run. -/
def sayTally (t : Tally) : Logged Unit := do
  Logged.info lightRule
  Logged.info ("Groups: " ++ Decimal.digits t.submitted ++ " submitted | "
    ++ Decimal.digits t.failed ++ " failed | " ++ Decimal.digits t.skipped ++ " skipped")
  Logged.info ("  ↳ Files: " ++ Decimal.grouped t.files ++ " | Bytes: "
    ++ Decimal.grouped t.bytes)
  Logged.info lightRule

def sorted (r : Findings) : Findings := ⟨Report.sort r.vulnerabilities, Report.sort r.lint⟩

/-- Filters and sorts the findings of a run, and writes its files. -/
def publish (ws : Workspace) (filter : FindingFilter) (stamp : Text) (tally : Tally)
    (found : Findings) : Logged (Except AnalysisFault Publication) := do
  Logged.info ("[1/3] Analysis: " ++ Decimal.digits found.vulnerabilities.length
    ++ " vulnerabilities, " ++ Decimal.digits found.lint.length ++ " linter issues")
  let shown := sorted (← filter.apply found)
  Logged.info ("[2/3] Filtered: " ++ Decimal.digits shown.total ++ " findings visible")
  let directory := directory stamp ws.settings.mode
  if let some f := writeFault? ws directory then return .error f
  Logged.info ("[3/3] Report saved to " ++ directory ++ ['\n'])
  sayTally tally
  Logged.info "\n✓ Pipeline completed"
  return .ok ⟨shown, artifacts directory shown⟩

/-- The end of a run whose call has ended. -/
def finish (ws : Workspace) (filter : FindingFilter) (stamp : Text) (tally : Tally) :
    Except AnalysisFault Findings → Logged (Except AnalysisFault Publication)
  | .ok found => publish ws filter stamp tally found
  | .error f => pure (.error f)

/-- A whole run with a service. -/
def run {σ : Type} (ws : Workspace) (answer : Service σ) (service : σ) (stamp : Text) :
    Logged (Except AnalysisFault Publication × σ) := do
  let (filter, stage) ← start ws
  let ending ← ws.complete answer service stage
  return (← finish ws filter stamp ending.tally ending.outcome, ending.service)

/-- The exit code after a run, unless its fault is a defect. -/
def exitCode (outcome : Except AnalysisFault Publication) : Logged (Except AnalysisFault Nat) :=
  match outcome with
  | .ok _ => pure (.ok 0)
  | .error f =>
    if f.isReported then do
      Logged.error ("Failed to analyze Solidity code: " ++ f.message)
      return .ok 1
    else pure (.error f)

/-- The entries of the log that are shown at a level. -/
def shownLog (w : LogWord) (log : List LogEntry) : List LogEntry :=
  log.filter fun e => w.level.rank ≤ e.level.rank

end ContractAudit.Pipeline
