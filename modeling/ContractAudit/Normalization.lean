import ContractAudit.FileRef
import ContractAudit.Json.Reader
import ContractAudit.LintText
import ContractAudit.Log
import ContractAudit.Record.Response

/-! From the records of the service to findings.

A record that departs from its form is left out with a warning.  The others become findings one
by one; a finding whose record has no id gets a number that counts over all replies of a run.
A finding without a number yet has the empty id, and `Numbering.assign` gives out the numbers.

A fault ends the reply it occurs in.  Numbers that were given out before it stay given out, so
every step returns the next number beside its outcome. -/

namespace ContractAudit

open Record (Checked LintOutput LintRecord Response VulnerabilityRecord)

/-- Why a reply cannot be turned into findings. -/
inductive NormalizationFault
  /-- A number that cannot be read. -/
  | number (f : Decimal.Fault)
  /-- The linter's text is JSON that is nested too deep. -/
  | nesting (f : Json.Fault)
  deriving DecidableEq

def NormalizationFault.message : NormalizationFault → Text
  | number f => f.message
  | nesting f => f.message []

/-- A text that is there and not empty. -/
def nonempty? (t : Option Text) : Option Text := t.filter fun t => ! t.isEmpty

namespace Finding

/-- The locations of a vulnerability: those its description names, else those of its lines. -/
def locationsOf (r : VulnerabilityRecord) : Except Decimal.Fault (List Location) :=
  (Location.ofDescription (r.description.getD [])).map fun named =>
    if named.isEmpty then
      Location.ofSpans ((r.lines.getD []).map fun ref =>
        (ref.contract, ref.lines.map fun n => (n, n)))
    else named

/-- The finding of a vulnerability, without a number if its record has no id. -/
def ofVulnerability (r : VulnerabilityRecord) : Except Decimal.Fault Finding :=
  (locationsOf r).map fun locations =>
    { id := r.id.getD []
      kind := .vulnerability
      title := ((nonempty? r.title).orElse fun _ =>
        (nonempty? r.check).orElse fun _ => nonempty? r.detector).getD "Unknown"
      message := r.description.getD []
      severity := Severity.ofWord r.impact
      confidence := Confidence.ofWord r.confidence
      locations := Location.orUnknown locations
      locations_ne_nil := Location.orUnknown_ne_nil locations }

/-- The ranges of an issue: its line, if it has one. -/
def rangesOfLine (line : Option Int) : List LineRange :=
  match line with
  | none => []
  | some n => LineRange.coalesceLines [n]

/-- The finding of an issue, without a number. -/
def ofLintRecord (r : LintRecord) : Except Decimal.Fault Finding :=
  (LintSeverity.ofMark r.severity).map fun level =>
    { id := []
      kind := .lint
      title := (nonempty? r.rule).getD "lint"
      message := r.message.getD []
      severity := level.severity
      confidence := .unknown
      locations := [⟨(nonempty? r.file).getD Location.unknownFile, rangesOfLine r.line⟩]
      locations_ne_nil := by simp
      rule := r.rule
      category := some ((LintCategory.ofWord? r.category).getD (LintCategory.ofRule r.rule))
      lintSeverity := some level
      column := r.column }

end Finding

namespace Numbering

/-- What stands before the number in an id. -/
def lead : FindingKind → Text
  | .vulnerability => "vuln-"
  | .lint => "lint-"

/-- The findings with numbers from `next` on in place of the empty ids, and the next number
after them. -/
def assign (next : Nat) : List Finding → List Finding × Nat
  | [] => ([], next)
  | f :: rest =>
    if f.id.isEmpty then
      let (rest, last) := assign (next + 1) rest
      ({ f with id := lead f.kind ++ Decimal.digits next } :: rest, last)
    else
      let (rest, last) := assign next rest
      (f :: rest, last)

end Numbering

/-- The outcome of a step, and the next number after it. -/
structure Numbered (α : Type) where
  outcome : Except NormalizationFault α
  next : Nat

namespace Normalization

/-- The values up to the first fault, and the fault. -/
def upToFault {α β ε : Type} (f : α → Except ε β) : List α → List β × Option ε
  | [] => ([], none)
  | a :: rest =>
    match f a with
    | .error e => ([], some e)
    | .ok b =>
      let (bs, e) := upToFault f rest
      (b :: bs, e)

/-- The findings of records, numbered from `next` on. -/
def findings {α : Type} (next : Nat) (draft : α → Except Decimal.Fault Finding)
    (records : List α) : Numbered (List Finding) :=
  let (drafts, fault) := upToFault draft records
  let (numbered, next) := Numbering.assign next drafts
  match fault with
  | none => ⟨.ok numbered, next⟩
  | some f => ⟨.error (.number f), next⟩

def vulnerabilities (next : Nat) (records : List VulnerabilityRecord) : Numbered (List Finding) :=
  findings next Finding.ofVulnerability records

def lint (next : Nat) (records : List LintRecord) : Numbered (List Finding) :=
  findings next Finding.ofLintRecord records

/-- The warning about a record that is left out. -/
def skipWarning (what : Text) (i count : Nat) : Text :=
  "[Normalizer] Skipping malformed " ++ what ++ " #" ++ Decimal.digits i ++ ": "
    ++ Decimal.digits count ++ " validation error(s)"

/-- The items that have their form, `i` being the place of the first item. -/
def checkEach {α : Type} (check : Json → Checked α) (what : Text) (i : Nat) :
    List Json → Logged (List α)
  | [] => pure []
  | v :: rest =>
    match check v with
    | .ok a => do return a :: (← checkEach check what (i + 1) rest)
    | .bad issues => do
      Logged.warning (skipWarning what i issues.length)
      checkEach check what (i + 1) rest

def checkVulnerabilities : List Json → Logged (List VulnerabilityRecord) :=
  checkEach VulnerabilityRecord.ofJson "vulnerability" 0

def checkLint : List Json → Logged (List LintRecord) :=
  checkEach LintRecord.ofJson "linter record" 0

/-- The linter's text read line by line. -/
def lintLines (t : Text) : Logged (Except NormalizationFault (List LintRecord)) :=
  pure ((LintText.records t).mapError .number)

/-- The issues in a JSON value that the linter wrote as text, which is `t`: the items of a list,
or of the list of results in an object. -/
def lintOfJson (t : Text) (v : Json) : Logged (Except NormalizationFault (List LintRecord)) :=
  let results := match v with
    | .obj members => (Json.find? "results" members).getD (.arr [])
    | v => v
  match results with
  | .arr items => do return .ok (← checkLint items)
  | _ => lintLines t

/-- The issues in the linter's text, which is JSON if it begins like a list or an object, and then
may be nested `depth` deep. -/
def lintOfText (depth : Nat) (t : Text) : Logged (Except NormalizationFault (List LintRecord)) :=
  let body := Text.trim t
  if body.head?.any (fun c => c == '[' || c == '\x7b') then
    match Json.read depth body with
    | .ok v => lintOfJson t v
    | .error (.tooDeep object) => pure (.error (.nesting (.tooDeep object)))
    | .error _ => do
      Logged.debug "[Normalizer] Linter output is not JSON, parsing as text"
      lintLines t
  else lintLines t

/-- The issues in what the linter says. -/
def lintRecords (depth : Nat) : LintOutput → Logged (Except NormalizationFault (List LintRecord))
  | .list items => do return .ok (← checkLint items)
  | .object members =>
    match Json.find? "results" members with
    | some (.arr items) => do return .ok (← checkLint items)
    | _ => pure (.ok [])
  | .text t => lintOfText depth t

def lintFindings (depth next : Nat) (output : LintOutput) :
    Logged (Numbered (List Finding)) := do
  match ← lintRecords depth output with
  | .error f => return ⟨.error f, next⟩
  | .ok records => return lint next records

/-- The findings in what the linter says, if it is asked and says something. -/
def lintPart (depth next : Nat) (linting : Bool) (output : Option LintOutput) :
    Logged (Numbered (List Finding)) :=
  match output with
  | none => pure ⟨.ok [], next⟩
  | some output =>
    if linting && ! output.isEmpty then lintFindings depth next output else pure ⟨.ok [], next⟩

/-- The findings of a reply, numbered from `next` on: vulnerabilities first, then issues. -/
def ofResponse (next : Nat) (linting : Bool) (r : Response) (depth : Nat := Json.usualDepth) :
    Logged (Numbered Findings) := do
  let records ← checkVulnerabilities (r.result.getD [])
  let found := vulnerabilities next records
  match found.outcome with
  | .error f => return ⟨.error f, found.next⟩
  | .ok vs =>
    let issues ← lintPart depth found.next linting r.linter
    return ⟨issues.outcome.map fun ls => ⟨vs, ls⟩, issues.next⟩

end Normalization

end ContractAudit
