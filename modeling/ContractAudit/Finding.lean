import ContractAudit.Json
import ContractAudit.LineRange
import ContractAudit.LintRule
import ContractAudit.Severity

/-! Findings: what an analysis says about some lines of some files.

A finding has at least one location; one that is about no file has the location
`Location.unknown`.  The fields from `rule` on belong to issues of the linter. -/

namespace ContractAudit

/-- Where a finding comes from. -/
inductive FindingKind
  | vulnerability | lint
  deriving DecidableEq, Repr

instance : Labelled FindingKind where
  members := [.vulnerability, .lint]
  label
    | .vulnerability => "vulnerability"
    | .lint => "lint-issue"

/-- Some lines of a file. -/
structure Location where
  file : Text
  ranges : List LineRange
  deriving DecidableEq

namespace Location

def unknownFile : Text := "Unknown"

/-- No file and no lines. -/
def unknown : Location := ⟨unknownFile, []⟩

/-- The location names no file, or no lines of it. -/
def isUnknown (l : Location) : Bool := l.file == unknownFile || l.ranges.isEmpty

def lines (l : Location) : List Int := l.ranges.flatMap LineRange.lines

/-- The locations, or the unknown one if there are none. -/
def orUnknown : List Location → List Location
  | [] => [unknown]
  | l :: rest => l :: rest

theorem orUnknown_ne_nil (ls : List Location) : orUnknown ls ≠ [] := by
  cases ls <;> simp [orUnknown]

theorem orUnknown_of_ne_nil {ls : List Location} (h : ls ≠ []) : orUnknown ls = ls := by
  cases ls with
  | nil => exact absurd rfl h
  | cons l rest => rfl

def toJson (l : Location) : Json :=
  .obj [
    ("file", .str l.file),
    ("ranges", .arr (l.ranges.map fun r => .arr [.int r.first, .int r.last]))
  ]

end Location

/-- What an analysis says about some lines of some files. -/
structure Finding where
  id : Text
  kind : FindingKind
  title : Text
  message : Text
  severity : Severity
  confidence : Confidence
  locations : List Location
  locations_ne_nil : locations ≠ []
  rule : Option Text := none
  category : Option LintCategory := none
  lintSeverity : Option LintSeverity := none
  column : Option Int := none
  deriving DecidableEq

namespace Finding

def primaryFile (f : Finding) : Text := (f.locations.head f.locations_ne_nil).file

/-- The known files of a finding, one for each location. -/
def files (f : Finding) : List Text :=
  (f.locations.map (·.file)).filter (· ≠ Location.unknownFile)

/-- The files of a finding, each once, in the order in which they are first named. -/
def distinctFiles (f : Finding) : List Text := (f.locations.map (·.file)).eraseDups

/-- The word for a category, the last category standing for none. -/
def categoryLabel (f : Finding) : Text := label (f.category.getD .miscellaneous)

def levelLabel (f : Finding) : Text := label (f.lintSeverity.getD .unknown)

/-- The rule of an issue, or its title if it has no rule. -/
def ruleOrTitle (f : Finding) : Text :=
  match f.rule with
  | none => f.title
  | some [] => f.title
  | some rule => rule

def toJson (f : Finding) : Json :=
  .obj [
    ("id", .str f.id),
    ("kind", .str (label f.kind)),
    ("title", .str f.title),
    ("message", .str f.message),
    ("severity", .str (label f.severity)),
    ("confidence", .str (label f.confidence)),
    ("locations", .arr (f.locations.map Location.toJson)),
    ("rule_id", Json.ofText? f.rule),
    ("category", Json.ofText? (f.category.map label)),
    ("lint_severity", Json.ofText? (f.lintSeverity.map label)),
    ("column", Json.ofInt? f.column)
  ]

end Finding

/-- The findings of a run. -/
structure Findings where
  vulnerabilities : List Finding := []
  lint : List Finding := []
  deriving DecidableEq

namespace Findings

def total (r : Findings) : Nat := r.vulnerabilities.length + r.lint.length

def append (r s : Findings) : Findings :=
  ⟨r.vulnerabilities ++ s.vulnerabilities, r.lint ++ s.lint⟩

instance : Append Findings := ⟨append⟩

def toJson (r : Findings) : Json :=
  .obj [
    ("vulnerabilities", .arr (r.vulnerabilities.map Finding.toJson)),
    ("linterResults", .arr (r.lint.map Finding.toJson))
  ]

end Findings

end ContractAudit
