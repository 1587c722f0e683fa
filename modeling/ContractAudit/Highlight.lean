import ContractAudit.Finding
import ContractAudit.LineRange
import ContractAudit.Log
import ContractAudit.Path

/-! Highlights of findings in an open document.

Every location of a finding that names the document is marked, one block for each run of lines
that the document has. -/

namespace ContractAudit

/-- A block of lines that is marked for a finding. -/
structure Highlight where
  id : Text
  kind : FindingKind
  range : LineRange
  message : Text
  deriving DecidableEq

namespace Highlight

/-- The text that is shown when the pointer rests on a block. -/
def hover (f : Finding) : Text :=
  match f.kind with
  | .lint =>
    "**" ++ f.ruleOrTitle ++ "**\n\n**Category:** " ++ f.categoryLabel ++ " | **Severity:** "
      ++ f.levelLabel ++ "\n\n" ++ f.message
  | .vulnerability =>
    "**" ++ f.title ++ "** (" ++ label f.severity ++ ", confidence " ++ label f.confidence
      ++ ")\n\n" ++ f.message

/-- The location is known and names the document. -/
def isIn (document : Text) (l : Location) : Bool :=
  ! l.isUnknown && Path.sameEnd document l.file

/-- The runs of lines of a location in a document of `lineCount` lines. -/
def visible (lineCount : Int) (l : Location) : List LineRange :=
  LineRange.coalesceLines (l.lines.filter fun n => n ≤ lineCount)

/-- The blocks of a finding. -/
def ofFinding (document : Text) (lineCount : Int) (f : Finding) : List Highlight :=
  (f.locations.filter (isIn document)).flatMap fun l =>
    (visible lineCount l).map fun range => ⟨f.id, f.kind, range, hover f⟩

def ofFindings (document : Text) (lineCount : Int) (fs : List Finding) : List Highlight :=
  fs.flatMap (ofFinding document lineCount)

/-- The blocks of all findings, with an entry about how many there are. -/
def plan (document : Text) (lineCount : Int) (fs : List Finding) : Logged (List Highlight) := do
  let blocks := ofFindings document lineCount fs
  Logged.debug ("[Decorations] " ++ Decimal.digits blocks.length ++ " blocks for " ++ document)
  return blocks

end Highlight

end ContractAudit
