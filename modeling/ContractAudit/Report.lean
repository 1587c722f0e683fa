import ContractAudit.Finding
import ContractAudit.Sort
import ContractAudit.Table

/-! The report of a run.

Findings are sorted by severity and then by file, the unknown file last; findings that these do
not tell apart keep their order.  The report has a section for vulnerabilities and one for
issues of the linter, and in each a group for every file that a finding names. -/

namespace ContractAudit

namespace Report

/-- The order of files: by name, the unknown file last. -/
def fileLe (a b : Text) : Bool :=
  let unknown := Location.unknownFile
  if a == unknown then b == unknown else b == unknown || Text.le a b

/-- The order of findings: by severity, then by the file of the first location. -/
def findingLe (f g : Finding) : Bool :=
  f.severity.rank < g.severity.rank ||
    (f.severity.rank == g.severity.rank && fileLe f.primaryFile g.primaryFile)

/-- The findings in the order of a report. -/
def sort (fs : List Finding) : List Finding := sortBy findingLe fs

/-- The findings of each file, a finding once in the row of every file that it names. -/
def byFile (fs : List Finding) : List (Text × List Finding) :=
  fs.foldl (fun rows f => f.distinctFiles.foldl (fun rows file => addRow file [f] rows) rows) []

/-- The files that findings name, each once, in the order of a report. -/
def files (fs : List Finding) : List Text := sortBy fileLe ((byFile fs).map (·.1))

/-- The findings of each file in the order of a report, the files in theirs. -/
def groups (fs : List Finding) : List (Text × List Finding) :=
  (files fs).map fun file => (file, sort ((lookup? file (byFile fs)).getD []))

/-- The ranges of a finding inside a file. -/
def rangesIn (file : Text) (f : Finding) : List LineRange :=
  (f.locations.filter fun l => l.file == file).flatMap (·.ranges)

/-- The place of a finding inside a file. -/
def place (ranges : List LineRange) : Text :=
  if ranges.isEmpty then "unknown location" else "lines " ++ LineRange.listText ranges

/-- The column of an issue, if it has one and its line is known. -/
def columnMark (f : Finding) (ranges : List LineRange) : Text :=
  match f.column with
  | none => []
  | some n => if n = 0 || ranges.isEmpty then [] else ':' :: Decimal.ofInt n

def lintLine (file : Text) (f : Finding) : Text :=
  let ranges := rangesIn file f
  "- **[" ++ f.levelLabel ++ "]** `" ++ f.ruleOrTitle ++ "` (" ++ f.categoryLabel ++ "), "
    ++ place ranges ++ columnMark f ranges ++ ": " ++ f.message

def vulnerabilityLine (file : Text) (f : Finding) : Text :=
  "- **[" ++ label f.severity ++ "]** " ++ f.title ++ " (confidence: " ++ label f.confidence
    ++ "), " ++ place (rangesIn file f)

/-- The lines of a message that are not blank, indented. -/
def messageLines (message : Text) : List Text :=
  ((Text.lines (Text.trim message)).filter (! ·.all Text.isBlank)).map fun t => "  " ++ t

/-- The lines about a finding in the group of a file. -/
def findingLines (file : Text) (f : Finding) : List Text :=
  match f.kind with
  | .lint => [lintLine file f]
  | .vulnerability => vulnerabilityLine file f :: messageLines f.message

def groupLines (group : Text × List Finding) : List Text :=
  ("### " ++ group.1) :: group.2.flatMap (findingLines group.1) ++ [[]]

def sectionLines (name : Text) (fs : List Finding) : List Text :=
  let body : List Text :=
    if fs.isEmpty then ["No issues found.", []] else (groups fs).flatMap groupLines
  ("## " ++ name ++ " (" ++ Decimal.digits fs.length ++ ")") :: [] :: body

def defaultTitle : Text := "Solidity Analysis Report"

def lines (title : Text) (r : Findings) : List Text :=
  ("# " ++ title) :: [] ::
    (sectionLines "Vulnerabilities" r.vulnerabilities ++ sectionLines "Linter Issues" r.lint)

def text (title : Text) (r : Findings) : Text := Text.join ['\n'] (lines title r)

end Report

end ContractAudit
