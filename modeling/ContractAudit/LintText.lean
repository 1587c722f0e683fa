import ContractAudit.Record.Response
import ContractAudit.Text.Digit
import ContractAudit.Text.Word

/-! The linter's output as text.

A line that is one word ending in `.sol` names a file.  An issue is a line of the form
`line:column severity message rule`, where the rule is the last word and the message is all
between it and the severity.  An issue belongs to the file that was named last; all other lines
are passed over.

`IssueLine.ofLine?` takes a line apart and `IssueLine.record` reads its numbers. -/

namespace ContractAudit.LintText

open Record (LintRecord)

/-- A line that reports an issue, its digits not yet read. -/
structure IssueLine where
  line : Text
  column : Text
  severity : Text
  message : Text
  rule : Text
  deriving DecidableEq

def severityWords : List Text := ["error", "warning", "info"]

def isRuleChar (c : Char) : Bool :=
  Text.isWord c || c == '@' || c == '/' || c == '.' || c == '-'

/-- A severity at the beginning of a text, as it is written there, and the text after it. -/
def severity? (t : Text) : Option (Text × Text) :=
  severityWords.findSome? fun word =>
    (Text.dropWord? word t).map fun rest => (t.take (t.length - rest.length), rest)

/-- The message in what stands between severity and rule.  It begins and ends with no blank,
unless there are only blanks: then it is the last blank but one, of at least three. -/
def message? (middle : Text) : Option Text :=
  match Text.trim middle with
  | [] => if 3 ≤ middle.length then some ((middle.drop (middle.length - 2)).take 1) else none
  | message => some message

/-- The message and the rule in what stands after the severity. -/
def messageAndRule? (t : Text) : Option (Text × Text) :=
  let body := (Text.trimEnd Text.isBlank t).reverse
  let rule := (body.takeWhile (! Text.isBlank ·)).reverse
  let middle := (body.dropWhile (! Text.isBlank ·)).reverse
  if (middle.head?.any Text.isBlank) && rule.all isRuleChar then
    (message? middle).map fun message => (message, rule)
  else none

namespace IssueLine

def ofLine? (t : Text) : Option IssueLine :=
  match (Text.trimStart Text.isBlank t).span Text.isDecimal with
  | ([], _) => none
  | (line, ':' :: rest) =>
    match rest.span Text.isDecimal with
    | ([], _) => none
    | (column, c :: rest) =>
      if Text.isBlank c then
        match severity? (Text.trimStart Text.isBlank rest) with
        | none => none
        | some (severity, rest) =>
          (messageAndRule? rest).map fun (message, rule) =>
            ⟨line, column, severity, message, rule⟩
      else none
    | _ => none
  | _ => none

/-- The issue as a record of a file. -/
def record (i : IssueLine) (file : Option Text) : Except Decimal.Fault LintRecord :=
  match Decimal.readDigits i.line with
  | .error f => .error f
  | .ok line =>
    (Decimal.readDigits i.column).map fun column =>
      { line := some line
        column := some column
        severity := some (.word (Text.lower i.severity))
        message := some i.message
        rule := some i.rule
        file := file }

end IssueLine

/-- The file that a line names. -/
def header? (t : Text) : Option Text :=
  let word := Text.trim t
  if Text.endsWith ".sol" word && 4 < word.length && ! word.any Text.isBlank then some word
  else none

/-- The records of some lines, `file` being the file named last before them. -/
def recordsFrom (file : Option Text) : List Text → Except Decimal.Fault (List LintRecord)
  | [] => .ok []
  | t :: rest =>
    match IssueLine.ofLine? t with
    | some issue =>
      match issue.record file with
      | .error f => .error f
      | .ok r => (recordsFrom file rest).map (r :: ·)
    | none => recordsFrom ((header? t).orElse fun _ => file) rest

def records (t : Text) : Except Decimal.Fault (List LintRecord) := recordsFrom none (Text.lines t)

end ContractAudit.LintText
