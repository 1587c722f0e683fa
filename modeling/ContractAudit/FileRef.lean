import ContractAudit.Finding
import ContractAudit.LineRange
import ContractAudit.Table
import ContractAudit.Text.Digit

/-! References to lines of files inside a description.

A reference is written `file#line` or `file#line-line`, where the file ends in `.sol`.  It lies
within a word, that is, a run of characters that are neither blanks nor parentheses; a word
holds at most one reference, and of several places where `.sol#` and a digit stand in a word,
the last one counts.  All of the word before it is the file.

`Location.ofSpans` gathers the references of each file, in the order in which the files are
first named. -/

namespace ContractAudit

/-- A reference with its digits not yet read. -/
structure FileRef where
  file : Text
  first : Text
  last : Option Text
  deriving DecidableEq

namespace FileRef

def endsWord (c : Char) : Bool := Text.isBlank c || c == '(' || c == ')'

/-- The words of a description, empty ones included. -/
def words (t : Text) : List Text := List.splitOnP endsWord t

/-- The ending of the files that can be referred to. -/
def ending : Text := ".sol"

/-- The text after a mark `.sol#` that a digit follows. -/
def afterMark? : Text → Option Text
  | '.' :: 's' :: 'o' :: 'l' :: '#' :: d :: rest =>
    if Text.isDecimal d then some (d :: rest) else none
  | _ => none

/-- The file of the last mark in a word, and the text after the mark. -/
def lastMark? : Text → Option (Text × Text)
  | [] => none
  | c :: rest =>
    match lastMark? rest with
    | some (file, tail) => some (c :: file, tail)
    | none => (afterMark? rest).map fun tail => (c :: ending, tail)

def secondLine? : Text → Option Text
  | '-' :: rest =>
    match rest.takeWhile Text.isDecimal with
    | [] => none
    | ds => some ds
  | _ => none

def ofWord? (word : Text) : Option FileRef :=
  (lastMark? word).map fun (file, tail) =>
    ⟨file, tail.takeWhile Text.isDecimal, secondLine? (tail.dropWhile Text.isDecimal)⟩

/-- The references of a description in their order. -/
def ofText (t : Text) : List FileRef := (words t).filterMap ofWord?

def bounds (r : FileRef) : Except Decimal.Fault (Int × Int) :=
  match Decimal.readDigits r.first with
  | .error f => .error f
  | .ok first =>
    match r.last with
    | none => .ok (first, first)
    | some last => (Decimal.readDigits last).map fun last => ((first : Int), (last : Int))

/-- The file of a reference with its bounds. -/
def span (r : FileRef) : Except Decimal.Fault (Text × List (Int × Int)) :=
  r.bounds.map fun b => (r.file, [b])

end FileRef

namespace Location

/-- One location for each file. -/
def ofSpans (refs : List (Text × List (Int × Int))) : List Location :=
  (gather refs).map fun (file, spans) => ⟨file, LineRange.coalesce spans⟩

/-- The locations that a description names. -/
def ofDescription (t : Text) : Except Decimal.Fault (List Location) :=
  ((FileRef.ofText t).mapM FileRef.span).map ofSpans

end Location

end ContractAudit
