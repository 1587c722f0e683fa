import ContractAudit.Json
import ContractAudit.Text.Digit
import ContractAudit.Text.Units

/-! Reading JSON.

The reader accepts JSON and three numbers beyond it, `NaN`, `Infinity` and `-Infinity`.  Gaps
between tokens are spaces, tabs, carriage returns and line feeds.  A control character inside
a string is refused, a whole number of more than `Decimal.limit` digits is refused, and
arrays and objects may be nested only so deep as is said.

Every function takes the text that is left and returns what it leaves.  A fault keeps how many
characters were left where it arose, and `Fault.message` turns that into a place. -/

namespace ContractAudit.Json

/-- What is wrong at one place of a text. -/
inductive Cause
  | value
  | name
  | colon
  | comma
  | unterminated
  | control
  | escape
  | unicodeEscape
  | extra
  | byteOrderMark
  deriving DecidableEq, Repr

def Cause.words : Cause → Text
  | .value => "Expecting value"
  | .name => "Expecting property name enclosed in double quotes"
  | .colon => "Expecting ':' delimiter"
  | .comma => "Expecting ',' delimiter"
  | .unterminated => "Unterminated string starting at"
  | .control => "Invalid control character at"
  | .escape => "Invalid \\escape"
  | .unicodeEscape => "Invalid \\uXXXX escape"
  | .extra => "Extra data"
  | .byteOrderMark => "Unexpected UTF-8 BOM (decode using utf-8-sig)"

/-- Why a text is no JSON value. -/
inductive Fault
  /-- A place, `left` characters before the end. -/
  | malformed (cause : Cause) (left : Nat)
  /-- A whole number with too many digits. -/
  | number (count : Nat)
  /-- An array or an object nested too deep. -/
  | tooDeep (object : Bool)
  deriving DecidableEq

/-- The place of a fault: line, column and number of the character. -/
def place (t : Text) (left : Nat) : Text :=
  let front := t.take (t.length - left)
  let line := front.count '\n' + 1
  let column := (front.reverse.takeWhile (· ≠ '\n')).length + 1
  "line " ++ Decimal.digits line ++ " column " ++ Decimal.digits column ++ " (char "
    ++ Decimal.digits front.length ++ ")"

def Fault.message (t : Text) : Fault → Text
  | .malformed cause left => cause.words ++ ": " ++ place t left
  | .number count => (Decimal.Fault.tooLong count).message
  | .tooDeep object =>
    "maximum recursion depth exceeded while decoding a JSON " ++
      (if object then "object" else "array") ++ " from a unicode string"

/-- How deep arrays and objects may be nested, where nothing else is said. -/
def usualDepth : Nat := 990

/-- How deep the body of a reply may be nested, and a text of the linter inside of one. -/
structure Depths where
  body : Nat := usualDepth
  lint : Nat := usualDepth

/-- A character that may stand between tokens. -/
def isGap (c : Char) : Bool := c == ' ' || c == '\t' || c == '\n' || c == '\r'

def skipGap (t : Text) : Text := t.dropWhile isGap

/-- The value of a hexadecimal digit. -/
def hexValue? (c : Char) : Option Nat :=
  let n := c.toNat
  if 48 ≤ n && n ≤ 57 then some (n - 48)
  else if 97 ≤ n && n ≤ 102 then some (n - 87)
  else if 65 ≤ n && n ≤ 70 then some (n - 55)
  else none

/-- The unit that four hexadecimal digits stand for. -/
def hexUnit? (a b c d : Char) : Option Nat :=
  match hexValue? a, hexValue? b, hexValue? c, hexValue? d with
  | some a, some b, some c, some d => some (a * 4096 + b * 256 + c * 16 + d)
  | _, _, _, _ => none

/-- The character that a letter after a backslash stands for. -/
def escaped? : Char → Option Char
  | '"' => some '"'
  | '\\' => some '\\'
  | '/' => some '/'
  | 'b' => some '\x08'
  | 'f' => some '\x0c'
  | 'n' => some '\n'
  | 'r' => some '\r'
  | 't' => some '\t'
  | _ => none

/-- The units of a string up to its closing quote, `opening` characters being left at the
opening one. -/
def readUnits (opening : Nat) : Text → Except Fault (List Nat × Text)
  | [] => .error (.malformed .unterminated opening)
  | ['\\'] => .error (.malformed .unterminated opening)
  | '\\' :: 'u' :: rest =>
    match rest with
    | a :: b :: c :: d :: e :: rest =>
      match hexUnit? a b c d with
      | some u => (readUnits opening (e :: rest)).map fun r => (u :: r.1, r.2)
      | none => .error (.malformed .unicodeEscape (rest.length + 6))
    | short => .error (.malformed .unicodeEscape (short.length + 1))
  | '\\' :: c :: rest =>
    match escaped? c with
    | some e => (readUnits opening rest).map fun r => (e.toNat :: r.1, r.2)
    | none => .error (.malformed .escape (rest.length + 2))
  | c :: rest =>
    if c = '"' then .ok ([], rest)
    else if c.toNat < 0x20 then .error (.malformed .control (rest.length + 1))
    else (readUnits opening rest).map fun r => (c.toNat :: r.1, r.2)

/-- The string after its opening quote. -/
def readString (t : Text) : Except Fault (Text × Text) :=
  (readUnits (t.length + 1) t).map fun r => (Text.ofUnits r.1, r.2)

/-- The digits after a decimal point, if there are any. -/
def readFraction : Text → Text × Text
  | '.' :: rest =>
    match rest.span Text.isAsciiDigit with
    | ([], _) => ([], '.' :: rest)
    | (ds, rest) => (ds, rest)
  | t => ([], t)

/-- The power of ten after an `e`, if there is one. -/
def readExponent? (t : Text) : Option (Int × Text) :=
  match t with
  | e :: rest =>
    if e = 'e' || e = 'E' then
      let (negative, rest) := match rest with
        | '-' :: rest => (true, rest)
        | '+' :: rest => (false, rest)
        | rest => (false, rest)
      match rest.span Text.isAsciiDigit with
      | ([], _) => none
      | (ds, rest) =>
        some (if negative then -(Decimal.value ds : Int) else Decimal.value ds, rest)
    else none
  | [] => none

/-- The number with the sign and the digits `ds` before the point. -/
def finishNumber (negative : Bool) (ds t : Text) : Except Fault (Json × Text) :=
  match readFraction t with
  | ([], t) =>
    match readExponent? t with
    | none =>
      if Decimal.limit < ds.length then .error (.number ds.length)
      else .ok (int (if negative then -(Decimal.value ds : Int) else Decimal.value ds), t)
    | some (x, t) => .ok (float (Binary64.ofDecimal negative (Decimal.value ds) x), t)
  | (fs, t) =>
    match readExponent? t with
    | none => .ok (float (Binary64.ofDecimal negative (Decimal.value (ds ++ fs)) (-fs.length)), t)
    | some (x, t) =>
      .ok (float (Binary64.ofDecimal negative (Decimal.value (ds ++ fs)) (x - fs.length)), t)

/-- The number at the beginning of `t`, its sign read already, `whole` characters being left
before the sign. -/
def readNumber (whole : Nat) (negative : Bool) (t : Text) : Except Fault (Json × Text) :=
  match t.span Text.isAsciiDigit with
  | ([], _) => .error (.malformed .value whole)
  | ('0' :: ds, rest) => finishNumber negative ['0'] (ds ++ rest)
  | (ds, rest) => finishNumber negative ds rest

/-- A value that is neither an array nor an object. -/
def readScalar (t : Text) : Except Fault (Json × Text) :=
  match t with
  | '"' :: rest => (readString rest).map fun r => (str r.1, r.2)
  | 'n' :: 'u' :: 'l' :: 'l' :: rest => .ok (null, rest)
  | 't' :: 'r' :: 'u' :: 'e' :: rest => .ok (bool true, rest)
  | 'f' :: 'a' :: 'l' :: 's' :: 'e' :: rest => .ok (bool false, rest)
  | 'N' :: 'a' :: 'N' :: rest => .ok (float .nan, rest)
  | 'I' :: 'n' :: 'f' :: 'i' :: 'n' :: 'i' :: 't' :: 'y' :: rest =>
    .ok (float (.infinite false), rest)
  | '-' :: 'I' :: 'n' :: 'f' :: 'i' :: 'n' :: 'i' :: 't' :: 'y' :: rest =>
    .ok (float (.infinite true), rest)
  | '-' :: rest => readNumber t.length true rest
  | t => readNumber t.length false t

/-- The items of an array from the first one on. -/
def readItems (item : Text → Except Fault (Json × Text)) :
    (fuel : Nat) → Text → Except Fault (List Json × Text)
  | 0, t => .error (.malformed .comma t.length)
  | fuel + 1, t =>
    match item t with
    | .error f => .error f
    | .ok (v, t) =>
      match skipGap t with
      | ']' :: rest => .ok ([v], rest)
      | ',' :: rest => (readItems item fuel (skipGap rest)).map fun r => (v :: r.1, r.2)
      | t => .error (.malformed .comma t.length)

/-- The members of an object from the first one on. -/
def readMembers (item : Text → Except Fault (Json × Text)) :
    (fuel : Nat) → Text → Except Fault (List (Text × Json) × Text)
  | 0, t => .error (.malformed .comma t.length)
  | fuel + 1, t =>
    match t with
    | '"' :: rest =>
      match readString rest with
      | .error f => .error f
      | .ok (key, t) =>
        match skipGap t with
        | ':' :: rest =>
          match item (skipGap rest) with
          | .error f => .error f
          | .ok (v, t) =>
            match skipGap t with
            | '}' :: rest => .ok ([(key, v)], rest)
            | ',' :: rest =>
              (readMembers item fuel (skipGap rest)).map fun r => ((key, v) :: r.1, r.2)
            | t => .error (.malformed .comma t.length)
        | t => .error (.malformed .colon t.length)
    | t => .error (.malformed .name t.length)

/-- The value at the beginning of a text, with at most `depth` levels of nesting. -/
def readValue : (depth : Nat) → Text → Except Fault (Json × Text)
  | 0, '[' :: _ => .error (.tooDeep false)
  | 0, '{' :: _ => .error (.tooDeep true)
  | depth + 1, '[' :: rest =>
    match skipGap rest with
    | ']' :: rest => .ok (arr [], rest)
    | t => (readItems (readValue depth) (t.length + 1) t).map fun r => (arr r.1, r.2)
  | depth + 1, '{' :: rest =>
    match skipGap rest with
    | '}' :: rest => .ok (obj [], rest)
    | t => (readMembers (readValue depth) (t.length + 1) t).map fun r => (obj (ofPairs r.1), r.2)
  | _, t => readScalar t

/-- The value that a whole text holds. -/
def readBody (depth : Nat) (t : Text) : Except Fault Json :=
  match readValue depth (skipGap t) with
  | .error f => .error f
  | .ok (v, rest) =>
    match skipGap rest with
    | [] => .ok v
    | rest => .error (.malformed .extra rest.length)

/-- The value that a whole text holds, unless the text begins with a byte order mark. -/
def read (depth : Nat) (t : Text) : Except Fault Json :=
  match t with
  | '\ufeff' :: _ => .error (.malformed .byteOrderMark t.length)
  | _ => readBody depth t

end ContractAudit.Json
