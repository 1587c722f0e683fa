import ContractAudit.Json
import ContractAudit.Text.Quoted
import ContractAudit.Text.Units

/-! Writing JSON.

`write` takes the texts between items and between a key and its value, so that the compact
form and the form with a space after each mark are two uses of it; every character outside
printable ASCII is escaped there.  `indented` is the form of a findings file: one item a line,
two spaces for each level, and all but control characters, quotes and backslashes as they
are.  `shown` is the form in which a value stands inside a message. -/

namespace ContractAudit.Json

/-- The escape of a unit by four hexadecimal digits. -/
def unitEscape (u : Nat) : Text := '\\' :: 'u' :: Text.hex 4 u

/-- The escape of a character that has a short one. -/
def shortEscape? : Char → Option Text
  | '"' => some "\\\""
  | '\\' => some "\\\\"
  | '\x08' => some "\\b"
  | '\x0c' => some "\\f"
  | '\n' => some "\\n"
  | '\r' => some "\\r"
  | '\t' => some "\\t"
  | _ => none

/-- A character inside a string of ASCII. -/
def asciiChar (c : Char) : Text :=
  match shortEscape? c with
  | some e => e
  | none =>
    if 0x20 ≤ c.toNat && c.toNat < 0x7F then [c] else (Text.charUnits c).flatMap unitEscape

/-- A character inside a string of any characters. -/
def plainChar (c : Char) : Text :=
  match shortEscape? c with
  | some e => e
  | none => if 0x20 ≤ c.toNat then [c] else unitEscape c.toNat

/-- A string of ASCII. -/
def asciiString (t : Text) : Text := '"' :: t.flatMap asciiChar ++ ['"']

/-- A string of any characters. -/
def plainString (t : Text) : Text := '"' :: t.flatMap plainChar ++ ['"']

def floatText : Binary64 → Text
  | .nan => "NaN"
  | .infinite negative => if negative then "-Infinity" else "Infinity"
  | x => x.toText

mutual

/-- A value in ASCII, with `comma` between items and `colon` after keys. -/
def write (comma colon : Text) : Json → Text
  | null => "null"
  | bool b => if b then "true" else "false"
  | int n => Decimal.ofInt n
  | float x => floatText x
  | str t => asciiString t
  | arr items => '[' :: writeItems comma colon items
  | obj members => '\x7b' :: writeMembers comma colon members

def writeItems (comma colon : Text) : List Json → Text
  | [] => [']']
  | [v] => write comma colon v ++ [']']
  | v :: rest => write comma colon v ++ comma ++ writeItems comma colon rest

def writeMembers (comma colon : Text) : List (Text × Json) → Text
  | [] => ['\x7d']
  | [(k, v)] => asciiString k ++ colon ++ write comma colon v ++ ['\x7d']
  | (k, v) :: rest =>
    asciiString k ++ colon ++ write comma colon v ++ comma ++ writeMembers comma colon rest

end

/-- A value in ASCII without gaps. -/
def compact (v : Json) : Text := write [','] [':'] v

/-- A line break and the indentation of a level. -/
def newLine (level : Nat) : Text := '\n' :: List.replicate (2 * level) ' '

mutual

/-- A value with one item a line, `level` being the level of the value itself. -/
def indented (level : Nat) : Json → Text
  | null => "null"
  | bool b => if b then "true" else "false"
  | int n => Decimal.ofInt n
  | float x => floatText x
  | str t => plainString t
  | arr [] => "[]"
  | arr (v :: rest) => '[' :: indentedItems level (v :: rest)
  | obj [] => "\x7b\x7d"
  | obj (m :: rest) => '\x7b' :: indentedMembers level (m :: rest)

def indentedItems (level : Nat) : List Json → Text
  | [] => newLine level ++ [']']
  | [v] => newLine (level + 1) ++ indented (level + 1) v ++ newLine level ++ [']']
  | v :: rest => newLine (level + 1) ++ indented (level + 1) v ++ ',' :: indentedItems level rest

def indentedMembers (level : Nat) : List (Text × Json) → Text
  | [] => newLine level ++ ['\x7d']
  | [(k, v)] =>
    newLine (level + 1) ++ plainString k ++ ": " ++ indented (level + 1) v ++ newLine level
      ++ ['\x7d']
  | (k, v) :: rest =>
    newLine (level + 1) ++ plainString k ++ ": " ++ indented (level + 1) v
      ++ ',' :: indentedMembers level rest

end

mutual

/-- A value as it stands inside a message. -/
def shown : Json → Text
  | null => "None"
  | bool b => if b then "True" else "False"
  | int n => Decimal.ofInt n
  | float x => x.toText
  | str t => Text.quoted t
  | arr items => '[' :: shownItems items
  | obj members => '\x7b' :: shownMembers members

def shownItems : List Json → Text
  | [] => [']']
  | [v] => shown v ++ [']']
  | v :: rest => shown v ++ ", " ++ shownItems rest

def shownMembers : List (Text × Json) → Text
  | [] => ['\x7d']
  | [(k, v)] => Text.quoted k ++ ": " ++ shown v ++ ['\x7d']
  | (k, v) :: rest => Text.quoted k ++ ": " ++ shown v ++ ", " ++ shownMembers rest

end

/-- A value as a message begins with it: a string stands without quotes. -/
def display : Json → Text
  | str t => t
  | v => shown v

end ContractAudit.Json
