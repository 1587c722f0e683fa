import ContractAudit.FileTree
import ContractAudit.Settings

/-! Settings of a run in a directory.

The file of settings is the file `.env` of the working directory, with one `NAME=value` a line.
A name may stand in single quotes and after the word `export`; a value may stand in quotes of
either kind, with escapes, and then reach over several lines.  A value without quotes ends
before a comment, which may also take its place.  A line that has none of these forms is passed
over, and so is a byte order mark at the beginning.

Where there is no file of settings it binds nothing; one that is no text is a fault, which is told
before any fault of the environment. -/

namespace ContractAudit

namespace DotEnv

def endsLine (c : Char) : Bool := c == '\n' || c == '\r'

/-- A blank inside a line. -/
def isGap (c : Char) : Bool := Text.isBlank c && ! endsLine c

/-- The text after the word `export`, if gaps follow it. -/
def skipExport (t : Text) : Text :=
  let word : Text := "export"
  let rest := t.drop word.length
  if Text.startsWith word t && rest.head?.any isGap then rest.dropWhile isGap else t

/-- A name, and the text after it.  A comment has no name. -/
def name? : Text → Option (Option Text × Text)
  | '#' :: rest => some (none, '#' :: rest)
  | '\'' :: rest =>
    match rest.span (· ≠ '\'') with
    | ([], _) => none
    | (_, []) => none
    | (name, _ :: rest) => some (some name, rest)
  | t =>
    match t.span fun c => ! (c == '=' || c == '#' || Text.isBlank c) with
    | ([], _) => none
    | (name, rest) => some (some name, rest)

/-- The character that an escape stands for; between single quotes only the quote and the
backslash are escaped. -/
def escaped? (quote c : Char) : Option Char :=
  if c = '\\' || c = '\'' then some c
  else if quote = '\'' then none
  else
    match c with
    | '"' => some '"'
    | 'a' => some '\x07'
    | 'b' => some '\x08'
    | 'f' => some '\x0c'
    | 'n' => some '\n'
    | 'r' => some '\r'
    | 't' => some '\t'
    | 'v' => some '\x0b'
    | _ => none

/-- The text with its escapes carried out. -/
def unescape (quote : Char) : Text → Text
  | '\\' :: c :: rest =>
    match escaped? quote c with
    | some e => e :: unescape quote rest
    | none => '\\' :: unescape quote (c :: rest)
  | c :: rest => c :: unescape quote rest
  | [] => []

/-- The text up to the first quote that is not escaped, and the text after it. -/
def upToBareQuote? (quote : Char) : Text → Option (Text × Text)
  | [] => none
  | '\\' :: c :: rest => (upToBareQuote? quote rest).map fun r => ('\\' :: c :: r.1, r.2)
  | c :: rest =>
    if c = quote then some ([], rest)
    else (upToBareQuote? quote rest).map fun r => (c :: r.1, r.2)

/-- The text up to the last quote, and the text after it. -/
def upToLastQuote? (quote : Char) (t : Text) : Option (Text × Text) :=
  match t.reverse.span (· ≠ quote) with
  | (_, []) => none
  | (after, _ :: before) => some (before.reverse, after.reverse)

/-- A text between quotes, and the text after it.  Where every quote is escaped, the last one
closes the text all the same. -/
def upToQuote? (quote : Char) (t : Text) : Option (Text × Text) :=
  (upToBareQuote? quote t).orElse fun _ => upToLastQuote? quote t

/-- A value before its comment, which begins at a number sign after a blank. -/
def beforeComment : (blanks : Text) → Text → Text
  | _, [] => []
  | blanks, c :: rest =>
    if c = '#' && ! blanks.isEmpty then []
    else if Text.isBlank c then beforeComment (c :: blanks) rest
    else blanks.reverse ++ c :: beforeComment [] rest

/-- A value, and the text after it.  After a gap a comment may stand in place of a value. -/
def value? (afterGap : Bool) (t : Text) : Option (Text × Text) :=
  match t with
  | [] => some ([], [])
  | c :: rest =>
    if c = '\'' || c = '"' then
      (upToQuote? c rest).map fun r => (unescape c r.1, r.2)
    else
      let (line, later) := t.span fun c => ! endsLine c
      some (if c = '#' && afterGap then [] else beforeComment [] line, later)

/-- The text after the end of a line, if nothing but a comment comes before it. -/
def endLine? (t : Text) : Option Text :=
  let t := match t.dropWhile isGap with
    | '#' :: rest => rest.dropWhile fun c => ! endsLine c
    | rest => rest
  match t with
  | [] => some []
  | '\r' :: '\n' :: rest => some rest
  | c :: rest => if endsLine c then some rest else none

/-- The text after a line that has no form. -/
def skipLine (t : Text) : Text :=
  match t.dropWhile fun c => ! endsLine c with
  | [] => []
  | _ :: rest => rest

/-- The binding at the beginning of a text, if it has a form, and the text after it.  A name may
stand without a value. -/
def binding (t : Text) : Option (Text × Option Text) × Text :=
  let start := skipExport t
  match name? start with
  | none => (none, skipLine start)
  | some (name, rest) =>
    match rest.dropWhile isGap with
    | '=' :: after =>
      let (gap, after) := after.span isGap
      match value? (! gap.isEmpty) after with
      | none => (none, skipLine after)
      | some (value, rest) =>
        match endLine? rest with
        | none => (none, skipLine rest)
        | some rest => (name.map fun n => (n, some value), rest)
    | rest =>
      match endLine? rest with
      | none => (none, skipLine rest)
      | some rest => (name.map fun n => (n, none), rest)

/-- The bindings of a text. -/
def bindingsFrom : (fuel : Nat) → Text → List (Text × Option Text)
  | 0, _ => []
  | fuel + 1, t =>
    match t.dropWhile Text.isBlank with
    | [] => []
    | t =>
      let (b, rest) := binding t
      b.toList ++ bindingsFrom fuel rest

/-- The text without a byte order mark at its beginning. -/
def withoutMark : Text → Text
  | '\uFEFF' :: rest => rest
  | t => t

/-- The bindings of a file of settings; a name that is bound again keeps its place. -/
def bindings (t : Text) : List (Text × Option Text) :=
  (bindingsFrom (t.length + 1) (withoutMark t)).foldl (fun all b => put b.1 b.2 all) []

end DotEnv

namespace Settings

def fileName : Text := ".env"

/-- The bindings of the file of settings in a directory. -/
def fileBindings (tree : FileTree) (cwd : Text) :
    Except SettingsFault (List (Text × Option Text)) :=
  match tree.read (Path.join cwd fileName) with
  | .ok t => .ok (DotEnv.bindings t)
  | .error (.encoding f) => .error (.encoding f)
  | .error _ => .ok []

/-- The settings of a run in a directory. -/
def load (tree : FileTree) (cwd : Text) (arguments : List (Text × Json))
    (environment : List (Text × Text)) (depth : Nat := Json.usualDepth) :
    Except SettingsFault Settings :=
  match fileBindings tree cwd with
  | .error f => .error f
  | .ok file => ofSources arguments environment file depth

end Settings

end ContractAudit
