import ContractAudit.Text

/-! The segments of an ignore pattern, and what they match. -/

namespace ContractAudit.Ignore

/-! ## Pieces

A piece matches the beginning of a text in some ways; `remainders` lists what each of them
leaves.  A row of pieces matches a text if some choice for each of them succeeds; what is left
at the end does not matter, since the pieces that end a pattern look for a boundary. -/

/-- A piece of a pattern. -/
inductive Piece
  /-- Any characters of one name. -/
  | star
  /-- One character or more of one name. -/
  | wholeName
  /-- One character of a name. -/
  | anyChar
  | char (c : Char)
  /-- One character inside some ranges, or outside all of them. -/
  | oneOf (negated : Bool) (ranges : List (Char × Char))
  /-- Nothing, or some directories with the slash after them. -/
  | leadingDirectories
  /-- Nothing, or some directories with the slash before them. -/
  | innerDirectories
  | slash
  /-- A slash or the end. -/
  | boundary
  deriving DecidableEq

namespace Piece

/-- What is left of `t` after any number of characters of one name. -/
def afterName : Text → List Text
  | [] => [[]]
  | c :: rest => (c :: rest) :: if c = '/' then [] else afterName rest

/-- What is left of `t` after any number of characters of one line. -/
def afterLine : Text → List Text
  | [] => [[]]
  | c :: rest => (c :: rest) :: if c = '\n' then [] else afterLine rest

/-- What is left of `t` after each slash of its first line. -/
def afterSlashes : Text → List Text
  | [] => []
  | c :: rest =>
    (if c = '/' then [rest] else []) ++ if c = '\n' then [] else afterSlashes rest

def inRanges (ranges : List (Char × Char)) (c : Char) : Bool :=
  ranges.any fun r => r.1 ≤ c && c ≤ r.2

/-- What each match of a piece at the beginning of a text leaves. -/
def remainders : Piece → Text → List Text
  | star, t => afterName t
  | wholeName, c :: rest => if c = '/' then [] else afterName rest
  | wholeName, [] => []
  | anyChar, c :: rest => if c = '/' then [] else [rest]
  | anyChar, [] => []
  | char c, d :: rest => if c = d then [rest] else []
  | char _, [] => []
  | oneOf negated ranges, c :: rest => if inRanges ranges c = negated then [] else [rest]
  | oneOf _ _, [] => []
  | leadingDirectories, t =>
    t :: match t with
      | c :: rest => if c = '\n' then [] else afterSlashes rest
      | [] => []
  | innerDirectories, t =>
    t :: match t with
      | '/' :: c :: rest => if c = '\n' then [] else afterLine rest
      | _ => []
  | slash, '/' :: rest => [rest]
  | slash, _ => []
  | boundary, [] => [[]]
  | boundary, ['\n'] => [['\n']]
  | boundary, '/' :: rest => [rest]
  | boundary, _ => []

end Piece

/-- What the matches of a row of pieces leave. -/
def remainders (pieces : List Piece) (t : Text) : List Text :=
  pieces.foldl (fun lefts piece => (lefts.flatMap piece.remainders).eraseDups) [t]

/-- The row of pieces matches the beginning of a text. -/
def fits (pieces : List Piece) (t : Text) : Bool := ! (remainders pieces t).isEmpty

/-! ## Globs

A star stands for any characters, a question mark for one, and a bracket for one of a set; a
backslash takes the meaning from the character after it.  Inside a bracket a closing bracket
that stands first is a member, a backslash is a member like any other, and an exclamation mark
or a caret in front turns the set around. -/

/-- Why a segment is no glob. -/
inductive GlobFault
  /-- A backslash with nothing after it. -/
  | danglingEscape
  /-- A bracket that is not closed. -/
  | unclosed
  deriving DecidableEq, Repr

/-- The ranges that a set lists; a single character is a range of one. -/
def setRanges : Text → List (Char × Char)
  | a :: '-' :: b :: rest => (a, b) :: setRanges rest
  | a :: rest => (a, a) :: setRanges rest
  | [] => []

/-- The members of a bracket and the number of characters up to its end. -/
def members? (t : Text) : Option (Text × Nat) :=
  let (first, rest) := match t with
    | ']' :: rest => ([']'], rest)
    | rest => ([], rest)
  match rest.span (· ≠ ']') with
  | (_, []) => none
  | (inner, _ :: _) => some (first ++ inner, first.length + inner.length + 1)

/-- The set after an opening bracket and the number of characters up to its end. -/
def bracket? (t : Text) : Option (Piece × Nat) :=
  let negated := t.head?.any fun c => c == '!' || c == '^'
  let skipped := if negated then 1 else 0
  (members? (t.drop skipped)).map fun (members, count) =>
    (.oneOf negated (setRanges members), count + skipped)

/-- The pieces of a glob after its first `skip` characters. -/
def globFrom : (skip : Nat) → Text → Except GlobFault (List Piece)
  | _, [] => .ok []
  | skip + 1, _ :: rest => globFrom skip rest
  | 0, ['\\'] => .error .danglingEscape
  | 0, '\\' :: c :: rest => (globFrom 0 rest).map (.char c :: ·)
  | 0, '*' :: rest => (globFrom 0 rest).map (.star :: ·)
  | 0, '?' :: rest => (globFrom 0 rest).map (.anyChar :: ·)
  | 0, '[' :: rest =>
    match bracket? rest with
    | none => .error .unclosed
    | some (piece, count) => (globFrom count rest).map (piece :: ·)
  | 0, c :: rest => (globFrom 0 rest).map (.char c :: ·)

/-- The pieces of a glob. -/
def glob (t : Text) : Except GlobFault (List Piece) := globFrom 0 t

end ContractAudit.Ignore
