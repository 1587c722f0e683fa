import ContractAudit.Ignore.Glob

/-! Ignore files.

Each line of an ignore file is a pattern, a comment or nothing.  A pattern without a slash, or
with one only at its end, matches at any depth; every other one matches from the root of the
project on.  A slash at the end restricts a pattern to directories, whose paths are written with
a slash at the end.  An exclamation mark in front turns a pattern into an exception.  The last
pattern that matches a path decides about it. -/

namespace ContractAudit.Ignore

/-- Why an ignore file is refused. -/
inductive Fault
  /-- A line is no pattern. -/
  | pattern
  /-- A set holds a range whose end comes before its beginning. -/
  | range
  deriving DecidableEq, Repr

def Fault.message : Fault → Text
  | .pattern => "Invalid git pattern"
  | .range => "Bad character range"

/-- What a pattern matches. -/
inductive Pattern
  /-- Every path. -/
  | all
  /-- Every path with a slash. -/
  | directories
  /-- Paths that begin with these pieces. -/
  | path (pieces : List Piece)
  deriving DecidableEq

def Pattern.matches : Pattern → Text → Bool
  | all, p => p.any (· ≠ '\n')
  | directories, p => p.contains '/'
  | path pieces, p => fits pieces p

/-- A pattern, or an exception. -/
structure Rule where
  negated : Bool
  pattern : Pattern
  deriving DecidableEq

/-- The segment that stands for any number of directories. -/
def anyDepth : Text := "**"

/-- A row of segments without repetitions of the segment for any depth. -/
def collapse : List Text → List Text
  | a :: b :: rest =>
    if a = anyDepth ∧ b = anyDepth then collapse (b :: rest) else a :: collapse (b :: rest)
  | segments => segments

/-- The segments with the one for any depth in place of an empty last one. -/
def openEnd (segments : List Text) : List Text :=
  match segments.reverse with
  | [] :: rest => (anyDepth :: rest).reverse
  | _ => segments

/-- The segments from the root of the project on. -/
def rooted (segments : List Text) : List Text :=
  match segments with
  | [] :: rest => rest
  | [s] => if s = anyDepth then [s] else [anyDepth, s]
  | [s, []] => if s = anyDepth then [s, []] else [anyDepth, s, []]
  | segments => segments

/-- The pieces of the segments after the first. -/
def piecesAfter : (slash : Bool) → List Text → Except GlobFault (List Piece)
  | _, [] => .ok []
  | slash, s :: rest =>
    if s = anyDepth then
      if rest.isEmpty then .ok [.slash]
      else (piecesAfter true rest).map (.innerDirectories :: ·)
    else
      match (if s = ['*'] then .ok [.wholeName] else glob s) with
      | .error f => .error f
      | .ok pieces =>
        (piecesAfter true rest).map fun later =>
          (if slash then [.slash] else []) ++ pieces ++ (if rest.isEmpty then [.boundary] else [])
            ++ later

def piecesOf : List Text → Except GlobFault (List Piece)
  | [] => .ok []
  | s :: rest =>
    if s = anyDepth then (piecesAfter false rest).map (.leadingDirectories :: ·)
    else piecesAfter false (s :: rest)

/-- A set of the piece holds a range whose end comes before its beginning. -/
def Piece.isReversed : Piece → Bool
  | .oneOf _ ranges => ranges.any fun r => r.2 < r.1
  | _ => false

/-- The pattern of some segments; `directory` if a slash stood at the end. -/
def patternOf (directory : Bool) (segments : List Text) : Except Fault (Option Pattern) :=
  if segments.isEmpty then .error .pattern
  else if segments = [anyDepth] then .ok (some (if directory then .directories else .all))
  else if segments = [anyDepth, ['*']] then .ok (some .all)
  else if segments = [anyDepth, ['*'], anyDepth] then .ok (some .directories)
  else
    match piecesOf segments with
    | .error .danglingEscape => .error .pattern
    | .error .unclosed => .ok none
    | .ok pieces =>
      if pieces.any Piece.isReversed then .error .range else .ok (some (.path pieces))

/-- The line without the blanks at its end, unless the last of them is escaped. -/
def stripLine (t : Text) : Text :=
  if Text.endsWith "\\ " t then t else Text.trimEnd Text.isBlank t

/-- The rule of a line. -/
def ofLine? (line : Text) : Except Fault (Option Rule) :=
  let t := stripLine line
  if t.isEmpty || t.head? == some '#' || t == ['/'] then .ok none
  else
    let (negated, t) := match t with
      | '!' :: rest => (true, rest)
      | t => (false, t)
    let segments := Text.split '/' t
    (patternOf (segments.getLast? == some []) (collapse (openEnd (rooted segments)))).map
      fun pattern => pattern.map fun p => ⟨negated, p⟩

def ofLines : List Text → Except Fault (List Rule)
  | [] => .ok []
  | line :: rest =>
    match ofLine? line with
    | .error f => .error f
    | .ok rule => (ofLines rest).map (rule.toList ++ ·)

def ignores (rules : List Rule) (p : Text) : Bool :=
  rules.foldl (fun ignored r => if r.pattern.matches p then ! r.negated else ignored) false

/-- The paths that the lines of an ignore file name. -/
def matcher (lines : List Text) : Except Fault (Text → Bool) := (ofLines lines).map ignores

end ContractAudit.Ignore
