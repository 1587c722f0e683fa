import ContractAudit.Solidity.Node

/-! Import directives.

`parse` is the parser that is used where no other one is given.  Of a text it sees the directives
alone, which it finds by the tokens.

The items of a text end at a semicolon or a brace outside all other braces.  An item that begins
with the word `import` is a directive, and what it imports is its string literal.  Anywhere else
`import` is a word as any other.

An item that begins with `pragma` goes up to the next semicolon, and after its name and the
comments behind it everything counts as its value, quotes, braces and comments included.  Only a
pragma about the language itself consists of tokens. -/

namespace ContractAudit.Solidity

def importWord : Text := "import"

def pragmaWord : Text := "pragma"

/-- The name of the pragmas about the language itself. -/
def languageWord : Text := "solidity"

/-- Where in a text a token stands. -/
inductive Place
  /-- At the beginning of an item. -/
  | start
  /-- Inside an item, and inside `depth` braces. -/
  | item (depth : Nat)
  /-- Inside a directive. -/
  | directive
  /-- After the word `pragma`. -/
  | pragma
  deriving DecidableEq, Repr

namespace Place

/-- The place after a mark inside an item, and inside `depth` braces. -/
def afterMark (depth : Nat) (c : Char) : Place :=
  if c = '\x7b' then .item (depth + 1)
  else if c = '\x7d' then if depth ≤ 1 then .start else .item (depth - 1)
  else if c = ';' && depth = 0 then .start
  else .item depth

def after : Place → Token → Place
  | .start, .word w =>
    if w = importWord then .directive else if w = pragmaWord then .pragma else .item 0
  | .start, .mark c => afterMark 0 c
  | .start, .literal _ => .item 0
  | .item depth, .mark c => afterMark depth c
  | .item depth, _ => .item depth
  | .directive, .word _ => .directive
  | .directive, .mark c => if c = ';' then .start else .directive
  | .directive, .literal _ => .item 0
  | .pragma, _ => .item 0

end Place

/-- What a token at a place imports. -/
def literalAt : Place → Token → List Text
  | .directive, .literal t => [t]
  | _, _ => []

/-- The text after a token at a place: the name of a pragma takes the value with it. -/
def restAfter : Place → Token → Text → Text
  | .pragma, .word w, rest =>
    if w = languageWord then rest else (skipGap rest).dropWhile (· ≠ ';')
  | _, _, rest => rest

/-- What the directives in the next `fuel` tokens of a text import. -/
def literalsFrom : (fuel : Nat) → Place → Text → List Text
  | 0, _, _ => []
  | fuel + 1, place, t =>
    match next? t with
    | none => []
    | some (token, rest) =>
      literalAt place token ++ literalsFrom fuel (place.after token) (restAfter place token rest)

/-- What the directives of a text import, in their order. -/
def literals (t : Text) : List Text := literalsFrom (t.length + 1) .start t

/-- The kind of the root of a tree. -/
def rootKind : Text := "source_file"

/-- A directive in its shortest form. -/
def directiveNode (literal : Text) : Node :=
  let source : Text := '"' :: literal ++ ['"']
  .mk Node.directiveKind none (importWord ++ source ++ [';'])
    [.mk Node.literalKind (some Node.sourceField) source []]

/-- The tree of the directives of a text. -/
def parse (t : Text) : Node := .mk rootKind none t ((literals t).map directiveNode)

/-- What a text imports, as a parser sees it. -/
def imports (t : Text) (parse : Text → Node := parse) : List Text := (parse t).imports

end ContractAudit.Solidity
