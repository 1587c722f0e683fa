import ContractAudit.Solidity.Token

/-! Syntax trees of Solidity, and what they import.

A parser of the language turns a text into a tree of nodes.  A node has a kind and spans a text, it
may stand in a field of the node above it, and its children stand in the order of the text.

`imports` walks through a tree with a stack of the nodes still to be looked at.  A node that is a
directive gives its specifier and is left; of any other node the children take its place. -/

namespace ContractAudit.Solidity

/-- A node of a syntax tree, with the field of the node above it in which it stands. -/
inductive Node
  | mk (kind : Text) (field? : Option Text) (text : Text) (children : List Node)

namespace Node

def kind : Node → Text
  | mk kind _ _ _ => kind

def field? : Node → Option Text
  | mk _ field? _ _ => field?

def text : Node → Text
  | mk _ _ text _ => text

def children : Node → List Node
  | mk _ _ _ children => children

mutual

/-- The number of nodes in a tree. -/
def size : Node → Nat
  | mk _ _ _ children => sizeAll children + 1

def sizeAll : List Node → Nat
  | [] => 0
  | n :: rest => n.size + sizeAll rest

end

/-- The kind of directives. -/
def directiveKind : Text := "import_directive"

/-- The kind of string literals. -/
def literalKind : Text := "string"

/-- The field for what a directive imports. -/
def sourceField : Text := "source"

/-- What a directive imports: what stands in the field for it, or else its first string. -/
def source? (n : Node) : Option Node :=
  (n.children.find? fun c => c.field? == some sourceField).orElse fun _ =>
    n.children.find? fun c => c.kind == literalKind

/-- A literal without the quotes at either end. -/
def unquoted (t : Text) : Text := Text.trimEnd isQuote (Text.trimStart isQuote t)

/-- The specifier of a directive. -/
def specifier? (n : Node) : Option Text :=
  match n.source? with
  | none => none
  | some s => if s.text.isEmpty then none else some (unquoted s.text)

/-- The stack with some more nodes on it, the last of them on top. -/
def push (stack nodes : List Node) : List Node := nodes.foldl (fun stack n => n :: stack) stack

/-- The specifiers found in at most `fuel` steps, behind those found before. -/
def importsFrom : (fuel : Nat) → (stack : List Node) → (found : List Text) → List Text
  | 0, _, found => found
  | _ + 1, [], found => found
  | fuel + 1, n :: stack, found =>
    if n.kind = directiveKind then importsFrom fuel stack (found ++ n.specifier?.toList)
    else importsFrom fuel (push stack n.children.reverse) found

/-- The specifiers of the directives in a tree, in the order of the text. -/
def imports (root : Node) : List Text := importsFrom root.size [root] []

end Node

end ContractAudit.Solidity
