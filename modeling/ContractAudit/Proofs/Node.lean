import ContractAudit.Proofs.Lines
import ContractAudit.Solidity.Node

/-!
# The directives in a tree

`directives` are the outermost nodes of a tree that are directives, in the order of the text.  The
walk with a stack comes past all of them in this order: what it has found, with what the nodes on
the stack will still give, is the same after every step, and the number of nodes on the stack and
below goes down by one.

    root.imports = root.directives.filterMap specifier?     (imports_eq)
    n.IsSource s → n.source? = some s                       (IsSource.source?_eq)
-/

namespace ContractAudit.Solidity.Node

/-! ## The walk -/

mutual

/-- The outermost directives in a tree. -/
def directives : Node → List Node
  | mk kind field? text children =>
    if kind = directiveKind then [mk kind field? text children] else directivesAll children

def directivesAll : List Node → List Node
  | [] => []
  | n :: rest => n.directives ++ directivesAll rest

end

theorem directives_eq (n : Node) :
    n.directives = if n.kind = directiveKind then [n] else directivesAll n.children := by
  cases n
  rfl

theorem directivesAll_append (nodes more : List Node) :
    directivesAll (nodes ++ more) = directivesAll nodes ++ directivesAll more := by
  induction nodes with
  | nil => rfl
  | cons n nodes ih => rw [List.cons_append, directivesAll, directivesAll, ih, List.append_assoc]

theorem size_eq (n : Node) : n.size = sizeAll n.children + 1 := by
  cases n
  rfl

theorem sizeAll_append (nodes more : List Node) :
    sizeAll (nodes ++ more) = sizeAll nodes + sizeAll more := by
  induction nodes with
  | nil => exact (Nat.zero_add _).symm
  | cons n nodes ih => rw [List.cons_append, sizeAll, sizeAll, ih, Nat.add_assoc]

theorem push_eq (stack nodes : List Node) : push stack nodes = nodes.reverse ++ stack := by
  induction nodes generalizing stack with
  | nil => rfl
  | cons n nodes ih =>
    show push (n :: stack) nodes = _
    rw [ih, List.reverse_cons, List.append_assoc]
    rfl

/-- Children that are put on the stack in reverse stand there in their order. -/
theorem push_reverse (stack nodes : List Node) : push stack nodes.reverse = nodes ++ stack := by
  rw [push_eq, List.reverse_reverse]

/-- **The walk gives the directives on the stack and below.** -/
theorem importsFrom_eq {fuel : Nat} {stack : List Node} (h : sizeAll stack ≤ fuel)
    (found : List Text) :
    importsFrom fuel stack found = found ++ (directivesAll stack).filterMap specifier? := by
  induction fuel generalizing stack found with
  | zero =>
    cases stack with
    | nil => exact (List.append_nil found).symm
    | cons n stack =>
      rw [sizeAll, size_eq] at h
      omega
  | succ fuel ih =>
    cases stack with
    | nil => exact (List.append_nil found).symm
    | cons n stack =>
      rw [sizeAll, size_eq] at h
      rw [importsFrom, directivesAll, directives_eq]
      split
      · rw [ih (by omega), List.append_assoc, List.filterMap_append]
        cases hn : n.specifier? <;> simp [hn]
      · have hstack : sizeAll (n.children ++ stack) ≤ fuel := by
          rw [sizeAll_append]
          omega
        rw [push_reverse, ih hstack, directivesAll_append]

/-- **The imports of a tree are those of its directives**, one after the other. -/
theorem imports_eq (root : Node) : root.imports = root.directives.filterMap specifier? := by
  have hsize : sizeAll [root] ≤ root.size := Nat.le_refl _
  rw [imports, importsFrom_eq hsize, directivesAll, directivesAll, List.append_nil]
  rfl

/-! ## What a directive imports -/

/-- The node says what the directive imports: nothing else stands in the field for it, or nothing
at all does and the node is the only string. -/
inductive IsSource (directive s : Node) : Prop
  | field (hs : s ∈ directive.children) (hfield : s.field? = some sourceField)
      (hone : ∀ c ∈ directive.children, c.field? = some sourceField → c = s)
  | literal (hs : s ∈ directive.children) (hkind : s.kind = literalKind)
      (hnone : ∀ c ∈ directive.children, c.field? ≠ some sourceField)
      (hone : ∀ c ∈ directive.children, c.kind = literalKind → c = s)

theorem find?_eq_of_forall {p : Node → Bool} {nodes : List Node} {s : Node} (hs : s ∈ nodes)
    (hp : p s = true) (hone : ∀ c ∈ nodes, p c = true → c = s) : nodes.find? p = some s := by
  cases hfind : nodes.find? p with
  | none => exact absurd hp (List.find?_eq_none.1 hfind s hs)
  | some c => rw [hone c (List.mem_of_find?_eq_some hfind) (List.find?_some hfind)]

theorem IsSource.source?_eq {directive s : Node} (h : IsSource directive s) :
    directive.source? = some s := by
  unfold source?
  cases h with
  | field hs hfield hone =>
    rw [find?_eq_of_forall hs (by simpa using hfield) (by simpa using hone)]
    rfl
  | literal hs hkind hnone hone =>
    rw [List.find?_eq_none.2 (by simpa using hnone),
      find?_eq_of_forall hs (by simpa using hkind) (by simpa using hone)]
    rfl

/-- Of a text without quotes that stands in quotes the text is left. -/
theorem unquoted_eq {q : Char} {t : Text} (hq : isQuote q = true)
    (ht : ∀ c ∈ t, isQuote c = false) : unquoted (q :: (t ++ [q])) = t := by
  have hopened : Text.trimStart isQuote (q :: (t ++ [q])) = (t ++ [q]).dropWhile isQuote :=
    List.dropWhile_cons_of_pos hq
  have hclosed : Text.trimEnd isQuote (t ++ [q]) = t := by
    rw [Text.trimEnd, List.reverse_append, List.reverse_singleton, List.singleton_append,
      List.dropWhile_cons_of_pos hq, Text.dropWhile_eq_self, List.reverse_reverse]
    exact fun c hc => ht c (List.mem_reverse.1 (List.mem_of_mem_head? hc))
  rw [unquoted, hopened]
  cases t with
  | nil =>
    rw [List.nil_append, List.dropWhile_cons_of_pos hq]
    rfl
  | cons c t =>
    rw [List.cons_append, List.dropWhile_cons_of_neg (by simp [ht c List.mem_cons_self])]
    exact hclosed

theorem specifier?_eq {directive s : Node} (h : IsSource directive s) {q : Char} {t : Text}
    (hq : isQuote q = true) (ht : ∀ c ∈ t, isQuote c = false) (hs : s.text = q :: (t ++ [q])) :
    directive.specifier? = some t := by
  rw [specifier?, h.source?_eq]
  simp only [hs, List.isEmpty_cons, Bool.false_eq_true, if_false, unquoted_eq hq ht]

end ContractAudit.Solidity.Node
