import Mathlib.Data.List.Forall2
import ContractAudit.Solidity.ImportDirective
import ContractAudit.Proofs.Node
import ContractAudit.Proofs.Tokens

/-!
# The imports of a written text

`Item` is the syntax of what stands on the outside of a text: import directives in their four
forms, contracts, and pragmas about the language.  However the items are written, with white space
and comments anywhere between their tokens and with either kind of quotes, and whichever parser
gives the tree, the imports of the text are the specifiers of its directives.

    root.IsTreeOf t              the directives of the tree are those of the text, in their order,
                                 and each has its specifier in quotes as its source
    (Solidity.parse t).IsTreeOf t    where t is written                        (isTreeOf_parse)
    (parse t).IsTreeOf t → IsWritten (items.flatMap Item.tokens) t →
      imports t parse = items.filterMap Item.specifier?                   (imports_eq_filterMap)

What `literals` finds in a text depends on its tokens alone, and `Leads place toks specs stop` says
what these tokens give from one place to another (`literalsFrom_eq`).  It goes on over tokens that
stand one after the other (`Leads.append`), so each part of an item has a lemma of its own.  As
`literals` is a function, all ways to read a text as items agree on the specifiers
(`literals_eq`).
-/

namespace ContractAudit.Solidity

/-! ## From place to place -/

/-- From `place`, the tokens `toks` lead to `stop`, and they give `specs`.  None of them takes
something from the text that stands behind it. -/
inductive Leads : Place → List Token → List Text → Place → Prop
  | nil {place : Place} : Leads place [] [] place
  | cons {place stop : Place} {token : Token} {toks : List Token} {specs : List Text}
    (hrest : ∀ rest, restAfter place token rest = rest)
    (h : Leads (place.after token) toks specs stop) :
    Leads place (token :: toks) (literalAt place token ++ specs) stop

theorem restAfter_eq_self {place : Place} (h : place ≠ .pragma) (token : Token) (rest : Text) :
    restAfter place token rest = rest := by
  cases place with
  | pragma => exact absurd rfl h
  | _ => rfl

section
variable {place next stop : Place} {token : Token} {toks toks' : List Token}
variable {specs specs' given : List Text}

/-- One token, by what comes of it. -/
theorem Leads.step (hplace : place ≠ .pragma) (hafter : place.after token = next)
    (hgiven : literalAt place token = given) (h : Leads next toks specs stop) :
    Leads place (token :: toks) (given ++ specs) stop := by
  subst hafter hgiven
  exact .cons (restAfter_eq_self hplace token) h

/-- The token leads from the place to the place itself, and gives nothing. -/
def Place.Keeps (place : Place) (token : Token) : Prop :=
  place.after token = place ∧ literalAt place token = []

theorem Leads.keep (hplace : place ≠ .pragma) (hkeeps : place.Keeps token)
    (h : Leads place toks specs stop) : Leads place (token :: toks) specs stop :=
  Leads.step hplace hkeeps.1 hkeeps.2 h

theorem leads_of_keeps (hplace : place ≠ .pragma) (hkeeps : ∀ token ∈ toks, place.Keeps token) :
    Leads place toks [] place := by
  induction toks with
  | nil => exact .nil
  | cons token toks ih =>
    obtain ⟨htoken, hkeeps⟩ := List.forall_mem_cons.1 hkeeps
    exact .keep hplace htoken (ih hkeeps)

theorem Leads.append (h : Leads place toks specs next) (h' : Leads next toks' specs' stop) :
    Leads place (toks ++ toks') (specs ++ specs') stop := by
  induction h with
  | nil => exact h'
  | cons hrest _ ih =>
    rw [List.cons_append, List.append_assoc]
    exact .cons hrest (ih h')

/-- **What a text gives is what its tokens give.** -/
theorem literalsFrom_eq (h : Leads place toks specs stop) {t : Text} (ht : IsWritten toks t)
    {fuel : Nat} (hfuel : t.length < fuel) : literalsFrom fuel place t = specs := by
  induction h generalizing t fuel with
  | nil =>
    cases fuel with
    | zero => rfl
    | succ fuel => rw [literalsFrom, ht.next?_nil]
  | cons hrest _ ih =>
    obtain ⟨rest, hnext, hwritten⟩ := ht.next?_cons
    have hlength := length_lt_of_next? hnext
    obtain ⟨fuel, rfl⟩ : ∃ n, fuel = n + 1 := ⟨fuel - 1, by omega⟩
    rw [literalsFrom, hnext]
    simp only [hrest, ih hwritten (show rest.length < fuel by omega)]

end

/-! ## Braces -/

def openBrace : Token := .mark '\x7b'

def closeBrace : Token := .mark '\x7d'

def semicolon : Token := .mark ';'

/-- Every brace that is opened is closed, and every brace that is closed has been opened. -/
inductive Balanced : List Token → Prop
  | nil : Balanced []
  | cons {token : Token} {toks : List Token} (hopen : token ≠ openBrace)
    (hclose : token ≠ closeBrace) (h : Balanced toks) : Balanced (token :: toks)
  | block {inner toks : List Token} (hinner : Balanced inner) (h : Balanced toks) :
    Balanced (openBrace :: (inner ++ closeBrace :: toks))

theorem balanced_of_forall {toks : List Token}
    (h : ∀ token ∈ toks, token ≠ openBrace ∧ token ≠ closeBrace) : Balanced toks := by
  induction toks with
  | nil => exact .nil
  | cons token toks ih =>
    obtain ⟨⟨hopen, hclose⟩, h⟩ := List.forall_mem_cons.1 h
    exact .cons hopen hclose (ih h)

/-- Inside an item nothing but braces changes the depth, and at depth zero a semicolon ends it. -/
theorem keeps_item {depth : Nat} {token : Token} (hopen : token ≠ openBrace)
    (hclose : token ≠ closeBrace) (hend : depth = 0 → token ≠ semicolon) :
    (Place.item depth).Keeps token := by
  refine ⟨?_, rfl⟩
  cases token with
  | word => rfl
  | literal => rfl
  | mark c =>
    have hc : ∀ d, Token.mark c ≠ .mark d → c ≠ d := fun d h he => h (congrArg _ he)
    rw [Place.after, Place.afterMark, if_neg (hc _ hopen), if_neg (hc _ hclose), if_neg]
    simp only [Bool.and_eq_true, decide_eq_true_eq, not_and]
    exact fun he hdepth => hc _ (hend hdepth) he

theorem after_closeBrace (depth : Nat) :
    (Place.item (depth + 2)).after closeBrace = .item (depth + 1) := by
  rw [closeBrace, Place.after, Place.afterMark, if_neg (by decide), if_pos rfl, if_neg (by omega)]
  rfl

/-- What stands inside braces leaves the depth as it is. -/
theorem Balanced.leads {toks : List Token} (h : Balanced toks) (depth : Nat) :
    Leads (.item (depth + 1)) toks [] (.item (depth + 1)) := by
  induction h generalizing depth with
  | nil => exact .nil
  | cons hopen hclose _ ih =>
    exact .keep (by nofun) (keeps_item hopen hclose nofun) (ih depth)
  | block _ _ ihinner ih =>
    have hbehind := Leads.step (by nofun) (after_closeBrace depth) rfl (ih depth)
    exact Leads.step (by nofun) rfl rfl ((ihinner (depth + 1)).append hbehind)

/-! ## The outside -/

/-- A place outside all braces and all directives. -/
def Place.IsOutside (place : Place) : Prop := place = .start ∨ place = .item 0

section
variable {place stop : Place} {token : Token} {inner toks : List Token} {specs : List Text}

theorem isOutside_after (hplace : place.IsOutside) (hopen : token ≠ openBrace)
    (hclose : token ≠ closeBrace)
    (himport : token ≠ .word importWord) (hpragma : token ≠ .word pragmaWord) :
    (place.after token).IsOutside := by
  obtain hend | hend := eq_or_ne token semicolon
  · subst hend
    obtain rfl | rfl := hplace <;> exact .inl rfl
  · obtain ⟨hitem, -⟩ : (Place.item 0).Keeps token := keeps_item hopen hclose fun _ => hend
    right
    obtain rfl | rfl := hplace
    · cases token with
      | word w =>
        have hne : ∀ v, Token.word w ≠ .word v → w ≠ v := fun v h he => h (congrArg _ he)
        rw [Place.after, if_neg (hne _ himport), if_neg (hne _ hpragma)]
      | literal => rfl
      | mark => exact hitem
    · exact hitem

/-- A token on the outside gives nothing. -/
theorem Leads.outside (hplace : place.IsOutside) (h : Leads (place.after token) toks specs stop) :
    Leads place (token :: toks) specs stop := by
  obtain rfl | rfl := hplace <;> exact Leads.step (by nofun) rfl rfl h

/-- Braces lead from the outside to the beginning of an item. -/
theorem Leads.block (hplace : place.IsOutside) (hinner : Balanced inner)
    (h : Leads .start toks specs stop) :
    Leads place (openBrace :: (inner ++ closeBrace :: toks)) specs stop := by
  have hclose : (Place.item 1).after closeBrace = .start := rfl
  have hbehind := (hinner.leads 0).append (Leads.step (by nofun) hclose rfl h)
  obtain rfl | rfl := hplace <;> exact Leads.step (by nofun) rfl rfl hbehind

/-- Tokens on the outside stay there if none of them begins a directive or a pragma. -/
theorem Balanced.leads_outside (h : Balanced toks)
    (hwords : ∀ token ∈ toks, token ≠ .word importWord ∧ token ≠ .word pragmaWord)
    (hplace : place.IsOutside) : ∃ stop, stop.IsOutside ∧ Leads place toks [] stop := by
  induction h generalizing place with
  | nil => exact ⟨place, hplace, .nil⟩
  | cons hopen hclose _ ih =>
    obtain ⟨⟨himport, hpragma⟩, hwords⟩ := List.forall_mem_cons.1 hwords
    obtain ⟨stop, hstop, hleads⟩ :=
      ih hwords (isOutside_after hplace hopen hclose himport hpragma)
    exact ⟨stop, hstop, hleads.outside hplace⟩
  | block hinner _ _ ih =>
    obtain ⟨stop, hstop, hleads⟩ := ih (fun token hmem => hwords token (by simp [hmem])) (.inl rfl)
    exact ⟨stop, hstop, hleads.block hplace hinner⟩

end

/-! ## Directives -/

/-- A symbol that is imported, and its other name if it gets one. -/
structure Symbol where
  name : Text
  other? : Option Text

def Symbol.tokens (s : Symbol) : List Token :=
  match s.other? with
  | none => [.word s.name]
  | some other => [.word s.name, .word "as", .word other]

/-- What a directive says besides its specifier. -/
inductive Clause
  /-- Nothing. -/
  | whole
  /-- The name for everything, behind the specifier. -/
  | renamed (name : Text)
  /-- The symbols, in braces. -/
  | listed (symbols : List Symbol)
  /-- The name for everything, in front of the specifier. -/
  | all (name : Text)

/-- The tokens between the word `import` and the specifier. -/
def Clause.before : Clause → List Token
  | .whole => []
  | .renamed _ => []
  | .listed symbols =>
    openBrace :: (List.intercalate [.mark ','] (symbols.map Symbol.tokens)
      ++ [closeBrace, .word "from"])
  | .all name => [.mark '*', .word "as", .word name, .word "from"]

/-- The tokens between the specifier and the semicolon. -/
def Clause.behind : Clause → List Token
  | .renamed name => [.word "as", .word name]
  | _ => []

/-- An import directive, and its specifier without a quote in it. -/
structure Directive where
  clause : Clause
  specifier : Text
  bare : ∀ c ∈ specifier, isQuote c = false

def Directive.tokens (d : Directive) : List Token :=
  .word importWord :: (d.clause.before
    ++ .literal d.specifier :: (d.clause.behind ++ [semicolon]))

theorem Symbol.keeps (s : Symbol) : ∀ token ∈ s.tokens, Place.directive.Keeps token := by
  rw [Symbol.tokens]
  cases s.other? with
  | none => exact List.forall_mem_singleton.2 ⟨rfl, rfl⟩
  | some other =>
    simp only [List.forall_mem_cons, List.not_mem_nil]
    exact ⟨⟨rfl, rfl⟩, ⟨rfl, rfl⟩, ⟨rfl, rfl⟩, nofun⟩

theorem leads_symbols (symbols : List Symbol) :
    Leads .directive (List.intercalate [.mark ','] (symbols.map Symbol.tokens)) [] .directive := by
  induction symbols with
  | nil => exact .nil
  | cons s symbols ih =>
    have hs : Leads .directive s.tokens [] .directive := leads_of_keeps (by nofun) s.keeps
    cases symbols with
    | nil =>
      rw [List.map_singleton, List.intercalate_singleton]
      exact hs
    | cons s' symbols =>
      rw [List.map_cons, List.map_cons, List.intercalate_cons_cons, List.append_assoc]
      exact hs.append (.keep (by nofun) ⟨rfl, rfl⟩ ih)

theorem Clause.leads_before (clause : Clause) :
    Leads .directive clause.before [] .directive := by
  cases clause with
  | whole => exact .nil
  | renamed => exact .nil
  | listed symbols =>
    have hbehind : Leads .directive [closeBrace, .word "from"] [] .directive :=
      .keep (by nofun) ⟨rfl, rfl⟩ (.keep (by nofun) ⟨rfl, rfl⟩ .nil)
    exact .keep (by nofun) ⟨rfl, rfl⟩ ((leads_symbols symbols).append hbehind)
  | all name =>
    refine leads_of_keeps (by nofun) ?_
    simp only [Clause.before, List.forall_mem_cons, List.not_mem_nil]
    exact ⟨⟨rfl, rfl⟩, ⟨rfl, rfl⟩, ⟨rfl, rfl⟩, ⟨rfl, rfl⟩, nofun⟩

theorem Clause.leads_behind (clause : Clause) :
    Leads (.item 0) clause.behind [] (.item 0) := by
  cases clause with
  | renamed => exact .keep (by nofun) ⟨rfl, rfl⟩ (.keep (by nofun) ⟨rfl, rfl⟩ .nil)
  | _ => exact .nil

theorem Directive.leads (d : Directive) : Leads .start d.tokens [d.specifier] .start := by
  have hend : Leads (.item 0) [semicolon] [] .start := .step (by nofun) rfl rfl .nil
  have hliteral : Leads .directive (.literal d.specifier :: (d.clause.behind ++ [semicolon]))
      [d.specifier] .start :=
    .step (by nofun) rfl rfl (d.clause.leads_behind.append hend)
  exact .step (by nofun) rfl rfl (d.clause.leads_before.append hliteral)

/-! ## Contracts and pragmas -/

inductive ContractKind
  | plain
  | abstract
  | interface
  | library

def ContractKind.tokens : ContractKind → List Token
  | .plain => [.word "contract"]
  | .abstract => [.word "abstract", .word "contract"]
  | .interface => [.word "interface"]
  | .library => [.word "library"]

/-- A definition of a contract: `bases` are the tokens between its name and its braces, `body` the
ones inside.  The keywords of directives and pragmas are no names of bases. -/
structure Contract where
  kind : ContractKind
  name : Text
  bases : List Token
  body : List Token
  balanced_bases : Balanced bases
  bases_words : ∀ token ∈ bases, token ≠ .word importWord ∧ token ≠ .word pragmaWord
  balanced_body : Balanced body

def Contract.tokens (c : Contract) : List Token :=
  c.kind.tokens ++ .word c.name :: (c.bases ++ openBrace :: (c.body ++ [closeBrace]))

theorem Contract.leads (c : Contract) : Leads .start c.tokens [] .start := by
  have hkind : Leads .start c.kind.tokens [] (.item 0) := by
    cases c.kind with
    | abstract => exact .step (by nofun) rfl rfl (.step (by nofun) rfl rfl .nil)
    | _ => exact .step (by nofun) rfl rfl .nil
  obtain ⟨stop, hstop, hbases⟩ := c.balanced_bases.leads_outside c.bases_words (.inr rfl)
  have hbody := hbases.append (Leads.block hstop c.balanced_body .nil)
  exact hkind.append (.step (by nofun) rfl rfl hbody)

/-- A pragma about the language itself. -/
structure LanguagePragma where
  value : List Token
  plain : ∀ token ∈ value, token ≠ openBrace ∧ token ≠ closeBrace ∧ token ≠ semicolon

def LanguagePragma.tokens (p : LanguagePragma) : List Token :=
  .word pragmaWord :: .word languageWord :: (p.value ++ [semicolon])

theorem LanguagePragma.leads (p : LanguagePragma) : Leads .start p.tokens [] .start := by
  have hend : Leads (.item 0) [semicolon] [] .start := .step (by nofun) rfl rfl .nil
  have hvalue : Leads (.item 0) p.value [] (.item 0) := by
    refine leads_of_keeps (by nofun) fun token htoken => ?_
    obtain ⟨hopen, hclose, hsemicolon⟩ := p.plain token htoken
    exact keeps_item hopen hclose fun _ => hsemicolon
  -- After the word for the language, the value consists of tokens as any other text.
  exact .step (by nofun) rfl rfl (.cons (fun _ => rfl) (hvalue.append hend))

/-! ## Items -/

/-- What stands on the outside of a text. -/
inductive Item
  | directive (d : Directive)
  | contract (c : Contract)
  | pragma (p : LanguagePragma)

namespace Item

def tokens : Item → List Token
  | .directive d => d.tokens
  | .contract c => c.tokens
  | .pragma p => p.tokens

def directive? : Item → Option Directive
  | .directive d => some d
  | _ => none

/-- What the item imports. -/
def specifier? (item : Item) : Option Text := item.directive?.map Directive.specifier

theorem filterMap_specifier? (items : List Item) :
    items.filterMap specifier? = (items.filterMap directive?).map Directive.specifier :=
  List.map_filterMap.symm

theorem leads (items : List Item) :
    Leads .start (items.flatMap tokens) (items.filterMap specifier?) .start := by
  induction items with
  | nil => exact .nil
  | cons item items ih =>
    cases item with
    | directive d => exact d.leads.append ih
    | contract c => exact c.leads.append ih
    | pragma p => exact p.leads.append ih

theorem literals_eq {items : List Item} {t : Text} (h : IsWritten (items.flatMap tokens) t) :
    literals t = items.filterMap specifier? :=
  literalsFrom_eq (leads items) h (Nat.lt_succ_self _)

end Item

/-! ## Trees -/

namespace Node

/-- The node is one of the directive: its source is the specifier in quotes of either kind. -/
def IsOf (n : Node) (d : Directive) : Prop :=
  ∃ s q, n.IsSource s ∧ isQuote q = true ∧ s.text = q :: (d.specifier ++ [q])

/-- The tree is one of the text: the text can be read as items, and the directives among them are
those of the tree, in their order. -/
def IsTreeOf (root : Node) (t : Text) : Prop :=
  ∃ items : List Item, IsWritten (items.flatMap Item.tokens) t ∧
    List.Forall₂ IsOf root.directives (items.filterMap Item.directive?)

theorem IsOf.specifier?_eq {n : Node} {d : Directive} (h : n.IsOf d) :
    n.specifier? = some d.specifier := by
  obtain ⟨s, q, hs, hq, htext⟩ := h
  exact Node.specifier?_eq hs hq d.bare htext

theorem filterMap_specifier? {nodes : List Node} {ds : List Directive}
    (h : List.Forall₂ IsOf nodes ds) :
    nodes.filterMap specifier? = ds.map Directive.specifier := by
  induction h with
  | nil => rfl
  | cons hn _ ih => rw [List.filterMap_cons_some hn.specifier?_eq, ih, List.map_cons]

theorem IsTreeOf.imports_eq {root : Node} {t : Text} (h : root.IsTreeOf t) :
    root.imports = literals t := by
  obtain ⟨items, ht, hdirectives⟩ := h
  rw [Node.imports_eq, filterMap_specifier? hdirectives, Item.literals_eq ht,
    Item.filterMap_specifier?]

end Node

theorem rootKind_ne : rootKind ≠ Node.directiveKind := by
  decide

theorem directives_directiveNode (t : Text) : (directiveNode t).directives = [directiveNode t] := by
  rw [Node.directives_eq]
  exact if_pos rfl

theorem directivesAll_map_directiveNode (ts : List Text) :
    Node.directivesAll (ts.map directiveNode) = ts.map directiveNode := by
  induction ts with
  | nil => rfl
  | cons t ts ih =>
    rw [List.map_cons, Node.directivesAll, ih, directives_directiveNode, List.singleton_append]

theorem directives_parse (t : Text) : (parse t).directives = (literals t).map directiveNode := by
  rw [Node.directives_eq]
  exact (if_neg rootKind_ne).trans (directivesAll_map_directiveNode _)

theorem isOf_directiveNode (d : Directive) : (directiveNode d.specifier).IsOf d := by
  refine ⟨_, '"', .field List.mem_cons_self rfl ?_, rfl, rfl⟩
  exact fun c hc _ => List.mem_singleton.1 hc

/-- The trees of `parse` are trees of their texts. -/
theorem isTreeOf_parse {items : List Item} {t : Text}
    (h : IsWritten (items.flatMap Item.tokens) t) : (parse t).IsTreeOf t := by
  refine ⟨items, h, ?_⟩
  rw [directives_parse, Item.literals_eq h, Item.filterMap_specifier?, List.map_map,
    List.forall₂_map_left_iff, List.forall₂_same]
  exact fun d _ => isOf_directiveNode d

namespace Item

/-- **The imports of a text are the specifiers of its directives**, in their order and as often as
they occur, whatever stands between the tokens, in comments or in other literals. -/
theorem imports_eq_filterMap {parse : Text → Node} {items : List Item} {t : Text}
    (htree : (parse t).IsTreeOf t) (h : IsWritten (items.flatMap tokens) t) :
    imports t parse = items.filterMap specifier? :=
  htree.imports_eq.trans (literals_eq h)

/-- Comments and a literal that look like directives, and one specifier twice: a parser that sees
everything in the text, and the one that sees the directives alone. -/
theorem imports_eq_filterMap_lookalike :
    let c : Contract := ⟨.plain, "C", [], [.word "string", .word "s", .mark '=',
      .literal "import 'd';", semicolon],
      balanced_of_forall (by decide), by decide, balanced_of_forall (by decide)⟩
    let items : List Item := [.directive ⟨.whole, "a.sol", Text.eq_false_of_any rfl⟩, .contract c,
      .directive ⟨.listed [⟨"X", some "Y"⟩], "a.sol", Text.eq_false_of_any rfl⟩]
    let t : Text := "//import 'x';\nimport\"a.sol\";/*import 'y';*/contract C\x7bstring s="
      ++ "\"import 'd';\";\x7dimport\x7bX as Y\x7dfrom'a.sol';//import \"z\";"
    let leaf (kind text : Text) : Node := .mk kind none text []
    let first : Node := .mk Node.directiveKind none "import\"a.sol\";" [leaf "import" "import",
      .mk Node.literalKind (some Node.sourceField) "\"a.sol\"" [], leaf ";" ";"]
    let inside : Node := .mk "state_variable_declaration" none "string s=\"import 'd';\";"
      [leaf "type_name" "string", leaf "identifier" "s", leaf "=" "=",
        leaf Node.literalKind "\"import 'd';\"", leaf ";" ";"]
    let second : Node := .mk Node.directiveKind none "import\x7bX as Y\x7dfrom'a.sol';"
      [leaf "import" "import", leaf "\x7b" "\x7b", leaf "identifier" "X", leaf "as" "as",
        leaf "identifier" "Y", leaf "\x7d" "\x7d", leaf "from" "from",
        .mk Node.literalKind (some Node.sourceField) "'a.sol'" [], leaf ";" ";"]
    let tree : Node := .mk rootKind none t [leaf "comment" "//import 'x';", first,
      leaf "comment" "/*import 'y';*/",
      .mk "contract_declaration" none "contract C\x7bstring s=\"import 'd';\";\x7d"
        [leaf "contract" "contract", leaf "identifier" "C",
          .mk "contract_body" none "\x7bstring s=\"import 'd';\";\x7d"
            [leaf "\x7b" "\x7b", inside, leaf "\x7d" "\x7d"]],
      second, leaf "comment" "//import \"z\";"]
    IsWritten (items.flatMap tokens) t ∧ tree.IsTreeOf t ∧
      imports t (fun _ => tree) = (["a.sol", "a.sol"] : List Text) ∧
      imports t = (["a.sol", "a.sol"] : List Text) := by
  intro c items t leaf first inside second tree
  have ht : t = '/' :: '/' :: ("import 'x';" ++ '\n' ::
      ("import" ++ '"' :: ("a.sol" ++ '"' :: ';' ::
      '/' :: '*' :: ("import 'y';" ++ '*' :: '/' ::
      ("contract" ++ ' ' :: ("C" ++ '\x7b' ::
      ("string" ++ ' ' :: ("s" ++ '=' :: '"' :: ("import 'd';" ++ '"' :: ';' :: '\x7d' ::
      ("import" ++ '\x7b' :: ("X" ++ ' ' :: ("as" ++ ' ' :: ("Y" ++ '\x7d' ::
      ("from" ++ '\'' :: ("a.sol" ++ '\'' :: ';' ::
      '/' :: '/' :: "import \"z\";"))))))))))))))) := by
    decide +kernel
  have hwritten : IsWritten (items.flatMap tokens) t := by
    rw [ht]
    refine .lineComment ?_ ?_ <|
      .word ?_ ?_ ?_ <| .literal ?_ ?_ <| .mark ?_ ?_ <|
      .blockComment ?_ <|
      .word ?_ ?_ ?_ <| .space ?_ <| .word ?_ ?_ ?_ <| .mark ?_ ?_ <|
      .word ?_ ?_ ?_ <| .space ?_ <| .word ?_ ?_ ?_ <| .mark ?_ ?_ <| .literal ?_ ?_ <|
      .mark ?_ ?_ <| .mark ?_ ?_ <|
      .word ?_ ?_ ?_ <| .mark ?_ ?_ <| .word ?_ ?_ ?_ <| .space ?_ <| .word ?_ ?_ ?_ <|
      .space ?_ <| .word ?_ ?_ ?_ <| .mark ?_ ?_ <|
      .word ?_ ?_ ?_ <| .literal ?_ ?_ <| .mark ?_ ?_ <|
      .lastLine ?_
    all_goals first | rfl | exact List.all_eq_true.1 rfl | exact Text.eq_false_of_any rfl | decide
  have hspecs : items.filterMap specifier? = ["a.sol", "a.sol"] := rfl
  have hfirst : first.IsOf ⟨.whole, "a.sol", Text.eq_false_of_any rfl⟩ := by
    refine ⟨_, '"', .field (List.mem_cons_of_mem _ List.mem_cons_self) rfl ?_, rfl, rfl⟩
    simp only [first, leaf, Node.children, List.forall_mem_cons, List.not_mem_nil]
    exact ⟨nofun, fun _ => trivial, nofun, nofun⟩
  have hsecond : second.IsOf ⟨.listed [⟨"X", some "Y"⟩], "a.sol", Text.eq_false_of_any rfl⟩ := by
    refine ⟨.mk Node.literalKind (some Node.sourceField) "'a.sol'" [], '\'',
      .field (by simp [second, Node.children]) rfl ?_, rfl, rfl⟩
    simp only [second, leaf, Node.children, List.forall_mem_cons, List.not_mem_nil]
    exact ⟨nofun, nofun, nofun, nofun, nofun, nofun, nofun, fun _ => trivial, nofun, nofun⟩
  have htree : tree.IsTreeOf t := ⟨items, hwritten, .cons hfirst (.cons hsecond .nil)⟩
  have himports : imports t (fun _ => tree) = items.filterMap specifier? :=
    imports_eq_filterMap htree hwritten
  exact ⟨hwritten, htree, himports.trans hspecs,
    (imports_eq_filterMap (isTreeOf_parse hwritten) hwritten).trans hspecs⟩

end Item

end ContractAudit.Solidity
