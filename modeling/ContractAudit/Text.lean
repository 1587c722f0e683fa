/-! Texts as lists of characters.

Every name, path, message and source of the library is a `Text`, a plain list of
characters, so that each function on texts is a recursion on data and each closed
instance can be evaluated in the kernel.  String literals are read as texts through the
coercion below.

`split` and `join` are inverse to each other in both directions (`join_split`,
`split_join`), which is what paths, source lines and reports rest on. -/

namespace ContractAudit

/-- A text is the list of its characters. -/
abbrev Text := List Char

instance : Coe String Text := ⟨String.toList⟩

namespace Text

/-! ## Pieces and ends -/

/-- The pieces of `t` between the occurrences of `sep`, empty pieces kept. -/
def split (sep : Char) (t : Text) : List Text := List.splitOn sep t

/-- The pieces one after the other, with `sep` between neighbours. -/
def join (sep : Text) (pieces : List Text) : Text := List.intercalate sep pieces

theorem join_split (sep : Char) (t : Text) : join [sep] (split sep t) = t :=
  List.intercalate_splitOn sep

theorem split_join (sep : Char) (pieces : List Text) (h : ∀ p ∈ pieces, sep ∉ p)
    (hne : pieces ≠ []) : split sep (join [sep] pieces) = pieces :=
  List.splitOn_intercalate sep h hne

theorem split_ne_nil (sep : Char) (t : Text) : split sep t ≠ [] := by
  unfold split; exact List.splitOn_ne_nil sep t

def startsWith (lead t : Text) : Bool := lead.isPrefixOf t

def endsWith (tail t : Text) : Bool := tail.isSuffixOf t

theorem startsWith_iff (lead t : Text) : startsWith lead t = true ↔ lead <+: t :=
  List.isPrefixOf_iff_prefix

theorem endsWith_iff (tail t : Text) : endsWith tail t = true ↔ tail <:+ t :=
  List.isSuffixOf_iff_suffix

/-! ## Order -/

/-- The order of texts by code point, the shorter of two first where one begins the
other. -/
def le : Text → Text → Bool
  | [], _ => true
  | _ :: _, [] => false
  | a :: s, b :: t => a.toNat < b.toNat || (a.toNat == b.toNat && le s t)

theorem le_cons_iff {a b : Char} {s t : Text} :
    le (a :: s) (b :: t) = true ↔ a.toNat < b.toNat ∨ (a.toNat = b.toNat ∧ le s t = true) := by
  simp [le]

theorem le_trans {a b c : Text} (hab : le a b = true) (hbc : le b c = true) :
    le a c = true := by
  induction a generalizing b c with
  | nil => rfl
  | cons x s ih =>
    cases b with
    | nil => cases hab
    | cons y t =>
      cases c with
      | nil => cases hbc
      | cons z u =>
        rw [le_cons_iff] at *
        rcases hab with hxy | ⟨hxy, hst⟩ <;> rcases hbc with hyz | ⟨hyz, htu⟩
        · exact Or.inl (by omega)
        · exact Or.inl (by omega)
        · exact Or.inl (by omega)
        · exact Or.inr ⟨by omega, ih hst htu⟩

theorem le_total (a b : Text) : le a b = true ∨ le b a = true := by
  induction a generalizing b with
  | nil => exact Or.inl rfl
  | cons x s ih =>
    cases b with
    | nil => exact Or.inr rfl
    | cons y t =>
      simp only [le_cons_iff]
      rcases ih t with h | h
      · rcases Nat.lt_trichotomy x.toNat y.toNat with hxy | hxy | hxy
        · exact Or.inl (Or.inl hxy)
        · exact Or.inl (Or.inr ⟨hxy, h⟩)
        · exact Or.inr (Or.inl hxy)
      · rcases Nat.lt_trichotomy x.toNat y.toNat with hxy | hxy | hxy
        · exact Or.inl (Or.inl hxy)
        · exact Or.inr (Or.inr ⟨hxy.symm, h⟩)
        · exact Or.inr (Or.inl hxy)

theorem le_antisymm {a b : Text} (hab : le a b = true) (hba : le b a = true) : a = b := by
  induction a generalizing b with
  | nil =>
    cases b with
    | nil => rfl
    | cons y t => cases hba
  | cons x s ih =>
    cases b with
    | nil => cases hab
    | cons y t =>
      rw [le_cons_iff] at hab hba
      rcases hab with hxy | ⟨hxy, hst⟩
      · omega
      · rcases hba with hyx | ⟨_, hts⟩
        · omega
        · rw [Char.toNat_inj.mp hxy, ih hst hts]

/-- The text as a string, for printing. -/
def toStr (t : Text) : String := String.ofList t

/-! ## White space, and trimming it

Two sets are in use.  `isBlank` holds the characters that separate words in reports and
in linter output: the white space of Unicode and the four separators U+001C to U+001F.
`isSpace` holds the white space of Unicode alone; it is what may stand around a number
in a record. -/

/-- The white space of Unicode. -/
def isSpace (c : Char) : Bool :=
  let n := c.toNat
  (9 ≤ n && n ≤ 13) || n == 32 || n == 0x85 || n == 0xA0 || n == 0x1680 ||
  (0x2000 ≤ n && n ≤ 0x200A) || n == 0x2028 || n == 0x2029 || n == 0x202F ||
  n == 0x205F || n == 0x3000

/-- The four information separators. -/
def isSeparator (c : Char) : Bool := 0x1C ≤ c.toNat && c.toNat ≤ 0x1F

/-- White space of Unicode or an information separator. -/
def isBlank (c : Char) : Bool := isSpace c || isSeparator c

/-- `t` without the leading characters that satisfy `p`. -/
def trimStart (p : Char → Bool) (t : Text) : Text := t.dropWhile p

/-- `t` without the trailing characters that satisfy `p`. -/
def trimEnd (p : Char → Bool) (t : Text) : Text := (t.reverse.dropWhile p).reverse

/-- `t` without leading and trailing blanks. -/
def trim (t : Text) : Text := trimEnd isBlank (trimStart isBlank t)

/-- `t` without the white space around it. -/
def trimSpace (t : Text) : Text := trimEnd isSpace (trimStart isSpace t)

/-! ## Lines

A line ends at a line feed, a carriage return, the two together, a vertical tab, a form
feed, one of the separators U+001C to U+001E, U+0085, U+2028 or U+2029.  The break is no
part of the line, and a break at the very end opens no further line.

`unifyBreaks` is what reading a file does to its breaks: a carriage return, alone or
before a line feed, becomes a line feed. -/

/-- The characters at which a line ends. -/
def isLineBreak (c : Char) : Bool :=
  let n := c.toNat
  (10 ≤ n && n ≤ 13) || (0x1C ≤ n && n ≤ 0x1E) || n == 0x85 || n == 0x2028 || n == 0x2029

/-- The lines of a text, `current` being the line read so far in reverse. -/
def linesFrom (current : Text) : Text → List Text
  | [] => if current.isEmpty then [] else [current.reverse]
  | '\r' :: '\n' :: rest => current.reverse :: linesFrom [] rest
  | c :: rest =>
    if isLineBreak c then current.reverse :: linesFrom [] rest
    else linesFrom (c :: current) rest

/-- The lines of a text. -/
def lines (t : Text) : List Text := linesFrom [] t

/-- Every line break of a file as a line feed. -/
def unifyBreaks : Text → Text
  | [] => []
  | '\r' :: '\n' :: rest => '\n' :: unifyBreaks rest
  | c :: rest => (if c = '\r' then '\n' else c) :: unifyBreaks rest

/-- The lines of a file with their line feeds; only the last may lack one. -/
def linesKept (t : Text) : List Text :=
  let pieces := split '\n' t
  pieces.dropLast.map (· ++ ['\n']) ++ (pieces.getLast?.toList.filter (! ·.isEmpty))

/-! ## Letter case

A label is written in ASCII.  `lower` maps the characters whose lower-case form holds an
ASCII letter: the capitals A to Z, the Kelvin sign, and the dotted capital I, which becomes
an i and a combining dot.  No other character has an ASCII letter in its lower-case form,
so a comparison with an ASCII label comes out as it would with the case map of all of
Unicode.

`sameLetter` compares a character with a lower-case letter of a key word where both cases
are accepted: there the dotted capital I and the dotless small i count as i. -/

/-- The lower-case form of one character. -/
def lowerChar (c : Char) : Text :=
  if 65 ≤ c.toNat && c.toNat ≤ 90 then [Char.ofNat (c.toNat + 32)]
  else if c.toNat == 0x212A then ['k']
  else if c.toNat == 0x130 then ['i', Char.ofNat 0x307]
  else [c]

def lower (t : Text) : Text := t.flatMap lowerChar

@[simp] theorem lower_cons (c : Char) (t : Text) : lower (c :: t) = lowerChar c ++ lower t := by
  simp [lower]

/-- `c` is the small letter `small` in either case. -/
def sameLetter (small c : Char) : Bool :=
  lowerChar c == [small] || (small == 'i' && (c.toNat == 0x130 || c.toNat == 0x131))

/-- The part of `t` after the word `word`, which is written in small letters and accepted
in either case. -/
def dropWord? : (word t : Text) → Option Text
  | [], t => some t
  | _ :: _, [] => none
  | w :: word, c :: t => if sameLetter w c then dropWord? word t else none

end Text

end ContractAudit
