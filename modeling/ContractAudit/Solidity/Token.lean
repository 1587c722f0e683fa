import ContractAudit.Text

/-! The tokens of Solidity, as far as imports need them.

`skipGap` drops white space and comments, and `next?` reads one token: a word of name characters,
a string literal, or a single character.  A literal keeps what stands between its quotes, escapes
as they are.  Every token takes something from the text (`length_lt_of_next?`). -/

namespace ContractAudit.Solidity

/-- A token of the code. -/
inductive Token
  | word (t : Text)
  | literal (t : Text)
  | mark (c : Char)
  deriving DecidableEq, Repr

def isNameChar (c : Char) : Bool :=
  let n := c.toNat
  (97 ≤ n && n ≤ 122) || (65 ≤ n && n ≤ 90) || (48 ≤ n && n ≤ 57) || c == '_' || c == '$'

/-- A character that only separates tokens. -/
def isSpace (c : Char) : Bool :=
  let n := c.toNat
  (9 ≤ n && n ≤ 13) || n == 32 || n == 0xA0 || n == 0x200B || n == 0x2060 || n == 0xFEFF

def isQuote (c : Char) : Bool := c == '"' || c == '\''

/-- Where in a gap between tokens a character stands. -/
inductive Gap
  | space
  | lineComment
  /-- In a comment with an end of its own; `start` is the text from the comment on. -/
  | blockComment (start : Text)
  deriving DecidableEq

/-- The text after a gap that it begins with, or begins inside of.  A block comment that has no
end is none. -/
def skipFrom : Gap → Text → Text
  | .blockComment start, [] => start
  | _, [] => []
  | .space, '/' :: '/' :: rest => skipFrom .lineComment rest
  | .space, '/' :: '*' :: rest => skipFrom (.blockComment ('/' :: '*' :: rest)) rest
  | .space, c :: rest => if isSpace c then skipFrom .space rest else c :: rest
  | .lineComment, c :: rest =>
    if c = '\n' || c = '\r' then skipFrom .space rest else skipFrom .lineComment rest
  | .blockComment _, '*' :: '/' :: rest => skipFrom .space rest
  | .blockComment start, _ :: rest => skipFrom (.blockComment start) rest

/-- The text from its first token on. -/
def skipGap (t : Text) : Text := skipFrom .space t

/-- What stands before the quote that closes a literal, and the text after the quote. -/
def closeLiteral? (quote : Char) : Text → Option (Text × Text)
  | [] => none
  | '\\' :: c :: rest => (closeLiteral? quote rest).map fun r => ('\\' :: c :: r.1, r.2)
  | c :: rest =>
    if c = quote then some ([], rest)
    else (closeLiteral? quote rest).map fun r => (c :: r.1, r.2)

/-- The first token of a text, and the text after it.  A literal without its last quote is
none. -/
def next? (t : Text) : Option (Token × Text) :=
  match skipGap t with
  | [] => none
  | c :: rest =>
    if isQuote c then (closeLiteral? c rest).map fun r => (.literal r.1, r.2)
    else if isNameChar c then
      some (.word (c :: rest.takeWhile isNameChar), rest.dropWhile isNameChar)
    else some (.mark c, rest)

/-- What may be left at most after a gap. -/
def Gap.bound (t : Text) : Gap → Nat
  | .blockComment start => max start.length t.length
  | _ => t.length

theorem length_skipFrom_le (g : Gap) (t : Text) : (skipFrom g t).length ≤ g.bound t := by
  fun_induction skipFrom g t <;> simp only [Gap.bound, List.length_cons, List.length_nil] at * <;>
    omega

theorem length_lt_of_closeLiteral? {quote : Char} {t s rest : Text}
    (h : closeLiteral? quote t = some (s, rest)) : rest.length < t.length := by
  fun_induction closeLiteral? quote t generalizing s with
  | case1 => cases h
  | case2 c t ih =>
    obtain ⟨r, hr, e⟩ := Option.map_eq_some_iff.1 h
    cases e
    have := ih hr
    simp only [List.length_cons]
    omega
  | case3 t =>
    cases h
    exact Nat.lt_succ_self _
  | case4 c t _ _ ih =>
    obtain ⟨r, hr, e⟩ := Option.map_eq_some_iff.1 h
    cases e
    exact Nat.lt_succ_of_lt (ih hr)

/-- Every token takes something from the text. -/
theorem length_lt_of_next? {t rest : Text} {token : Token} (h : next? t = some (token, rest)) :
    rest.length < t.length := by
  have gap : (skipFrom .space t).length ≤ t.length := length_skipFrom_le .space t
  unfold next? skipGap at h
  split at h
  · cases h
  · rename_i c s e
    rw [e, List.length_cons] at gap
    split at h
    · obtain ⟨r, hr, e⟩ := Option.map_eq_some_iff.1 h
      cases e
      have := length_lt_of_closeLiteral? hr
      omega
    · split at h
      · cases h
        have := (List.dropWhile_suffix isNameChar (l := s)).length_le
        omega
      · cases h
        omega

end ContractAudit.Solidity
