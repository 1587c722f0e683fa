import Mathlib.Data.List.Infix
import ContractAudit.Solidity.Token
import ContractAudit.Proofs.Lines

/-!
# Texts as tokens

`IsWritten toks t` is the lexical grammar of Solidity, as far as imports need it: the tokens
`toks` stand in `t` one after the other, with white space and comments in any places between them.
It is a relation between tokens and texts, as one list of tokens is written in many ways; `next?`
is its other side.

    IsWritten (token :: toks) t → next? t = some (token, rest)
                                    for a rest with IsWritten toks rest   (IsWritten.next?_cons)
-/

namespace ContractAudit.Solidity

open Text (StopsAt stopsAt_nil stopsAt_cons)

/-! ## Literals -/

/-- The text can stand in a literal with the quotes `quote`: every backslash takes the next
character with it, and no other character is the quote. -/
def isQuotable (quote : Char) : Text → Bool
  | [] => true
  | '\\' :: _ :: t => isQuotable quote t
  | c :: t => c != quote && c != '\\' && isQuotable quote t

theorem eq_of_isQuote {c : Char} (h : isQuote c = true) : c = '"' ∨ c = '\'' := by
  simpa [isQuote] using h

/-- A literal ends where its text does. -/
theorem closeLiteral?_append {quote : Char} {s : Text} (hquote : isQuote quote = true)
    (hs : isQuotable quote s = true) (rest : Text) :
    closeLiteral? quote (s ++ quote :: rest) = some (s, rest) := by
  fun_induction isQuotable quote s with
  | case1 =>
    rw [List.nil_append, closeLiteral?, if_pos rfl]
    rintro _ _ rfl
    cases hquote
  | case2 c s ih =>
    rw [List.cons_append, List.cons_append, closeLiteral?, ih hs]
    rfl
  | case3 c s _ ih =>
    simp only [Bool.and_eq_true, bne_iff_ne] at hs
    obtain ⟨⟨hne, hbackslash⟩, hs⟩ := hs
    rw [List.cons_append, closeLiteral?, if_neg hne, ih hs]
    · rfl
    · exact fun _ _ he => absurd he hbackslash

/-! ## The grammar -/

/-- A character that is a token of its own. -/
def isMark (c : Char) : Bool := !(isSpace c || isQuote c || isNameChar c)

/-- A line comment ends in front of one of these. -/
def isLineEnd (c : Char) : Bool := c = '\n' || c = '\r'

/-- Behind a slash, these begin a comment. -/
def opensComment (c : Char) : Bool := c = '/' || c = '*'

/-- The text `t` consists of the tokens `toks`, of white space and of comments.  No word goes on
behind its end, and no mark begins a comment. -/
inductive IsWritten : List Token → Text → Prop
  | nil : IsWritten [] []
  | space {toks : List Token} {c : Char} {t : Text} (hc : isSpace c = true)
    (h : IsWritten toks t) : IsWritten toks (c :: t)
  | lineComment {toks : List Token} {body t : Text} {stop : Char}
    (hb : ∀ c ∈ body, isLineEnd c = false) (hs : isLineEnd stop = true) (h : IsWritten toks t) :
    IsWritten toks ('/' :: '/' :: (body ++ stop :: t))
  /-- Nothing needs to stand behind the last line. -/
  | lastLine {body : Text} (hb : ∀ c ∈ body, isLineEnd c = false) :
    IsWritten [] ('/' :: '/' :: body)
  | blockComment {toks : List Token} {body t : Text} (hb : ¬ ['*', '/'] <:+: body)
    (h : IsWritten toks t) : IsWritten toks ('/' :: '*' :: (body ++ '*' :: '/' :: t))
  | word {toks : List Token} {w t : Text} (hne : w ≠ []) (hw : ∀ c ∈ w, isNameChar c = true)
    (ht : StopsAt isNameChar t) (h : IsWritten toks t) : IsWritten (.word w :: toks) (w ++ t)
  | literal {toks : List Token} {q : Char} {s t : Text} (hq : isQuote q = true)
    (hs : isQuotable q s = true) (h : IsWritten toks t) :
    IsWritten (.literal s :: toks) (q :: (s ++ q :: t))
  | mark {toks : List Token} {c : Char} {t : Text} (hc : isMark c = true)
    (ht : c = '/' → StopsAt opensComment t) (h : IsWritten toks t) :
    IsWritten (.mark c :: toks) (c :: t)

/-! ## Gaps -/

theorem ne_slash_of_isSpace {c : Char} (h : isSpace c = true) : c ≠ '/' := by
  rintro rfl
  cases h

theorem skipGap_space {c : Char} (hc : isSpace c = true) (t : Text) :
    skipGap (c :: t) = skipGap t := by
  rw [skipGap, skipFrom, if_pos hc, skipGap]
  · exact fun _ he => absurd he (ne_slash_of_isSpace hc)
  · exact fun _ he => absurd he (ne_slash_of_isSpace hc)

theorem skipGap_lineComment {body : Text} {stop : Char} (hb : ∀ c ∈ body, isLineEnd c = false)
    (hs : isLineEnd stop = true) (t : Text) :
    skipGap ('/' :: '/' :: (body ++ stop :: t)) = skipGap t := by
  rw [skipGap, skipFrom, skipGap]
  induction body with
  | nil => rw [List.nil_append, skipFrom]; exact if_pos hs
  | cons c body ih =>
    obtain ⟨hc, hb⟩ := List.forall_mem_cons.1 hb
    rw [List.cons_append, skipFrom, ← ih hb]
    exact if_neg (Bool.eq_false_iff.1 hc)

theorem skipGap_lastLine {body : Text} (hb : ∀ c ∈ body, isLineEnd c = false) :
    skipGap ('/' :: '/' :: body) = [] := by
  rw [skipGap, skipFrom]
  induction body with
  | nil => rfl
  | cons c body ih =>
    obtain ⟨hc, hb⟩ := List.forall_mem_cons.1 hb
    rw [skipFrom, ← ih hb]
    exact if_neg (Bool.eq_false_iff.1 hc)

/-- A block comment ends at the first `*/`. -/
theorem skipGap_blockComment {body : Text} (hb : ¬ ['*', '/'] <:+: body) (t : Text) :
    skipGap ('/' :: '*' :: (body ++ '*' :: '/' :: t)) = skipGap t := by
  rw [skipGap, skipFrom, skipGap]
  generalize '/' :: '*' :: (body ++ '*' :: '/' :: t) = start
  induction body with
  | nil => rw [List.nil_append, skipFrom]
  | cons c body ih =>
    rw [List.cons_append, skipFrom, ih fun h => hb (h.trans (List.suffix_cons c body).isInfix)]
    -- The end does not begin at `c`: not inside the comment, and not with the star behind it.
    rintro rest rfl he
    cases body with
    | nil => cases he
    | cons d body =>
      obtain ⟨rfl, -⟩ := List.cons.inj he
      exact hb ⟨[], body, rfl⟩

/-- There is no gap in front of a token. -/
theorem skipGap_eq_self {c : Char} (hc : isSpace c = false) {t : Text}
    (ht : c = '/' → StopsAt opensComment t) : skipGap (c :: t) = c :: t := by
  rw [skipGap, skipFrom, hc, if_neg Bool.false_ne_true]
  · rintro rest rfl rfl
    cases stopsAt_cons.1 (ht rfl)
  · rintro rest rfl rfl
    cases stopsAt_cons.1 (ht rfl)

/-! ## Reading a token -/

theorem isSpace_of_isNameChar {c : Char} (h : isNameChar c = true) : isSpace c = false := by
  simp only [isNameChar, isSpace, Bool.or_eq_true, Bool.and_eq_true, decide_eq_true_eq,
    beq_iff_eq, Bool.or_eq_false_iff, Bool.and_eq_false_iff, decide_eq_false_iff_not,
    beq_eq_false_iff_ne] at h ⊢
  obtain (h | rfl) | rfl := h
  · omega
  · decide
  · decide

/-- What comes first is found behind the gap, whatever the gap is. -/
theorem next?_congr {s t : Text} (h : skipGap s = skipGap t) : next? s = next? t := by
  rw [next?, next?, h]

theorem next?_of_skipGap_eq_nil {t : Text} (h : skipGap t = []) : next? t = none := by
  rw [next?, h]

theorem next?_word {w t : Text} (hne : w ≠ []) (hw : ∀ c ∈ w, isNameChar c = true)
    (ht : StopsAt isNameChar t) : next? (w ++ t) = some (.word w, t) := by
  obtain ⟨c, w, rfl⟩ := List.exists_cons_of_ne_nil hne
  obtain ⟨hc, hw⟩ := List.forall_mem_cons.1 hw
  have hgap : skipGap (c :: (w ++ t)) = c :: (w ++ t) := by
    refine skipGap_eq_self (isSpace_of_isNameChar hc) ?_
    rintro rfl
    cases hc
  have hquote : isQuote c = false := by
    rw [Bool.eq_false_iff]
    intro hq
    obtain rfl | rfl := eq_of_isQuote hq <;> cases hc
  rw [List.cons_append, next?, hgap]
  simp only [hquote, hc, Bool.false_eq_true, if_false, if_true, Text.takeWhile_run hw ht,
    Text.dropWhile_run hw ht]

theorem next?_literal {q : Char} {s : Text} (hq : isQuote q = true) (hs : isQuotable q s = true)
    (t : Text) : next? (q :: (s ++ q :: t)) = some (.literal s, t) := by
  have hgap : skipGap (q :: (s ++ q :: t)) = q :: (s ++ q :: t) := by
    obtain rfl | rfl := eq_of_isQuote hq <;> exact skipGap_eq_self (by decide) nofun
  rw [next?, hgap]
  simp only [hq, if_true, closeLiteral?_append hq hs]
  rfl

theorem next?_mark {c : Char} {t : Text} (hc : isMark c = true)
    (ht : c = '/' → StopsAt opensComment t) : next? (c :: t) = some (.mark c, t) := by
  simp only [isMark, Bool.not_eq_true', Bool.or_eq_false_iff] at hc
  obtain ⟨⟨hspace, hquote⟩, hname⟩ := hc
  rw [next?, skipGap_eq_self hspace ht]
  simp only [hquote, hname, Bool.false_eq_true, if_false]

variable {toks : List Token} {t : Text}

/-- **The first token that is written is the one that is read**, and the others are written behind
it. -/
theorem IsWritten.next?_cons {token : Token} (h : IsWritten (token :: toks) t) :
    ∃ rest, next? t = some (token, rest) ∧ IsWritten toks rest := by
  generalize hts : token :: toks = ts at h
  induction h with
  | nil => cases hts
  | lastLine => cases hts
  | space hc _ ih =>
    obtain ⟨rest, hnext, hrest⟩ := ih hts
    exact ⟨rest, (next?_congr (skipGap_space hc _)).trans hnext, hrest⟩
  | lineComment hb hs _ ih =>
    obtain ⟨rest, hnext, hrest⟩ := ih hts
    exact ⟨rest, (next?_congr (skipGap_lineComment hb hs _)).trans hnext, hrest⟩
  | blockComment hb _ ih =>
    obtain ⟨rest, hnext, hrest⟩ := ih hts
    exact ⟨rest, (next?_congr (skipGap_blockComment hb _)).trans hnext, hrest⟩
  | word hne hw ht h =>
    obtain ⟨rfl, rfl⟩ := List.cons.inj hts
    exact ⟨_, next?_word hne hw ht, h⟩
  | literal hq hs h =>
    obtain ⟨rfl, rfl⟩ := List.cons.inj hts
    exact ⟨_, next?_literal hq hs _, h⟩
  | mark hc ht h =>
    obtain ⟨rfl, rfl⟩ := List.cons.inj hts
    exact ⟨_, next?_mark hc ht, h⟩

theorem IsWritten.next?_nil (h : IsWritten [] t) : next? t = none := by
  generalize hts : ([] : List Token) = ts at h
  induction h with
  | nil => rfl
  | lastLine hb => exact next?_of_skipGap_eq_nil (skipGap_lastLine hb)
  | space hc _ ih => exact (next?_congr (skipGap_space hc _)).trans (ih hts)
  | lineComment hb hs _ ih => exact (next?_congr (skipGap_lineComment hb hs _)).trans (ih hts)
  | blockComment hb _ ih => exact (next?_congr (skipGap_blockComment hb _)).trans (ih hts)
  | word => cases hts
  | literal => cases hts
  | mark => cases hts

end ContractAudit.Solidity
