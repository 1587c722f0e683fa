import Mathlib.Data.List.Induction
import ContractAudit.Decimal.NumberText
import ContractAudit.LineRange
import ContractAudit.Proofs.JsonText

/-!
# Reading printed ranges

Ranges are printed with a comma and a blank between them, a range of one line as its number and
any other one as its bounds with a dash between them.  No number holds a comma or a dash and no
number is written in two ways, so the printed form is read back: it is cut at the commas, each
piece at its dash, and a piece with two equal bounds is none that has been printed.

    natOf? t = some n ↔ digits n = t                        (natOf?_eq_some_iff)
    ofText? t = some r ↔ r.text = t                         (ofText?_eq_some_iff)
    listText rs = t ↔ ofListText? t = some rs               (listText_eq_iff_and_injective)
-/

namespace ContractAudit

/-! ## Numbers -/

namespace Decimal

/-- The number that a row of ASCII digits without zeros in front stands for. -/
def natOf? (t : Text) : Option Nat :=
  if t.all Text.isAsciiDigit && isPlainRow t then some (value t) else none

theorem value_concat (t : Text) (c : Char) :
    value (t ++ [c]) = 10 * value t + (Text.digitValue? c).getD 0 := by
  unfold value
  rw [List.foldl_append]
  rfl

/-- An ASCII digit is the digit of its value. -/
theorem exists_digitChar {c : Char} (h : Text.isAsciiDigit c = true) :
    ∃ d < 10, Text.digitValue? c = some d ∧ Nat.digitChar d = c := by
  have hc : 48 ≤ c.toNat ∧ c.toNat ≤ 57 := by
    simpa [Text.isAsciiDigit] using h
  have hlt : c.toNat - 48 < 10 := by omega
  refine ⟨c.toNat - 48, hlt, ?_, ?_⟩
  · unfold Text.digitValue?
    rw [if_pos (by omega), if_pos (by simp; omega)]
  · apply Char.toNat_inj.1
    rw [Nat.toNat_digitChar_of_lt_ten hlt]
    omega

theorem isPlainRow_digits (n : Nat) : isPlainRow (digits n) = true := by
  cases h : digits n with
  | nil => exact absurd h (digits_ne_nil n)
  | cons c t =>
    cases t with
    | nil => rfl
    | cons d t =>
      refine decide_eq_true fun hc => ?_
      subst hc
      exact absurd (Json.eq_nil_of_digits_eq h) (List.cons_ne_nil d t)

/-- What stands before the last digit of a plain row is a plain row, and not of zero. -/
theorem isPlainRow_of_concat {t : Text} {c : Char} (h : isPlainRow (t ++ [c]) = true)
    (hne : t ≠ []) : isPlainRow t = true ∧ t ≠ ['0'] := by
  obtain ⟨d, rest, rfl⟩ := List.exists_cons_of_ne_nil hne
  have hd : d ≠ '0' := by
    cases rest with
    | nil => simpa [isPlainRow] using h
    | cons e rest => simpa [isPlainRow] using h
  refine ⟨?_, fun he => hd (List.cons.inj he).1⟩
  cases rest with
  | nil => rfl
  | cons e rest => exact decide_eq_true hd

/-- **A number is written in one way.** -/
theorem digits_value {t : Text} (hdigits : ∀ c ∈ t, Text.isAsciiDigit c = true)
    (hplain : isPlainRow t = true) : digits (value t) = t := by
  induction t using List.reverseRecOn with
  | nil => cases hplain
  | append_singleton t c ih =>
    obtain ⟨ht, hc⟩ := List.forall_mem_append.1 hdigits
    obtain ⟨d, hd, hvalue, hchar⟩ := exists_digitChar (hc c (List.mem_singleton_self c))
    have hlast : digits d = [c] := by
      rw [← hchar]
      exact Nat.toDigits_of_lt_base hd
    rw [value_concat, hvalue, Option.getD_some]
    by_cases hne : t = []
    · subst hne
      simpa [value] using hlast
    · obtain ⟨hrow, hzero⟩ := isPlainRow_of_concat hplain hne
      have hfront := ih ht hrow
      have hpos : 0 < value t := by
        rw [Nat.pos_iff_ne_zero]
        intro h
        rw [h] at hfront
        exact hzero hfront.symm
      calc digits (10 * value t + d)
          = digits (value t) ++ digits d :=
            (Nat.toDigits_append_toDigits (by decide) hpos hd).symm
        _ = t ++ [c] := by rw [hfront, hlast]

theorem natOf?_eq_some_iff {t : Text} {n : Nat} : natOf? t = some n ↔ digits n = t := by
  unfold natOf?
  rw [Option.ite_none_right_eq_some, Bool.and_eq_true, List.all_eq_true, Option.some.injEq]
  constructor
  · rintro ⟨⟨hdigits, hplain⟩, rfl⟩
    exact digits_value hdigits hplain
  · rintro rfl
    exact ⟨⟨fun c hc => isAsciiDigit_of_mem_digits hc, isPlainRow_digits n⟩, value_digits n⟩

end Decimal

/-! ## The pieces of a list -/

namespace Text

/-- The pieces of `t` between the commas that a blank follows. -/
def items : Text → List Text
  | [] => [[]]
  | ',' :: ' ' :: rest => [] :: items rest
  | c :: rest => (items rest).modifyHead (c :: ·)

theorem items_ne_nil (t : Text) : items t ≠ [] := by
  fun_induction items t with
  | case1 => exact List.cons_ne_nil _ _
  | case2 rest ih => exact List.cons_ne_nil _ _
  | case3 c rest _ ih =>
    obtain ⟨p, ps, h⟩ := List.exists_cons_of_ne_nil ih
    rw [h]
    exact List.cons_ne_nil _ _

/-- The pieces of a text make it up. -/
theorem join_items (t : Text) : join ", " (items t) = t := by
  unfold join
  fun_induction items t with
  | case1 => rfl
  | case2 rest ih => rw [List.intercalate_cons_of_ne_nil (items_ne_nil rest), ih]; rfl
  | case3 c rest _ ih =>
    obtain ⟨p, ps, h⟩ := List.exists_cons_of_ne_nil (items_ne_nil rest)
    rw [h] at ih ⊢
    rw [← ih, List.modifyHead_cons]
    cases ps with
    | nil => rw [List.intercalate_singleton, List.intercalate_singleton]
    | cons q ps => rw [List.intercalate_cons_cons, List.intercalate_cons_cons]; rfl

theorem items_cons {c : Char} (h : c ≠ ',') (t : Text) :
    items (c :: t) = (items t).modifyHead (c :: ·) := by
  rw [items]
  exact fun rest hc => absurd hc h

theorem items_of_not_mem {p : Text} (h : ',' ∉ p) : items p = [p] := by
  induction p with
  | nil => rfl
  | cons c p ih =>
    obtain ⟨hc, hp⟩ := not_or.1 (mt List.mem_cons.2 h)
    rw [items_cons (Ne.symm hc), ih hp]
    rfl

theorem items_append {p : Text} (h : ',' ∉ p) (rest : Text) :
    items (p ++ ',' :: ' ' :: rest) = p :: items rest := by
  induction p with
  | nil => rfl
  | cons c p ih =>
    obtain ⟨hc, hp⟩ := not_or.1 (mt List.mem_cons.2 h)
    rw [List.cons_append, items_cons (Ne.symm hc), ih hp]
    rfl

/-- Pieces without commas are read back. -/
theorem items_join {pieces : List Text} (h : ∀ p ∈ pieces, ',' ∉ p) (hne : pieces ≠ []) :
    items (join ", " pieces) = pieces := by
  unfold join
  induction pieces with
  | nil => exact absurd rfl hne
  | cons p rest ih =>
    obtain ⟨hp, hrest⟩ := List.forall_mem_cons.1 h
    by_cases hnil : rest = []
    · subst hnil
      rw [List.intercalate_singleton, items_of_not_mem hp]
    · rw [List.intercalate_cons_of_ne_nil hnil, List.append_assoc]
      exact (items_append hp _).trans (congrArg (p :: ·) (ih hrest hnil))

end Text

/-! ## Ranges -/

namespace LineRange

/-- The range that a printed piece stands for. -/
def ofText? (t : Text) : Option LineRange :=
  match Text.split '-' t with
  | [number] =>
    (Decimal.natOf? number).bind fun n => (ofBounds n n).toOption
  | [first, last] =>
    (Decimal.natOf? first).bind fun m => (Decimal.natOf? last).bind fun n =>
      if m = n then none else (ofBounds m n).toOption
  | _ => none

/-- The ranges that a printed list stands for. -/
def ofListText? (t : Text) : Option (List LineRange) :=
  if t = [] then some [] else (Text.items t).mapM ofText?

/-- The bounds of a range are natural numbers. -/
theorem exists_nat_bounds (r : LineRange) :
    ∃ m n : Nat, r.first = m ∧ r.last = n ∧ 1 ≤ m ∧ m ≤ n := by
  have hfirst := r.one_le_first
  have hlast := r.first_le_last
  exact ⟨r.first.toNat, r.last.toNat, by omega, by omega, by omega, by omega⟩

theorem ofBounds_eq_some_iff {m n : Int} {r : LineRange} :
    (ofBounds m n).toOption = some r ↔ r.first = m ∧ r.last = n := by
  unfold ofBounds
  constructor
  · intro h
    split at h
    · obtain rfl := Option.some.inj h
      exact ⟨rfl, rfl⟩
    · cases h
  · rintro ⟨rfl, rfl⟩
    rw [dif_pos ⟨r.one_le_first, r.first_le_last⟩]
    rfl

theorem not_mem_digits {c : Char} (h : Text.isAsciiDigit c = false) (n : Nat) :
    c ∉ Decimal.digits n := by
  intro hc
  rw [Decimal.isAsciiDigit_of_mem_digits hc] at h
  cases h

section
variable {r : LineRange} {m n : Nat} (hfirst : r.first = m) (hlast : r.last = n)
include hfirst hlast

theorem text_eq :
    r.text = Text.join ['-']
      (if m = n then [Decimal.digits m] else [Decimal.digits m, Decimal.digits n]) := by
  unfold text Text.join
  simp only [hfirst, hlast, Int.ofNat_inj]
  split
  · rw [List.intercalate_singleton]
    rfl
  · rw [List.intercalate_cons_cons, List.intercalate_singleton]
    rfl

/-- The pieces of a printed range. -/
theorem split_text :
    Text.split '-' r.text =
      if m = n then [Decimal.digits m] else [Decimal.digits m, Decimal.digits n] := by
  have hdash : ∀ k, '-' ∉ Decimal.digits k := not_mem_digits rfl
  rw [text_eq hfirst hlast]
  refine Text.split_join '-' _ ?_ ?_
  · split <;> simp [hdash]
  · split <;> exact List.cons_ne_nil _ _

end

/-- **A range is printed in one way, and no other range is printed alike.** -/
theorem ofText?_eq_some_iff {t : Text} {r : LineRange} : ofText? t = some r ↔ r.text = t := by
  constructor
  · intro h
    rw [← Text.join_split '-' t]
    unfold ofText? at h
    split at h
    · next number hsplit =>
      obtain ⟨n, hn, hr⟩ := Option.bind_eq_some_iff.1 h
      obtain ⟨hfirst, hlast⟩ := ofBounds_eq_some_iff.1 hr
      rw [hsplit, text_eq hfirst hlast, if_pos rfl, Decimal.natOf?_eq_some_iff.1 hn]
    · next first last hsplit =>
      obtain ⟨m, hm, h⟩ := Option.bind_eq_some_iff.1 h
      obtain ⟨n, hn, h⟩ := Option.bind_eq_some_iff.1 h
      rw [Option.ite_none_left_eq_some] at h
      obtain ⟨hfirst, hlast⟩ := ofBounds_eq_some_iff.1 h.2
      rw [hsplit, text_eq hfirst hlast, if_neg h.1, Decimal.natOf?_eq_some_iff.1 hm,
        Decimal.natOf?_eq_some_iff.1 hn]
    · cases h
  · rintro rfl
    obtain ⟨m, n, hfirst, hlast, -, -⟩ := exists_nat_bounds r
    unfold ofText?
    rw [split_text hfirst hlast]
    by_cases h : m = n
    · subst h
      simp only [if_true, Decimal.natOf?_eq_some_iff.2 rfl, Option.bind_some]
      exact ofBounds_eq_some_iff.2 ⟨hfirst, hlast⟩
    · simp only [if_neg h, Decimal.natOf?_eq_some_iff.2 rfl, Option.bind_some]
      exact ofBounds_eq_some_iff.2 ⟨hfirst, hlast⟩

theorem text_ne_nil (r : LineRange) : r.text ≠ [] := by
  obtain ⟨m, n, hfirst, hlast, -, -⟩ := exists_nat_bounds r
  obtain ⟨c, t, hm⟩ := List.exists_cons_of_ne_nil (Decimal.digits_ne_nil m)
  rw [text_eq hfirst hlast, hm]
  unfold Text.join
  split
  · rw [List.intercalate_singleton]
    exact List.cons_ne_nil c t
  · rw [List.intercalate_cons_cons]
    exact List.cons_ne_nil _ _

theorem comma_not_mem_text (r : LineRange) : ',' ∉ r.text := by
  have hcomma : ∀ k, ',' ∉ Decimal.digits k := not_mem_digits rfl
  obtain ⟨m, n, hfirst, hlast, -, -⟩ := exists_nat_bounds r
  rw [text_eq hfirst hlast]
  unfold Text.join
  split
  · rw [List.intercalate_singleton]
    exact hcomma m
  · simp [List.intercalate_cons_cons, List.intercalate_singleton, hcomma]

/-! ## Lists of ranges -/

theorem listText_eq_nil_iff {rs : List LineRange} : listText rs = [] ↔ rs = [] := by
  constructor
  · intro h
    cases rs with
    | nil => rfl
    | cons r rest =>
      obtain ⟨c, t, hr⟩ := List.exists_cons_of_ne_nil r.text_ne_nil
      unfold listText Text.join at h
      rw [List.map_cons, hr] at h
      cases rest <;> cases h
  · rintro rfl
    rfl

/-- The pieces of a printed list are its printed ranges. -/
theorem items_listText {rs : List LineRange} (h : rs ≠ []) :
    Text.items (listText rs) = rs.map text := by
  refine Text.items_join (fun p hp => ?_) (mt List.map_eq_nil_iff.1 h)
  obtain ⟨r, -, rfl⟩ := List.mem_map.1 hp
  exact r.comma_not_mem_text

theorem mapM_ofText?_eq_some_iff {pieces : List Text} {rs : List LineRange} :
    pieces.mapM ofText? = some rs ↔ rs.map text = pieces := by
  induction pieces generalizing rs with
  | nil => simp [eq_comm]
  | cons p rest ih =>
    rw [List.mapM_cons, Option.bind_eq_bind, Option.bind_eq_some_iff, List.map_eq_cons_iff]
    constructor
    · rintro ⟨r, hr, h⟩
      obtain ⟨more, hmore, he⟩ := Option.bind_eq_some_iff.1 h
      exact ⟨r, more, (Option.some.inj he).symm, ofText?_eq_some_iff.1 hr, ih.1 hmore⟩
    · rintro ⟨r, more, rfl, hr, hmore⟩
      refine ⟨r, ofText?_eq_some_iff.2 hr, ?_⟩
      rw [ih.2 hmore]
      rfl

/-- **Printed lists are read back.**  A text is the printed form of some ranges if and only if they
are read from it; so no two lists of ranges are printed alike. -/
theorem listText_eq_iff_and_injective :
    (∀ (rs : List LineRange) (t : Text), listText rs = t ↔ ofListText? t = some rs) ∧
      Function.Injective listText := by
  have hread : ∀ (rs : List LineRange) (t : Text), listText rs = t ↔ ofListText? t = some rs := by
    intro rs t
    unfold ofListText?
    split
    · next hnil =>
      rw [hnil, listText_eq_nil_iff, Option.some.injEq, eq_comm]
    · next hne =>
      rw [mapM_ofText?_eq_some_iff]
      constructor
      · rintro rfl
        exact (items_listText fun h => hne (listText_eq_nil_iff.2 h)).symm
      · intro h
        unfold listText
        rw [h, Text.join_items]
  refine ⟨hread, fun rs ss h => ?_⟩
  exact Option.some.inj (((hread rs _).1 h).symm.trans ((hread ss _).1 rfl))

/-- Two equal bounds, a zero in front and a comma without a blank have never been printed. -/
example : ofListText? "1-3, 7, 10-12" = some [⟨1, 3, by decide, by decide⟩,
    ⟨7, 7, by decide, by decide⟩, ⟨10, 12, by decide, by decide⟩] ∧
    ofListText? "7-7" = none ∧ ofListText? "1-3, 07" = none ∧ ofListText? "1-3,7" = none := by
  decide +kernel

end LineRange

end ContractAudit
