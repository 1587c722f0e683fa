import ContractAudit.FileRef
import ContractAudit.Proofs.Lines

/-!
# References in a description

A reference is written as a name of word characters that ends in `.sol`, the mark `#`, digits, and
perhaps a dash and more digits.  From left to right the first place at which one is written
counts; there the file is as long as it can be, then the first number, then the second, and the
search goes on behind what was read.  A reader that takes the last mark of each word does just
that, since no character of a reference ends a word.

    ofWord? w = some r → r is found first in w, and none behind it  (ofWord?_eq_some)
    rs is found in t from left to right ↔ rs = ofText t             (isFound_iff)
-/

namespace ContractAudit.FileRef

/-- A row of digits that is not empty. -/
def IsNumber (ds : Text) : Prop := ds ≠ [] ∧ ∀ c ∈ ds, Text.isDecimal c = true

/-- The parts of a reference have their form. -/
structure IsReference (r : FileRef) : Prop where
  file : ∃ name : Text, name ≠ [] ∧ (∀ c ∈ name, endsWord c = false) ∧ r.file = name ++ ending
  first : IsNumber r.first
  last : ∀ ds, r.last = some ds → IsNumber ds

/-- A reference as it is written. -/
def written (r : FileRef) : Text :=
  r.file ++ '#' :: (r.first ++ r.last.elim [] ('-' :: ·))

/-- A reference is written in a text, with `front` before it and `rest` behind it. -/
structure IsAt (t front : Text) (r : FileRef) (rest : Text) : Prop where
  reference : r.IsReference
  text : t = front ++ (r.written ++ rest)

/-- A reference is written somewhere in the text. -/
def IsWrittenIn (t : Text) : Prop := ∃ front r rest, IsAt t front r rest

/-- Of two references that are written at one place the first has the longer file, or else the
longer first number, or else the longer second one. -/
structure Exceeds (r other : FileRef) : Prop where
  file : other.file.length ≤ r.file.length
  first : other.file.length = r.file.length → other.first.length ≤ r.first.length
  last : other.file.length = r.file.length → other.first.length = r.first.length →
    (other.last.getD []).length ≤ (r.last.getD []).length

/-- The reference is the first in the text. -/
structure IsFirst (t front : Text) (r : FileRef) (rest : Text) : Prop where
  isAt : IsAt t front r rest
  first : ∀ {front' r' rest'}, IsAt t front' r' rest' →
    front.length ≤ front'.length ∧ (front.length = front'.length → r.Exceeds r')

/-- The references that are found in a text from left to right. -/
inductive IsFound : Text → List FileRef → Prop
  | nil {t : Text} (h : ¬ IsWrittenIn t) : IsFound t []
  | cons {t front rest : Text} {r : FileRef} {rs : List FileRef} (h : IsFirst t front r rest)
      (hrest : IsFound rest rs) : IsFound t (r :: rs)

theorem IsFound.ne_nil_iff {t : Text} {rs : List FileRef} (h : IsFound t rs) :
    rs ≠ [] ↔ IsWrittenIn t := by
  cases h with
  | nil h => simpa using h
  | cons h _ => exact ⟨fun _ => ⟨_, _, _, h.isAt⟩, fun _ => List.cons_ne_nil _ _⟩

/-! ## One answer -/

/-- References of the same lengths at one place are the same. -/
theorem IsAt.unique {t front rest rest' : Text} {r r' : FileRef} (h : IsAt t front r rest)
    (h' : IsAt t front r' rest') (hr : r.Exceeds r') (hr' : r'.Exceeds r) :
    r = r' ∧ rest = rest' := by
  have hfile := Nat.le_antisymm hr'.file hr.file
  have hfirst := Nat.le_antisymm (hr'.first hfile) (hr.first hfile.symm)
  have hlast := Nat.le_antisymm (hr'.last hfile hfirst) (hr.last hfile.symm hfirst.symm)
  have ht := h.text.symm.trans h'.text
  have hreference := h.reference.last
  have hreference' := h'.reference.last
  obtain ⟨file, first, last⟩ := r
  obtain ⟨file', first', last'⟩ := r'
  unfold written at ht
  simp only [List.append_cancel_left_eq, List.append_assoc, List.cons_append] at ht
  obtain ⟨rfl, hnumbers⟩ := List.append_inj ht hfile
  obtain ⟨rfl, hbehind⟩ := List.append_inj (List.cons.inj hnumbers).2 hfirst
  -- a second number is not empty, so both references have one or none has
  cases last with
  | none =>
    cases last' with
    | none => exact ⟨rfl, hbehind⟩
    | some ds => exact absurd (List.eq_nil_of_length_eq_zero hlast.symm) (hreference' ds rfl).1
  | some ds =>
    cases last' with
    | none => exact absurd (List.eq_nil_of_length_eq_zero hlast) (hreference ds rfl).1
    | some ds' =>
      obtain ⟨rfl, hrest⟩ := List.append_inj (List.cons.inj hbehind).2 hlast
      exact ⟨rfl, hrest⟩

theorem IsFirst.unique {t front front' rest rest' : Text} {r r' : FileRef}
    (h : IsFirst t front r rest) (h' : IsFirst t front' r' rest') : r = r' ∧ rest = rest' := by
  have hlen := Nat.le_antisymm (h.first h'.isAt).1 (h'.first h.isAt).1
  obtain rfl := (List.append_inj (h.isAt.text.symm.trans h'.isAt.text) hlen).1
  exact h.isAt.unique h'.isAt ((h.first h'.isAt).2 rfl) ((h'.first h.isAt).2 rfl)

theorem IsFound.unique {t : Text} {rs rs' : List FileRef} (h : IsFound t rs)
    (h' : IsFound t rs') : rs = rs' := by
  induction h generalizing rs' with
  | nil h =>
    cases h' with
    | nil => rfl
    | cons hfirst _ => exact absurd ⟨_, _, _, hfirst.isAt⟩ h
  | cons hfirst _ ih =>
    cases h' with
    | nil h' => exact absurd ⟨_, _, _, hfirst.isAt⟩ h'
    | cons hfirst' hrest' =>
      obtain ⟨rfl, rfl⟩ := hfirst.unique hfirst'
      rw [ih hrest']

/-! ## Characters -/

theorem endsWord_of_isDecimal {c : Char} (h : Text.isDecimal c = true) : endsWord c = false := by
  have hblank := Text.isBlank_eq_false Text.isDecimal_of_isBlank h
  unfold endsWord
  rw [hblank]
  simp only [Bool.false_or, Bool.or_eq_false_iff, beq_eq_false_iff_ne]
  constructor <;>
  · rintro rfl
    revert h
    decide

theorem endsWord_of_mem_ending : ∀ c ∈ ending, endsWord c = false := by
  have h : (ending.all fun c => ! endsWord c) = true := by decide
  simpa using h

theorem IsNumber.not_endsWord {ds : Text} (h : IsNumber ds) : ∀ c ∈ ds, endsWord c = false :=
  fun c hc => endsWord_of_isDecimal (h.2 c hc)

/-- No character of a reference ends a word. -/
theorem IsReference.not_endsWord {r : FileRef} (h : r.IsReference) :
    ∀ c ∈ r.written, endsWord c = false := by
  obtain ⟨name, -, hname, hfile⟩ := h.file
  have hlast : ∀ c ∈ r.last.elim [] ('-' :: ·), endsWord c = false := by
    cases hl : r.last with
    | none => exact List.forall_mem_nil _
    | some ds => exact List.forall_mem_cons.2 ⟨by decide, (h.last ds hl).not_endsWord⟩
  unfold written
  rw [hfile, List.forall_mem_append, List.forall_mem_append, List.forall_mem_cons,
    List.forall_mem_append]
  exact ⟨⟨hname, endsWord_of_mem_ending⟩, by decide, h.first.not_endsWord, hlast⟩

theorem IsReference.ne_nil {r : FileRef} (h : r.IsReference) : r.written ≠ [] := by
  obtain ⟨name, hne, -, hfile⟩ := h.file
  unfold written
  rw [hfile]
  simp [hne]

/-! ## Marks -/

/-- A mark stands in the text behind a name, and `tail` behind the mark. -/
structure IsMark (t name tail : Text) : Prop where
  ne_nil : name ≠ []
  text : t = name ++ (ending ++ '#' :: tail)
  digit : ∃ d rest, tail = d :: rest ∧ Text.isDecimal d = true

theorem afterMark?_eq_some {t tail : Text} :
    afterMark? t = some tail ↔
      t = ending ++ '#' :: tail ∧ ∃ d rest, tail = d :: rest ∧ Text.isDecimal d = true := by
  constructor
  · intro h
    unfold afterMark? at h
    split at h
    · next d rest =>
      split at h
      · next hd =>
        obtain rfl := Option.some.inj h
        exact ⟨rfl, d, rest, rfl, hd⟩
      · cases h
    · cases h
  · rintro ⟨rfl, d, rest, rfl, hd⟩
    show (if Text.isDecimal d then some (d :: rest) else none) = _
    rw [if_pos hd]

/-- A mark comes right behind the first character or later. -/
theorem isMark_cons {c : Char} {t name tail : Text} :
    IsMark (c :: t) name tail ↔
      name = [c] ∧ afterMark? t = some tail ∨ ∃ name', name = c :: name' ∧ IsMark t name' tail := by
  constructor
  · rintro ⟨hne, ht, hd⟩
    obtain ⟨a, name, rfl⟩ := List.exists_cons_of_ne_nil hne
    obtain ⟨rfl, htext⟩ := List.cons.inj ht
    cases name with
    | nil => exact Or.inl ⟨rfl, afterMark?_eq_some.2 ⟨htext, hd⟩⟩
    | cons b name => exact Or.inr ⟨b :: name, rfl, List.cons_ne_nil b name, htext, hd⟩
  · rintro (⟨rfl, h⟩ | ⟨name', rfl, -, rfl, hd⟩)
    · obtain ⟨rfl, hd⟩ := afterMark?_eq_some.1 h
      exact ⟨List.cons_ne_nil c [], rfl, hd⟩
    · exact ⟨List.cons_ne_nil c name', rfl, hd⟩

theorem lastMark?_eq_none {w : Text} : lastMark? w = none ↔ ∀ name tail, ¬ IsMark w name tail := by
  induction w with
  | nil =>
    refine ⟨fun _ name tail h => h.ne_nil ?_, fun _ => rfl⟩
    exact (List.append_eq_nil_iff.1 h.text.symm).1
  | cons c w ih =>
    have hnone : lastMark? (c :: w) = none ↔ lastMark? w = none ∧ afterMark? w = none := by
      rw [lastMark?]
      cases lastMark? w <;> simp
    rw [hnone, ih]
    constructor
    · rintro ⟨hw, hafter⟩ name tail h
      rcases isMark_cons.1 h with ⟨-, h⟩ | ⟨name', -, h⟩
      · cases hafter.symm.trans h
      · exact hw name' tail h
    · intro h
      refine ⟨fun name tail hm => h (c :: name) tail (isMark_cons.2 (Or.inr ⟨name, rfl, hm⟩)), ?_⟩
      rw [Option.eq_none_iff_forall_ne_some]
      exact fun tail hm => h [c] tail (isMark_cons.2 (Or.inl ⟨rfl, hm⟩))

/-- The mark that is taken is the last one. -/
theorem lastMark?_eq_some {w file tail : Text} (h : lastMark? w = some (file, tail)) :
    ∃ name, file = name ++ ending ∧ IsMark w name tail ∧
      ∀ {name' tail'}, IsMark w name' tail' → name'.length ≤ name.length := by
  induction w generalizing file with
  | nil => cases h
  | cons c w ih =>
    rw [lastMark?] at h
    cases hw : lastMark? w with
    | some m =>
      rw [hw] at h
      obtain ⟨rfl, rfl⟩ := Prod.mk.inj (Option.some.inj h)
      obtain ⟨name, hfile, hmark, hlast⟩ := ih hw
      refine ⟨c :: name, by rw [hfile]; rfl, isMark_cons.2 (Or.inr ⟨name, rfl, hmark⟩), ?_⟩
      intro name' tail' h'
      rcases isMark_cons.1 h' with ⟨rfl, -⟩ | ⟨name'', rfl, hrest⟩
      · exact Nat.succ_le_succ (Nat.zero_le _)
      · exact Nat.succ_le_succ (hlast hrest)
    | none =>
      rw [hw] at h
      obtain ⟨tail', hafter, he⟩ := Option.map_eq_some_iff.1 h
      obtain ⟨rfl, rfl⟩ := Prod.mk.inj he
      refine ⟨[c], rfl, isMark_cons.2 (Or.inl ⟨rfl, hafter⟩), ?_⟩
      intro name' tail'' h'
      rcases isMark_cons.1 h' with ⟨rfl, -⟩ | ⟨name'', rfl, hrest⟩
      · exact Nat.le_refl _
      · exact absurd hrest (lastMark?_eq_none.1 hw _ _)

/-- Where a reference is written, there is a mark. -/
theorem IsAt.isMark {t front rest : Text} {r : FileRef} (h : IsAt t front r rest) :
    ∃ name, r.file = name ++ ending ∧
      IsMark t (front ++ name) (r.first ++ (r.last.elim [] ('-' :: ·) ++ rest)) := by
  obtain ⟨⟨⟨name, hne, -, hfile⟩, ⟨hfirst, hdigits⟩, -⟩, rfl⟩ := h
  obtain ⟨d, ds, hd⟩ := List.exists_cons_of_ne_nil hfirst
  refine ⟨name, hfile, by simp [hne], ?_, d, ds ++ (r.last.elim [] ('-' :: ·) ++ rest), ?_, ?_⟩
  · unfold written
    simp [hfile]
  · rw [hd]
    rfl
  · exact hdigits d (by rw [hd]; exact List.mem_cons_self)

/-! ## Numbers -/

theorem isNumber_digits (n : Nat) : IsNumber (Decimal.digits n) :=
  ⟨Decimal.digits_ne_nil n, fun _ hc =>
    Text.isDecimal_of_isAsciiDigit (Decimal.isAsciiDigit_of_mem_digits hc)⟩

theorem length_le_takeWhile {ds : Text} (h : ∀ c ∈ ds, Text.isDecimal c = true) (rest : Text) :
    ds.length ≤ ((ds ++ rest).takeWhile Text.isDecimal).length := by
  rw [List.takeWhile_append_of_pos h, List.length_append]
  exact Nat.le_add_right _ _

theorem isNumber_takeWhile {d : Char} {rest : Text} (h : Text.isDecimal d = true) :
    IsNumber ((d :: rest).takeWhile Text.isDecimal) := by
  refine ⟨?_, fun c hc => (List.mem_takeWhile_imp hc)⟩
  rw [List.takeWhile_cons, if_pos h]
  exact List.cons_ne_nil _ _

theorem secondLine?_dash (t : Text) :
    secondLine? ('-' :: t) =
      if t.takeWhile Text.isDecimal = [] then none else some (t.takeWhile Text.isDecimal) := by
  rw [secondLine?]
  cases t.takeWhile Text.isDecimal with
  | nil => rfl
  | cons d ds => rfl

theorem secondLine?_spec (t : Text) :
    (∃ rest, t = (secondLine? t).elim [] ('-' :: ·) ++ rest) ∧
      ∀ ds, secondLine? t = some ds → IsNumber ds := by
  have hnone : secondLine? t = none → (∃ rest, t = (secondLine? t).elim [] ('-' :: ·) ++ rest) ∧
      ∀ ds, secondLine? t = some ds → IsNumber ds := by
    intro h
    rw [h]
    exact ⟨⟨t, rfl⟩, fun ds he => by cases he⟩
  by_cases hdash : ∃ u, t = '-' :: u
  · obtain ⟨u, rfl⟩ := hdash
    by_cases hu : u.takeWhile Text.isDecimal = []
    · exact hnone (by rw [secondLine?_dash, if_pos hu])
    · rw [secondLine?_dash, if_neg hu]
      refine ⟨⟨u.dropWhile Text.isDecimal, ?_⟩, ?_⟩
      · rw [Option.elim_some, List.cons_append, List.takeWhile_append_dropWhile]
      · rintro ds he
        obtain rfl := Option.some.inj he
        exact ⟨hu, fun c hc => List.mem_takeWhile_imp hc⟩
  · refine hnone ?_
    unfold secondLine?
    split
    · next u => exact absurd ⟨u, rfl⟩ hdash
    · rfl

theorem length_le_secondLine? {ds : Text} (h : IsNumber ds) (rest : Text) :
    ds.length ≤ ((secondLine? ('-' :: (ds ++ rest))).getD []).length := by
  have hle := length_le_takeWhile h.2 rest
  rw [secondLine?_dash]
  split
  · next hnil =>
    rw [hnil] at hle
    exact hle
  · exact hle

/-! ## Words -/

theorem not_isWrittenIn_of_ofWord? {w : Text} (h : ofWord? w = none) : ¬ IsWrittenIn w := by
  rintro ⟨front, r, rest, hat⟩
  obtain ⟨name, -, hmark⟩ := hat.isMark
  exact lastMark?_eq_none.1 (Option.map_eq_none_iff.1 h) _ _ hmark

/-- The reference that is read at a mark. -/
def ofMark (name tail : Text) : FileRef :=
  ⟨name ++ ending, tail.takeWhile Text.isDecimal, secondLine? (tail.dropWhile Text.isDecimal)⟩

section
variable {w name tail : Text} (hmark : IsMark w name tail)
include hmark

theorem isAt_ofMark (hw : ∀ c ∈ w, endsWord c = false) :
    ∃ rest, IsAt w [] (ofMark name tail) rest := by
  obtain ⟨d, digits, htail, hd⟩ := hmark.digit
  obtain ⟨⟨rest, hrest⟩, hsecond⟩ := secondLine?_spec (tail.dropWhile Text.isDecimal)
  refine ⟨rest, ⟨⟨name, hmark.ne_nil, fun c hc => hw c ?_, rfl⟩, ?_, hsecond⟩, ?_⟩
  · rw [hmark.text]
    exact List.mem_append_left _ hc
  · unfold ofMark
    rw [htail]
    exact isNumber_takeWhile hd
  · have hsplit : tail = tail.takeWhile Text.isDecimal ++
        ((secondLine? (tail.dropWhile Text.isDecimal)).elim [] ('-' :: ·) ++ rest) := by
      rw [← hrest, List.takeWhile_append_dropWhile]
    unfold written ofMark
    simp only [List.nil_append, List.append_assoc, List.cons_append]
    rw [← hsplit]
    exact hmark.text

variable (hmax : ∀ {name' tail' : Text}, IsMark w name' tail' → name'.length ≤ name.length)
include hmax

/-- No reference at this place is longer than the one that is read. -/
theorem exceeds_ofMark {r : FileRef} {rest : Text} (h : IsAt w [] r rest) :
    (ofMark name tail).Exceeds r := by
  obtain ⟨name', hfile, hmark'⟩ := h.isMark
  rw [List.nil_append] at hmark'
  have hlen : r.file.length = (name ++ ending).length → name'.length = name.length := by
    rw [hfile, List.length_append, List.length_append]
    exact Nat.add_right_cancel
  -- with files of one length the same text stands behind the two marks
  have hbehind : r.file.length = (name ++ ending).length →
      r.first ++ (r.last.elim [] ('-' :: ·) ++ rest) = tail := by
    intro he
    have ht := (List.append_inj (hmark'.text.symm.trans hmark.text) (hlen he)).2
    exact (List.cons.inj (List.append_inj ht rfl).2).2
  refine ⟨?_, fun he => ?_, fun he hfirst => ?_⟩
  · have hle := hmax hmark'
    unfold ofMark
    rw [hfile, List.length_append, List.length_append]
    exact Nat.add_le_add_right hle _
  · have hle := length_le_takeWhile h.reference.first.2 (r.last.elim [] ('-' :: ·) ++ rest)
    rw [hbehind he] at hle
    exact hle
  · have hdrop : r.last.elim [] ('-' :: ·) ++ rest = tail.dropWhile Text.isDecimal := by
      refine (List.append_inj ?_ hfirst).2
      rw [hbehind he]
      exact List.takeWhile_append_dropWhile.symm
    cases hl : r.last with
    | none => exact Nat.zero_le _
    | some ds =>
      have hle := length_le_secondLine? (h.reference.last ds hl) rest
      rw [hl] at hdrop
      rw [← List.cons_append] at hle
      unfold ofMark
      rw [← hdrop]
      exact hle

omit hmark in
/-- A reference behind the one that is read would have a later mark. -/
theorem not_isWrittenIn_behind {rest : Text} (h : IsAt w [] (ofMark name tail) rest) :
    ¬ IsWrittenIn rest := by
  rintro ⟨front, r, rest', hr⟩
  have hlater : IsAt w ((ofMark name tail).written ++ front) r rest' := by
    refine ⟨hr.reference, ?_⟩
    rw [h.text, hr.text, List.nil_append, List.append_assoc]
  obtain ⟨name', -, hmark'⟩ := hlater.isMark
  have hle := hmax hmark'
  unfold written ofMark at hle
  simp only [List.length_append, List.length_cons] at hle
  omega

end

/-- The reference of a word is read at its last mark. -/
theorem ofWord?_eq_ofMark {w : Text} {r : FileRef} (h : ofWord? w = some r) :
    ∃ name tail, r = ofMark name tail ∧ IsMark w name tail ∧
      ∀ {name' tail'}, IsMark w name' tail' → name'.length ≤ name.length := by
  obtain ⟨⟨file, tail⟩, hlast, rfl⟩ := Option.map_eq_some_iff.1 h
  obtain ⟨name, rfl, hmark, hmax⟩ := lastMark?_eq_some hlast
  exact ⟨name, tail, rfl, hmark, hmax⟩

/-- **The reference of a word.** -/
theorem ofWord?_eq_some {w : Text} {r : FileRef} (hw : ∀ c ∈ w, endsWord c = false)
    (h : ofWord? w = some r) : ∃ rest, IsFirst w [] r rest ∧ ¬ IsWrittenIn rest := by
  obtain ⟨name, tail, rfl, hmark, hmax⟩ := ofWord?_eq_ofMark h
  obtain ⟨rest, hat⟩ := isAt_ofMark hmark hw
  refine ⟨rest, ⟨hat, fun {front r' rest'} h' => ⟨Nat.zero_le _, fun hfront => ?_⟩⟩,
    not_isWrittenIn_behind hmax hat⟩
  obtain rfl := List.eq_nil_of_length_eq_zero hfront.symm
  exact exceeds_ofMark hmark hmax h'

/-! ## Texts -/

/-- A word may begin behind the text, which is empty or ends with a blank or a parenthesis. -/
def Opens (t : Text) : Prop := ∀ c ∈ t.getLast?, endsWord c = true

instance (t : Text) : Decidable (Opens t) :=
  decidable_of_iff (t.getLast?.all endsWord = true) (Option.all_eq_true _ _)

/-- A word may end in front of the text, which is empty or begins with a blank or a
parenthesis. -/
def Closes (t : Text) : Prop := ∀ c ∈ t.head?, endsWord c = true

instance (t : Text) : Decidable (Closes t) :=
  decidable_of_iff (t.head?.all endsWord = true) (Option.all_eq_true _ _)

theorem words_eq_singleton {w : Text} (hw : ∀ c ∈ w, endsWord c = false) : words w = [w] :=
  List.splitOnP_eq_singleton hw

theorem words_append {w t : Text} {c : Char} (hw : ∀ c ∈ w, endsWord c = false)
    (hc : endsWord c = true) : words (w ++ c :: t) = w :: words t :=
  List.splitOnP_append_cons_of_forall_mem hw c hc t

/-- A text is a word, or a word in front of a character that ends it and of another text. -/
theorem words_induction {motive : Text → Prop}
    (word : ∀ w, (∀ c ∈ w, endsWord c = false) → motive w)
    (append : ∀ w c t, (∀ c ∈ w, endsWord c = false) → endsWord c = true → motive t →
      motive (w ++ c :: t)) (t : Text) : motive t := by
  -- the word that has begun stands in front of the text that is left
  have h : ∀ w : Text, (∀ c ∈ w, endsWord c = false) → motive (w ++ t) := by
    induction t with
    | nil =>
      intro w hw
      rw [List.append_nil]
      exact word w hw
    | cons c t ih =>
      intro w hw
      cases hc : endsWord c with
      | true => exact append w c t hw hc (ih [] (List.forall_mem_nil _))
      | false =>
        have ht := ih (w ++ [c]) (List.forall_mem_append.2 ⟨hw, by simpa using hc⟩)
        rwa [List.append_assoc, List.singleton_append] at ht
  exact h [] (List.forall_mem_nil _)

/-- A reference is written before a character that ends a word or behind it. -/
theorem IsAt.of_break {w t front rest : Text} {c : Char} {r : FileRef} (hc : endsWord c = true)
    (h : IsAt (w ++ c :: t) front r rest) :
    (∃ rest', rest = rest' ++ c :: t ∧ IsAt w front r rest') ∨
      ∃ front', front = w ++ c :: front' ∧ IsAt t front' r rest := by
  have hr := h.reference
  have hout : c ∉ r.written := fun hmem => by
    rw [hr.not_endsWord c hmem] at hc
    cases hc
  rcases List.append_eq_append_iff.1 h.text with ⟨more, rfl, ht⟩ | ⟨more, rfl, ht⟩
  · rcases List.append_eq_cons_iff.1 ht.symm with ⟨rfl, hstart⟩ | ⟨front', rfl, hlater⟩
    · rcases List.append_eq_cons_iff.1 hstart with ⟨hnil, -⟩ | ⟨u, hu, -⟩
      · exact absurd hnil hr.ne_nil
      · exact absurd (by rw [hu]; exact List.mem_cons_self) hout
    · exact Or.inr ⟨front', rfl, hr, hlater⟩
  · rcases List.append_eq_append_iff.1 ht with ⟨rest', rfl, rfl⟩ | ⟨u, hu, ht⟩
    · exact Or.inl ⟨rest', rfl, hr, rfl⟩
    · rcases List.append_eq_cons_iff.1 ht.symm with ⟨rfl, rfl⟩ | ⟨v, rfl, -⟩
      · rw [List.append_nil] at hu
        exact Or.inl ⟨[], rfl, hr, by rw [hu, List.append_nil]⟩
      · exact absurd (by rw [hu]; simp) hout

section
variable {w t : Text} {c : Char} (hc : endsWord c = true)
include hc

/-- A word without a reference is passed over. -/
theorem not_isWrittenIn_append (hw : ¬ IsWrittenIn w) (ht : ¬ IsWrittenIn t) :
    ¬ IsWrittenIn (w ++ c :: t) := by
  rintro ⟨front, r, rest, hat⟩
  rcases hat.of_break hc with ⟨rest', -, hbefore⟩ | ⟨front', -, hbehind⟩
  · exact hw ⟨_, _, _, hbefore⟩
  · exact ht ⟨_, _, _, hbehind⟩

theorem IsFirst.skip {front rest : Text} {r : FileRef} (hw : ¬ IsWrittenIn w)
    (h : IsFirst t front r rest) : IsFirst (w ++ c :: t) (w ++ c :: front) r rest := by
  refine ⟨⟨h.isAt.reference, ?_⟩, fun {front' r' rest'} hat => ?_⟩
  · rw [h.isAt.text]
    simp
  · rcases hat.of_break hc with ⟨rest', -, hbefore⟩ | ⟨front', rfl, hbehind⟩
    · exact absurd ⟨_, _, _, hbefore⟩ hw
    · obtain ⟨hle, hexceeds⟩ := h.first hbehind
      simp only [List.length_append, List.length_cons]
      exact ⟨by omega, fun he => hexceeds (by omega)⟩

theorem IsFound.skip {rs : List FileRef} (hw : ¬ IsWrittenIn w) (h : IsFound t rs) :
    IsFound (w ++ c :: t) rs := by
  cases h with
  | nil hn => exact .nil (not_isWrittenIn_append hc hw hn)
  | cons hfirst hrest => exact .cons (hfirst.skip hc hw) hrest

/-- What comes behind a word does not change what is found in it. -/
theorem IsFirst.append {r : FileRef} {rest : Text} (h : IsFirst w [] r rest) :
    IsFirst (w ++ c :: t) [] r (rest ++ c :: t) := by
  refine ⟨⟨h.isAt.reference, ?_⟩, fun {front' r' rest'} hat => ⟨Nat.zero_le _, fun he => ?_⟩⟩
  · rw [h.isAt.text]
    simp
  · rcases hat.of_break hc with ⟨rest', -, hbefore⟩ | ⟨front', rfl, -⟩
    · exact (h.first hbefore).2 he
    · simp at he

end

theorem isFound_ofText (t : Text) : IsFound t (ofText t) := by
  induction t using words_induction with
  | word w hw =>
    unfold ofText
    rw [words_eq_singleton hw, List.filterMap_cons, List.filterMap_nil]
    cases hr : ofWord? w with
    | none => exact .nil (not_isWrittenIn_of_ofWord? hr)
    | some r =>
      obtain ⟨rest, hfirst, hnone⟩ := ofWord?_eq_some hw hr
      exact .cons hfirst (.nil hnone)
  | append w c t hw hc ht =>
    unfold ofText at ht ⊢
    rw [words_append hw hc, List.filterMap_cons]
    cases hr : ofWord? w with
    | none => exact ht.skip hc (not_isWrittenIn_of_ofWord? hr)
    | some r =>
      obtain ⟨rest, hfirst, hnone⟩ := ofWord?_eq_some hw hr
      exact .cons (hfirst.append hc) (ht.skip hc hnone)

/-- **The references of a description** are those that are found in it from left to right. -/
theorem isFound_iff {t : Text} {rs : List FileRef} : IsFound t rs ↔ rs = ofText t :=
  ⟨fun h => h.unique (isFound_ofText t), fun h => h ▸ isFound_ofText t⟩

end ContractAudit.FileRef
