import Mathlib.Data.Set.Card
import ContractAudit.Proofs.FileRef

/-!
# Marks that a description holds and references that are found

A mark is `.sol#` with a digit behind it.  One would expect that each mark behind a character
that can end a name is the mark of a reference, and that no reference has another mark in its
file.  A file takes all of its word in front of the last mark, so this comes down to the words:
a word with two marks has one reference, and the file of that reference swallows the other mark.

    (front, r) is found in t ↔ r is the reference of a word of t that begins behind front
                                                            (isFoundAt_iff)
    every mark of t has its reference ↔ no word of t has two marks, or one behind `#`
                                                            (findsAll_iff)
-/

namespace ContractAudit.FileRef

/-! ## References in their places -/

/-- The references that are found from left to right in `t`, each with all of the text in front
of it; `read` stands in front of `t`. -/
inductive IsFoundAt : Text → Text → List (Text × FileRef) → Prop
  | nil {read t : Text} (h : ¬ IsWrittenIn t) : IsFoundAt read t []
  | cons {read t front rest : Text} {r : FileRef} {found : List (Text × FileRef)}
      (h : IsFirst t front r rest) (hrest : IsFoundAt (read ++ (front ++ r.written)) rest found) :
      IsFoundAt read t ((read ++ front, r) :: found)

/-- The text up to the `#` in the mark of a reference. -/
def marker (p : Text × FileRef) : Text := p.1 ++ p.2.file

/-- The ending `.sol`, the `#` and a digit stand behind `name`. -/
structure IsOccurrence (t name tail : Text) : Prop where
  text : t = name ++ (ending ++ '#' :: tail)
  digit : ∃ d rest, tail = d :: rest ∧ Text.isDecimal d = true

/-- A mark whose `#` stands behind `stem`, and the character in front of its ending is neither a
blank nor a parenthesis nor `#`. -/
def IsMarker (t stem : Text) : Prop :=
  ∃ name c tail, IsOccurrence t (name ++ [c]) tail ∧ endsWord c = false ∧ c ≠ '#' ∧
    stem = name ++ [c] ++ ending

/-- Each marker is the marker of one reference, there are as many of both, and no reference has
another mark in its file. -/
structure IsComplete (t : Text) (found : List (Text × FileRef)) : Prop where
  once : ∀ stem, IsMarker t stem → (found.map marker).count stem = 1
  count : found.length = {stem | IsMarker t stem}.ncard
  apart : ∀ p ∈ found, ∀ name tail, ¬ IsOccurrence p.2.file name tail

/-- No reference that the text holds is swallowed by another one: the references of the text,
each in its place, are complete. -/
def FindsAll (t : Text) : Prop :=
  ∃ found, IsFoundAt [] t found ∧ found.map (·.2) = ofText t ∧ IsComplete t found

/-- A word in which at most one mark stands, and not behind `#`. -/
structure IsUnambiguous (w : Text) : Prop where
  unique : ∀ {name tail name' tail'}, IsOccurrence w name tail → IsOccurrence w name' tail' →
    name = name'
  hash : ∀ {name tail}, IsOccurrence w name tail → ∀ c ∈ name.getLast?, c ≠ '#'

/-! ## One answer -/

theorem IsFoundAt.unique {read t : Text} {found found' : List (Text × FileRef)}
    (h : IsFoundAt read t found) (h' : IsFoundAt read t found') : found = found' := by
  induction h generalizing found' with
  | nil h =>
    cases h' with
    | nil => rfl
    | cons hfirst _ => exact absurd ⟨_, _, _, hfirst.isAt⟩ h
  | cons hfirst _ ih =>
    cases h' with
    | nil h' => exact absurd ⟨_, _, _, hfirst.isAt⟩ h'
    | cons hfirst' hrest' =>
      obtain ⟨rfl, rfl⟩ := hfirst.unique hfirst'
      have ht := hfirst.isAt.text.symm.trans hfirst'.isAt.text
      obtain rfl := List.append_cancel_right ht
      rw [ih hrest']

theorem IsFoundAt.map_snd {read t : Text} {found : List (Text × FileRef)}
    (h : IsFoundAt read t found) : found.map (·.2) = ofText t := by
  refine isFound_iff.1 ?_
  induction h with
  | nil h => exact .nil h
  | cons hfirst _ ih => exact .cons hfirst ih

theorem IsFoundAt.length_le {read t : Text} {found : List (Text × FileRef)}
    (h : IsFoundAt read t found) : ∀ p ∈ found, read.length ≤ p.1.length := by
  induction h with
  | nil => exact List.forall_mem_nil _
  | cons _ _ ih =>
    refine List.forall_mem_cons.2 ⟨by simp, fun p hp => ?_⟩
    have hle := ih p hp
    simp only [List.length_append] at hle
    omega

/-- A reference is found behind the mark of the one before it. -/
theorem IsFoundAt.nodup {read t : Text} {found : List (Text × FileRef)}
    (h : IsFoundAt read t found) : (found.map marker).Nodup := by
  induction h with
  | nil => exact List.nodup_nil
  | @cons read t front rest r found hfirst hrest ih =>
    rw [List.map_cons, List.nodup_cons]
    refine ⟨?_, ih⟩
    intro hmem
    obtain ⟨p, hp, he⟩ := List.mem_map.1 hmem
    have hle := hrest.length_le p hp
    have hlen := congrArg List.length he
    unfold marker at hlen
    unfold written at hle
    simp only [List.length_append, List.length_cons] at hle hlen
    omega

/-! ## The words of a text -/

/-- A whole word of the text stands behind `front`. -/
structure IsWordIn (t front w : Text) : Prop where
  solid : ∀ c ∈ w, endsWord c = false
  opens : Opens front
  text : ∃ rest, Closes rest ∧ t = front ++ (w ++ rest)

theorem Opens.eq_nil {t : Text} (h : Opens t) (hsolid : ∀ c ∈ t, endsWord c = false) :
    t = [] := by
  rcases List.eq_nil_or_concat t with rfl | ⟨t, c, rfl⟩
  · rfl
  · have hc : endsWord c = true := h c (by simp)
    rw [hsolid c (by simp)] at hc
    cases hc

theorem Closes.eq_nil {t : Text} (h : Closes t) (hsolid : ∀ c ∈ t, endsWord c = false) :
    t = [] := by
  cases t with
  | nil => rfl
  | cons c t =>
    have hc : endsWord c = true := h c rfl
    rw [hsolid c List.mem_cons_self] at hc
    cases hc

theorem opens_append_cons {c : Char} (hc : endsWord c = true) (s t : Text) :
    Opens (s ++ c :: t) ↔ Opens t := by
  unfold Opens
  cases t with
  | nil => simpa using hc
  | cons d t => simp [List.getLast?_append]

theorem isWordIn_self {w : Text} (hw : ∀ c ∈ w, endsWord c = false) {front w' : Text} :
    IsWordIn w front w' ↔ front = [] ∧ w' = w := by
  constructor
  · rintro ⟨-, hopens, rest, hcloses, rfl⟩
    obtain ⟨hfront, hw⟩ := List.forall_mem_append.1 hw
    obtain ⟨-, hrest⟩ := List.forall_mem_append.1 hw
    obtain rfl := hopens.eq_nil hfront
    obtain rfl := hcloses.eq_nil hrest
    exact ⟨rfl, by simp⟩
  · rintro ⟨rfl, rfl⟩
    exact ⟨hw, by decide, [], by decide, by simp⟩

/-- The words of a text are the first one and those behind the character that ends it. -/
theorem isWordIn_append {w t : Text} {c : Char} (hw : ∀ c ∈ w, endsWord c = false)
    (hc : endsWord c = true) {front w' : Text} :
    IsWordIn (w ++ c :: t) front w' ↔
      front = [] ∧ w' = w ∨ ∃ front', front = w ++ c :: front' ∧ IsWordIn t front' w' := by
  constructor
  · rintro ⟨hsolid, hopens, rest, hcloses, htext⟩
    by_cases hfront : front = []
    · left
      have hrun : ∀ {u : Text}, (∀ c ∈ u, endsWord c = false) → ∀ c ∈ u, (! endsWord c) = true :=
        fun hu c hmem => by simp [hu c hmem]
      have hstop : Text.StopsAt (! endsWord ·) rest :=
        fun d hd => by simp [hcloses d hd]
      have hstop' : Text.StopsAt (! endsWord ·) (c :: t) :=
        Text.stopsAt_cons.2 (by simp [hc])
      rw [hfront, List.nil_append] at htext
      exact ⟨hfront, (Text.run_inj (hrun hw) hstop' (hrun hsolid) hstop htext).1.symm⟩
    · right
      rcases List.append_eq_append_iff.1 htext with ⟨more, rfl, ht⟩ | ⟨more, rfl, -⟩
      · cases more with
        | nil =>
          rw [List.append_nil] at hfront hopens
          exact absurd (hopens.eq_nil hw) hfront
        | cons d more =>
          obtain ⟨rfl, rfl⟩ := List.cons.inj ht
          exact ⟨more, rfl, hsolid, (opens_append_cons hc w more).1 hopens, rest, hcloses, rfl⟩
      · exact absurd (hopens.eq_nil (List.forall_mem_append.1 hw).1) hfront
  · rintro (⟨rfl, rfl⟩ | ⟨front', rfl, hsolid, hopens, rest, hcloses, rfl⟩)
    · have hcloses : Closes (c :: t) := by
        intro d hd
        obtain rfl := Option.some.inj hd
        exact hc
      exact ⟨hw, by decide, c :: t, hcloses, rfl⟩
    · exact ⟨hsolid, (opens_append_cons hc w front').2 hopens, rest, hcloses, by simp⟩

theorem mem_words_iff {t w : Text} : w ∈ words t ↔ ∃ front, IsWordIn t front w := by
  induction t using words_induction with
  | word w' hw =>
    rw [words_eq_singleton hw, List.mem_singleton]
    simp only [isWordIn_self hw, exists_eq_left]
  | append w' c t hw hc ih =>
    rw [words_append hw hc, List.mem_cons, ih]
    simp only [isWordIn_append hw hc]
    constructor
    · rintro (rfl | ⟨front, h⟩)
      · exact ⟨[], Or.inl ⟨rfl, rfl⟩⟩
      · exact ⟨w' ++ c :: front, Or.inr ⟨front, rfl, h⟩⟩
    · rintro ⟨front, ⟨-, rfl⟩ | ⟨front', -, h⟩⟩
      · exact Or.inl rfl
      · exact Or.inr ⟨front', h⟩

theorem IsWordIn.mem_words {t front w : Text} (h : IsWordIn t front w) : w ∈ words t :=
  mem_words_iff.2 ⟨front, h⟩

/-- A reference is written in one word. -/
theorem IsAt.exists_word {t front rest : Text} {r : FileRef} (h : IsAt t front r rest) :
    ∃ place w before after, IsWordIn t place w ∧ IsAt w before r after ∧
      front = place ++ before := by
  induction t using words_induction generalizing front with
  | word w hw => exact ⟨[], w, front, rest, (isWordIn_self hw).2 ⟨rfl, rfl⟩, h, rfl⟩
  | append w c t hw hc ih =>
    rcases h.of_break hc with ⟨after, -, hat⟩ | ⟨front', rfl, hat⟩
    · exact ⟨[], w, front, after, (isWordIn_append hw hc).2 (Or.inl ⟨rfl, rfl⟩), hat, rfl⟩
    · obtain ⟨place, w', before, after, hword, hin, rfl⟩ := ih hat
      exact ⟨w ++ c :: place, w', before, after,
        (isWordIn_append hw hc).2 (Or.inr ⟨place, rfl, hword⟩), hin, by simp⟩

/-! ## References and words -/

section
variable {read w t : Text} {c : Char} {found : List (Text × FileRef)}

theorem IsFoundAt.skip (hc : endsWord c = true) (hw : ¬ IsWrittenIn w)
    (h : IsFoundAt (read ++ (w ++ [c])) t found) : IsFoundAt read (w ++ c :: t) found := by
  cases h with
  | nil hn => exact .nil (not_isWrittenIn_append hc hw hn)
  | @cons _ _ front rest r found hfirst hrest =>
    have hplace : read ++ (w ++ c :: front) = read ++ (w ++ [c]) ++ front := by simp
    have hread : read ++ (w ++ c :: front ++ r.written) =
        read ++ (w ++ [c]) ++ (front ++ r.written) := by simp
    rw [← hread] at hrest
    rw [← hplace]
    exact .cons (hfirst.skip hc hw) hrest

/-- The reference of a word is found before those behind the word. -/
theorem IsFoundAt.append (hw : ∀ c ∈ w, endsWord c = false) (hc : endsWord c = true)
    (h : IsFoundAt (read ++ (w ++ [c])) t found) :
    IsFoundAt read (w ++ c :: t) (((ofWord? w).map fun r => (read, r)).toList ++ found) := by
  cases hr : ofWord? w with
  | none => exact h.skip hc (not_isWrittenIn_of_ofWord? hr)
  | some r =>
    obtain ⟨rest, hfirst, hnone⟩ := ofWord?_eq_some hw hr
    have hread : read ++ (w ++ [c]) = read ++ ([] ++ r.written) ++ (rest ++ [c]) := by
      rw [hfirst.isAt.text]
      simp
    rw [hread] at h
    have hcons := IsFoundAt.cons (hfirst.append hc) (h.skip hc hnone)
    rwa [List.append_nil] at hcons

end

theorem isFoundAt_word {read w : Text} (hw : ∀ c ∈ w, endsWord c = false) :
    IsFoundAt read w ((ofWord? w).map fun r => (read, r)).toList := by
  cases hr : ofWord? w with
  | none => exact .nil (not_isWrittenIn_of_ofWord? hr)
  | some r =>
    obtain ⟨rest, hfirst, hnone⟩ := ofWord?_eq_some hw hr
    have hrest : IsFoundAt (read ++ ([] ++ r.written)) rest [] := .nil hnone
    have hcons := IsFoundAt.cons hfirst hrest
    rwa [List.append_nil] at hcons

theorem mem_toList_ofWord? {read w place : Text} {r : FileRef} :
    (place, r) ∈ ((ofWord? w).map fun r => (read, r)).toList ↔
      place = read ∧ ofWord? w = some r := by
  rw [Option.mem_toList, Option.map_eq_some_iff]
  constructor
  · rintro ⟨r', hr, he⟩
    obtain ⟨rfl, rfl⟩ := Prod.mk.inj he
    exact ⟨rfl, hr⟩
  · rintro ⟨rfl, hr⟩
    exact ⟨r, hr, rfl⟩

theorem exists_isFoundAt (read t : Text) : ∃ found, IsFoundAt read t found ∧
    ∀ place r, (place, r) ∈ found ↔
      ∃ front w, place = read ++ front ∧ IsWordIn t front w ∧ ofWord? w = some r := by
  induction t using words_induction generalizing read with
  | word w hw =>
    refine ⟨_, isFoundAt_word hw, fun place r => ?_⟩
    rw [mem_toList_ofWord?]
    constructor
    · rintro ⟨rfl, hr⟩
      exact ⟨[], w, (List.append_nil _).symm, (isWordIn_self hw).2 ⟨rfl, rfl⟩, hr⟩
    · rintro ⟨front, w', rfl, hword, hr⟩
      obtain ⟨rfl, rfl⟩ := (isWordIn_self hw).1 hword
      exact ⟨List.append_nil read, hr⟩
  | append w c t hw hc ih =>
    -- when the words behind come up, the first word and the character that ends it are read
    obtain ⟨found, hfound, hmem⟩ := ih (read ++ (w ++ [c]))
    refine ⟨_, hfound.append hw hc, fun place r => ?_⟩
    rw [List.mem_append, mem_toList_ofWord?, hmem]
    constructor
    · rintro (⟨rfl, hr⟩ | ⟨front, w', rfl, hword, hr⟩)
      · exact ⟨[], w, (List.append_nil _).symm,
          (isWordIn_append hw hc).2 (Or.inl ⟨rfl, rfl⟩), hr⟩
      · exact ⟨w ++ c :: front, w', by simp,
          (isWordIn_append hw hc).2 (Or.inr ⟨front, rfl, hword⟩), hr⟩
    · rintro ⟨front, w', rfl, hword, hr⟩
      rcases (isWordIn_append hw hc).1 hword with ⟨rfl, rfl⟩ | ⟨front', rfl, hword'⟩
      · exact Or.inl ⟨List.append_nil read, hr⟩
      · exact Or.inr ⟨front', w', by simp, hword', hr⟩

/-- **A reference is found where a word has one.** -/
theorem IsFoundAt.mem_iff {t : Text} {found : List (Text × FileRef)} (h : IsFoundAt [] t found)
    {place : Text} {r : FileRef} :
    (place, r) ∈ found ↔ ∃ w, IsWordIn t place w ∧ ofWord? w = some r := by
  obtain ⟨found', hfound', hmem⟩ := exists_isFoundAt [] t
  obtain rfl := h.unique hfound'
  rw [hmem]
  simp

/-! ## Marks in a word -/

theorem IsOccurrence.isMark {w name tail : Text} (h : IsOccurrence w name tail)
    (hne : name ≠ []) : IsMark w name tail := ⟨hne, h.text, h.digit⟩

theorem IsMark.isOccurrence {w name tail : Text} (h : IsMark w name tail) :
    IsOccurrence w name tail := ⟨h.text, h.digit⟩

/-- What stands behind a text does not take a mark away. -/
theorem IsOccurrence.append {t name tail : Text} (h : IsOccurrence t name tail) (u : Text) :
    IsOccurrence (t ++ u) name (tail ++ u) := by
  obtain ⟨rfl, d, rest, rfl, hd⟩ := h
  exact ⟨by simp, d, rest ++ u, rfl, hd⟩

/-- A word with a mark has a reference, which is read at the last mark. -/
theorem IsMark.exists_reference {w name tail : Text} (h : IsMark w name tail) :
    ∃ last tail', ofWord? w = some (ofMark last tail') ∧ IsMark w last tail' ∧
      ∀ {name' tail' : Text}, IsMark w name' tail' → name'.length ≤ last.length := by
  cases hr : ofWord? w with
  | none => exact absurd h (lastMark?_eq_none.1 (Option.map_eq_none_iff.1 hr) name tail)
  | some r =>
    obtain ⟨last, tail', rfl, hmark, hmax⟩ := ofWord?_eq_ofMark hr
    exact ⟨last, tail', rfl, hmark, hmax⟩

/-- Two marks do not overlap: the first of them stands whole in the name of the second one. -/
theorem IsOccurrence.before {w name tail name' tail' : Text} (h : IsOccurrence w name tail)
    (h' : IsOccurrence w name' tail') (hlt : name.length < name'.length) :
    ∃ rest, IsOccurrence name' name rest := by
  obtain ⟨d, digits, rfl, hd⟩ := h.digit
  obtain ⟨more, rfl⟩ : name <+: name' :=
    List.prefix_of_prefix_length_le ⟨_, h.text.symm⟩ ⟨_, h'.text.symm⟩ (Nat.le_of_lt hlt)
  have htext := h.text.symm.trans h'.text
  rw [List.append_assoc, List.append_cancel_left_eq] at htext
  have hsplit : '.' :: (['s', 'o', 'l', '#', d] ++ digits) =
      more ++ '.' :: (['s', 'o', 'l', '#'] ++ tail') := htext
  clear htext
  cases more with
  | nil => simp at hlt
  | cons c more =>
    obtain ⟨rfl, hbehind⟩ := List.cons.inj hsplit
    rcases List.append_eq_append_iff.1 hbehind with ⟨rest, rfl, -⟩ | ⟨rest, hrest, ht⟩
    · exact ⟨d :: rest, rfl, d, rest, rfl, hd⟩
    · cases rest with
      | nil =>
        rw [List.append_nil] at hrest
        subst hrest
        exact ⟨[d], rfl, d, [], rfl, hd⟩
      | cons c rest =>
        -- the second mark would begin at a dot within the first one
        obtain ⟨rfl, -⟩ := List.cons.inj ht
        have hdot : '.' ∈ ['s', 'o', 'l', '#', d] := by simp [hrest]
        obtain rfl : '.' = d := by simpa using hdot
        cases hd

/-! ## Texts without swallowed references -/

/-- A mark is that of a word, if the character in front of its ending is in a word. -/
theorem IsMarker.exists_word {t stem : Text} (h : IsMarker t stem) :
    ∃ place w name tail, IsWordIn t place w ∧ IsMark w name tail ∧
      stem = place ++ (name ++ ending) := by
  obtain ⟨name, c, tail, ⟨rfl, d, digits, rfl, hd⟩, hc, -, rfl⟩ := h
  -- the shortest reference that is written there
  have hat : IsAt (name ++ [c] ++ (ending ++ '#' :: d :: digits)) name
      ⟨[c] ++ ending, [d], none⟩ digits := by
    have hdigit : IsNumber [d] := ⟨List.cons_ne_nil _ _, by simpa using hd⟩
    refine ⟨⟨⟨[c], List.cons_ne_nil _ _, by simpa using hc, rfl⟩, hdigit, ?_⟩, by simp [written]⟩
    intro ds he
    cases he
  obtain ⟨place, w, before, after, hword, hin, rfl⟩ := hat.exists_word
  obtain ⟨name', hname', hmark⟩ := hin.isMark
  obtain rfl := List.append_cancel_right hname'
  exact ⟨place, w, _, _, hword, hmark, by simp⟩

/-- The mark of a word is one of the text. -/
theorem IsWordIn.isMarker {t place w name tail : Text} (h : IsWordIn t place w)
    (hmark : IsMark w name tail) (hhash : ∀ c ∈ name.getLast?, c ≠ '#') :
    IsMarker t (place ++ (name ++ ending)) := by
  obtain ⟨hsolid, -, rest, -, rfl⟩ := h
  obtain ⟨hne, rfl, d, digits, rfl, hd⟩ := hmark
  obtain hnil | ⟨name, c, rfl⟩ := List.eq_nil_or_concat name
  · exact absurd hnil hne
  · refine ⟨place ++ name, c, d :: (digits ++ rest), ⟨by simp, d, digits ++ rest, rfl, hd⟩, ?_, ?_,
      by simp⟩
    · exact hsolid c (by simp)
    · exact hhash c (by simp)

section
variable {t : Text} {found : List (Text × FileRef)} (hfound : IsFoundAt [] t found)
include hfound

theorem mem_found {place w : Text} {r : FileRef} (hword : IsWordIn t place w)
    (hr : ofWord? w = some r) : (place, r) ∈ found :=
  hfound.mem_iff.2 ⟨w, hword, hr⟩

theorem ncard_marker : ((found.map marker).toFinset : Set Text).ncard = found.length := by
  rw [Set.ncard_coe_finset, List.toFinset_card_of_nodup hfound.nodup, List.length_map]

/-- In words without ambiguity the references have the marks of the text. -/
theorem mem_marker_iff (h : ∀ w ∈ words t, IsUnambiguous w) {stem : Text} :
    stem ∈ found.map marker ↔ IsMarker t stem := by
  constructor
  · intro hmem
    obtain ⟨⟨place, r⟩, hp, rfl⟩ := List.mem_map.1 hmem
    obtain ⟨w, hword, hr⟩ := hfound.mem_iff.1 hp
    obtain ⟨name, tail, rfl, hmark, -⟩ := ofWord?_eq_ofMark hr
    have hw := h w hword.mem_words
    exact hword.isMarker hmark (hw.hash hmark.isOccurrence)
  · intro hmarker
    obtain ⟨place, w, name, tail, hword, hmark, rfl⟩ := hmarker.exists_word
    obtain ⟨last, tail', hr, hlast, -⟩ := hmark.exists_reference
    have hw := h w hword.mem_words
    obtain rfl := hw.unique hmark.isOccurrence hlast.isOccurrence
    exact List.mem_map.2 ⟨_, mem_found hfound hword hr, rfl⟩

theorem isComplete_of_isUnambiguous (h : ∀ w ∈ words t, IsUnambiguous w) :
    IsComplete t found where
  once stem hstem :=
    List.count_eq_one_of_mem hfound.nodup ((mem_marker_iff hfound h).2 hstem)
  count := by
    have hset : {stem | IsMarker t stem} = ((found.map marker).toFinset : Set Text) := by
      ext stem
      rw [Set.mem_ofPred_eq, ← mem_marker_iff hfound h, Finset.mem_coe, List.mem_toFinset]
    rw [hset, ncard_marker hfound]
  apart := by
    rintro ⟨place, r⟩ hp name tail hin
    obtain ⟨w, hword, hr⟩ := hfound.mem_iff.1 hp
    obtain ⟨last, tail', rfl, hmark, -⟩ := ofWord?_eq_ofMark hr
    have hw := h w hword.mem_words
    have hearlier : IsOccurrence w name (tail ++ '#' :: tail') := by
      have htext : w = last ++ ending ++ '#' :: tail' := by rw [hmark.text, List.append_assoc]
      rw [htext]
      exact hin.append _
    obtain rfl := hw.unique hearlier hmark.isOccurrence
    have hlen := congrArg List.length hin.text
    simp [ofMark] at hlen

/-- Of two marks in a word the reference has the last one, and the other is swallowed. -/
theorem IsComplete.not_lt (h : IsComplete t found) {place w : Text} (hword : IsWordIn t place w)
    {name tail name' tail' : Text} (hname : IsOccurrence w name tail)
    (hname' : IsOccurrence w name' tail') : ¬ name.length < name'.length := by
  intro hlt
  have hne : name' ≠ [] := List.ne_nil_of_length_pos (Nat.zero_lt_of_lt hlt)
  obtain ⟨last, behind, hr, hlast, hmax⟩ := (hname'.isMark hne).exists_reference
  have hle := hmax (hname'.isMark hne)
  obtain ⟨rest, hin⟩ := hname.before hlast.isOccurrence (Nat.lt_of_lt_of_le hlt hle)
  exact h.apart _ (mem_found hfound hword hr) name _ (hin.append ending)

/-- As many references as marks leave no reference without a mark that counts. -/
theorem IsComplete.isMarker (h : IsComplete t found) {stem : Text}
    (hstem : stem ∈ found.map marker) : IsMarker t stem := by
  have hsub : {stem | IsMarker t stem} ⊆ ((found.map marker).toFinset : Set Text) := by
    intro stem hs
    have hone := h.once stem hs
    rw [Finset.mem_coe, List.mem_toFinset, ← List.one_le_count_iff, hone]
  have heq := Set.eq_of_subset_of_ncard_le hsub ((ncard_marker hfound).trans h.count).le
  show stem ∈ {stem | IsMarker t stem}
  rw [heq]
  simpa using hstem

theorem IsComplete.isUnambiguous (h : IsComplete t found) : ∀ w ∈ words t, IsUnambiguous w := by
  intro w hmem
  obtain ⟨place, hword⟩ := mem_words_iff.1 hmem
  have hunique : ∀ {name tail name' tail'}, IsOccurrence w name tail →
      IsOccurrence w name' tail' → name = name' := by
    intro name tail name' tail' hname hname'
    have hlt := h.not_lt hfound hword hname hname'
    have hlt' := h.not_lt hfound hword hname' hname
    exact (List.append_inj (hname.text.symm.trans hname'.text) (by omega)).1
  refine ⟨hunique, ?_⟩
  rintro name tail hname c hc rfl
  obtain ⟨front, rfl⟩ := List.getLast?_eq_some_iff.1 hc
  obtain ⟨last, behind, hr, hlast, -⟩ := (hname.isMark (by simp)).exists_reference
  obtain rfl := hunique hname hlast.isOccurrence
  obtain ⟨front', c, -, -, -, hc, hstem⟩ :=
    h.isMarker hfound (List.mem_map.2 ⟨_, mem_found hfound hword hr, rfl⟩)
  have hnames : (place ++ front) ++ ['#'] = front' ++ [c] := by
    refine @List.append_cancel_right _ _ ending _ ?_
    rw [← hstem]
    simp [marker, ofMark]
  exact hc (List.cons.inj (List.append_inj' hnames rfl).2).1.symm

end

/-! ## Top theorem -/

/-- **Each mark of a text has its reference** if and only if no two marks stand in one word, and
no mark stands behind `#`.  Blanks and parentheses keep references apart, and nothing else does. -/
theorem findsAll_iff {t : Text} : FindsAll t ↔ ∀ w ∈ words t, IsUnambiguous w := by
  constructor
  · rintro ⟨found, hfound, -, h⟩
    exact h.isUnambiguous hfound
  · intro h
    obtain ⟨found, hfound, -⟩ := exists_isFoundAt [] t
    exact ⟨found, hfound, hfound.map_snd, isComplete_of_isUnambiguous hfound h⟩

/-- Of two references with a comma between them one is found, in a file that there is not. -/
theorem comma_swallows_reference :
    let t : Text := "A.sol#1,B.sol#2"
    IsMarker t "A.sol" ∧ IsMarker t "A.sol#1,B.sol" ∧
      IsFound t [⟨"A.sol#1,B.sol", "2", none⟩] ∧ ¬ FindsAll t := by
  intro t
  have hfirst : IsOccurrence t "A" "1,B.sol#2" := ⟨by decide, '1', ",B.sol#2", by decide, by decide⟩
  have hsecond : IsOccurrence t "A.sol#1,B" "2" := ⟨by decide, '2', [], by decide, by decide⟩
  refine ⟨⟨[], 'A', _, hfirst, by decide, by decide, by decide⟩,
    ⟨"A.sol#1,", 'B', _, hsecond, by decide, by decide, by decide⟩,
    isFound_iff.2 (by decide +kernel), ?_⟩
  rintro ⟨found, hfound, -, h⟩
  have hword : t ∈ words t := by decide +kernel
  have hsame := (h.isUnambiguous hfound t hword).unique hfirst hsecond
  revert hsame
  decide

end ContractAudit.FileRef
