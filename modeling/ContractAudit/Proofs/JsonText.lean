import ContractAudit.Json.Reader
import ContractAudit.Json.Writer
import ContractAudit.Proofs.Lines

/-!
# Reading back what was written

`write` puts a value into ASCII with a comma between items and a colon after keys, each with as
many spaces behind it as the writer likes.  `Plain depth v` says what the reader can give back:
`v` has no floating-point number, no whole number with too many digits, no key twice in an object,
and at most `depth` levels of nesting.

    Plain depth v → readValue depth (write comma colon v ++ rest) = .ok (v, rest)
                                                            (readValue_write)
    Plain depth v → read depth (write comma colon v) = .ok v    (read_write)
    every character of a written value is printable ASCII   (isPrintableAscii_write)

A number has no end of its own: `Stops rest` says that nothing in `rest` prolongs it.
-/

namespace ContractAudit.Json

/-- What is read back as it was: no floating-point number, no number that is too long, distinct
keys, and at most so many levels of nesting. -/
inductive Plain : (depth : Nat) → Json → Prop
  | null {depth : Nat} : Plain depth .null
  | bool {depth : Nat} (b : Bool) : Plain depth (.bool b)
  | int {depth : Nat} {n : Int} (h : (Decimal.digits n.natAbs).length ≤ Decimal.limit) :
      Plain depth (.int n)
  | str {depth : Nat} (t : Text) : Plain depth (.str t)
  | arr {depth : Nat} {items : List Json} (h : ∀ v ∈ items, Plain depth v) :
      Plain (depth + 1) (.arr items)
  | obj {depth : Nat} {members : List (Text × Json)} (keys : (members.map (·.1)).Nodup)
      (h : ∀ m ∈ members, Plain depth m.2) : Plain (depth + 1) (.obj members)

/-- A mark with spaces behind it, as it stands between items or after a key. -/
def IsMark (mark : Char) (t : Text) : Prop :=
  ∃ spaces : Nat, t = mark :: List.replicate spaces ' '

theorem IsMark.bare (mark : Char) : IsMark mark [mark] := ⟨0, rfl⟩

/-! ## Strings -/

theorem hexValue?_hexDigit {n : Nat} (h : n < 16) : hexValue? (Text.hexDigit n) = some n := by
  have hall : ∀ n < 16, hexValue? (Text.hexDigit n) = some n := by decide
  exact hall n h

theorem readUnits_unitEscape {u : Nat} (hu : u < 0x10000) (opening : Nat) {rest : Text}
    (hne : rest ≠ []) :
    readUnits opening (unitEscape u ++ rest) =
      (readUnits opening rest).map fun r => (u :: r.1, r.2) := by
  obtain ⟨e, rest, rfl⟩ := List.exists_cons_of_ne_nil hne
  have hunit : hexUnit? (Text.hexDigit (u / 16 / 16 / 16 % 16)) (Text.hexDigit (u / 16 / 16 % 16))
      (Text.hexDigit (u / 16 % 16)) (Text.hexDigit (u % 16)) = some u := by
    have hdigit : ∀ n, hexValue? (Text.hexDigit (n % 16)) = some (n % 16) :=
      fun n => hexValue?_hexDigit (Nat.mod_lt n (by decide))
    simp only [hexUnit?, hdigit, Option.some.injEq]
    omega
  simp only [unitEscape, Text.hex, List.nil_append, List.cons_append, readUnits, hunit]

theorem readUnits_unitEscapes {us : List Nat} (hu : ∀ u ∈ us, u < 0x10000) (opening : Nat)
    {rest : Text} (hne : rest ≠ []) :
    readUnits opening (us.flatMap unitEscape ++ rest) =
      (readUnits opening rest).map fun r => (us ++ r.1, r.2) := by
  induction us with
  | nil => cases h : readUnits opening rest <;> simp [h, Except.map]
  | cons u us ih =>
    obtain ⟨hfirst, hu⟩ := List.forall_mem_cons.1 hu
    rw [List.flatMap_cons, List.append_assoc, readUnits_unitEscape hfirst _ (by simp [hne]), ih hu]
    cases readUnits opening rest <;> rfl

theorem lt_of_mem_charUnits {c : Char} {u : Nat} (h : u ∈ Text.charUnits c) : u < 0x10000 := by
  have hrange := Text.toNat_range c
  unfold Text.charUnits at h
  dsimp only at h
  split at h
  · simp only [List.mem_singleton] at h
    omega
  · simp only [List.mem_cons, List.not_mem_nil, or_false] at h
    omega

/-- A short escape is a backslash and the letter that stands for the character. -/
theorem shortEscape?_eq_some {c : Char} {e : Text} (h : shortEscape? c = some e) :
    ∃ letter, e = ['\\', letter] ∧ letter ≠ 'u' ∧ escaped? letter = some c ∧ c.toNat < 0x10000 := by
  unfold shortEscape? at h
  split at h <;> cases h <;> exact ⟨_, rfl, by decide, rfl, by decide⟩

theorem readUnits_escaped {letter c : Char} (hu : letter ≠ 'u') (h : escaped? letter = some c)
    (opening : Nat) (rest : Text) :
    readUnits opening ('\\' :: letter :: rest) =
      (readUnits opening rest).map fun r => (c.toNat :: r.1, r.2) := by
  rw [readUnits, h]
  exact hu

theorem readUnits_asis {c : Char} (hq : c ≠ '"') (hb : c ≠ '\\') (h : 0x20 ≤ c.toNat)
    (opening : Nat) (rest : Text) :
    readUnits opening (c :: rest) =
      (readUnits opening rest).map fun r => (c.toNat :: r.1, r.2) := by
  rw [readUnits, if_neg hq, if_neg (by omega)]
  · exact fun he => absurd he hb
  · exact fun _ he => absurd he hb
  · exact fun _ _ he => absurd he hb

theorem charUnits_of_lt {c : Char} (h : c.toNat < 0x10000) : Text.charUnits c = [c.toNat] :=
  if_pos h

/-- A character as it stands in a string is read as the units of the character. -/
theorem readUnits_asciiChar (opening : Nat) (c : Char) {rest : Text} (hne : rest ≠ []) :
    readUnits opening (asciiChar c ++ rest) =
      (readUnits opening rest).map fun r => (Text.charUnits c ++ r.1, r.2) := by
  unfold asciiChar
  cases hs : shortEscape? c with
  | some e =>
    obtain ⟨letter, rfl, hu, he, hsmall⟩ := shortEscape?_eq_some hs
    rw [charUnits_of_lt hsmall]
    exact readUnits_escaped hu he opening rest
  | none =>
    have hq : c ≠ '"' := by
      rintro rfl
      cases hs
    have hb : c ≠ '\\' := by
      rintro rfl
      cases hs
    simp only [Bool.and_eq_true, decide_eq_true_eq]
    split
    · next h =>
      rw [charUnits_of_lt (by omega)]
      exact readUnits_asis hq hb h.1 opening rest
    · exact readUnits_unitEscapes (fun _ hu => lt_of_mem_charUnits hu) opening hne

theorem readUnits_flatMap (opening : Nat) (t rest : Text) :
    readUnits opening (t.flatMap asciiChar ++ '"' :: rest) = .ok (Text.units t, rest) := by
  induction t with
  | nil => simp [readUnits, Text.units]
  | cons c t ih =>
    rw [List.flatMap_cons, List.append_assoc, readUnits_asciiChar opening c (by simp), ih]
    simp [Except.map, Text.units]

/-- A written string is read back. -/
theorem readString_flatMap (t rest : Text) :
    readString (t.flatMap asciiChar ++ '"' :: rest) = .ok (t, rest) := by
  unfold readString
  rw [readUnits_flatMap]
  simp [Except.map, Text.ofUnits_units]

/-! ## Numbers -/

/-- A character that prolongs the digits of a number. -/
def prolongs (c : Char) : Bool := Text.isAsciiDigit c || c == '.' || c == 'e' || c == 'E'

/-- Nothing at the beginning of `t` prolongs a number. -/
abbrev Stops (t : Text) : Prop := Text.StopsAt prolongs t

theorem span_digits (n : Nat) {rest : Text} (hs : Stops rest) :
    (Decimal.digits n ++ rest).span Text.isAsciiDigit = (Decimal.digits n, rest) :=
  Text.span_run (fun _ hc => Decimal.isAsciiDigit_of_mem_digits hc) fun c hc => by
    have hc := hs c hc
    simp only [prolongs, Bool.or_eq_false_iff] at hc
    exact hc.1.1.1

/-- Only zero is written with a zero in front. -/
theorem eq_nil_of_digits_eq {n : Nat} {ds : Text} (h : Decimal.digits n = '0' :: ds) : ds = [] := by
  suffices hpos : 0 < n → (Decimal.digits n).head? ≠ some '0' by
    rcases Nat.eq_zero_or_pos n with rfl | hn
    · exact (List.cons.inj h).2.symm
    · exact absurd (by rw [h]; rfl) (hpos hn)
  clear h
  induction n using Nat.strongRecOn with
  | ind n ih =>
    intro hn
    unfold Decimal.digits at ih ⊢
    rcases Nat.lt_or_ge n 10 with hlt | hge
    · rw [Nat.toDigits_of_lt_base hlt]
      have hall : ∀ n < 10, 0 < n → [n.digitChar].head? ≠ some '0' := by decide
      exact hall n hlt hn
    · have hfirst := ih (n / 10) (by omega) (by omega)
      obtain ⟨c, more, hd⟩ := List.exists_cons_of_ne_nil (Decimal.digits_ne_nil (n / 10))
      unfold Decimal.digits at hd
      rw [hd] at hfirst
      rw [Nat.toDigits_of_base_le (by decide) hge, hd]
      exact hfirst

theorem finishNumber_stops {ds rest : Text} (negative : Bool) (hs : Stops rest)
    (hlen : ds.length ≤ Decimal.limit) :
    finishNumber negative ds rest =
      .ok (.int (if negative then -(Decimal.value ds : Int) else Decimal.value ds), rest) := by
  have hf : readFraction rest = ([], rest) := by
    cases rest with
    | nil => rfl
    | cons c rest =>
      unfold readFraction
      split
      · next he =>
        obtain ⟨rfl, -⟩ := List.cons.inj he
        exact absurd (Text.stopsAt_cons.1 hs) (by decide)
      · rfl
  have he : readExponent? rest = none := by
    cases rest with
    | nil => rfl
    | cons c rest =>
      have hc := Text.stopsAt_cons.1 hs
      simp only [prolongs, Bool.or_eq_false_iff, beq_eq_false_iff_ne] at hc
      simp [readExponent?, hc.1.2, hc.2]
  unfold finishNumber
  simp only [hf, he]
  rw [if_neg (by omega)]

theorem readNumber_digits {n : Nat} {rest : Text} (whole : Nat) (negative : Bool)
    (hs : Stops rest) (hlen : (Decimal.digits n).length ≤ Decimal.limit) :
    readNumber whole negative (Decimal.digits n ++ rest) =
      .ok (.int (if negative then -(n : Int) else n), rest) := by
  unfold readNumber
  rw [span_digits n hs]
  split
  · next he => exact absurd (Prod.mk.inj he).1 (Decimal.digits_ne_nil n)
  · next he =>
    obtain ⟨hd, rfl⟩ := Prod.mk.inj he
    obtain rfl := eq_nil_of_digits_eq hd
    rw [hd] at hlen
    rw [List.nil_append, finishNumber_stops negative hs hlen, ← hd, Decimal.value_digits]
  · next he =>
    obtain ⟨rfl, rfl⟩ := Prod.mk.inj he
    rw [finishNumber_stops negative hs hlen, Decimal.value_digits]

theorem exists_cons_digits (n : Nat) :
    ∃ c t, Decimal.digits n = c :: t ∧ Text.isAsciiDigit c = true := by
  obtain ⟨c, t, h⟩ := List.exists_cons_of_ne_nil (Decimal.digits_ne_nil n)
  exact ⟨c, t, h, Decimal.isAsciiDigit_of_mem_digits (h ▸ List.mem_cons_self)⟩

theorem readScalar_digits {n : Nat} {rest : Text} (hs : Stops rest)
    (hlen : (Decimal.digits n).length ≤ Decimal.limit) :
    readScalar (Decimal.digits n ++ rest) = .ok (.int n, rest) := by
  obtain ⟨c, ds, hd, hc⟩ := exists_cons_digits n
  have hr := readNumber_digits (ds ++ rest).length.succ false hs hlen
  rw [hd, List.cons_append] at hr ⊢
  unfold readScalar
  split
  case h_9 => exact hr
  all_goals
    next he =>
      obtain ⟨rfl, -⟩ := List.cons.inj he
      cases hc

theorem readScalar_minus {n : Nat} {rest : Text} (hs : Stops rest)
    (hlen : (Decimal.digits n).length ≤ Decimal.limit) :
    readScalar ('-' :: Decimal.digits n ++ rest) = .ok (.int (-(n : Int)), rest) := by
  obtain ⟨c, ds, hd, hc⟩ := exists_cons_digits n
  have hr := readNumber_digits ('-' :: (Decimal.digits n ++ rest)).length true hs hlen
  rw [List.cons_append, readScalar]
  · exact hr
  · intro more he
    rw [hd] at he
    obtain ⟨rfl, -⟩ := List.cons.inj he
    cases hc

/-- A written whole number is read back. -/
theorem readScalar_ofInt {n : Int} {rest : Text} (hs : Stops rest)
    (hlen : (Decimal.digits n.natAbs).length ≤ Decimal.limit) :
    readScalar (Decimal.ofInt n ++ rest) = .ok (.int n, rest) := by
  cases n with
  | ofNat n => exact readScalar_digits hs hlen
  | negSucc n => exact readScalar_minus hs hlen

theorem exists_cons_ofInt (n : Int) :
    ∃ c t, Decimal.ofInt n = c :: t ∧ (Text.isAsciiDigit c = true ∨ c = '-') := by
  cases n with
  | ofNat n =>
    obtain ⟨c, t, hd, hc⟩ := exists_cons_digits n
    exact ⟨c, t, hd, Or.inl hc⟩
  | negSucc n => exact ⟨_, _, rfl, Or.inr rfl⟩

/-! ## Values -/

section
variable {comma colon : Text}

theorem writeItems_cons_cons (v w : Json) (rest : List Json) :
    writeItems comma colon (v :: w :: rest) =
      write comma colon v ++ comma ++ writeItems comma colon (w :: rest) := by
  rw [writeItems]
  exact List.cons_ne_nil w rest

theorem writeMembers_cons_cons (m n : Text × Json) (rest : List (Text × Json)) :
    writeMembers comma colon (m :: n :: rest) =
      asciiString m.1 ++ colon ++ write comma colon m.2 ++ comma
        ++ writeMembers comma colon (n :: rest) := by
  rw [writeMembers]
  exact List.cons_ne_nil n rest

theorem skipGap_cons {c : Char} (hc : isGap c = false) (t : Text) : skipGap (c :: t) = c :: t := by
  simp [skipGap, hc]

theorem skipGap_spaces (spaces : Nat) (t : Text) :
    skipGap (List.replicate spaces ' ' ++ t) = skipGap t :=
  List.dropWhile_append_of_pos fun c hc => by rw [List.eq_of_mem_replicate hc]; rfl

/-- A character with which no value and no key begins. -/
def isOuter (c : Char) : Bool := isGap c || c == ']' || c == '\x7d'

/-- The text begins like a value or a key, and not with a gap or the end of what it stands in. -/
def Opens (t : Text) : Prop := ∃ c u, t = c :: u ∧ isOuter c = false

theorem opens_cons {c : Char} (h : isOuter c = false) (u : Text) : Opens (c :: u) := ⟨c, u, rfl, h⟩

theorem Opens.append {t : Text} (h : Opens t) (rest : Text) : Opens (t ++ rest) := by
  obtain ⟨c, u, rfl, hc⟩ := h
  exact opens_cons hc (u ++ rest)

theorem Opens.length_pos {t : Text} (h : Opens t) : 0 < t.length := by
  obtain ⟨c, u, rfl, -⟩ := h
  exact Nat.succ_pos u.length

theorem Opens.skipGap_eq {t : Text} (h : Opens t) : skipGap t = t := by
  obtain ⟨c, u, rfl, hc⟩ := h
  simp only [isOuter, Bool.or_eq_false_iff] at hc
  exact skipGap_cons hc.1.1 u

theorem opens_write (comma colon : Text) {depth : Nat} {v : Json} (h : Plain depth v) :
    Opens (write comma colon v) := by
  cases h with
  | null => exact ⟨_, _, by unfold write; rfl, by decide⟩
  | bool b => cases b <;> exact ⟨_, _, by unfold write; rfl, by decide⟩
  | @int _ n h =>
    obtain ⟨c, t, hw, hc⟩ := exists_cons_ofInt n
    refine ⟨c, t, by rw [write, hw], ?_⟩
    rw [Bool.eq_false_iff]
    intro ho
    simp only [isOuter, isGap, Bool.or_eq_true, beq_iff_eq] at ho
    rcases ho with ((((rfl | rfl) | rfl) | rfl) | rfl) | rfl <;> revert hc <;> decide
  | str t => exact ⟨_, _, by unfold write; rfl, by decide⟩
  | arr h => exact ⟨_, _, by unfold write; rfl, by decide⟩
  | obj keys h => exact ⟨_, _, by unfold write; rfl, by decide⟩

theorem opens_writeItems (comma colon : Text) {depth : Nat} {v : Json} (h : Plain depth v)
    (items : List Json) : Opens (writeItems comma colon (v :: items)) := by
  have hv := opens_write comma colon h
  cases items with
  | nil =>
    rw [writeItems]
    exact hv.append _
  | cons w items =>
    rw [writeItems_cons_cons]
    exact (hv.append _).append _

theorem opens_writeMembers (comma colon : Text) (m : Text × Json) (members : List (Text × Json)) :
    Opens (writeMembers comma colon (m :: members)) := by
  have hk : Opens (asciiString m.1) := opens_cons (by decide) _
  cases members with
  | nil =>
    rw [writeMembers]
    exact ((hk.append _).append _).append _
  | cons n members =>
    rw [writeMembers_cons_cons]
    exact (((hk.append _).append _).append _).append _

variable (hcomma : IsMark ',' comma) (hcolon : IsMark ':' colon)

/-- `item` gives back the written value `v` and leaves what stands behind it. -/
def ReadsBack (comma colon : Text) (item : Text → Except Fault (Json × Text)) (v : Json) : Prop :=
  ∀ rest, Stops rest → item (write comma colon v ++ rest) = .ok (v, rest)

theorem readItems_last {item : Text → Except Fault (Json × Text)} {t rest : Text} {v : Json}
    (h : item t = .ok (v, ']' :: rest)) (fuel : Nat) :
    readItems item (fuel + 1) t = .ok ([v], rest) := by
  rw [readItems, h]
  simp only [skipGap_cons (show isGap ']' = false from rfl)]

theorem readItems_more {item : Text → Except Fault (Json × Text)} {t more : Text} {v : Json}
    (h : item t = .ok (v, ',' :: more)) (fuel : Nat) :
    readItems item (fuel + 1) t =
      (readItems item fuel (skipGap more)).map fun r => (v :: r.1, r.2) := by
  rw [readItems, h]
  simp only [skipGap_cons (show isGap ',' = false from rfl)]

include hcomma in
theorem readItems_writeItems {depth : Nat} {item : Text → Except Fault (Json × Text)} {v : Json}
    {items : List Json} (hp : ∀ w ∈ v :: items, Plain depth w)
    (hitem : ∀ w ∈ v :: items, ReadsBack comma colon item w) {fuel : Nat}
    (hf : items.length < fuel) (rest : Text) :
    readItems item fuel (writeItems comma colon (v :: items) ++ rest) =
      .ok (v :: items, rest) := by
  induction items generalizing v fuel with
  | nil =>
    obtain ⟨fuel, rfl⟩ := Nat.exists_eq_succ_of_ne_zero (Nat.ne_of_gt hf)
    have hv := hitem v List.mem_cons_self (']' :: rest) (Text.stopsAt_cons.2 (by decide))
    rw [writeItems, List.append_assoc]
    exact readItems_last hv fuel
  | cons w items ih =>
    obtain ⟨fuel, rfl⟩ := Nat.exists_eq_succ_of_ne_zero (Nat.ne_of_gt (Nat.zero_lt_of_lt hf))
    obtain ⟨-, hp⟩ := List.forall_mem_cons.1 hp
    obtain ⟨hv, hitem⟩ := List.forall_mem_cons.1 hitem
    have hrest := ih hp hitem (Nat.lt_of_succ_lt_succ hf)
    have hopens := (opens_writeItems comma colon (hp w List.mem_cons_self) items).append rest
    obtain ⟨spaces, rfl⟩ := hcomma
    rw [writeItems_cons_cons, List.append_assoc, List.append_assoc, List.cons_append,
      readItems_more (hv _ (Text.stopsAt_cons.2 (by decide))), skipGap_spaces, hopens.skipGap_eq,
      hrest]
    rfl

theorem asciiString_append (k rest : Text) :
    asciiString k ++ rest = '"' :: (k.flatMap asciiChar ++ '"' :: rest) := by
  simp [asciiString]

theorem readMembers_last {item : Text → Except Fault (Json × Text)} {u rest : Text} {v : Json}
    (h : item (skipGap u) = .ok (v, '\x7d' :: rest)) (k : Text) (fuel : Nat) :
    readMembers item (fuel + 1) (asciiString k ++ ':' :: u) = .ok ([(k, v)], rest) := by
  rw [asciiString_append, readMembers]
  simp only [readString_flatMap, skipGap_cons (show isGap ':' = false from rfl), h,
    skipGap_cons (show isGap '\x7d' = false from rfl)]

theorem readMembers_more {item : Text → Except Fault (Json × Text)} {u more : Text} {v : Json}
    (h : item (skipGap u) = .ok (v, ',' :: more)) (k : Text) (fuel : Nat) :
    readMembers item (fuel + 1) (asciiString k ++ ':' :: u) =
      (readMembers item fuel (skipGap more)).map fun r => ((k, v) :: r.1, r.2) := by
  rw [asciiString_append, readMembers]
  simp only [readString_flatMap, skipGap_cons (show isGap ':' = false from rfl), h,
    skipGap_cons (show isGap ',' = false from rfl)]

include hcomma hcolon in
theorem readMembers_writeMembers {depth : Nat} {item : Text → Except Fault (Json × Text)}
    {m : Text × Json} {members : List (Text × Json)} (hp : ∀ n ∈ m :: members, Plain depth n.2)
    (hitem : ∀ n ∈ m :: members, ReadsBack comma colon item n.2) {fuel : Nat}
    (hf : members.length < fuel) (rest : Text) :
    readMembers item fuel (writeMembers comma colon (m :: members) ++ rest) =
      .ok (m :: members, rest) := by
  -- the value of a member, behind the spaces of the colon
  have hvalue : ∀ n ∈ m :: members, ∀ spaces rest, Stops rest →
      item (skipGap (List.replicate spaces ' ' ++ (write comma colon n.2 ++ rest)))
        = .ok (n.2, rest) := by
    intro n hn spaces rest hs
    rw [skipGap_spaces, ((opens_write comma colon (hp n hn)).append rest).skipGap_eq]
    exact hitem n hn rest hs
  clear hitem
  obtain ⟨after, rfl⟩ := hcolon
  induction members generalizing m fuel with
  | nil =>
    obtain ⟨fuel, rfl⟩ := Nat.exists_eq_succ_of_ne_zero (Nat.ne_of_gt hf)
    have hv := hvalue m List.mem_cons_self after ('\x7d' :: rest) (Text.stopsAt_cons.2 (by decide))
    rw [writeMembers, List.append_assoc, List.append_assoc, List.append_assoc, List.cons_append]
    exact readMembers_last hv m.1 fuel
  | cons n members ih =>
    obtain ⟨fuel, rfl⟩ := Nat.exists_eq_succ_of_ne_zero (Nat.ne_of_gt (Nat.zero_lt_of_lt hf))
    obtain ⟨-, hp⟩ := List.forall_mem_cons.1 hp
    obtain ⟨hv, hvalue⟩ := List.forall_mem_cons.1 hvalue
    have hrest := ih hp (Nat.lt_of_succ_lt_succ hf) hvalue
    have hopens :=
      (opens_writeMembers comma (':' :: List.replicate after ' ') n members).append rest
    obtain ⟨spaces, rfl⟩ := hcomma
    rw [writeMembers_cons_cons, List.append_assoc, List.append_assoc, List.append_assoc,
      List.append_assoc, List.cons_append, List.cons_append,
      readMembers_more (hv after _ (Text.stopsAt_cons.2 (by decide))), skipGap_spaces,
      hopens.skipGap_eq, hrest]
    rfl

theorem length_le_writeItems (comma colon : Text) {depth : Nat} {items : List Json}
    (hp : ∀ v ∈ items, Plain depth v) :
    items.length ≤ (writeItems comma colon items).length := by
  induction items with
  | nil => exact Nat.zero_le _
  | cons v rest ih =>
    obtain ⟨hv, hp⟩ := List.forall_mem_cons.1 hp
    cases rest with
    | nil => exact (opens_writeItems comma colon hv []).length_pos
    | cons w rest =>
      have hrest := ih hp
      have hpos := (opens_write comma colon hv).length_pos
      rw [writeItems_cons_cons, List.length_append, List.length_append]
      simp only [List.length_cons] at hrest ⊢
      omega

theorem length_le_writeMembers (comma colon : Text) (members : List (Text × Json)) :
    members.length ≤ (writeMembers comma colon members).length := by
  induction members with
  | nil => exact Nat.zero_le _
  | cons m rest ih =>
    cases rest with
    | nil => exact (opens_writeMembers comma colon m []).length_pos
    | cons n rest =>
      have hpos : 0 < (asciiString m.1).length := Nat.succ_pos _
      rw [writeMembers_cons_cons, List.length_append, List.length_append, List.length_append,
        List.length_append]
      simp only [List.length_cons] at ih ⊢
      omega

theorem readValue_scalar {c : Char} (ha : c ≠ '[') (ho : c ≠ '\x7b') (depth : Nat) (t : Text) :
    readValue depth (c :: t) = readScalar (c :: t) := by
  cases depth <;> rw [readValue] <;> simp_all

theorem readValue_arr {t : Text} (h : Opens t) (depth : Nat) :
    readValue (depth + 1) ('[' :: t) =
      (readItems (readValue depth) (t.length + 1) t).map fun r => (.arr r.1, r.2) := by
  have hskip := h.skipGap_eq
  obtain ⟨c, u, rfl, hc⟩ := h
  simp only [isOuter, Bool.or_eq_false_iff, beq_eq_false_iff_ne] at hc
  rw [readValue, hskip]
  split
  · next he => exact absurd (List.cons.inj he).1 hc.1.2
  · rfl

theorem readValue_obj {t : Text} (h : Opens t) (depth : Nat) :
    readValue (depth + 1) ('\x7b' :: t) =
      (readMembers (readValue depth) (t.length + 1) t).map fun r => (.obj (ofPairs r.1), r.2) := by
  have hskip := h.skipGap_eq
  obtain ⟨c, u, rfl, hc⟩ := h
  simp only [isOuter, Bool.or_eq_false_iff, beq_eq_false_iff_ne] at hc
  rw [readValue, hskip]
  split
  · next he => exact absurd (List.cons.inj he).1 hc.2
  · rfl

include hcomma hcolon in
/-- **A written value is read back**, whatever stands behind it. -/
theorem readValue_write {depth : Nat} {v : Json} (h : Plain depth v) :
    ReadsBack comma colon (readValue depth) v := by
  induction h with
  | null =>
    intro rest _
    rw [write]
    exact readValue_scalar (by decide) (by decide) _ _
  | bool b =>
    intro rest _
    rw [write]
    cases b <;> exact readValue_scalar (by decide) (by decide) _ _
  | @int depth n hlen =>
    intro rest hs
    obtain ⟨c, t, hw, hc⟩ := exists_cons_ofInt n
    have hread := readScalar_ofInt hs hlen
    rw [write]
    rw [hw, List.cons_append] at hread ⊢
    rw [readValue_scalar, hread]
    · rintro rfl
      revert hc
      decide
    · rintro rfl
      revert hc
      decide
  | str t =>
    intro rest _
    rw [write, asciiString_append, readValue_scalar (by decide) (by decide), readScalar,
      readString_flatMap]
    rfl
  | @arr depth items hp ih =>
    intro rest _
    rw [write, List.cons_append]
    cases items with
    | nil => rfl
    | cons v items =>
      have hopens := (opens_writeItems comma colon (hp v List.mem_cons_self) items).append rest
      have hlen := length_le_writeItems comma colon hp
      have hfuel : items.length < (writeItems comma colon (v :: items) ++ rest).length + 1 := by
        rw [List.length_append]
        simp only [List.length_cons] at hlen
        omega
      rw [readValue_arr hopens, readItems_writeItems hcomma hp ih hfuel]
      rfl
  | @obj depth members keys hp ih =>
    intro rest _
    rw [write, List.cons_append]
    cases members with
    | nil => rfl
    | cons m members =>
      have hopens := (opens_writeMembers comma colon m members).append rest
      have hlen := length_le_writeMembers comma colon (m :: members)
      have hfuel :
          members.length < (writeMembers comma colon (m :: members) ++ rest).length + 1 := by
        rw [List.length_append]
        simp only [List.length_cons] at hlen
        omega
      rw [readValue_obj hopens, readMembers_writeMembers hcomma hcolon hp ih hfuel]
      simp only [Except.map, ofPairs_of_nodup keys]

/-! ## Written texts -/

/-- Printable ASCII: what a written value is made of. -/
def isPrintableAscii (c : Char) : Bool := 0x20 ≤ c.toNat && c.toNat < 0x7F

theorem isPrintableAscii_unitEscape (u : Nat) : (unitEscape u).all isPrintableAscii = true := by
  have hall : ∀ n < 16, isPrintableAscii (Text.hexDigit n) = true := by decide
  have hdigit : ∀ n, isPrintableAscii (Text.hexDigit (n % 16)) = true :=
    fun n => hall (n % 16) (Nat.mod_lt n (by decide))
  simp only [unitEscape, Text.hex, List.nil_append, List.cons_append, List.all_cons, hdigit]
  rfl

theorem isPrintableAscii_asciiChar (c : Char) : (asciiChar c).all isPrintableAscii = true := by
  unfold asciiChar
  cases hs : shortEscape? c with
  | some e =>
    unfold shortEscape? at hs
    split at hs <;> cases hs <;> decide
  | none =>
    simp only []
    split
    · next h => simpa [isPrintableAscii] using h
    · rw [List.all_flatMap, List.all_eq_true]
      exact fun u _ => isPrintableAscii_unitEscape u

theorem isPrintableAscii_asciiString (t : Text) :
    (asciiString t).all isPrintableAscii = true := by
  have ht : (t.flatMap asciiChar).all isPrintableAscii = true := by
    rw [List.all_flatMap, List.all_eq_true]
    exact fun c _ => isPrintableAscii_asciiChar c
  rw [asciiString, List.all_append, List.all_cons, ht]
  rfl

theorem isPrintableAscii_ofInt (n : Int) : (Decimal.ofInt n).all isPrintableAscii = true := by
  have hdigits : ∀ n, (Decimal.digits n).all isPrintableAscii = true := by
    intro n
    rw [List.all_eq_true]
    intro c hc
    have hd := Decimal.isAsciiDigit_of_mem_digits hc
    simp only [Text.isAsciiDigit, isPrintableAscii, Bool.and_eq_true, decide_eq_true_eq] at hd ⊢
    omega
  cases n with
  | ofNat n => exact hdigits n
  | negSucc n =>
    rw [Decimal.ofInt, List.all_cons, hdigits]
    rfl

theorem IsMark.isPrintableAscii {mark : Char} {t : Text} (h : IsMark mark t)
    (hm : Json.isPrintableAscii mark = true) : t.all Json.isPrintableAscii = true := by
  obtain ⟨spaces, rfl⟩ := h
  rw [List.all_cons, hm, List.all_eq_true.2 fun c hc => by rw [List.eq_of_mem_replicate hc]; rfl]
  rfl

include hcomma in
theorem isPrintableAscii_writeItems {items : List Json}
    (h : ∀ v ∈ items, (write comma colon v).all isPrintableAscii = true) :
    (writeItems comma colon items).all isPrintableAscii = true := by
  induction items with
  | nil => rfl
  | cons v rest ih =>
    obtain ⟨hv, h⟩ := List.forall_mem_cons.1 h
    cases rest with
    | nil =>
      rw [writeItems, List.all_append, hv]
      rfl
    | cons w rest =>
      rw [writeItems_cons_cons, List.all_append, List.all_append, hv, ih h,
        hcomma.isPrintableAscii rfl]
      rfl

include hcomma hcolon in
theorem isPrintableAscii_writeMembers {members : List (Text × Json)}
    (h : ∀ m ∈ members, (write comma colon m.2).all isPrintableAscii = true) :
    (writeMembers comma colon members).all isPrintableAscii = true := by
  induction members with
  | nil => rfl
  | cons m rest ih =>
    obtain ⟨hm, h⟩ := List.forall_mem_cons.1 h
    cases rest with
    | nil =>
      rw [writeMembers, List.all_append, List.all_append, List.all_append, hm,
        isPrintableAscii_asciiString, hcolon.isPrintableAscii rfl]
      rfl
    | cons n rest =>
      rw [writeMembers_cons_cons, List.all_append, List.all_append, List.all_append,
        List.all_append, hm, ih h, isPrintableAscii_asciiString, hcomma.isPrintableAscii rfl,
        hcolon.isPrintableAscii rfl]
      rfl

include hcomma hcolon in
/-- **A written value is printable ASCII.** -/
theorem isPrintableAscii_write {depth : Nat} {v : Json} (h : Plain depth v) :
    (write comma colon v).all isPrintableAscii = true := by
  induction h with
  | null => rw [write]; decide
  | bool b => rw [write]; cases b <;> decide
  | int => rw [write, isPrintableAscii_ofInt]
  | str t => rw [write, isPrintableAscii_asciiString]
  | arr _ ih =>
    rw [write, List.all_cons, isPrintableAscii_writeItems hcomma ih]
    rfl
  | obj _ _ ih =>
    rw [write, List.all_cons, isPrintableAscii_writeMembers hcomma hcolon ih]
    rfl

include hcomma hcolon in
/-- **A written value is the value of the whole text.** -/
theorem read_write {depth : Nat} {v : Json} (h : Plain depth v) :
    read depth (write comma colon v) = .ok v := by
  obtain ⟨c, t, hw, -⟩ := opens_write comma colon h
  have hread := readValue_write hcomma hcolon h [] Text.stopsAt_nil
  have hskip := (opens_write comma colon h).skipGap_eq
  have hc := isPrintableAscii_write hcomma hcolon h
  rw [List.append_nil] at hread
  rw [hw, List.all_cons, Bool.and_eq_true] at hc
  rw [hw] at hread hskip ⊢
  rw [read, readBody, hskip, hread]
  · rfl
  · rintro rest he
    obtain ⟨rfl, -⟩ := List.cons.inj he
    exact absurd hc.1 (by decide)

theorem exists_writeItems_eq (comma colon : Text) (items : List Json) :
    ∃ front, writeItems comma colon items = front ++ [']'] := by
  induction items with
  | nil => exact ⟨[], rfl⟩
  | cons v rest ih =>
    cases rest with
    | nil => exact ⟨_, by rw [writeItems]⟩
    | cons w rest =>
      obtain ⟨front, hf⟩ := ih
      exact ⟨_, by rw [writeItems_cons_cons, hf, ← List.append_assoc]⟩

theorem exists_writeMembers_eq (comma colon : Text) (members : List (Text × Json)) :
    ∃ front, writeMembers comma colon members = front ++ ['\x7d'] := by
  induction members with
  | nil => exact ⟨[], rfl⟩
  | cons m rest ih =>
    cases rest with
    | nil => exact ⟨_, by rw [writeMembers]⟩
    | cons n rest =>
      obtain ⟨front, hf⟩ := ih
      exact ⟨_, by rw [writeMembers_cons_cons, hf, ← List.append_assoc]⟩

end

end ContractAudit.Json
