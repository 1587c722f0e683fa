import ContractAudit.Text

/-! Texts as units of sixteen bits.

A character up to U+FFFF is one unit and every other one a pair of surrogates.  `ofUnits`
puts pairs together again (`ofUnits_units`); a surrogate without its partner stands for no
character and is read as U+FFFD. -/

namespace ContractAudit.Text

/-- The units of one character. -/
def charUnits (c : Char) : List Nat :=
  let n := c.toNat
  if n < 0x10000 then [n]
  else [0xD800 + (n - 0x10000) / 1024, 0xDC00 + (n - 0x10000) % 1024]

def units (t : Text) : List Nat := t.flatMap charUnits

def isHighSurrogate (u : Nat) : Bool := 0xD800 ≤ u && u < 0xDC00

def isLowSurrogate (u : Nat) : Bool := 0xDC00 ≤ u && u < 0xE000

/-- The character of one unit. -/
def ofUnit (u : Nat) : Char :=
  if isHighSurrogate u || isLowSurrogate u then Char.ofNat 0xFFFD else Char.ofNat u

def ofUnits : List Nat → Text
  | [] => []
  | [u] => [ofUnit u]
  | u :: v :: rest =>
    if isHighSurrogate u && isLowSurrogate v then
      Char.ofNat (0x10000 + (u - 0xD800) * 1024 + (v - 0xDC00)) :: ofUnits rest
    else ofUnit u :: ofUnits (v :: rest)

theorem ofUnits_cons {u : Nat} (h : isHighSurrogate u = false) (rest : List Nat) :
    ofUnits (u :: rest) = ofUnit u :: ofUnits rest := by
  cases rest with
  | nil => rfl
  | cons v rest => simp [ofUnits, h]

theorem toNat_range (c : Char) :
    c.toNat < 0xD800 ∨ (0xDFFF < c.toNat ∧ c.toNat < 0x110000) := by
  have valid := c.valid
  simp only [UInt32.isValidChar, Nat.isValidChar] at valid
  exact valid

theorem ofUnits_charUnits_append (c : Char) (rest : List Nat) :
    ofUnits (charUnits c ++ rest) = c :: ofUnits rest := by
  have range := toNat_range c
  unfold charUnits
  dsimp only
  split
  · rename_i h
    have high : isHighSurrogate c.toNat = false := by
      simp only [isHighSurrogate, Bool.and_eq_false_iff, decide_eq_false_iff_not]; omega
    have low : isLowSurrogate c.toNat = false := by
      simp only [isLowSurrogate, Bool.and_eq_false_iff, decide_eq_false_iff_not]; omega
    simp [ofUnits_cons high, ofUnit, high, low, Char.ofNat_toNat]
  · rename_i h
    have high : isHighSurrogate (0xD800 + (c.toNat - 0x10000) / 1024) = true := by
      simp only [isHighSurrogate, Bool.and_eq_true, decide_eq_true_eq]; omega
    have low : isLowSurrogate (0xDC00 + (c.toNat - 0x10000) % 1024) = true := by
      simp only [isLowSurrogate, Bool.and_eq_true, decide_eq_true_eq]; omega
    have number : 0x10000 + (0xD800 + (c.toNat - 0x10000) / 1024 - 0xD800) * 1024
        + (0xDC00 + (c.toNat - 0x10000) % 1024 - 0xDC00) = c.toNat := by omega
    simp only [List.cons_append, List.nil_append, ofUnits, high, low, Bool.and_self, if_true]
    rw [number, Char.ofNat_toNat]

/-- The units of a text are the units of that text alone. -/
theorem ofUnits_units (t : Text) : ofUnits (units t) = t := by
  induction t with
  | nil => rfl
  | cons c t ih =>
    simp only [units, List.flatMap_cons] at *
    rw [ofUnits_charUnits_append, ih]

end ContractAudit.Text
