import ContractAudit.Text.Digit
import ContractAudit.Text.Quoted

/-! Whole numbers in decimal.

`digits` writes a number and `value` reads a row of digits of any script; reading what was
written gives the number back (`value_digits`).  A row of more than `limit` digits is not
read at all, however many of them are zeros in front. -/

namespace ContractAudit.Decimal

def digits (n : Nat) : Text := Nat.toDigits 10 n

/-- The decimal digits of an integer, with a minus sign in front if it is negative. -/
def ofInt : Int → Text
  | .ofNat n => digits n
  | .negSucc n => '-' :: digits (n + 1)

/-- The number that a row of digits stands for. -/
def value (t : Text) : Nat :=
  t.foldl (fun n c => 10 * n + (Text.digitValue? c).getD 0) 0

theorem digitValue?_of_isDigit {c : Char} (h : c.isDigit = true) :
    Text.digitValue? c = some (c.toNat - 48) := by
  simp only [Char.isDigit, Bool.and_eq_true, decide_eq_true_eq, ge_iff_le,
    UInt32.le_iff_toNat_le] at h
  have zero : '0'.val.toNat = 48 := rfl
  have nine : '9'.val.toNat = 57 := rfl
  have e : c.toNat = c.val.toNat := rfl
  simp only [Text.digitValue?]
  rw [if_pos (by omega), if_pos (by simp; omega)]

theorem isDigit_of_mem_digits {n : Nat} {c : Char} (h : c ∈ digits n) : c.isDigit = true :=
  Nat.isDigit_of_mem_toDigits (by decide) (by decide) h

theorem isAsciiDigit_of_mem_digits {n : Nat} {c : Char} (h : c ∈ digits n) :
    Text.isAsciiDigit c = true := by
  have hd := isDigit_of_mem_digits h
  simpa [Char.isDigit, Text.isAsciiDigit, UInt32.le_iff_toNat_le] using hd

theorem digits_ne_nil (n : Nat) : digits n ≠ [] := by
  intro h
  have := Nat.length_toDigits_pos (b := 10) (n := n)
  simp [digits] at h

theorem foldl_eq_ofDigitChars {t : Text} (h : ∀ c ∈ t, c.isDigit = true) (start : Nat) :
    t.foldl (fun n c => 10 * n + (Text.digitValue? c).getD 0) start =
      Nat.ofDigitChars 10 t start := by
  induction t generalizing start with
  | nil => rfl
  | cons c t ih =>
    have hc := h c List.mem_cons_self
    rw [List.foldl_cons, digitValue?_of_isDigit hc]
    exact ih (fun d hd => h d (List.mem_cons_of_mem _ hd)) _

theorem value_eq_ofDigitChars {t : Text} (h : ∀ c ∈ t, c.isDigit = true) :
    value t = Nat.ofDigitChars 10 t 0 :=
  foldl_eq_ofDigitChars h 0

/-- Reading the digits of a number gives the number back. -/
theorem value_digits (n : Nat) : value (digits n) = n := by
  rw [value_eq_ofDigitChars fun c => isDigit_of_mem_digits]
  exact Nat.ofDigitChars_toDigits (by decide) (by decide)

theorem digits_injective {m n : Nat} (h : digits m = digits n) : m = n := by
  rw [← value_digits m, h, value_digits]

/-- The greatest number of digits that is read. -/
def limit : Nat := 4300

/-- Why a text is not read as a number. -/
inductive Fault
  /-- It has `count` digits, more than `limit`. -/
  | tooLong (count : Nat)
  /-- It is no row of decimal digits. -/
  | notDecimal (text : Text)
  deriving DecidableEq

/-- The fault in words; a text that is no number is shown up to two hundred characters. -/
def Fault.message : Fault → Text
  | .tooLong count =>
    "Exceeds the limit (" ++ digits limit ++ " digits) for integer string conversion: value has "
      ++ digits count ++ " digits; use sys.set_int_max_str_digits() to increase the limit"
  | .notDecimal text =>
    "invalid literal for int() with base 10: " ++ (Text.quoted text).take 200

/-- The number of a row of decimal digits. -/
def readDigits (t : Text) : Except Fault Nat :=
  if limit < t.length then .error (.tooLong t.length) else .ok (value t)

/-- The number of a row of digits of any kind.  The count of digits is that of the decimal
digits in front, and is looked at first. -/
def read (t : Text) : Except Fault Nat :=
  let front := t.takeWhile Text.isDecimal
  if limit < front.length then .error (.tooLong front.length)
  else if t.all Text.isDecimal && ! t.isEmpty then .ok (value t)
  else .error (.notDecimal t)

theorem readDigits_eq_ok_iff {t : Text} {n : Nat} :
    readDigits t = .ok n ↔ t.length ≤ limit ∧ value t = n := by
  unfold readDigits
  split
  · simp; omega
  · simp; omega

/-- Groups of three digits from the right, `ds` being the digits in reverse. -/
def groupsOfThree : Text → Text
  | a :: b :: c :: d :: rest => a :: b :: c :: ',' :: groupsOfThree (d :: rest)
  | ds => ds

/-- The digits of a number with commas between the thousands. -/
def grouped (n : Nat) : Text := (groupsOfThree (digits n).reverse).reverse

end ContractAudit.Decimal
