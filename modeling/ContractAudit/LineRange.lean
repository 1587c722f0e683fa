import ContractAudit.Decimal
import ContractAudit.Sort

/-! Ranges of line numbers.

A range holds at least one line and begins at line 1 or later; the type says so.  Its printed
form is a single number or two with a dash between them. -/

namespace ContractAudit

/-- The lines from `first` to `last`, both included. -/
structure LineRange where
  first : Int
  last : Int
  one_le_first : 1 ≤ first
  first_le_last : first ≤ last
  deriving DecidableEq

namespace LineRange

/-- Two bounds that make no range. -/
structure Fault where
  first : Int
  last : Int
  deriving DecidableEq

def Fault.message (f : Fault) : Text :=
  "Invalid line range: " ++ Decimal.ofInt f.first ++ "-" ++ Decimal.ofInt f.last

/-- The range with these bounds. -/
def ofBounds (first last : Int) : Except Fault LineRange :=
  if h : 1 ≤ first ∧ first ≤ last then .ok ⟨first, last, h.1, h.2⟩ else .error ⟨first, last⟩

instance : Membership Int LineRange := ⟨fun r n => r.first ≤ n ∧ n ≤ r.last⟩

instance (r : LineRange) (n : Int) : Decidable (n ∈ r) :=
  inferInstanceAs (Decidable (r.first ≤ n ∧ n ≤ r.last))

theorem mem_iff {r : LineRange} {n : Int} : n ∈ r ↔ r.first ≤ n ∧ n ≤ r.last := .rfl

def size (r : LineRange) : Nat := (r.last - r.first + 1).toNat

/-- The size of a range, if it is at most `2 ^ 63 - 1`. -/
def wordSize? (r : LineRange) : Option Nat :=
  if r.size < 9223372036854775808 then some r.size else none

/-- The lines of a range in increasing order. -/
def lines (r : LineRange) : List Int :=
  (List.range r.size).map fun (i : Nat) => r.first + i

theorem mem_lines {r : LineRange} {n : Int} : n ∈ r.lines ↔ n ∈ r := by
  simp only [lines, size, List.mem_map, List.mem_range, mem_iff]
  constructor
  · rintro ⟨i, hi, rfl⟩
    omega
  · intro h
    exact ⟨(n - r.first).toNat, by omega, by omega⟩

/-- The order by first line, then by last line. -/
def le (r s : LineRange) : Bool :=
  r.first < s.first || (r.first == s.first && r.last ≤ s.last)

theorem le_iff {r s : LineRange} :
    le r s = true ↔ r.first < s.first ∨ (r.first = s.first ∧ r.last ≤ s.last) := by
  simp [le]

theorem le_trans {r s t : LineRange} (hrs : le r s = true) (hst : le s t = true) :
    le r t = true := by
  rw [le_iff] at *
  omega

theorem le_total (r s : LineRange) : le r s = true ∨ le s r = true := by
  simp only [le_iff]
  omega

/-- A range as it is printed. -/
def text (r : LineRange) : Text :=
  if r.first = r.last then Decimal.ofInt r.first
  else Decimal.ofInt r.first ++ ['-'] ++ Decimal.ofInt r.last

def listText (ranges : List LineRange) : Text := Text.join ", " (ranges.map text)

/-! ## Coalescing

A span is a pair of bounds in either order.  `coalesce` cuts off what lies before line 1 and
joins spans that overlap or touch, so that what is left is the shortest list of ranges that
holds the same lines. -/

/-- The part of a span from line 1 on, if there is any. -/
def ofSpan? (span : Int × Int) : Option LineRange :=
  if h : 1 ≤ max span.1 span.2 then
    some ⟨max (min span.1 span.2) 1, max span.1 span.2, by omega, by omega⟩
  else none

/-- The least range from the beginning of `r` that holds `r` and the end of `s`. -/
def joinTo (r s : LineRange) : LineRange :=
  ⟨r.first, max r.last s.last, r.one_le_first, by have := r.first_le_last; omega⟩

/-- Ranges in increasing order, after the range `r` that is still open. -/
def mergeFrom (r : LineRange) : List LineRange → List LineRange
  | [] => [r]
  | s :: rest =>
    if s.first ≤ r.last + 1 then mergeFrom (r.joinTo s) rest else r :: mergeFrom s rest

/-- Ranges in increasing order with neighbours joined. -/
def merge : List LineRange → List LineRange
  | [] => []
  | r :: rest => mergeFrom r rest

/-- The ranges that hold the lines of some spans. -/
def coalesce (spans : List (Int × Int)) : List LineRange :=
  merge (sortBy le (spans.filterMap ofSpan?))

/-- The ranges that hold some lines. -/
def coalesceLines (lines : List Int) : List LineRange := coalesce (lines.map fun n => (n, n))

end LineRange

end ContractAudit
