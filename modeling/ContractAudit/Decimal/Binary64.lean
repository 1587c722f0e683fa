import ContractAudit.Decimal

/-! Binary floating-point numbers with a significand of 53 bits.

A finite number is `significand * 2 ^ exponent` units of `2 ^ -1074`, the distance of the
least numbers.  `ofDecimal` rounds a decimal to the nearest number, halves to the even
significand, and `toText` writes the shortest decimal that is rounded back to the number.
Both are exact: they compare whole numbers only. -/

namespace ContractAudit

/-- A floating-point number. -/
inductive Binary64
  | finite (negative : Bool) (significand exponent : Nat)
  | infinite (negative : Bool)
  | nan
  deriving DecidableEq, Repr

namespace Binary64

/-- The quotient rounded to the nearest whole number, halves to the even one. -/
def roundHalfEven (num den : Nat) : Nat :=
  let q := num / den
  let rest := 2 * (num % den)
  if den < rest || (rest == den && q % 2 == 1) then q + 1 else q

/-- How many units the number one has. -/
def unitsOfOne : Nat := Nat.pow 2 1074

/-- The number nearest to `num / den` units. -/
def ofUnits (negative : Bool) (num den : Nat) : Binary64 :=
  let shift := Nat.log2 (num / den) - 52
  let m := roundHalfEven num (den * Nat.pow 2 shift)
  let (m, shift) := if m = Nat.pow 2 53 then (Nat.pow 2 52, shift + 1) else (m, shift)
  if 2045 < shift then .infinite negative else .finite negative m shift

/-- The number nearest to `n * 10 ^ exponent`. -/
def ofDecimal (negative : Bool) (n : Nat) (exponent : Int) : Binary64 :=
  let top := (Decimal.digits n).length + exponent
  if n = 0 || top < -330 then .finite negative 0 0
  else if 310 < top then .infinite negative
  else if 0 ≤ exponent then ofUnits negative (n * Nat.pow 10 exponent.toNat * unitsOfOne) 1
  else ofUnits negative (n * unitsOfOne) (Nat.pow 10 (-exponent).toNat)

def isZero : Binary64 → Bool
  | finite _ m _ => m == 0
  | _ => false

/-- The whole number that `x` is equal to. -/
def toInt? : Binary64 → Option Int
  | finite negative m e =>
    let units := m * Nat.pow 2 e
    if units % unitsOfOne = 0 then
      some (if negative then -((units / unitsOfOne : Nat) : Int) else (units / unitsOfOne : Nat))
    else none
  | _ => none

/-- The numbers of quarter steps from zero to the lower end of the interval that is rounded
to `m * 2 ^ e`, to the number itself and to the upper end. -/
def interval (m e : Nat) : Nat × Nat × Nat :=
  let low := if m = Nat.pow 2 52 && e ≠ 0 then 4 * m - 1 else 4 * m - 2
  (low * Nat.pow 2 e, 4 * m * Nat.pow 2 e, (4 * m + 2) * Nat.pow 2 e)

/-- The greatest `p` such that `10 ^ p ≤ num / den`. -/
def log10 (num den : Nat) : Int :=
  if den ≤ num then (Decimal.digits (num / den)).length - 1
  else
    let r := (den + num - 1) / num
    if r ≤ 1 then 0 else -((Decimal.digits (r - 1)).length : Int)

/-- The decimal on the grid `10 ^ grid` that is nearest to the middle of the interval, of
those that lie in the interval. -/
def onGrid? (low mid high den : Nat) (closed : Bool) (grid : Int) : Option Nat :=
  let up := Nat.pow 10 (-grid).toNat
  let step := Nat.pow 10 grid.toNat * den
  let inside (c : Nat) : Bool :=
    if closed then low * up ≤ c * step && c * step ≤ high * up
    else low * up < c * step && c * step < high * up
  let below := mid * up / step
  let nearest := roundHalfEven (mid * up) step
  let other := if nearest = below then below + 1 else below
  if inside nearest then some nearest else if inside other then some other else none

/-- The shortest decimal in the interval, searched on grids of `count` digits and more. -/
def searchShortest (low mid high den : Nat) (closed : Bool) (top : Int) :
    (fuel count : Nat) → Nat × Int
  | 0, count =>
    let grid := top + 1 - count
    (mid * Nat.pow 10 (-grid).toNat / (den * Nat.pow 10 grid.toNat), grid)
  | fuel + 1, count =>
    let grid := top + 1 - count
    match onGrid? low mid high den closed grid with
    | some c => (c, grid)
    | none => searchShortest low mid high den closed top fuel (count + 1)

/-- The shortest decimal `c * 10 ^ x` that is rounded to `m * 2 ^ e` units. -/
def shortest (m e : Nat) : Nat × Int :=
  let (low, mid, high) := interval m e
  searchShortest low mid high (4 * unitsOfOne) (m % 2 == 0) (log10 mid (4 * unitsOfOne)) 17 1

/-- The digits without trailing zeros. -/
def significantDigits (c : Nat) : Text :=
  match Text.trimEnd (· == '0') (Decimal.digits c) with
  | [] => ['0']
  | ds => ds

/-- A decimal with digits `ds` and the point after the first `point` of them.  It is written
with an exponent if more than sixteen digits, or more than three zeros after the point, would
stand before the end of the significant ones. -/
def positional (ds : Text) (point : Int) : Text :=
  if -4 < point && point ≤ 16 then
    if point ≤ 0 then "0." ++ List.replicate (-point).toNat '0' ++ ds
    else
      let n := point.toNat
      let whole := ds.take n ++ List.replicate (n - ds.length) '0'
      let rest := ds.drop n
      whole ++ ['.'] ++ (if rest.isEmpty then ['0'] else rest)
  else
    let x := point - 1
    let xs := Decimal.digits x.natAbs
    let mantissa := if ds.length ≤ 1 then ds else ds.take 1 ++ ['.'] ++ ds.drop 1
    mantissa ++ ['e', if x < 0 then '-' else '+'] ++ (if xs.length < 2 then '0' :: xs else xs)

/-- The shortest decimal that is rounded to `x`. -/
def toText : Binary64 → Text
  | nan => "nan"
  | infinite negative => if negative then "-inf" else "inf"
  | finite negative m e =>
    let body : Text :=
      if m = 0 then "0.0"
      else
        let (c, grid) := shortest m e
        positional (significantDigits c) ((Decimal.digits c).length + grid)
    if negative then '-' :: body else body

end Binary64

end ContractAudit
