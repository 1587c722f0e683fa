import ContractAudit.Decimal.Binary64
import ContractAudit.Text.Digit

/-! Numbers written by people. -/

/-! ## Whole numbers

A number in plain form is a row of ASCII digits without zeros in front, after a minus sign or
none, and `readPlain` reads it.  `readInt` accepts more: a text that is not plain is simplified
once, by taking away the white space around it, a plus sign, zeros in front, a fraction of zeros,
and low lines between digits.

`readLoose?` is another way to read: zeros may stand in front and digits be of any script, but
there is no fraction. -/

namespace ContractAudit.Decimal

/-- The sign of a number, true for a minus sign, and the text after it. -/
def splitSign : Text → Bool × Text
  | '-' :: rest => (true, rest)
  | '+' :: rest => (false, rest)
  | rest => (false, rest)

def signed (negative : Bool) (n : Nat) : Int := if negative then -(n : Int) else n

/-- The row of digits has no zero in front. -/
def isPlainRow : Text → Bool
  | [] => false
  | [_] => true
  | d :: _ => d ≠ '0'

/-- The number of a text in plain form.  The count of characters is that of the number with which
the text begins, its sign included, and is looked at first. -/
def readPlain (t : Text) : Except Fault Int :=
  let negative := Text.startsWith ['-'] t
  let body := if negative then t.drop 1 else t
  let row := body.takeWhile Text.isAsciiDigit
  let count := t.length - body.length + row.length
  if limit < count && isPlainRow row then .error (.tooLong count)
  else if body.all Text.isAsciiDigit && isPlainRow body then .ok (signed negative (value body))
  else .error (.notDecimal t)

/-- The text without its low lines, if none stands at an end or next to another. -/
def withoutLowLines? (t : Text) : Option Text :=
  let groups := Text.split '_' t
  if groups.length = 1 || groups.all (! ·.isEmpty) then some groups.flatten else none

/-- A number without the zeros and low lines in front, of which `last` was the last one so far.
The last one is kept if nothing or a point comes after it. -/
def afterZeros? (last : Char) : Text → Option Text
  | [] => some [last]
  | c :: rest =>
    if c = '0' || c = '_' then afterZeros? c rest
    else if c = '.' then some (last :: c :: rest)
    else if c = '-' || Text.isAsciiDigit c then some (c :: rest)
    else none

/-- A number without zeros in front, if it begins like a number. -/
def withoutZeros? : Text → Option Text
  | [] => none
  | '0' :: rest => afterZeros? '0' rest
  | c :: rest => if c = '-' || Text.isAsciiDigit c then some (c :: rest) else none

/-- A number without a fraction of zeros. -/
def withoutFraction (t : Text) : Text :=
  match t.span (· ≠ '.') with
  | (whole, _ :: '0' :: zeros) => if zeros.all (· == '0') then whole else t
  | _ => t

/-- A number without its sign in a simpler form. -/
def simplifyUnsigned? (t : Text) : Option Text :=
  (withoutZeros? t).bind fun t => withoutLowLines? (withoutFraction t)

/-- A number in a simpler form, if it begins like a number. -/
def simplify? (t : Text) : Option Text :=
  match Text.trimSpace t with
  | '+' :: '-' :: _ => none
  | '+' :: rest => simplifyUnsigned? rest
  | '-' :: rest => (simplifyUnsigned? rest).map ('-' :: ·)
  | rest => simplifyUnsigned? rest

def readInt (t : Text) : Except Fault Int :=
  match readPlain t with
  | .ok n => .ok n
  | .error (.tooLong count) => .error (.tooLong count)
  | .error (.notDecimal _) =>
    match (simplify? t).map readPlain with
    | some (.ok n) => .ok n
    | _ => .error (.notDecimal t)

/-- The number of a text with blanks around it, a sign, and decimal digits of any script with
single low lines between them. -/
def readLoose? (t : Text) : Option Int :=
  let (negative, body) := splitSign (Text.trim t)
  (withoutLowLines? body).bind fun ds =>
    if ds.isEmpty || limit < ds.length || ! ds.all Text.isDecimal then none
    else some (signed negative (value ds))

end ContractAudit.Decimal

/-! ## Floating-point numbers

A number has a sign, digits with a point anywhere among them, and a power of ten, all but one
digit being optional; `inf`, `infinity` and `nan` are accepted in any letter case.  Single low
lines may stand between characters of a text without white space around it. -/

namespace ContractAudit.Binary64

/-- The power of ten at the end of a number. -/
def readPower? : Text → Option Int
  | [] => some 0
  | e :: rest =>
    if e = 'e' || e = 'E' then
      let (negative, ds) := Decimal.splitSign rest
      if ds.isEmpty || ! ds.all Text.isAsciiDigit then none
      else some (Decimal.signed negative (Decimal.value ds))
    else none

/-- A number without a sign. -/
def readUnsigned? (negative : Bool) (t : Text) : Option Binary64 :=
  let word := Text.lower t
  if word = "inf" || word = "infinity" then some (.infinite negative)
  else if word = "nan" then some .nan
  else
    let (whole, rest) := t.span Text.isAsciiDigit
    let (fraction, rest) := match rest with
      | '.' :: rest => rest.span Text.isAsciiDigit
      | rest => ([], rest)
    if whole.isEmpty && fraction.isEmpty then none
    else
      (readPower? rest).map fun x =>
        ofDecimal negative (Decimal.value (whole ++ fraction)) (x - fraction.length)

/-- The number of a text without white space and low lines. -/
def readPlain? (t : Text) : Option Binary64 :=
  let (negative, t) := Decimal.splitSign t
  readUnsigned? negative t

/-- The number that a text holds.  White space may stand around it, or low lines inside it, but
not both. -/
def read? (t : Text) : Option Binary64 :=
  (readPlain? (Text.trimSpace t)).orElse fun _ =>
    (Decimal.withoutLowLines? t).bind readPlain?

end ContractAudit.Binary64
