import ContractAudit.Text.Quoted
import ContractAudit.Text.Units
import ContractAudit.Decimal

/-! Texts as bytes: UTF-8, and the forms of UTF-16 and UTF-32.

`utf8Size` counts the bytes of a text in UTF-8.  `utf8` reads bytes strictly: an overlong
form, a surrogate, a number above U+10FFFF and a sequence cut short are refused.  A `Fault`
names the bytes that were refused, from the first to the last of them, and the reason; a
sequence is refused at the first byte that cannot follow those before it, and that byte is
not counted among the refused ones. -/

namespace ContractAudit

abbrev Bytes := List UInt8

namespace Bytes

/-- Why bytes are no text. -/
inductive Reason
  | badStart
  | badContinuation
  | cutShort
  | truncated
  | surrogate
  | outOfRange
  deriving DecidableEq, Repr

def Reason.words : Reason → Text
  | .badStart => "invalid start byte"
  | .badContinuation => "invalid continuation byte"
  | .cutShort => "unexpected end of data"
  | .truncated => "truncated data"
  | .surrogate => "illegal UTF-16 surrogate"
  | .outOfRange => "code point not in range(0x110000)"

/-- The bytes at the positions `first` to `last` are no text in `encoding`. -/
structure Fault where
  encoding : Text
  byte : UInt8
  first : Nat
  last : Nat
  reason : Reason
  deriving DecidableEq

def Fault.message (f : Fault) : Text :=
  let place : Text :=
    if f.first = f.last then
      "byte 0x" ++ Text.hex 2 f.byte.toNat ++ " in position " ++ Decimal.digits f.first
    else
      "bytes in position " ++ Decimal.digits f.first ++ "-" ++ Decimal.digits f.last
  Text.quoted f.encoding ++ " codec can't decode " ++ place ++ ": " ++ f.reason.words

/-- The number of bytes of a character in UTF-8. -/
def charSize (c : Char) : Nat :=
  let n := c.toNat
  if n < 0x80 then 1 else if n < 0x800 then 2 else if n < 0x10000 then 3 else 4

/-- The number of bytes of a text in UTF-8. -/
def utf8Size : Text → Nat
  | [] => 0
  | c :: t => charSize c + utf8Size t

/-- The bytes of a text in UTF-8. -/
def ofText (t : Text) : Bytes := t.flatMap fun c => String.utf8EncodeChar c

/-- A byte that continues a sequence, with the bounds that the first byte sets. -/
def continues (low high b : UInt8) : Bool := low ≤ b && b ≤ high

/-- The least second byte after `b`: a smaller one would be an overlong form. -/
def lowSecond (b : UInt8) : UInt8 := if b = 0xE0 then 0xA0 else if b = 0xF0 then 0x90 else 0x80

/-- The greatest second byte after `b`: a greater one would be a surrogate or lie above
U+10FFFF. -/
def highSecond (b : UInt8) : UInt8 := if b = 0xED then 0x9F else if b = 0xF4 then 0x8F else 0xBF

/-- The six low bits of a continuing byte. -/
def low6 (b : UInt8) : Nat := b.toNat % 64

/-- The text of bytes in UTF-8 and the fault at which reading stopped, `pos` being the
position of the first byte. -/
def utf8From (pos : Nat) : Bytes → Text × Option Fault
  | [] => ([], none)
  | a :: rest =>
    let stop (count : Nat) (reason : Reason) : Text × Option Fault :=
      ([], some ⟨"utf-8", a, pos, pos + count - 1, reason⟩)
    let put (n : Nat) (more : Text × Option Fault) : Text × Option Fault :=
      (Char.ofNat n :: more.1, more.2)
    if a < 0x80 then put a.toNat (utf8From (pos + 1) rest)
    else if a < 0xC2 then stop 1 .badStart
    else if a < 0xE0 then
      match rest with
      | [] => stop 1 .cutShort
      | b :: rest =>
        if continues 0x80 0xBF b then
          put (a.toNat % 32 * 64 + low6 b) (utf8From (pos + 2) rest)
        else stop 1 .badContinuation
    else if a < 0xF0 then
      match rest with
      | [] => stop 1 .cutShort
      | b :: rest =>
        if continues (lowSecond a) (highSecond a) b then
          match rest with
          | [] => stop 2 .cutShort
          | c :: rest =>
            if continues 0x80 0xBF c then
              put (a.toNat % 16 * 4096 + low6 b * 64 + low6 c) (utf8From (pos + 3) rest)
            else stop 2 .badContinuation
        else stop 1 .badContinuation
    else if a < 0xF5 then
      match rest with
      | [] => stop 1 .cutShort
      | b :: rest =>
        if continues (lowSecond a) (highSecond a) b then
          match rest with
          | [] => stop 2 .cutShort
          | c :: rest =>
            if continues 0x80 0xBF c then
              match rest with
              | [] => stop 3 .cutShort
              | d :: rest =>
                if continues 0x80 0xBF d then
                  put (a.toNat % 8 * 262144 + low6 b * 4096 + low6 c * 64 + low6 d)
                    (utf8From (pos + 4) rest)
                else stop 3 .badContinuation
            else stop 2 .badContinuation
        else stop 1 .badContinuation
    else stop 1 .badStart

/-- The text of bytes in UTF-8. -/
def utf8 (bytes : Bytes) : Except Fault Text :=
  match utf8From 0 bytes with
  | (t, none) => .ok t
  | (_, some f) => .error f

/-- The forms in which a reply may be written. -/
inductive Encoding
  | utf8
  | utf16 (bigEndian : Bool)
  | utf32 (bigEndian : Bool)
  deriving DecidableEq, Repr

/-- Two bytes as one unit of UTF-16. -/
def unit16 (bigEndian : Bool) (a b : UInt8) : Nat :=
  if bigEndian then a.toNat * 256 + b.toNat else b.toNat * 256 + a.toNat

/-- The units of bytes in UTF-16; a single byte left over is a fault. -/
def units16 (bigEndian : Bool) (pos : Nat) : Bytes → Except Fault (List Nat)
  | [] => .ok []
  | [a] => .error ⟨if bigEndian then "utf-16-be" else "utf-16-le", a, pos, pos, .truncated⟩
  | a :: b :: rest => (units16 bigEndian (pos + 2) rest).map (unit16 bigEndian a b :: ·)

/-- The text of bytes in UTF-32. -/
def utf32 (bigEndian : Bool) (pos : Nat) : Bytes → Except Fault Text
  | [] => .ok []
  | a :: b :: c :: d :: rest =>
    let n :=
      if bigEndian then a.toNat * 16777216 + b.toNat * 65536 + c.toNat * 256 + d.toNat
      else d.toNat * 16777216 + c.toNat * 65536 + b.toNat * 256 + a.toNat
    if n < 0x110000 then
      (utf32 bigEndian (pos + 4) rest).map (Text.ofUnit n :: ·)
    else
      .error ⟨if bigEndian then "utf-32-be" else "utf-32-le", a, pos, pos + 3, .outOfRange⟩
  | a :: rest =>
    .error ⟨if bigEndian then "utf-32-be" else "utf-32-le", a, pos, pos + rest.length,
      .truncated⟩

/-- The encoding of a reply, from its byte order mark or from the zero bytes among its first
four, and the number of bytes of the mark. -/
def encoding : Bytes → Encoding × Nat
  | 0x00 :: 0x00 :: 0xFE :: 0xFF :: _ => (.utf32 true, 4)
  | 0xFF :: 0xFE :: 0x00 :: 0x00 :: _ => (.utf32 false, 4)
  | 0xFE :: 0xFF :: _ => (.utf16 true, 2)
  | 0xFF :: 0xFE :: _ => (.utf16 false, 2)
  | 0xEF :: 0xBB :: 0xBF :: _ => (.utf8, 3)
  | a :: b :: c :: d :: _ =>
    if a = 0 then (if b = 0 then .utf32 true else .utf16 true, 0)
    else if b = 0 then (if c = 0 && d = 0 then .utf32 false else .utf16 false, 0)
    else (.utf8, 0)
  | [a, b] => if a = 0 then (.utf16 true, 0) else if b = 0 then (.utf16 false, 0) else (.utf8, 0)
  | _ => (.utf8, 0)

/-- The bytes with the replacement character in place of every surrogate, which takes as many
bytes. -/
def maskSurrogates : Bytes → Bytes
  | 0xED :: b :: c :: rest =>
    if continues 0xA0 0xBF b && continues 0x80 0xBF c then
      0xEF :: 0xBF :: 0xBD :: maskSurrogates rest
    else 0xED :: maskSurrogates (b :: c :: rest)
  | a :: rest => a :: maskSurrogates rest
  | [] => []

/-- The text of a reply in whichever encoding it is written.  Positions count from the
beginning, but after a mark of UTF-8 they count from its end.  A surrogate that stands alone is
read as the replacement character. -/
def toText (bytes : Bytes) : Except Fault Text :=
  let (encoding, mark) := encoding bytes
  let body := bytes.drop mark
  match encoding with
  | .utf8 => utf8 (maskSurrogates body)
  | .utf16 bigEndian => (units16 bigEndian mark body).map Text.ofUnits
  | .utf32 bigEndian => utf32 bigEndian mark body

end Bytes

end ContractAudit
