import ContractAudit.Decimal.NumberText
import ContractAudit.Text.Bytes
import ContractAudit.Text.Word
import ContractAudit.Url.Punycode

/-! Hosts of addresses.

A host is four numbers with points between them, eight groups of hexadecimal digits in brackets,
or a name, whose letters count as small ones.  A name beyond ASCII is written label by label in
ASCII. -/

namespace ContractAudit.Url

/-! ## Percent signs

A character that cannot stand in a part of an address is written byte by byte, each byte by a
percent sign and two digits. -/

/-- A visible ASCII character. -/
def isVisible (c : Char) : Bool := 0x20 < c.toNat && c.toNat < 0x7F

/-- A byte by a percent sign and its number. -/
def percentByte (b : UInt8) : Text := '%' :: (Text.hex 2 b.toNat).map Char.toUpper

/-- The character can stand in a part of an address in which those of `reserved` cannot. -/
def canStand (reserved : Text) (c : Char) : Bool := isVisible c && ! reserved.contains c

/-- A part of an address in which the characters of `reserved` cannot stand. -/
def percentEncode (reserved t : Text) : Text :=
  t.flatMap fun c =>
    if canStand reserved c then [c] else (Bytes.ofText [c]).flatMap percentByte

/-! ## Hosts -/

/-- A number below 256 without zeros in front. -/
def isOctet (t : Text) : Bool :=
  t.length ≤ 3 && t.all Text.isAsciiDigit && Decimal.isPlainRow t && Decimal.value t ≤ 255

/-- Four numbers with points between them. -/
def isFourNumbers (t : Text) : Bool :=
  let parts := Text.split '.' t
  parts.length == 4 && parts.all isOctet

/-- The text is made of rows of digits with one character of any kind between two of them, `more`
of them still to come. -/
def hasRows : (more : Nat) → (begun : Bool) → Text → Bool
  | more, begun, [] => begun && more == 0
  | more, begun, c :: rest =>
    (Text.isAsciiDigit c && hasRows more true rest)
      || (match begun, more with
        | true, more + 1 => hasRows more false rest
        | _, _ => false)

/-- A group of hexadecimal digits. -/
def isGroup (t : Text) : Bool :=
  ! t.isEmpty && t.length ≤ 4 && t.all fun c =>
    Text.isAsciiDigit c || (['a', 'b', 'c', 'd', 'e', 'f'] : Text).contains c.toLower

/-- The groups with colons between them. -/
def groups (t : Text) : List Text := if t.isEmpty then [] else Text.split ':' t

/-- The groups, with four numbers at their end counted as two groups. -/
def spread (gs : List Text) : List Text :=
  match gs.reverse with
  | last :: before => if isFourNumbers last then before.reverse ++ [['0'], ['0']] else gs
  | [] => []

/-- The text before the first two colons in a row, and the text after them. -/
def splitColons? : Text → Option (Text × Text)
  | [] => none
  | ':' :: ':' :: rest => some ([], rest)
  | c :: rest => (splitColons? rest).map fun r => (c :: r.1, r.2)

/-- Eight groups, or fewer with two colons in a row in place of the others. -/
def isEightGroups (t : Text) : Bool :=
  match splitColons? t with
  | none =>
    let gs := spread (groups t)
    gs.length == 8 && gs.all isGroup
  | some (front, back) =>
    let gs := groups front ++ spread (groups back)
    gs.length ≤ 7 && gs.all isGroup

/-- The text in brackets is eight groups, perhaps with the name of a zone behind a percent sign. -/
def isBracketed (t : Text) : Bool :=
  match t.span (· ≠ '%') with
  | (address, []) => isEightGroups address
  | (address, _ :: zone) => isEightGroups address && ! zone.isEmpty && ! zone.contains '%'

/-- What is wrong with a host. -/
inductive HostFault
  | numbers (host : Text)
  | groups (host : Text)
  | name (host : Text)
  deriving DecidableEq

def HostFault.message : HostFault → Text
  | numbers host => "Invalid IPv4 address: " ++ Text.quoted host
  | groups host => "Invalid IPv6 address: " ++ Text.quoted host
  | name host => "Invalid IDNA hostname: " ++ Text.quoted host

/-- The characters that cannot stand in the name of a host. -/
def hostReserved : Text := ['#', '/', ':', '<', '>', '?', '@', '[', ']', '^']

/-- A full stop of any script. -/
def isStop (c : Char) : Bool :=
  c == '.' || c == '\u3002' || c == '\uFF0E' || c == '\uFF61'

def labels (t : Text) : List Text := Text.split '.' (t.map fun c => if isStop c then '.' else c)

def isLabelChar (c : Char) : Bool := c == '-' || (c != '_' && Text.isWord c)

/-- A label in ASCII, if it can be one: hyphens stand neither at its ends nor in its third and
fourth place, and there are at most 63 characters. -/
def readLabel? (t : Text) : Option Text :=
  let written : Text := if t.all (·.toNat < 128) then t else "xn--" ++ Punycode.encode t
  let hyphens := Text.startsWith ['-'] t || Text.endsWith ['-'] t
    || Text.startsWith ['-', '-'] (t.drop 2)
  if t.isEmpty || ! t.all isLabelChar || hyphens || 63 < written.length then none
  else some written

/-- A name in ASCII; its last label may be empty. -/
def readName? (t : Text) : Option Text :=
  let all := labels t
  let named := if all.getLast? = some [] then all.dropLast else all
  (named.mapM readLabel?).bind fun written =>
    let name := Text.join ['.'] written
    if 253 < name.length then none
    else some (if named.length < all.length then name ++ ['.'] else name)

/-- The host in its usual form, without brackets. -/
def readHost (t : Text) : Except HostFault Text :=
  if hasRows 3 false t then if isFourNumbers t then .ok t else .error (.numbers t)
  else if Text.startsWith ['['] t && Text.endsWith [']'] t && t.length ≠ 1 then
    let inner := (t.drop 1).dropLast
    if isBracketed inner then .ok inner else .error (.groups t)
  else if t.all (·.toNat < 128) then .ok (percentEncode hostReserved (Text.lower t))
  else
    match readName? (Text.lower t) with
    | some name => .ok name
    | none => .error (.name t)

end ContractAudit.Url
