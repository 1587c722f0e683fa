import ContractAudit.Sort
import ContractAudit.Text

/-! Words beyond ASCII, written with ASCII letters and digits.

The ASCII characters of a word come first.  The others are added in the order of their numbers,
each told by the distance from the one before: from one character to the next, and through all
places of the word for each.  A distance is written with digits whose weights follow the sizes of
the distances so far. -/

namespace ContractAudit.Url.Punycode

/-- The digit of a number below 36. -/
def digit (n : Nat) : Char := Char.ofNat (if n < 26 then 97 + n else 22 + n)

/-- The number below which the digit at a place is the last one; `place` is 36 at the first digit
and grows by 36. -/
def threshold (bias place : Nat) : Nat := min 26 (max 1 (place - bias))

/-- A distance in digits, of which there are at most `fuel`. -/
def digits (bias : Nat) : (fuel place distance : Nat) → Text
  | 0, _, _ => []
  | fuel + 1, place, n =>
    let t := threshold bias place
    if n < t then [digit n]
    else digit (t + (n - t) % (36 - t)) :: digits bias fuel (place + 36) ((n - t) / (36 - t))

/-- A distance cut down until the bias can be told from it, `bias` being the part cut off. -/
def shrink : (fuel bias distance : Nat) → Nat
  | 0, bias, _ => bias
  | fuel + 1, bias, n =>
    if 455 < n then shrink fuel (bias + 36) (n / 35) else bias + 36 * n / (n + 38)

/-- The bias after a distance, when `count` characters have been written. -/
def biasAfter (first : Bool) (distance count : Nat) : Nat :=
  let n := if first then distance / 700 else distance / 2
  shrink n 0 (n + n / count)

/-- What has been written of a word. -/
structure State where
  /-- The distance from the last character that was added. -/
  distance : Nat
  bias : Nat
  /-- How many characters of the word have been written. -/
  count : Nat
  written : Text

/-- The state after one character of the word has been passed in search of `target`. -/
def State.pass (basic : Nat) (target : Char) (s : State) (c : Char) : State :=
  if c.toNat < target.toNat then { s with distance := s.distance + 1 }
  else if c = target then {
    distance := 0
    bias := biasAfter (s.count == basic) s.distance (s.count + 1)
    count := s.count + 1
    written := s.written ++ digits s.bias (s.distance + 1) 36 s.distance
  }
  else s

/-- The state after some characters have been added wherever they stand in the word, `next` being
the number after that of the character before them. -/
def State.add (basic : Nat) (word : Text) : (next : Nat) → Text → State → State
  | _, [], s => s
  | next, c :: rest, s =>
    let s := { s with distance := s.distance + (c.toNat - next) * (s.count + 1) }
    let s := word.foldl (State.pass basic c) s
    State.add basic word (c.toNat + 1) rest { s with distance := s.distance + 1 }

/-- A word in ASCII. -/
def encode (word : Text) : Text :=
  let basic := word.filter (·.toNat < 128)
  let others := sortBy (fun a b => a.toNat ≤ b.toNat) (word.filter (128 ≤ ·.toNat)).eraseDups
  let lead := if basic.isEmpty then [] else basic ++ ['-']
  lead ++ (State.add basic.length word 128 others ⟨0, 72, basic.length, []⟩).written

end ContractAudit.Url.Punycode
