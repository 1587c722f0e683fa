import ContractAudit.Decimal.NumberText
import ContractAudit.Json

/-! Checking JSON values against a form, and saying where they depart from it.

A check ends with a value or with every departure that it found, in the order of the fields
and of the items.  Checks of several fields are put together with `<*>`, which looks at all of
them even when the first has failed. -/

namespace ContractAudit.Record

/-- The shapes among which a field may choose. -/
inductive Shape
  | int | text | list | object
  deriving DecidableEq, Repr

/-- One step from a record to a part of it. -/
inductive Step
  | field (name : Text)
  | index (i : Nat)
  | shape (s : Shape)
  deriving DecidableEq

/-- What is wrong with a part of a record. -/
inductive Cause
  | notRecord
  | notList
  | notObject
  | missing
  | notInt
  | notIntText
  | intTooLong
  | notWhole
  | notFinite
  | notText
  | notBool
  | notBoolText
  | notFloat
  | notFloatText
  | notChoice
  deriving DecidableEq, Repr

/-- A part of a record that departs from its form. -/
structure Issue where
  path : List Step
  cause : Cause
  deriving DecidableEq

/-- A value in its form, or all the issues of one that is not. -/
inductive Checked (α : Type)
  | ok (a : α)
  | bad (issues : List Issue)

namespace Checked

variable {α β : Type}

/-- Two checks, both of which are looked at. -/
def seq (f : Checked (α → β)) (x : Unit → Checked α) : Checked β :=
  match f, x () with
  | ok f, ok a => ok (f a)
  | ok _, bad issues => bad issues
  | bad issues, ok _ => bad issues
  | bad issues, bad more => bad (issues ++ more)

instance : Applicative Checked where
  pure := ok
  seq := seq

/-- A single issue at the value itself. -/
def fail (cause : Cause) : Checked α := bad [⟨[], cause⟩]

/-- The issues moved below a step. -/
def under (step : Step) : Checked α → Checked α
  | ok a => ok a
  | bad issues => bad (issues.map fun i => ⟨step :: i.path, i.cause⟩)

def toOption : Checked α → Option α
  | ok a => some a
  | bad _ => none

/-- Checks the items of a list, `i` being the place of the first. -/
def eachFrom (check : Json → Checked α) (i : Nat) : List Json → Checked (List α)
  | [] => ok []
  | v :: rest =>
    List.cons <$> (check v).under (.index i) <*> eachFrom check (i + 1) rest

/-- Checks the items of an array. -/
def list (check : Json → Checked α) : Json → Checked (List α)
  | .arr items => eachFrom check 0 items
  | _ => fail .notList

/-- Checks a value that may be null. -/
def orNull (check : Json → Checked α) : Json → Checked (Option α)
  | .null => ok none
  | v => some <$> check v

/-- Checks the members of an object. -/
def record (check : List (Text × Json) → Checked α) : Json → Checked α
  | .obj members => check members
  | _ => fail .notRecord

/-- Checks the value under a key that may be absent or null. -/
def optional (key : Text) (check : Json → Checked α) (members : List (Text × Json)) :
    Checked (Option α) :=
  match Json.find? key members with
  | none => ok none
  | some v => (orNull check v).under (.field key)

/-- Checks the value under a key, or under another one if the first is absent. -/
def optionalAlias (key other : Text) (check : Json → Checked α)
    (members : List (Text × Json)) : Checked (Option α) :=
  match (Json.find? key members).orElse fun _ => Json.find? other members with
  | none => ok none
  | some v => (orNull check v).under (.field key)

/-- Checks the value under a key that has to be there. -/
def required (key : Text) (check : Json → Checked α) (members : List (Text × Json)) :
    Checked α :=
  match Json.find? key members with
  | none => bad [⟨[.field key], .missing⟩]
  | some v => (check v).under (.field key)

/-- Checks the value under a key, `fallback` standing for an absent one. -/
def orElse (key : Text) (check : Json → Checked α) (fallback : α)
    (members : List (Text × Json)) : Checked α :=
  match Json.find? key members with
  | none => ok fallback
  | some v => (check v).under (.field key)

end Checked

/-! ## Whole numbers and texts

A whole number may also be written as a truth value, as a floating-point number without a
fraction of less than 64 bits, or as a text.  A text may also be written as a number. -/

/-- The number that a text holds. -/
def intOfText (t : Text) : Checked Int :=
  match Decimal.readInt t with
  | .ok n => .ok n
  | .error (.tooLong _) => .fail .intTooLong
  | .error (.notDecimal _) => .fail .notIntText

/-- The number that a floating-point number is equal to. -/
def intOfFloat (x : Binary64) : Checked Int :=
  match x with
  | .finite .. =>
    match x.toInt? with
    | none => .fail .notWhole
    | some n =>
      if -9223372036854775808 < n && n ≤ 9223372036854775807 then .ok n else .fail .intTooLong
  | _ => .fail .notFinite

/-- A whole number. -/
def int : Json → Checked Int
  | .int n => .ok n
  | .bool b => .ok (if b then 1 else 0)
  | .float x => intOfFloat x
  | .str t => intOfText t
  | _ => .fail .notInt

/-- A text, or the digits of a number. -/
def text : Json → Checked Text
  | .str t => .ok t
  | .int n => .ok (Decimal.ofInt n)
  | .float x => .ok x.toText
  | _ => .fail .notText

theorem int_int (n : Int) : int (.int n) = .ok n := rfl

theorem text_str (t : Text) : text (.str t) = .ok t := rfl

end ContractAudit.Record
