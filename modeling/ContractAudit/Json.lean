import ContractAudit.Decimal.Binary64

/-! JSON values.

Whole numbers and floating-point numbers are told apart, as the texts that hold them tell
them apart.  The members of an object stand in the order in which their keys first appear,
and `Json.insert` keeps the keys distinct: a later member with the same key takes the place
of the earlier one. -/

namespace ContractAudit

inductive Json
  | null
  | bool (b : Bool)
  | int (n : Int)
  | float (x : Binary64)
  | str (t : Text)
  | arr (items : List Json)
  | obj (members : List (Text × Json))

namespace Json

def find? (key : Text) (members : List (Text × Json)) : Option Json :=
  (members.find? (·.1 == key)).map (·.2)

/-- The members with the value under `key` set to `v`. -/
def insert (key : Text) (v : Json) : List (Text × Json) → List (Text × Json)
  | [] => [(key, v)]
  | (k, old) :: rest => if k = key then (k, v) :: rest else (k, old) :: insert key v rest

/-- The members written one after the other. -/
def ofPairs (pairs : List (Text × Json)) : List (Text × Json) :=
  pairs.foldl (fun members p => insert p.1 p.2 members) []

theorem insert_of_not_mem {key : Text} (v : Json) {members : List (Text × Json)}
    (h : key ∉ members.map (·.1)) : insert key v members = members ++ [(key, v)] := by
  induction members with
  | nil => rfl
  | cons m rest ih =>
    simp only [List.map_cons, List.mem_cons, not_or] at h
    simp [insert, Ne.symm h.1, ih h.2]

theorem foldl_insert_of_nodup (pairs members : List (Text × Json))
    (h : ((members ++ pairs).map (·.1)).Nodup) :
    pairs.foldl (fun members p => insert p.1 p.2 members) members = members ++ pairs := by
  induction pairs generalizing members with
  | nil => simp
  | cons p pairs ih =>
    have new : p.1 ∉ members.map (·.1) := by
      simp only [List.map_append, List.map_cons, List.nodup_append, List.mem_cons] at h
      exact fun hp => h.2.2 _ hp _ (Or.inl rfl) rfl
    rw [List.foldl_cons, insert_of_not_mem p.2 new, ih _ (by simpa using h)]
    simp

/-- Distinct keys keep all their values. -/
theorem ofPairs_of_nodup {pairs : List (Text × Json)} (h : (pairs.map (·.1)).Nodup) :
    ofPairs pairs = pairs :=
  foldl_insert_of_nodup pairs [] h

/-- A value that counts as present: not null, not false, not zero and not empty. -/
def isPresent : Json → Bool
  | null => false
  | bool b => b
  | int n => n ≠ 0
  | float x => ! x.isZero
  | str t => ! t.isEmpty
  | arr items => ! items.isEmpty
  | obj members => ! members.isEmpty

def ofText? : Option Text → Json
  | none => null
  | some t => str t

def ofInt? : Option Int → Json
  | none => null
  | some n => int n

end Json

end ContractAudit
