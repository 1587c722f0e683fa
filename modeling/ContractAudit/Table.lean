import ContractAudit.Text

/-! Tables: lists of pairs that are read by key.

`put` sets the value under a key, and `gather` collects rows by their keys: a key that is there
keeps its place, and a new one comes last. -/

namespace ContractAudit

/-- The value of the first pair with this key. -/
def lookup? {α : Type} (key : Text) : List (Text × α) → Option α
  | [] => none
  | (k, a) :: rest => if k = key then some a else lookup? key rest

theorem mem_of_lookup? {α : Type} {key : Text} {pairs : List (Text × α)} {a : α}
    (h : lookup? key pairs = some a) : key ∈ pairs.map (·.1) := by
  induction pairs with
  | nil => cases h
  | cons p rest ih =>
    unfold lookup? at h
    split at h
    · simp_all
    · simp [ih h]

/-- The pairs with the value under `key` set to `a`; a new key comes last. -/
def put {α : Type} (key : Text) (a : α) : List (Text × α) → List (Text × α)
  | [] => [(key, a)]
  | (k, b) :: rest => if k = key then (k, a) :: rest else (k, b) :: put key a rest

theorem lookup?_put {α : Type} (key other : Text) (a : α) (pairs : List (Text × α)) :
    lookup? other (put key a pairs) = if key = other then some a else lookup? other pairs := by
  induction pairs with
  | nil => simp [put, lookup?]
  | cons p rest ih =>
    unfold put
    split
    · rename_i h
      subst h
      simp only [lookup?]
      split <;> simp_all
    · rename_i h
      simp only [lookup?, ih]
      split
      · rename_i e
        subst e
        rw [if_neg (Ne.symm h)]
      · rfl

/-- The table with some items added behind those under `key`. -/
def addRow {α : Type} (key : Text) (items : List α) :
    List (Text × List α) → List (Text × List α)
  | [] => [(key, items)]
  | (k, old) :: rest =>
    if k = key then (k, old ++ items) :: rest else (k, old) :: addRow key items rest

/-- The items of each key, in the order in which the keys are first there. -/
def gather {α : Type} (rows : List (Text × List α)) : List (Text × List α) :=
  rows.foldl (fun table row => addRow row.1 row.2 table) []

end ContractAudit
