import Mathlib.Data.List.Induction
import Mathlib.Data.List.Nodup
import ContractAudit.Table

/-!
# Tables

A table is a list of pairs that is read by key.  `put` keeps the keys apart, and while they are
apart, to stand in a table and to be looked up there is the same.  Keys that come one after the
other are kept apart by `eraseDups`, each at its first place, and so are the keys of rows that
`gather` collects.

    (key, a) ∈ pairs ↔ lookup? key pairs = some a           (mem_iff_lookup?)
    gather rows = for each key of `rows` its items          (gather_eq)
-/

namespace ContractAudit

/-! ## Each key once -/

theorem eraseDups_concat (keys : List Text) (key : Text) :
    (keys ++ [key]).eraseDups =
      if key ∈ keys then keys.eraseDups else keys.eraseDups ++ [key] := by
  rw [List.eraseDups_append]
  unfold List.removeAll
  split
  · next h => simp [h]
  · next h => simp [h, List.eraseDups_cons]

theorem nodup_eraseDups (keys : List Text) : keys.eraseDups.Nodup := by
  induction keys using List.reverseRecOn with
  | nil => exact List.nodup_nil
  | append_singleton keys key ih =>
    rw [eraseDups_concat]
    split
    · exact ih
    · next h =>
      rw [← List.concat_eq_append]
      exact ih.concat fun hmem => h (List.mem_eraseDups.1 hmem)

/-! ## Look-up and order -/

theorem lookup?_isSome_iff {α : Type} (key : Text) (pairs : List (Text × α)) :
    (lookup? key pairs).isSome = true ↔ key ∈ pairs.map (·.1) := by
  induction pairs with
  | nil => simp [lookup?]
  | cons p rest ih =>
    unfold lookup?
    split
    · next h => simp [h]
    · next h => simp [ih, Ne.symm h]

theorem lookup?_eq_none_iff {α : Type} (key : Text) (pairs : List (Text × α)) :
    lookup? key pairs = none ↔ key ∉ pairs.map (·.1) := by
  rw [← lookup?_isSome_iff, Option.not_isSome_iff_eq_none]

theorem pair_mem_of_lookup? {α : Type} {key : Text} {pairs : List (Text × α)} {a : α}
    (h : lookup? key pairs = some a) : (key, a) ∈ pairs := by
  induction pairs with
  | nil => cases h
  | cons p rest ih =>
    obtain ⟨k, b⟩ := p
    unfold lookup? at h
    split at h
    · next hk =>
      cases h
      exact hk ▸ List.mem_cons_self
    · exact List.mem_cons_of_mem _ (ih h)

theorem lookup?_append {α : Type} (key : Text) (pairs more : List (Text × α)) :
    lookup? key (pairs ++ more) = (lookup? key pairs).or (lookup? key more) := by
  induction pairs with
  | nil => simp [lookup?]
  | cons p rest ih =>
    simp only [List.cons_append, lookup?]
    split
    · rfl
    · exact ih

/-- A key that is there keeps its place, and a new one comes last. -/
theorem keys_put {α : Type} (key : Text) (a : α) (pairs : List (Text × α)) :
    (put key a pairs).map (·.1) =
      if key ∈ pairs.map (·.1) then pairs.map (·.1) else pairs.map (·.1) ++ [key] := by
  induction pairs with
  | nil => simp [put]
  | cons p rest ih =>
    unfold put
    split
    · next h => simp [h]
    · next h =>
      simp only [List.map_cons, ih, List.mem_cons, Ne.symm h, false_or]
      split <;> rfl

theorem nodup_keys_put {α : Type} {pairs : List (Text × α)} (h : (pairs.map (·.1)).Nodup)
    (key : Text) (a : α) : ((put key a pairs).map (·.1)).Nodup := by
  rw [keys_put]
  split
  · exact h
  · next hk => exact List.nodup_append_comm.1 (List.nodup_cons.2 ⟨hk, h⟩)

theorem mem_of_mem_put {α : Type} {key : Text} {a : α} {pairs : List (Text × α)}
    {e : Text × α} (h : e ∈ put key a pairs) : e = (key, a) ∨ e ∈ pairs := by
  induction pairs with
  | nil => exact Or.inl (List.mem_singleton.1 h)
  | cons p rest ih =>
    unfold put at h
    split at h
    · rcases List.mem_cons.1 h with rfl | h
      · next hk => exact Or.inl (by rw [hk])
      · exact Or.inr (List.mem_cons_of_mem p h)
    · rcases List.mem_cons.1 h with rfl | h
      · exact Or.inr List.mem_cons_self
      · exact (ih h).imp_right (List.mem_cons_of_mem p)

/-- With keys apart a pair is found under its key. -/
theorem mem_iff_lookup? {α : Type} {pairs : List (Text × α)} (h : (pairs.map (·.1)).Nodup)
    {key : Text} {a : α} : (key, a) ∈ pairs ↔ lookup? key pairs = some a := by
  induction pairs with
  | nil => simp [lookup?]
  | cons p rest ih =>
    obtain ⟨k, b⟩ := p
    obtain ⟨hp, hrest⟩ := List.nodup_cons.1 h
    unfold lookup?
    split
    · next hk =>
      subst hk
      rw [List.mem_cons, Option.some.injEq]
      constructor
      · rintro (he | hm)
        · exact (Prod.mk.inj he).2.symm
        · exact absurd (List.mem_map_of_mem hm) hp
      · rintro rfl
        exact Or.inl rfl
    · next hk =>
      rw [List.mem_cons, ih hrest]
      exact ⟨fun hm => hm.resolve_left fun e => hk (Prod.mk.inj e).1.symm, Or.inr⟩

theorem lookup?_map {α : Type} (g : Text → α) (keys : List Text) (key : Text) :
    lookup? key (keys.map fun k => (k, g k)) = if key ∈ keys then some (g key) else none := by
  induction keys with
  | nil => rfl
  | cons k keys ih =>
    rw [List.map_cons, lookup?]
    by_cases h : k = key
    · subst h
      rw [if_pos rfl, if_pos List.mem_cons_self]
    · rw [if_neg h, ih]
      simp [Ne.symm h]

/-! ## Rows -/

section
variable {α : Type}

/-- The items of a key, one row after the other. -/
def itemsOf (rows : List (Text × List α)) (key : Text) : List α :=
  (rows.filter (·.1 = key)).flatMap (·.2)

theorem itemsOf_concat (rows : List (Text × List α)) (row : Text × List α) (key : Text) :
    itemsOf (rows ++ [row]) key =
      if key = row.1 then itemsOf rows key ++ row.2 else itemsOf rows key := by
  unfold itemsOf
  rw [List.filter_append, List.flatMap_append]
  split
  · next h => simp [h]
  · next h => simp [Ne.symm h]

theorem mem_itemsOf {rows : List (Text × List α)} {key : Text} {a : α} :
    a ∈ itemsOf rows key ↔ ∃ row ∈ rows, row.1 = key ∧ a ∈ row.2 := by
  unfold itemsOf
  simp only [List.mem_flatMap, List.mem_filter, decide_eq_true_eq, and_assoc]

/-- A key that is not there yet is added behind the others. -/
theorem addRow_map {keys : List Text} {key : Text} {g : Text → List α} (hnodup : keys.Nodup)
    (hg : key ∉ keys → g key = []) (items : List α) :
    addRow key items (keys.map fun k => (k, g k)) =
      (if key ∈ keys then keys else keys ++ [key]).map fun k =>
        (k, if k = key then g k ++ items else g k) := by
  induction keys with
  | nil => simp [addRow, hg]
  | cons k keys ih =>
    obtain ⟨hk, hnodup⟩ := List.nodup_cons.1 hnodup
    rw [List.map_cons, addRow]
    by_cases h : k = key
    · obtain rfl := h
      rw [if_pos rfl, if_pos List.mem_cons_self, List.map_cons, if_pos rfl]
      congr 1
      refine List.map_congr_left fun k' hk' => ?_
      rw [if_neg]
      rintro rfl
      exact hk hk'
    · have hmem : key ∈ k :: keys ↔ key ∈ keys := by
        simp [Ne.symm h]
      rw [if_neg h, ih hnodup fun hkey => hg fun hin => hkey (hmem.1 hin)]
      simp only [hmem]
      split
      · rw [List.map_cons, if_neg h]
      · rw [List.cons_append, List.map_cons, if_neg h]

/-- **Rows gathered by key.** -/
theorem gather_eq (rows : List (Text × List α)) :
    gather rows = (rows.map (·.1)).eraseDups.map fun key => (key, itemsOf rows key) := by
  induction rows using List.reverseRecOn with
  | nil => rfl
  | append_singleton rows row ih =>
    have hnone : row.1 ∉ (rows.map (·.1)).eraseDups → itemsOf rows row.1 = [] := by
      intro h
      refine List.eq_nil_iff_forall_not_mem.2 fun a ha => h ?_
      obtain ⟨r, hr, hkey, -⟩ := mem_itemsOf.1 ha
      exact List.mem_eraseDups.2 (List.mem_map.2 ⟨r, hr, hkey⟩)
    unfold gather at ih ⊢
    rw [List.foldl_concat, ih, addRow_map (nodup_eraseDups _) hnone, List.map_append]
    simp only [List.mem_eraseDups, List.map_cons, List.map_nil, eraseDups_concat, itemsOf_concat]

end

end ContractAudit
