/-! Stable sorting by insertion.

`sortBy le xs` holds the elements of `xs` in the order `le`, and elements that `le` does
not tell apart keep their order in `xs`.  The order is a Boolean test, so that one
function serves spans, files, findings and names. -/

namespace ContractAudit

variable {α : Type}

/-- Puts `a` before the first element that it does not exceed. -/
def insertBy (le : α → α → Bool) (a : α) : List α → List α
  | [] => [a]
  | b :: rest => if le a b then a :: b :: rest else b :: insertBy le a rest

/-- The elements of `xs` in the order `le`. -/
def sortBy (le : α → α → Bool) (xs : List α) : List α :=
  xs.foldr (insertBy le) []

@[simp] theorem sortBy_cons (le : α → α → Bool) (a : α) (xs : List α) :
    sortBy le (a :: xs) = insertBy le a (sortBy le xs) := rfl

theorem insertBy_perm (le : α → α → Bool) (a : α) (xs : List α) :
    (insertBy le a xs).Perm (a :: xs) := by
  induction xs with
  | nil => exact .refl _
  | cons b rest ih =>
    unfold insertBy
    split
    · exact .refl _
    · exact (ih.cons b).trans (.swap a b rest)

theorem sortBy_perm (le : α → α → Bool) (xs : List α) : (sortBy le xs).Perm xs := by
  induction xs with
  | nil => exact .refl _
  | cons a xs ih => exact (insertBy_perm le a _).trans (ih.cons a)

@[simp] theorem mem_insertBy {le : α → α → Bool} {a x : α} {xs : List α} :
    x ∈ insertBy le a xs ↔ x = a ∨ x ∈ xs := by
  rw [(insertBy_perm le a xs).mem_iff, List.mem_cons]

@[simp] theorem mem_sortBy {le : α → α → Bool} {x : α} {xs : List α} :
    x ∈ sortBy le xs ↔ x ∈ xs :=
  (sortBy_perm le xs).mem_iff

theorem pairwise_insertBy {le : α → α → Bool}
    (trans : ∀ a b c, le a b = true → le b c = true → le a c = true)
    (total : ∀ a b, le a b = true ∨ le b a = true) (a : α) {xs : List α}
    (h : xs.Pairwise (le · ·)) : (insertBy le a xs).Pairwise (le · ·) := by
  induction xs with
  | nil => exact List.pairwise_singleton _ _
  | cons b rest ih =>
    have hb := List.pairwise_cons.mp h
    unfold insertBy
    split
    · rename_i hab
      refine List.pairwise_cons.mpr ⟨?_, h⟩
      intro c hc
      rcases List.mem_cons.mp hc with rfl | hc
      · exact hab
      · exact trans _ _ _ hab (hb.1 c hc)
    · rename_i hab
      refine List.pairwise_cons.mpr ⟨?_, ih hb.2⟩
      intro c hc
      rcases mem_insertBy.mp hc with rfl | hc
      · exact (total c b).resolve_left hab
      · exact hb.1 c hc

/-- The result is in order, whenever the test is a total preorder. -/
theorem pairwise_sortBy {le : α → α → Bool}
    (trans : ∀ a b c, le a b = true → le b c = true → le a c = true)
    (total : ∀ a b, le a b = true ∨ le b a = true) (xs : List α) :
    (sortBy le xs).Pairwise (le · ·) := by
  induction xs with
  | nil => exact List.Pairwise.nil
  | cons a xs ih => exact pairwise_insertBy trans total a ih

/-- Sorting images by an order that tells them apart as another one does what they are images
of. -/
theorem sortBy_map {β : Type} {le : α → α → Bool} {le' : β → β → Bool} {f : α → β}
    (h : ∀ a b, le' (f a) (f b) = le a b) (xs : List α) :
    sortBy le' (xs.map f) = (sortBy le xs).map f := by
  have hinsert : ∀ (a : α) (ys : List α),
      insertBy le' (f a) (ys.map f) = (insertBy le a ys).map f := by
    intro a ys
    induction ys with
    | nil => rfl
    | cons b rest ih =>
      simp only [List.map_cons, insertBy, h]
      split
      · rfl
      · rw [ih, List.map_cons]
  induction xs with
  | nil => rfl
  | cons a xs ih => rw [List.map_cons, sortBy_cons, sortBy_cons, ih, hinsert]

end ContractAudit
