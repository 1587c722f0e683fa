import Mathlib.Data.List.Perm.Basic
import ContractAudit.Sort

/-!
# Stable sorting

A stable sort leaves no choice: elements stand in order, and those that the order does not tell
apart stand as they stood before.  So `sortBy` is known by what it returns, and what is done to a
list before it is sorted can as well be done behind.

    ys is stably sorted from xs ↔ ys = sortBy le xs         (isStablySorted_iff)
    sortBy le (xs.filter p) = (sortBy le xs).filter p       (sortBy_filter)
    sortBy le (sortBy le xs) = sortBy le xs                 (sortBy_sortBy)

Where the order tells all elements apart, it does not matter how they stood (`sortBy_eq_of_perm`).
-/

namespace ContractAudit

variable {α : Type} {le : α → α → Bool}

/-- The order does not tell the two apart. -/
def tied (le : α → α → Bool) (a b : α) : Bool := le a b && le b a

theorem tied_iff {a b : α} : tied le a b = true ↔ le a b = true ∧ le b a = true := by
  unfold tied
  exact Bool.and_eq_true_iff

/-- `ys` holds the elements of `xs` in order, and those that the order does not tell apart as they
stand in `xs`. -/
structure IsStablySorted (le : α → α → Bool) (xs ys : List α) : Prop where
  perm : ys.Perm xs
  ordered : ys.Pairwise fun a b => le a b = true
  stable : ∀ a, ys.filter (tied le a) = xs.filter (tied le a)

/-! ## A stable sort leaves no choice -/

section
variable (total : ∀ a b, le a b = true ∨ le b a = true)
include total

theorem refl_of_total (a : α) : le a a = true := (total a a).elim id id

theorem tied_self (a : α) : tied le a a = true :=
  tied_iff.2 ⟨refl_of_total total a, refl_of_total total a⟩

theorem mem_iff_of_filter_tied {ys zs : List α}
    (h : ∀ a, ys.filter (tied le a) = zs.filter (tied le a)) (a : α) : a ∈ ys ↔ a ∈ zs := by
  have hfilter : ∀ xs : List α, a ∈ xs ↔ a ∈ xs.filter (tied le a) := by
    intro xs
    rw [List.mem_filter, tied_self total a, and_iff_left rfl]
  rw [hfilter ys, hfilter zs, h a]

/-- **Ordered lists that agree on what is tied are one list.** -/
theorem eq_of_filter_tied {ys zs : List α} (hys : ys.Pairwise fun a b => le a b = true)
    (hzs : zs.Pairwise fun a b => le a b = true)
    (h : ∀ a, ys.filter (tied le a) = zs.filter (tied le a)) : ys = zs := by
  induction ys generalizing zs with
  | nil =>
    cases zs with
    | nil => rfl
    | cons z zs =>
      have hz := (mem_iff_of_filter_tied total h z).2 List.mem_cons_self
      exact absurd hz List.not_mem_nil
  | cons y ys ih =>
    have hy := (mem_iff_of_filter_tied total h y).1 List.mem_cons_self
    cases zs with
    | nil => exact absurd hy List.not_mem_nil
    | cons z zs =>
      have hz := (mem_iff_of_filter_tied total h z).2 List.mem_cons_self
      obtain ⟨hbelow, hrest⟩ := List.pairwise_cons.1 hys
      obtain ⟨hbelow', hrest'⟩ := List.pairwise_cons.1 hzs
      -- each of the two heads is in the other list, so neither is below the other
      have hyz : le y z = true := by
        rcases List.mem_cons.1 hz with rfl | hz
        · exact refl_of_total total z
        · exact hbelow z hz
      have hzy : le z y = true := by
        rcases List.mem_cons.1 hy with rfl | hy
        · exact refl_of_total total y
        · exact hbelow' y hy
      have hhead := h y
      rw [List.filter_cons_of_pos (tied_self total y),
        List.filter_cons_of_pos (tied_iff.2 ⟨hyz, hzy⟩)] at hhead
      obtain rfl : y = z := (List.cons.inj hhead).1
      have htail : ∀ a, ys.filter (tied le a) = zs.filter (tied le a) := by
        intro a
        have ha := h a
        by_cases hay : tied le a y = true
        · rw [List.filter_cons_of_pos hay, List.filter_cons_of_pos hay] at ha
          exact (List.cons.inj ha).2
        · rw [List.filter_cons_of_neg hay, List.filter_cons_of_neg hay] at ha
          exact ha
      rw [ih hrest hrest' htail]

end

/-! ## Sorting by insertion is stable -/

section
variable (trans : ∀ a b c, le a b = true → le b c = true → le a c = true)
include trans

/-- An element is put past others that exceed it only, none of which is tied with it. -/
theorem filter_tied_insertBy (a x : α) (xs : List α) :
    (insertBy le x xs).filter (tied le a) = (x :: xs).filter (tied le a) := by
  induction xs with
  | nil => rfl
  | cons y rest ih =>
    unfold insertBy
    by_cases hxy : le x y = true
    · rw [if_pos hxy]
    · rw [if_neg hxy, List.filter_cons, ih]
      by_cases hy : tied le a y = true
      · have hx : ¬ tied le a x = true := by
          intro hx
          exact hxy (trans x a y (tied_iff.1 hx).2 (tied_iff.1 hy).1)
        rw [if_pos hy, List.filter_cons_of_neg hx, List.filter_cons_of_neg hx,
          List.filter_cons_of_pos hy]
      · rw [if_neg hy, List.filter_cons, List.filter_cons, List.filter_cons_of_neg hy]

theorem filter_tied_sortBy (a : α) (xs : List α) :
    (sortBy le xs).filter (tied le a) = xs.filter (tied le a) := by
  induction xs with
  | nil => rfl
  | cons x xs ih =>
    rw [sortBy_cons, filter_tied_insertBy trans, List.filter_cons, ih, ← List.filter_cons]

variable (total : ∀ a b, le a b = true ∨ le b a = true)
include total

theorem isStablySorted_sortBy (xs : List α) : IsStablySorted le xs (sortBy le xs) where
  perm := sortBy_perm le xs
  ordered := pairwise_sortBy trans total xs
  stable a := filter_tied_sortBy trans a xs

/-- **A stable sort leaves no choice.** -/
theorem isStablySorted_iff {xs ys : List α} : IsStablySorted le xs ys ↔ ys = sortBy le xs := by
  constructor
  · intro h
    have hsort := isStablySorted_sortBy trans total xs
    apply eq_of_filter_tied total h.ordered hsort.ordered
    intro a
    rw [h.stable, hsort.stable]
  · rintro rfl
    exact isStablySorted_sortBy trans total xs

/-! ## Before and behind -/

/-- What is left out before sorting can be left out behind. -/
theorem sortBy_filter (p : α → Bool) (xs : List α) :
    sortBy le (xs.filter p) = (sortBy le xs).filter p := by
  have h := isStablySorted_sortBy trans total xs
  symm
  apply (isStablySorted_iff trans total).1
  refine ⟨h.perm.filter p, h.ordered.filter p, fun a => ?_⟩
  rw [List.filter_comm, h.stable, List.filter_comm]

theorem sortBy_sortBy (xs : List α) : sortBy le (sortBy le xs) = sortBy le xs := by
  have h := isStablySorted_sortBy trans total xs
  symm
  apply (isStablySorted_iff trans total).1
  exact ⟨.refl _, h.ordered, fun _ => rfl⟩

theorem sortBy_eq_of_perm (antisymm : ∀ a b, le a b = true → le b a = true → a = b)
    {xs ys : List α} (h : xs.Perm ys) : sortBy le xs = sortBy le ys := by
  have hperm := (sortBy_perm le xs).trans (h.trans (sortBy_perm le ys).symm)
  apply hperm.eq_of_pairwise
  · intro a b _ _ hab hba
    exact antisymm a b hab hba
  · exact pairwise_sortBy trans total xs
  · exact pairwise_sortBy trans total ys

end

end ContractAudit
