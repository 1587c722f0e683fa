import Mathlib.Data.List.Basic
import ContractAudit.LineRange

/-!
# Coalesced ranges

Ranges in the order of their first lines are joined from left to right, and the range still open
begins where the first of them began.  So a line is held by the joined ranges if and only if one
of the ranges held it before, and between two joined ranges a line is left out.

    n is in a range of `coalesce spans` ↔ 1 ≤ n and n is between the bounds of a span
                                                            (mem_coalesce)
    a line is left out between two ranges of `coalesce spans`  (apart_coalesce)
-/

namespace ContractAudit.LineRange

/-- A range ends before another one begins, and a line between them is in neither. -/
def Apart (r s : LineRange) : Prop := r.last + 1 < s.first

instance (r s : LineRange) : Decidable (r.Apart s) :=
  inferInstanceAs (Decidable (r.last + 1 < s.first))

/-- The line is between the bounds of a span, which stand in either order. -/
def Between (span : Int × Int) (n : Int) : Prop :=
  min span.1 span.2 ≤ n ∧ n ≤ max span.1 span.2

/-! ## Spans -/

theorem mem_ofSpan? (span : Int × Int) (n : Int) :
    (∃ r, ofSpan? span = some r ∧ n ∈ r) ↔ 1 ≤ n ∧ Between span n := by
  unfold ofSpan? Between
  split
  · next h =>
    simp only [Option.some.injEq, exists_eq_left', mem_iff]
    omega
  · next h =>
    simp only [reduceCtorEq, false_and, exists_false, false_iff]
    omega

/-! ## Joining -/

/-- The first lines do not decrease. -/
def Ascending (rs : List LineRange) : Prop := rs.Pairwise fun r s => r.first ≤ s.first

theorem ascending_sortBy (rs : List LineRange) : Ascending (sortBy le rs) := by
  have h := @pairwise_sortBy LineRange le (fun _ _ _ => le_trans) le_total rs
  refine h.imp fun {r s} hrs => ?_
  rw [le_iff] at hrs
  omega

/-- The open range takes the place of the two that it joins. -/
theorem Ascending.joinTo {r s : LineRange} {rest : List LineRange}
    (h : Ascending (r :: s :: rest)) : Ascending (r.joinTo s :: rest) := by
  obtain ⟨hr, h⟩ := List.pairwise_cons.1 h
  exact List.pairwise_cons.2
    ⟨fun t ht => hr t (List.mem_cons_of_mem s ht), (List.pairwise_cons.1 h).2⟩

/-- Two ranges that overlap or touch have no line between them. -/
theorem mem_joinTo {r s : LineRange} (hrs : r.first ≤ s.first) (h : s.first ≤ r.last + 1)
    (n : Int) : n ∈ r.joinTo s ↔ n ∈ r ∨ n ∈ s := by
  have hr := r.first_le_last
  have hs := s.first_le_last
  simp only [mem_iff, LineRange.joinTo]
  omega

theorem mem_mergeFrom {r : LineRange} {rest : List LineRange} (h : Ascending (r :: rest))
    (n : Int) : (∃ s ∈ mergeFrom r rest, n ∈ s) ↔ n ∈ r ∨ ∃ s ∈ rest, n ∈ s := by
  induction rest generalizing r with
  | nil => simp [mergeFrom]
  | cons s rest ih =>
    have hrs : r.first ≤ s.first := (List.pairwise_cons.1 h).1 s List.mem_cons_self
    unfold mergeFrom
    split
    · next hle => rw [ih h.joinTo, mem_joinTo hrs hle, List.exists_mem_cons_iff, or_assoc]
    · rw [List.exists_mem_cons_iff, ih (List.pairwise_cons.1 h).2, List.exists_mem_cons_iff]

/-- The ranges joined from `r` on begin where `r` begins or later. -/
theorem first_le_of_mem_mergeFrom {r s : LineRange} {rest : List LineRange}
    (h : Ascending (r :: rest)) (hs : s ∈ mergeFrom r rest) : r.first ≤ s.first := by
  induction rest generalizing r with
  | nil =>
    obtain rfl := List.mem_singleton.1 hs
    exact Int.le_refl _
  | cons t rest ih =>
    obtain ⟨hr, ht⟩ := List.pairwise_cons.1 h
    unfold mergeFrom at hs
    split at hs
    · exact ih (r := r.joinTo t) h.joinTo hs
    · rcases List.mem_cons.1 hs with rfl | hs
      · exact Int.le_refl _
      · exact Int.le_trans (hr t List.mem_cons_self) (ih ht hs)

theorem apart_mergeFrom {r : LineRange} {rest : List LineRange} (h : Ascending (r :: rest)) :
    (mergeFrom r rest).Pairwise Apart := by
  induction rest generalizing r with
  | nil => exact List.pairwise_singleton _ _
  | cons s rest ih =>
    have hrest : Ascending (s :: rest) := (List.pairwise_cons.1 h).2
    unfold mergeFrom
    split
    · exact ih h.joinTo
    · next hgap =>
      refine List.pairwise_cons.2 ⟨fun t ht => ?_, ih hrest⟩
      have hst := first_le_of_mem_mergeFrom hrest ht
      unfold Apart
      omega

/-! ## Coalescing -/

theorem mem_merge {rs : List LineRange} (h : Ascending rs) (n : Int) :
    (∃ s ∈ merge rs, n ∈ s) ↔ ∃ s ∈ rs, n ∈ s := by
  cases rs with
  | nil => exact Iff.rfl
  | cons r rest =>
    unfold merge
    rw [mem_mergeFrom h, List.exists_mem_cons_iff]

/-- **The lines that are left.** -/
theorem mem_coalesce (spans : List (Int × Int)) (n : Int) :
    (∃ r ∈ coalesce spans, n ∈ r) ↔ 1 ≤ n ∧ ∃ span ∈ spans, Between span n := by
  unfold coalesce
  rw [mem_merge (ascending_sortBy _)]
  simp only [mem_sortBy, List.mem_filterMap]
  constructor
  · rintro ⟨r, ⟨span, hspan, hr⟩, hn⟩
    obtain ⟨hone, hbetween⟩ := (mem_ofSpan? span n).1 ⟨r, hr, hn⟩
    exact ⟨hone, span, hspan, hbetween⟩
  · rintro ⟨hone, span, hspan, hbetween⟩
    obtain ⟨r, hr, hn⟩ := (mem_ofSpan? span n).2 ⟨hone, hbetween⟩
    exact ⟨r, ⟨span, hspan, hr⟩, hn⟩

/-- **The ranges that are left neither overlap nor touch**, and stand in increasing order. -/
theorem apart_coalesce (spans : List (Int × Int)) : (coalesce spans).Pairwise Apart := by
  unfold coalesce
  have h := ascending_sortBy (spans.filterMap ofSpan?)
  cases hs : sortBy le (spans.filterMap ofSpan?) with
  | nil => exact List.Pairwise.nil
  | cons r rest =>
    rw [hs] at h
    exact apart_mergeFrom h

end ContractAudit.LineRange
