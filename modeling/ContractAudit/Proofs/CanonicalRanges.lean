import Mathlib.Data.List.Chain
import Mathlib.Data.List.Nodup
import ContractAudit.Proofs.Coalesce

/-!
# The canonical form of some spans

Ranges that stand apart in increasing order are told by the lines they hold: the first range
begins at the least line, and ends where the first line is left out behind it (`eq_of_holds`).
Neither can fewer ranges hold the same lines, for no range holds lines of two ranges that stand
apart without the line left out between them (`length_le_of_holds`).

`coalesce` joins ranges, so that none of them could be invalid.  `coalesceBounds` joins bounds that
nothing is known of, and checks them when it makes ranges of them; it finds nothing wrong.

    coalesceBounds spans = .ok (coalesce spans)             (coalesceBounds_eq_ok)
    rs is canonical for spans → rs = coalesce spans         (IsCanonical.eq)
-/

namespace ContractAudit.LineRange

/-! ## Coalescing bounds -/

/-- The bounds of a span, the lesser one first and cut off at line 1, if any line is left. -/
def clip? (span : Int × Int) : Option (Int × Int) :=
  let (lo, hi) := if span.2 < span.1 then (span.2, span.1) else span
  if hi < 1 then none else some (max lo 1, hi)

/-- Bounds in increasing order, after the open bounds `lo` and `hi`.  Bounds that nothing more is
joined to are made a range, which fails if they make none. -/
def closeFrom (lo hi : Int) : List (Int × Int) → Except Fault (List LineRange)
  | [] => do return [← ofBounds lo hi]
  | (first, last) :: rest =>
    if first ≤ hi + 1 then closeFrom lo (max hi last) rest
    else do
      let r ← ofBounds lo hi
      let rs ← closeFrom first last rest
      return r :: rs

/-- The order of bounds: by the first one, then by the last one. -/
def boundsLe (a b : Int × Int) : Bool := a.1 < b.1 || (a.1 == b.1 && a.2 ≤ b.2)

/-- The ranges that hold the lines of some spans, made of bounds. -/
def coalesceBounds (spans : List (Int × Int)) : Except Fault (List LineRange) :=
  match sortBy boundsLe (spans.filterMap clip?) with
  | [] => .ok []
  | (lo, hi) :: rest => closeFrom lo hi rest

def bounds (r : LineRange) : Int × Int := (r.first, r.last)

theorem ofBounds_bounds (r : LineRange) : ofBounds r.first r.last = .ok r := by
  unfold ofBounds
  rw [dif_pos ⟨r.one_le_first, r.first_le_last⟩]

theorem clip?_eq (span : Int × Int) : clip? span = (ofSpan? span).map bounds := by
  unfold clip? ofSpan?
  by_cases hle : span.2 < span.1
  · by_cases hone : span.1 < 1
    · simp [hle, hone]
      omega
    · simp [hle, hone, bounds]
      omega
  · by_cases hone : span.2 < 1
    · simp [hle, hone]
      omega
    · simp [hle, hone, bounds]
      omega

/-- The bounds of ranges are joined as the ranges are, and every range made of them is valid. -/
theorem closeFrom_bounds (r : LineRange) (rest : List LineRange) :
    closeFrom r.first r.last (rest.map bounds) = .ok (mergeFrom r rest) := by
  induction rest generalizing r with
  | nil =>
    simp only [List.map_nil, closeFrom, ofBounds_bounds, mergeFrom]
    rfl
  | cons s rest ih =>
    simp only [List.map_cons, bounds, closeFrom, mergeFrom]
    split
    · exact ih (r.joinTo s)
    · rw [ofBounds_bounds, show closeFrom s.first s.last _ = _ from ih s]
      rfl

theorem coalesceBounds_eq_ok (spans : List (Int × Int)) :
    coalesceBounds spans = .ok (coalesce spans) := by
  have hclip : spans.filterMap clip? = (spans.filterMap ofSpan?).map bounds := by
    rw [List.map_filterMap]
    exact List.filterMap_congr fun span _ => clip?_eq span
  have hsort : sortBy boundsLe ((spans.filterMap ofSpan?).map bounds) =
      (sortBy le (spans.filterMap ofSpan?)).map bounds :=
    sortBy_map (fun r s => show boundsLe (bounds r) (bounds s) = le r s from rfl) _
  unfold coalesceBounds coalesce
  rw [hclip, hsort]
  cases sortBy le (spans.filterMap ofSpan?) with
  | nil => rfl
  | cons r rest => exact closeFrom_bounds r rest

/-! ## Ranges that stand apart -/

/-- One of the ranges holds the line. -/
def Holds (rs : List LineRange) (n : Int) : Prop := ∃ r ∈ rs, n ∈ r

theorem holds_cons {r : LineRange} {rs : List LineRange} {n : Int} :
    Holds (r :: rs) n ↔ n ∈ r ∨ Holds rs n := List.exists_mem_cons_iff ..

theorem first_mem (r : LineRange) : r.first ∈ r := ⟨Int.le_refl _, r.first_le_last⟩

theorem Apart.trans {r s t : LineRange} (hrs : r.Apart s) (hst : s.Apart t) : r.Apart t := by
  have hs := s.first_le_last
  unfold Apart at *
  omega

/-- Neighbours that stand apart stand apart from all others too. -/
theorem pairwise_of_isChain {rs : List LineRange} (h : rs.IsChain Apart) : rs.Pairwise Apart := by
  have : Trans Apart Apart Apart := ⟨Apart.trans⟩
  exact List.isChain_iff_pairwise.1 h

/-- Behind the last line of a range a line is left out. -/
theorem not_holds_last_add_one {rs : List LineRange} (h : rs.Pairwise Apart) {r : LineRange}
    (hr : r ∈ rs) : ¬ Holds rs (r.last + 1) := by
  rintro ⟨s, hs, hlo, hhi⟩
  have hrle := r.first_le_last
  induction rs with
  | nil => cases hr
  | cons t rest ih =>
    obtain ⟨ht, hrest⟩ := List.pairwise_cons.1 h
    rcases List.mem_cons.1 hr with rfl | hmem <;> rcases List.mem_cons.1 hs with rfl | hmem'
    · omega
    · have hapart := ht s hmem'
      unfold Apart at hapart
      omega
    · have hapart := ht r hmem
      unfold Apart at hapart
      omega
    · exact ih hrest hmem hmem'

section
variable {r s : LineRange} {rs ss : List LineRange} (hr : (r :: rs).Pairwise Apart)
include hr

theorem last_add_one_lt_of_holds {n : Int} (h : Holds rs n) : r.last + 1 < n := by
  obtain ⟨t, ht, hn, -⟩ := h
  have hapart := (List.pairwise_cons.1 hr).1 t ht
  unfold Apart at hapart
  omega

/-- The first range begins at the least line. -/
theorem first_le_of_holds {n : Int} (h : Holds (r :: rs) n) : r.first ≤ n := by
  rcases holds_cons.1 h with h | h
  · exact h.1
  · have hlt := last_add_one_lt_of_holds hr h
    have hle := r.first_le_last
    omega

/-- The first range ends no later than another one that begins with it and holds no other
lines. -/
theorem last_le_of_holds (hfirst : r.first = s.first)
    (hsub : ∀ n, Holds (s :: ss) n → Holds (r :: rs) n) : s.last ≤ r.last := by
  have hle := r.first_le_last
  by_contra hlt
  have hmem : Holds (s :: ss) (r.last + 1) := ⟨s, List.mem_cons_self, by omega, by omega⟩
  exact not_holds_last_add_one hr List.mem_cons_self (hsub _ hmem)

end

/-- **The lines tell the ranges.**  Two lists of ranges that stand apart and hold the same lines
are the same. -/
theorem eq_of_holds {rs ss : List LineRange} (hr : rs.Pairwise Apart) (hs : ss.Pairwise Apart)
    (h : ∀ n, Holds rs n ↔ Holds ss n) : rs = ss := by
  induction rs generalizing ss with
  | nil =>
    cases ss with
    | nil => rfl
    | cons s ss =>
      obtain ⟨t, ht, -⟩ := (h s.first).2 ⟨s, List.mem_cons_self, first_mem s⟩
      cases ht
  | cons r rs ih =>
    cases ss with
    | nil =>
      obtain ⟨t, ht, -⟩ := (h r.first).1 ⟨r, List.mem_cons_self, first_mem r⟩
      cases ht
    | cons s ss =>
      have hfirst : r.first = s.first := by
        have hrs := first_le_of_holds hr ((h s.first).2 ⟨s, List.mem_cons_self, first_mem s⟩)
        have hsr := first_le_of_holds hs ((h r.first).1 ⟨r, List.mem_cons_self, first_mem r⟩)
        omega
      have hlast : r.last = s.last := by
        have hrs := last_le_of_holds hr hfirst fun n => (h n).2
        have hsr := last_le_of_holds hs hfirst.symm fun n => (h n).1
        omega
      obtain rfl : r = s := by
        cases r
        cases s
        simp_all
      -- what is held behind `r` is not held by `r`, so that the tails hold the same lines
      have htail : ∀ n, Holds rs n ↔ Holds ss n := by
        intro n
        have hn := h n
        rw [holds_cons, holds_cons] at hn
        constructor
        · intro hrest
          have hlt := last_add_one_lt_of_holds hr hrest
          exact (hn.1 (Or.inr hrest)).resolve_left fun hmem => by have := hmem.2; omega
        · intro hrest
          have hlt := last_add_one_lt_of_holds hs hrest
          exact (hn.2 (Or.inr hrest)).resolve_left fun hmem => by have := hmem.2; omega
      rw [ih (List.pairwise_cons.1 hr).2 (List.pairwise_cons.1 hs).2 htail]

/-- **Fewer ranges do not hold the same lines**, in whichever order they stand and however they
overlap: the first lines of two ranges that stand apart are in different ones. -/
theorem length_le_of_holds {rs ss : List LineRange} (hr : rs.Pairwise Apart)
    (h : ∀ n, Holds rs n ↔ Holds ss n) : rs.length ≤ ss.length := by
  have : Nonempty LineRange := ⟨⟨1, 1, by omega, by omega⟩⟩
  have hex : ∀ r, r ∈ rs → ∃ s, s ∈ ss ∧ r.first ∈ s :=
    fun r hmem => (h r.first).1 ⟨r, hmem, first_mem r⟩
  choose! f hf using hex
  have hnodup : (rs.map f).Nodup := by
    refine List.pairwise_map.2 (hr.imp_of_mem fun {r s} hmem hmem' hapart heq => ?_)
    have hrle := r.first_le_last
    have hfirst := (hf r hmem).2.1
    have hlast := (hf s hmem').2.2
    rw [← heq] at hlast
    unfold Apart at hapart
    -- the range that holds both first lines holds the line left out between them too
    exact not_holds_last_add_one hr hmem
      ((h _).2 ⟨f r, (hf r hmem).1, by omega, by omega⟩)
  rw [← List.length_map f]
  refine hnodup.length_le_of_subset fun t ht => ?_
  obtain ⟨r, hmem, rfl⟩ := List.mem_map.1 ht
  exact (hf r hmem).1

/-! ## Top theorem -/

/-- Valid ranges, each of which begins behind the line after the one before it, hold the lines
from line 1 on that are between the bounds of a span. -/
structure IsCanonical (spans : List (Int × Int)) (rs : List LineRange) : Prop where
  valid : ∀ r ∈ rs, 1 ≤ r.first ∧ r.first ≤ r.last
  apart : rs.IsChain Apart
  holds_iff : ∀ n, Holds rs n ↔ 1 ≤ n ∧ ∃ span ∈ spans, Between span n

theorem isCanonical_coalesce (spans : List (Int × Int)) : IsCanonical spans (coalesce spans) where
  valid r _ := ⟨r.one_le_first, r.first_le_last⟩
  apart := (apart_coalesce spans).isChain
  holds_iff := mem_coalesce spans

theorem IsCanonical.eq {spans : List (Int × Int)} {rs : List LineRange}
    (h : IsCanonical spans rs) : rs = coalesce spans :=
  eq_of_holds (pairwise_of_isChain h.apart) (apart_coalesce spans) fun n =>
    (h.holds_iff n).trans (mem_coalesce spans n).symm

/-- **Coalescing computes the canonical form**, with valid ranges only.  No other ranges are
canonical for the spans, and no shorter list of ranges holds the same lines; neither the order
nor the repetition of spans counts. -/
theorem coalesce_canonical (spans : List (Int × Int)) :
    coalesceBounds spans = .ok (coalesce spans) ∧
    IsCanonical spans (coalesce spans) ∧
    (∀ rs, IsCanonical spans rs → rs = coalesce spans) ∧
    (∀ rs, (∀ n, Holds rs n ↔ Holds (coalesce spans) n) → (coalesce spans).length ≤ rs.length) ∧
    ∀ others : List (Int × Int), (∀ span, span ∈ others ↔ span ∈ spans) →
      coalesce others = coalesce spans := by
  refine ⟨coalesceBounds_eq_ok spans, isCanonical_coalesce spans, fun rs h => h.eq,
    fun rs h => length_le_of_holds (apart_coalesce spans) fun n => (h n).symm,
    fun others h => IsCanonical.eq ⟨?_, (apart_coalesce others).isChain, fun n => ?_⟩⟩
  · exact (isCanonical_coalesce others).valid
  · rw [(isCanonical_coalesce others).holds_iff]
    simp only [h]

/-- Spans that are reversed, touch, lie one in the other, or begin before line 1. -/
example : (coalesce [(9, 7), (1, 3), (4, 4), (8, 8), (-2, 0), (5, -1)]).map bounds =
    [(1, 5), (7, 9)] := by decide

end ContractAudit.LineRange
