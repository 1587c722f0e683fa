import ContractAudit.Highlight
import ContractAudit.Report
import ContractAudit.Proofs.CanonicalRanges
import ContractAudit.Proofs.Locations

/-!
# Highlights and ranges

Blocks are worked out line by line, reports keep ranges.  Both come to the same: the lines of some
ranges up to the end of a document, coalesced again, are the ranges cut off at that end and
coalesced; and ranges that stand apart are only cut off.

    visible lineCount l = coalesce (cutOff lineCount l.ranges)
                                                            (visible_eq_coalesce_cutOff)
    rs.Pairwise Apart → coalesce (cutOff n rs) = rs.filterMap (upTo? n)
                                                            (coalesce_cutOff)

Ranges are coalesced for each location.  Two locations of a finding may mean one document, the
file being named by two paths; blocks are separate if and only if the lines of all such locations
are (`pairwise_separate_iff`).
-/

namespace ContractAudit

namespace LineRange

/-! ## Ranges cut off at a line -/

/-- The bounds of the ranges that begin at line `n` or before, those behind `n` put back to it. -/
def cutOff (n : Int) (rs : List LineRange) : List (Int × Int) :=
  (rs.filter fun r => r.first ≤ n).map fun r => (r.first, min r.last n)

/-- The part of a range up to line `n`, if there is any. -/
def upTo? (n : Int) (r : LineRange) : Option LineRange :=
  if h : r.first ≤ n then
    some ⟨r.first, min r.last n, r.one_le_first, by have := r.first_le_last; omega⟩
  else none

/-- A range that ends at line `n` or before stays as it is. -/
theorem upTo?_of_last_le {n : Int} {r : LineRange} (h : r.last ≤ n) : upTo? n r = some r := by
  have hle := r.first_le_last
  have hmin : min r.last n = r.last := by omega
  unfold upTo?
  rw [dif_pos (by omega)]
  simp only [hmin]

theorem cutOff_eq_map_bounds (n : Int) (rs : List LineRange) :
    cutOff n rs = (rs.filterMap (upTo? n)).map bounds := by
  unfold cutOff
  induction rs with
  | nil => rfl
  | cons r rs ih =>
    by_cases h : r.first ≤ n
    · have hup : upTo? n r = some ⟨r.first, min r.last n, r.one_le_first, _⟩ := dif_pos h
      rw [List.filter_cons_of_pos (by simpa using h), List.filterMap_cons_some hup, List.map_cons,
        List.map_cons, ih]
      rfl
    · have hup : upTo? n r = none := dif_neg h
      rw [List.filter_cons_of_neg (by simpa using h), List.filterMap_cons_none hup, ih]

theorem apart_filterMap_upTo? (n : Int) {rs : List LineRange} (h : rs.Pairwise Apart) :
    (rs.filterMap (upTo? n)).Pairwise Apart := by
  refine h.filterMap _ fun r s hrs r' hr' s' hs' => ?_
  unfold upTo? at hr' hs'
  split at hr'
  · split at hs'
    · cases hr'
      cases hs'
      unfold Apart at hrs ⊢
      show min r.last n + 1 < s.first
      omega
    · cases hs'
  · cases hr'

/-- Ranges that stand apart are coalesced already. -/
theorem coalesce_map_bounds {rs : List LineRange} (h : rs.Pairwise Apart) :
    coalesce (rs.map bounds) = rs := by
  have hcanonical : IsCanonical (rs.map bounds) rs := by
    refine ⟨fun r _ => ⟨r.one_le_first, r.first_le_last⟩, h.isChain, fun n => ?_⟩
    constructor
    · rintro ⟨r, hr, hn⟩
      have hone := r.one_le_first
      have hle := r.first_le_last
      rw [LineRange.mem_iff] at hn
      refine ⟨by omega, bounds r, List.mem_map_of_mem hr, ?_⟩
      unfold Between bounds
      show min r.first r.last ≤ n ∧ n ≤ max r.first r.last
      omega
    · rintro ⟨-, span, hspan, hbetween⟩
      obtain ⟨r, hr, rfl⟩ := List.mem_map.1 hspan
      have hle := r.first_le_last
      refine ⟨r, hr, LineRange.mem_iff.2 ?_⟩
      unfold Between bounds at hbetween
      simp only [] at hbetween
      omega
  exact hcanonical.eq.symm

/-- **Ranges that stand apart are only cut off.** -/
theorem coalesce_cutOff (n : Int) {rs : List LineRange} (h : rs.Pairwise Apart) :
    coalesce (cutOff n rs) = rs.filterMap (upTo? n) := by
  rw [cutOff_eq_map_bounds]
  exact coalesce_map_bounds (apart_filterMap_upTo? n h)

theorem holds_coalesce_cutOff (n : Int) (rs : List LineRange) (k : Int) :
    Holds (coalesce (cutOff n rs)) k ↔ Holds rs k ∧ k ≤ n := by
  unfold Holds
  rw [mem_coalesce]
  constructor
  · rintro ⟨hone, span, hspan, hbetween⟩
    obtain ⟨r, hr, rfl⟩ := List.mem_map.1 hspan
    obtain ⟨hr, hfirst⟩ := List.mem_filter.1 hr
    have hle := r.first_le_last
    simp only [decide_eq_true_eq] at hfirst
    simp only [Between] at hbetween
    exact ⟨⟨r, hr, LineRange.mem_iff.2 (by omega)⟩, by omega⟩
  · rintro ⟨⟨r, hr, hk⟩, hle⟩
    rw [LineRange.mem_iff] at hk
    have hone := r.one_le_first
    refine ⟨by omega, (r.first, min r.last n), ?_, ?_⟩
    · refine List.mem_map.2 ⟨r, List.mem_filter.2 ⟨hr, ?_⟩, rfl⟩
      simp only [decide_eq_true_eq]
      omega
    · simp only [Between]
      omega

/-! ## Separate ranges -/

/-- Two ranges have no line in common, and no line of one is next to a line of the other. -/
def Separate (r s : LineRange) : Prop := r.Apart s ∨ s.Apart r

instance (r s : LineRange) : Decidable (r.Separate s) :=
  inferInstanceAs (Decidable (_ ∨ _))

theorem separate_iff {r s : LineRange} :
    r.Separate s ↔ ∀ n ∈ r, ∀ k ∈ s, n + 1 < k ∨ k + 1 < n := by
  have hr := r.first_le_last
  have hs := s.first_le_last
  simp only [LineRange.mem_iff]
  unfold Separate Apart
  constructor
  · intro h n hn k hk
    omega
  · intro h
    -- the range that begins first would reach up to the line before the other one begins
    rcases Int.le_total r.first s.first with hle | hle
    · have := h (min r.last s.first) (by omega) s.first (by omega)
      omega
    · have := h r.first (by omega) (min s.last r.first) (by omega)
      omega

end LineRange

/-! ## Lines of a location -/

open LineRange (Holds cutOff upTo? Separate)

namespace Location

theorem mem_lines {l : Location} {n : Int} : n ∈ l.lines ↔ Holds l.ranges n := by
  unfold lines Holds
  simp only [List.mem_flatMap, LineRange.mem_lines]

/-- Up to a line, two locations have no line in common and no lines next to one another. -/
def SeparateUpTo (lineCount : Int) (l m : Location) : Prop :=
  ∀ n ∈ l.lines, ∀ k ∈ m.lines, n ≤ lineCount → k ≤ lineCount → n + 1 < k ∨ k + 1 < n

end Location

namespace Highlight

theorem holds_visible (lineCount : Int) (l : Location) (n : Int) :
    Holds (visible lineCount l) n ↔ n ∈ l.lines ∧ n ≤ lineCount := by
  unfold visible LineRange.coalesceLines Holds
  rw [LineRange.mem_coalesce]
  constructor
  · rintro ⟨-, span, hspan, hbetween⟩
    obtain ⟨k, hk, rfl⟩ := List.mem_map.1 hspan
    obtain rfl : k = n := by
      simp only [LineRange.Between] at hbetween
      omega
    simpa using List.mem_filter.1 hk
  · rintro ⟨hn, hle⟩
    obtain ⟨r, -, hr⟩ := Location.mem_lines.1 hn
    have hone := r.one_le_first
    rw [LineRange.mem_iff] at hr
    have hfilter : n ∈ l.lines.filter fun k => k ≤ lineCount :=
      List.mem_filter.2 ⟨hn, by simpa using hle⟩
    exact ⟨by omega, (n, n), List.mem_map_of_mem hfilter, by simp [LineRange.Between]⟩

/-- **The lines that are shown, coalesced, are the ranges that are cut off, coalesced.** -/
theorem visible_eq_coalesce_cutOff (lineCount : Int) (l : Location) :
    visible lineCount l = LineRange.coalesce (cutOff lineCount l.ranges) := by
  refine LineRange.eq_of_holds (LineRange.apart_coalesce _) (LineRange.apart_coalesce _) fun n => ?_
  rw [LineRange.holds_coalesce_cutOff, ← Location.mem_lines]
  exact holds_visible lineCount l n

theorem last_le_of_mem_visible {lineCount : Int} {l : Location} {r : LineRange}
    (h : r ∈ visible lineCount l) : r.last ≤ lineCount :=
  ((holds_visible lineCount l r.last).1 ⟨r, h, r.first_le_last, Int.le_refl _⟩).2

theorem last_le_of_mem_ofFindings {document : Text} {lineCount : Int} {fs : List Finding}
    {b : Highlight} (h : b ∈ ofFindings document lineCount fs) : b.range.last ≤ lineCount := by
  obtain ⟨f, -, hb⟩ := List.mem_flatMap.1 h
  obtain ⟨l, -, hb⟩ := List.mem_flatMap.1 hb
  obtain ⟨r, hr, rfl⟩ := List.mem_map.1 hb
  exact last_le_of_mem_visible hr

end Highlight

/-! ## Findings of a reply -/

namespace Finding

/-- The finding is one of those that some reply has been turned into. -/
def IsNormalized (f : Finding) : Prop :=
  ∃ next linting r depth found,
    (Normalization.ofResponse next linting r depth).value.outcome = .ok found ∧ f ∈ found.all

/-- A finding has a location for each of its files, with ranges that stand apart. -/
structure IsPlaced (f : Finding) : Prop where
  nodup : (f.locations.map (·.file)).Nodup
  apart : ∀ l ∈ f.locations, l.ranges.Pairwise LineRange.Apart

theorem IsLocated.isPlaced {r : Record.VulnerabilityRecord} {f : Finding} (h : f.IsLocated r) :
    f.IsPlaced := by
  refine ⟨h.nodup, ?_⟩
  by_cases hw : FileRef.IsWrittenIn (r.description.getD [])
  · obtain ⟨_, _, -, -, hg⟩ := h.named hw
    exact hg.apart
  · by_cases hl : r.lineRefs = []
    · rw [h.unknown hw hl]
      exact List.forall_mem_singleton.2 List.Pairwise.nil
    · exact (h.listed hw hl).apart

theorem isPlaced_ofLintRecord {r : Record.LintRecord} {f : Finding} (h : ofLintRecord r = .ok f) :
    f.IsPlaced := by
  unfold ofLintRecord at h
  cases hs : LintSeverity.ofMark r.severity with
  | error e =>
    rw [hs] at h
    cases h
  | ok level =>
    rw [hs] at h
    cases h
    refine ⟨List.nodup_singleton _, List.forall_mem_singleton.2 ?_⟩
    show (rangesOfLine r.line).Pairwise LineRange.Apart
    unfold rangesOfLine
    cases r.line with
    | none => exact List.Pairwise.nil
    | some n => exact LineRange.apart_coalesce _

theorem IsPlaced.withId {f : Finding} (h : f.IsPlaced) (id : Text) :
    IsPlaced { f with id := id } := ⟨h.nodup, h.apart⟩

end Finding

namespace Normalization

theorem mem_upToFault {α β ε : Type} {f : α → Except ε β} {xs : List α} {y : β}
    (h : y ∈ (upToFault f xs).1) : ∃ x ∈ xs, f x = .ok y := by
  induction xs with
  | nil => cases h
  | cons x xs ih =>
    unfold upToFault at h
    cases hx : f x with
    | error e =>
      rw [hx] at h
      cases h
    | ok b =>
      rw [hx] at h
      rcases List.mem_cons.1 h with rfl | h
      · exact ⟨x, List.mem_cons_self, hx⟩
      · obtain ⟨x', hmem, hx'⟩ := ih h
        exact ⟨x', List.mem_cons_of_mem x hmem, hx'⟩

theorem isPlaced_of_mem_drafts {depth : Nat} {linting : Bool} {r : Record.Response} {d : Finding}
    (h : d ∈ drafts depth linting r) : d.IsPlaced := by
  have hvulnerability : d ∈ (upToFault Finding.ofVulnerability
      (checkVulnerabilities (r.result.getD [])).value).1 → d.IsPlaced := by
    intro hd
    obtain ⟨record, -, hrecord⟩ := mem_upToFault hd
    exact (Finding.isLocated_ofVulnerability hrecord).isPlaced
  unfold drafts at h
  simp only [] at h
  split at h
  · rcases List.mem_append.1 h with h | h
    · exact hvulnerability h
    · obtain ⟨record, -, hrecord⟩ := mem_upToFault h
      exact Finding.isPlaced_ofLintRecord hrecord
  · exact hvulnerability h

end Normalization

namespace Finding

/-- Numbers do not move a finding. -/
theorem IsNormalized.isPlaced {f : Finding} (h : f.IsNormalized) : f.IsPlaced := by
  obtain ⟨next, linting, r, depth, found, hfound, hf⟩ := h
  rw [← (Normalization.drafts_of_ok hfound).2] at hf
  have hassign : List.Forall₂ (fun _ f => f.IsPlaced) (Normalization.drafts depth linting r)
      (Numbering.assign next (Normalization.drafts depth linting r)).1 :=
    Numbering.forall₂_assign (fun _ _ id hd => hd.withId id)
      (List.forall₂_same.2 fun _ hd => Normalization.isPlaced_of_mem_drafts hd) next
  exact ((List.forall₂_and_left _ _).1 (hassign.flip.imp fun _ _ hp => ⟨hp, trivial⟩)).1 f hf

/-- A report shows the ranges of the one location that a file has. -/
theorem IsPlaced.rangesIn_eq {f : Finding} (h : f.IsPlaced) {l : Location}
    (hl : l ∈ f.locations) : Report.rangesIn l.file f = l.ranges := by
  unfold Report.rangesIn
  obtain ⟨front, back, hsplit⟩ := List.append_of_mem hl
  have hnodup := h.nodup
  rw [hsplit, List.map_append, List.map_cons, List.nodup_middle, List.nodup_cons,
    List.mem_append] at hnodup
  have hother : ∀ ls : List Location, l.file ∉ ls.map (·.file) →
      ls.filter (fun m => m.file == l.file) = [] := by
    intro ls hls
    refine List.filter_eq_nil_iff.2 fun m hm hfile => hls ?_
    exact eq_of_beq hfile ▸ List.mem_map_of_mem hm
  rw [hsplit, List.filter_append, hother front fun hmem => hnodup.1 (Or.inl hmem),
    List.filter_cons, if_pos (beq_self_eq_true _), hother back fun hmem => hnodup.1 (Or.inr hmem),
    List.nil_append, List.flatMap_singleton]

end Finding

/-! ## Top theorems -/

namespace Highlight

/-- **Highlighting line by line is clipping of ranges.**  Every finding has, for each of its known
locations that match the document, a block for each coalesced range of those cut off at the end of
the document, and no block passes that end.  Of a finding that a reply has been turned into, these
are the ranges that the report shows, up to that end; those that lie before it come back as they
are. -/
theorem plan_eq_clipped (document : Text) (lineCount : Int) (fs : List Finding) :
    (plan document lineCount fs).value =
      (fs.flatMap fun f =>
        (f.locations.filter fun l => ! l.isUnknown && Path.sameEnd document l.file).flatMap fun l =>
          (LineRange.coalesce (cutOff lineCount l.ranges)).map fun range =>
            ⟨f.id, f.kind, range, hover f⟩) ∧
    (∀ b ∈ (plan document lineCount fs).value, b.range.last ≤ lineCount) ∧
    ∀ f : Finding, f.IsNormalized → ∀ l ∈ f.locations,
      LineRange.coalesce (cutOff lineCount l.ranges) =
        (Report.rangesIn l.file f).filterMap (upTo? lineCount) ∧
      (∀ r ∈ Report.rangesIn l.file f, r.last ≤ lineCount →
        r ∈ LineRange.coalesce (cutOff lineCount l.ranges)) ∧
      ((∀ r ∈ Report.rangesIn l.file f, r.last ≤ lineCount) →
        LineRange.coalesce (cutOff lineCount l.ranges) = Report.rangesIn l.file f) := by
  refine ⟨?_, fun b hb => last_le_of_mem_ofFindings hb, fun f hf l hl => ?_⟩
  · show ofFindings document lineCount fs = _
    unfold ofFindings ofFinding
    simp only [visible_eq_coalesce_cutOff]
    rfl
  · have hplaced := hf.isPlaced
    have hclipped := LineRange.coalesce_cutOff lineCount (hplaced.apart l hl)
    rw [hplaced.rangesIn_eq hl, hclipped]
    refine ⟨rfl, fun r hr hle => ?_, fun hall => ?_⟩
    · exact List.mem_filterMap.2 ⟨r, hr, LineRange.upTo?_of_last_le hle⟩
    · calc
        l.ranges.filterMap (upTo? lineCount) = l.ranges.filterMap some :=
          List.filterMap_congr fun r hr => LineRange.upTo?_of_last_le (hall r hr)
        _ = l.ranges := List.filterMap_some

/-- A range before the end of the document, one across it and one behind it, and a location in
another file. -/
theorem plan_eq_clipped_across :
    let r : Record.Response :=
      { result := some [.obj [("description", .str "A.sol#9-6 A.sol#1-3 A.sol#20 B.sol#1")]] }
    ∃ f : Finding, (Normalization.ofResponse 1 true r).value.outcome = .ok ⟨[f], []⟩ ∧
      ((plan "/ws/A.sol" 7 [f]).value.map fun b => (b.id, b.range.first, b.range.last)) =
        [("vuln-1".toList, 1, 3), ("vuln-1".toList, 6, 7)] ∧
      (∀ b ∈ (plan "/ws/A.sol" 7 [f]).value, b.range.last ≤ 7) ∧
      ∀ l ∈ f.locations, LineRange.coalesce (cutOff 7 l.ranges) =
        (Report.rangesIn l.file f).filterMap (upTo? 7) := by
  intro r
  have hfound : (Normalization.ofResponse 1 true r).value.outcome = .ok ⟨[_], []⟩ := rfl
  obtain ⟨-, hend, hclip⟩ := plan_eq_clipped "/ws/A.sol" 7 [_]
  refine ⟨_, hfound, by decide +kernel, hend, fun l hl => ?_⟩
  exact (hclip _ ⟨1, true, r, _, _, hfound, List.mem_singleton_self _⟩ l hl).1

/-- The ranges shown for two locations are separate if and only if their lines are. -/
theorem separate_visible_iff (lineCount : Int) (l m : Location) :
    (∀ r ∈ visible lineCount l, ∀ s ∈ visible lineCount m, r.Separate s) ↔
      l.SeparateUpTo lineCount m := by
  constructor
  · intro h n hn k hk hle hle'
    obtain ⟨r, hr, hnr⟩ := (holds_visible lineCount l n).2 ⟨hn, hle⟩
    obtain ⟨s, hs, hks⟩ := (holds_visible lineCount m k).2 ⟨hk, hle'⟩
    exact LineRange.separate_iff.1 (h r hr s hs) n hnr k hks
  · intro h r hr s hs
    refine LineRange.separate_iff.2 fun n hn k hk => ?_
    obtain ⟨hln, hle⟩ := (holds_visible lineCount l n).1 ⟨r, hr, hn⟩
    obtain ⟨hlk, hle'⟩ := (holds_visible lineCount m k).1 ⟨s, hs, hk⟩
    exact h n hln k hlk hle hle'

theorem map_range_plan (document : Text) (lineCount : Int) (f : Finding) :
    (plan document lineCount [f]).value.map (·.range) =
      (f.locations.filter (isIn document)).flatMap (visible lineCount) := by
  show (ofFindings document lineCount [f]).map (·.range) = _
  unfold ofFindings ofFinding
  rw [List.flatMap_singleton, List.map_flatMap]
  simp only [List.map_map, Function.comp_def, List.map_id']

/-- **When a finding has one block for each run of lines.**  The blocks of a finding are separate
if and only if its locations that match the document are, up to the end of the document. -/
theorem pairwise_separate_iff (document : Text) (lineCount : Int) (f : Finding) :
    ((plan document lineCount [f]).value.map (·.range)).Pairwise Separate ↔
      (f.locations.filter (isIn document)).Pairwise (Location.SeparateUpTo lineCount) := by
  -- the ranges of one location stand apart, so that only two locations can clash
  have hone : ∀ l : Location, (visible lineCount l).Pairwise Separate :=
    fun l => (LineRange.apart_coalesce _).imp Or.inl
  rw [map_range_plan, List.pairwise_flatMap]
  simp only [hone, separate_visible_iff, implies_true, true_and]

/-- A description may name one file by two paths.  Both mean the document, and line 3 lies in two
of its blocks. -/
theorem two_paths_mark_a_line_twice :
    ¬ ∀ f : Finding, f.IsNormalized → ∀ (document : Text) (lineCount : Int),
      ((plan document lineCount [f]).value.map (·.range)).Pairwise Separate := by
  intro h
  let r : Record.Response :=
    { result := some [.obj [("description", .str "A.sol#1-3 src/A.sol#3-5")]] }
  have hfound : (Normalization.ofResponse 1 true r).value.outcome = .ok _ := rfl
  have hseparate := h _ ⟨1, true, r, _, _, hfound, List.mem_singleton_self _⟩ "src/A.sol" 10
  exact absurd hseparate (by decide +kernel)

end Highlight

end ContractAudit
