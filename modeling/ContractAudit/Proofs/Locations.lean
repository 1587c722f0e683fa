import Mathlib.Data.List.Induction
import ContractAudit.Proofs.Coalesce
import ContractAudit.Proofs.FileRef
import ContractAudit.Proofs.LintText
import ContractAudit.Proofs.Numbering
import ContractAudit.Proofs.Table

/-!
# The locations of a vulnerability

References are gathered by file, the files in the order in which they are first named, and the
spans of a file are coalesced.  The references are those that the description names; without any
of them the lines of the record take their place, and without lines the unknown location does.

    the locations of `refs` gather them by file             (gathers_ofSpans)
    (vulnerabilities next records).outcome = .ok found → each finding is located as its record says
                                                            (isLocated_vulnerabilities)
-/

namespace ContractAudit

open Record (VulnerabilityRecord)

namespace Location

/-- The locations are those of some references: one for each file, in the order in which the files
are first named.  Its ranges increase and neither overlap nor touch, and they hold the lines from
line 1 on that are between the bounds of a reference to the file. -/
structure Gathers (refs : List (Text × List (Int × Int))) (ls : List Location) : Prop where
  files : ls.map (·.file) = (refs.map (·.1)).eraseDups
  apart : ∀ l ∈ ls, l.ranges.Pairwise LineRange.Apart
  mem_iff : ∀ l ∈ ls, ∀ n, (∃ r ∈ l.ranges, n ∈ r) ↔
    1 ≤ n ∧ ∃ ref ∈ refs, ref.1 = l.file ∧ ∃ span ∈ ref.2, LineRange.Between span n

theorem gathers_ofSpans (refs : List (Text × List (Int × Int))) :
    Gathers refs (ofSpans refs) := by
  unfold ofSpans
  rw [gather_eq, List.map_map]
  constructor
  case files => simp [Function.comp_def]
  case apart =>
    refine List.forall_mem_map.2 fun file _ => ?_
    exact LineRange.apart_coalesce _
  case mem_iff =>
    refine List.forall_mem_map.2 fun file _ n => ?_
    simp only [Function.comp_apply, LineRange.mem_coalesce, mem_itemsOf]
    constructor
    · rintro ⟨hone, span, ⟨ref, href, hfile, hspan⟩, hbetween⟩
      exact ⟨hone, ref, href, hfile, span, hspan, hbetween⟩
    · rintro ⟨hone, ref, href, hfile, span, hspan, hbetween⟩
      exact ⟨hone, span, ⟨ref, href, hfile, hspan⟩, hbetween⟩

theorem Gathers.nodup {refs : List (Text × List (Int × Int))} {ls : List Location}
    (h : Gathers refs ls) : (ls.map (·.file)).Nodup := by
  rw [h.files]
  exact nodup_eraseDups _

/-- There are locations if there are references. -/
theorem Gathers.eq_nil_iff {refs : List (Text × List (Int × Int))} {ls : List Location}
    (h : Gathers refs ls) : ls = [] ↔ refs = [] := by
  rw [← List.map_eq_nil_iff, h.files]
  cases refs with
  | nil => simp
  | cons ref refs => simp [List.eraseDups_cons]

theorem gathers_orUnknown {refs : List (Text × List (Int × Int))} (h : refs ≠ []) :
    Gathers refs (orUnknown (ofSpans refs)) := by
  have hg := gathers_ofSpans refs
  rw [orUnknown_of_ne_nil fun hnil => h (hg.eq_nil_iff.1 hnil)]
  exact hg

end Location

/-! ## Vulnerabilities -/

/-- The references in the lines of a record, each line a span of its own. -/
def Record.VulnerabilityRecord.lineRefs (r : VulnerabilityRecord) :
    List (Text × List (Int × Int)) :=
  (r.lines.getD []).map fun ref => (ref.contract, ref.lines.map fun n => (n, n))

/-- The finding is located as its record says: by the references in the description, or else by
the lines, or else nowhere. -/
structure Finding.IsLocated (r : VulnerabilityRecord) (f : Finding) : Prop where
  named : FileRef.IsWrittenIn (r.description.getD []) → ∃ found refs,
    FileRef.IsFound (r.description.getD []) found ∧
      List.Forall₂ (fun (ref : FileRef) span => ref.span = .ok span) found refs ∧
      Location.Gathers refs f.locations
  listed : ¬ FileRef.IsWrittenIn (r.description.getD []) → r.lineRefs ≠ [] →
    Location.Gathers r.lineRefs f.locations
  unknown : ¬ FileRef.IsWrittenIn (r.description.getD []) → r.lineRefs = [] →
    f.locations = [Location.unknown]
  ne_nil : f.locations ≠ []
  nodup : (f.locations.map (·.file)).Nodup

namespace Finding

theorem IsLocated.withId {r : VulnerabilityRecord} {f : Finding} (h : f.IsLocated r) (id : Text) :
    IsLocated r { f with id := id } :=
  ⟨h.named, h.listed, h.unknown, h.ne_nil, h.nodup⟩

/-- What `locationsOf` returns, which is nothing if there are neither references nor lines. -/
theorem locationsOf_eq_ok {r : VulnerabilityRecord} {ls : List Location}
    (h : locationsOf r = .ok ls) : ∃ refs,
    List.Forall₂ (fun (ref : FileRef) span => ref.span = .ok span)
      (FileRef.ofText (r.description.getD [])) refs ∧
      ls = Location.ofSpans (if refs = [] then r.lineRefs else refs) := by
  unfold locationsOf Location.ofDescription at h
  cases hrefs : (FileRef.ofText (r.description.getD [])).mapM FileRef.span with
  | error f =>
    rw [hrefs] at h
    cases h
  | ok refs =>
    rw [hrefs] at h
    refine ⟨refs, forall₂_of_mapM hrefs, (Except.ok.inj h).symm.trans ?_⟩
    have hempty : (Location.ofSpans refs).isEmpty = true ↔ refs = [] := by
      rw [List.isEmpty_iff, (Location.gathers_ofSpans refs).eq_nil_iff]
    simp only [hempty]
    split
    · rfl
    · rfl

theorem isLocated_ofVulnerability {r : VulnerabilityRecord} {f : Finding}
    (h : ofVulnerability r = .ok f) : f.IsLocated r := by
  unfold ofVulnerability at h
  cases hls : locationsOf r with
  | error e =>
    rw [hls] at h
    cases h
  | ok ls =>
    rw [hls] at h
    cases h
    obtain ⟨refs, hrefs, rfl⟩ := locationsOf_eq_ok hls
    have hfound := FileRef.isFound_ofText (r.description.getD [])
    have hwritten : refs ≠ [] ↔ FileRef.IsWrittenIn (r.description.getD []) := by
      rw [← hfound.ne_nil_iff, ← List.length_pos_iff, ← List.length_pos_iff, hrefs.length_eq]
    by_cases hnone : refs = []
    · have hnot : ¬ FileRef.IsWrittenIn (r.description.getD []) :=
        fun hw => hwritten.2 hw hnone
      rw [if_pos hnone]
      by_cases hlines : r.lineRefs = []
      · rw [hlines]
        exact ⟨fun hw => absurd hw hnot, fun _ hne => absurd hlines hne, fun _ _ => rfl,
          List.cons_ne_nil _ _, List.nodup_singleton _⟩
      · have hg := Location.gathers_orUnknown hlines
        exact ⟨fun hw => absurd hw hnot, fun _ _ => hg, fun _ hnil => absurd hnil hlines,
          Location.orUnknown_ne_nil _, hg.nodup⟩
    · rw [if_neg hnone]
      have hg := Location.gathers_orUnknown hnone
      exact ⟨fun _ => ⟨_, refs, hfound, hrefs, hg⟩, fun hnot => absurd (hwritten.1 hnone) hnot,
        fun hnot => absurd (hwritten.1 hnone) hnot, Location.orUnknown_ne_nil _, hg.nodup⟩

end Finding

/-! ## Top theorem -/

namespace Normalization

/-- **The locations of vulnerabilities.** -/
theorem isLocated_vulnerabilities {next : Nat} {records : List VulnerabilityRecord}
    {found : List Finding} (h : (vulnerabilities next records).outcome = .ok found) :
    List.Forall₂ Finding.IsLocated records found := by
  obtain ⟨drafts, hdrafts, rfl, -⟩ := findings_eq_ok h
  exact Numbering.forall₂_assign (fun _ _ id hd => hd.withId id)
    (hdrafts.imp fun _ _ => Finding.isLocated_ofVulnerability) next

/-- References that overlap, touch, stand in reverse or name line 0; lines; and neither. -/
theorem isLocated_vulnerabilities_scattered :
    let records : List VulnerabilityRecord :=
      [{ description := "A.sol#9-7, B.sol#0 (A.sol#4) A.sol#5-8" },
        { lines := some [⟨"C.sol", [3, 1, -2, 2]⟩, ⟨"D.sol", [5]⟩, ⟨"C.sol", [7]⟩] }, {}]
    ∃ found, (vulnerabilities 1 records).outcome = .ok found ∧
      (found.map fun f => f.locations.map fun l =>
        (l.file, l.ranges.map fun r => (r.first, r.last))) =
        ([[("A.sol", [(4, 9)]), ("B.sol", [])],
          [("C.sol", [(1, 3), (7, 7)]), ("D.sol", [(5, 5)])],
          [("Unknown", [])]] : List (List (Text × List (Int × Int)))) ∧
      List.Forall₂ Finding.IsLocated records found := by
  intro records
  refine ⟨_, rfl, by decide +kernel, isLocated_vulnerabilities rfl⟩

end Normalization

end ContractAudit
