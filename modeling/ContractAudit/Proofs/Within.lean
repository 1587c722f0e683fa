import ContractAudit.Proofs.Confinement
import ContractAudit.Proofs.Walk

/-!
# Within a root, told in two ways

A path lies within a root if the names that the two share, put behind one slash, spell the root.
The relative path counts the same names: it goes up as often as the root has names that are not
shared.  So the two ways to tell agree as long as one slash is what the root begins with; a root
that begins with two has nothing within it, not even itself, and its relative paths do not say so.

    isWithin cwd root p = true ↔ the root has one slash in front, and its names begin those of p
                                                            (isWithin_iff)
    the relative path goes up ↔ the names of the root do not begin those of p
                                                            (goesUp_iff)
    the two agree on p ↔ the root has one slash in front, or the relative path goes up
                                                            (isWithin_iff_not_goesUp_iff)
-/

namespace ContractAudit.Path

/-- The first segment of a relative path leads up. -/
def GoesUp (name : Text) : Prop := (Text.split '/' name).head? = some up

instance (name : Text) : Decidable (GoesUp name) :=
  inferInstanceAs (Decidable (_ = _))

section
variable {cwd root p : Text} (hcwd : isAbsolute cwd = true)
include hcwd

theorem isWithin_iff :
    isWithin cwd root p = true ↔
      lead (absolute cwd root) = ['/'] ∧
        segments (absolute cwd root) <+: segments (absolute cwd p) := by
  constructor
  · intro h
    refine ⟨?_, prefix_of_isWithin hcwd h⟩
    obtain ⟨hshared, -⟩ :=
      commonLead_prefix (segments (absolute cwd root)) (segments (absolute cwd p))
    unfold isWithin at h
    rw [beq_iff_eq] at h
    rw [← h]
    exact lead_below (Or.inl rfl) fun s hs =>
      isName_of_mem_segments_absolute hcwd (hshared.subset hs)
  · rintro ⟨hlead, more, hmore⟩
    obtain ⟨l, names, hl, hn, hroot⟩ := isCanonical_iff.1 (isCanonical_absolute hcwd root)
    rw [hroot, lead_below hl hn] at hlead
    subst hlead
    unfold isWithin
    simp only [beq_iff_eq]
    rw [← hmore, hroot, segments_below hl hn, commonLead_append]
    rfl

/-- Where names of the root are not shared, the relative path begins with a step up. -/
theorem goesUp_of_not_prefix {name : Text} (h : relative? cwd root p = some name)
    (hno : ¬ segments (absolute cwd root) <+: segments (absolute cwd p)) : GoesUp name := by
  have hnames : ∀ s ∈ segments (absolute cwd p), '/' ∉ s := fun s hs =>
    (isName_of_mem_segments_absolute hcwd hs).2.1
  unfold relative? at h
  generalize segments (absolute cwd root) = base at h hno
  generalize segments (absolute cwd p) = target at h hno hnames
  obtain ⟨hbase, htarget⟩ := commonLead_prefix base target
  have hlt : (commonLead base target).length < base.length := by
    refine Nat.lt_of_le_of_ne hbase.length_le fun heq => hno ?_
    rw [← hbase.eq_of_length heq]
    exact htarget
  obtain ⟨n, hn⟩ : ∃ n, base.length - (commonLead base target).length = n + 1 :=
    ⟨_, (Nat.succ_pred_eq_of_pos (Nat.sub_pos_of_lt hlt)).symm⟩
  split at h
  · cases h
  · simp only [hn, List.replicate_succ, List.cons_append] at h
    rw [← Option.some.inj h]
    unfold GoesUp
    rw [Text.split_join '/' _ ?_ (List.cons_ne_nil _ _)]
    · rfl
    · refine List.forall_mem_cons.2 ⟨by decide, List.forall_mem_append.2 ⟨?_, ?_⟩⟩
      · intro s hs
        rw [List.eq_of_mem_replicate hs]
        decide
      · exact fun s hs => hnames s (List.mem_of_mem_drop hs)

theorem goesUp_iff {name : Text} (h : relative? cwd root p = some name) :
    GoesUp name ↔ ¬ segments (absolute cwd root) <+: segments (absolute cwd p) := by
  constructor
  · intro hup hprefix
    have hinside := isInside_of_prefix hcwd hprefix h
    exact hinside.not_up (List.mem_of_mem_head? hup)
  · exact goesUp_of_not_prefix hcwd h

/-- Segments that do not lead up keep the names of the root in front. -/
theorem prefix_foldl_join {steps : List Text} (hsteps : ∀ s ∈ steps, '/' ∉ s ∧ s ≠ up) :
    segments (absolute cwd root) <+: segments (absolute cwd (steps.foldl join root)) := by
  induction steps generalizing root with
  | nil => exact List.prefix_refl _
  | cons s rest ih =>
    obtain ⟨hslash, hup⟩ := hsteps s List.mem_cons_self
    have hrel : isAbsolute s = false := by
      rw [Bool.eq_false_iff, isAbsolute, Ne, Text.startsWith_iff]
      exact fun h => hslash (h.subset (List.mem_singleton_self '/'))
    have hsplit : Text.split '/' s = [s] := by
      have h := Text.split_join '/' [s] (by simpa using hslash) (List.cons_ne_nil s [])
      rwa [Text.join, List.intercalate_singleton] at h
    have hstep : segments (absolute cwd root) <+: segments (absolute cwd (join root s)) := by
      rw [segments_absolute_join hcwd hrel, hsplit]
      show _ <+: step _ s
      unfold step
      rw [if_neg hup]
      split
      · exact List.prefix_refl _
      · exact List.prefix_append _ [s]
    exact hstep.trans (ih fun t ht => hsteps t (List.mem_cons_of_mem s ht))

end

/-! ## Top theorem -/

/-- **When the two ways to tell agree.**  On every path they agree if and only if the absolute form
of the root begins with one slash, or the relative path goes up, which both tell then.  What is
reached from the root by segments none of which leads up lies within it if and only if the root
begins with one slash. -/
theorem isWithin_iff_not_goesUp_iff {cwd : Text} (hcwd : isAbsolute cwd = true) (root : Text) :
    (∀ p, p ≠ [] → ∃ name, relative? cwd root p = some name ∧
      ((isWithin cwd root p = true ↔ ¬ GoesUp name) ↔
        lead (absolute cwd root) = ['/'] ∨ GoesUp name)) ∧
    ∀ steps : List Text, (∀ s ∈ steps, '/' ∉ s ∧ s ≠ up) →
      (isWithin cwd root (steps.foldl join root) = true ↔ lead (absolute cwd root) = ['/']) := by
  constructor
  · intro p hp
    obtain ⟨name, hname⟩ := exists_relative? cwd root hp
    refine ⟨name, hname, ?_⟩
    rw [isWithin_iff hcwd, goesUp_iff hcwd hname, not_not, and_iff_right_iff_imp]
    exact imp_iff_or_not
  · intro steps hsteps
    rw [isWithin_iff hcwd]
    exact and_iff_left (prefix_foldl_join hcwd hsteps)

/-- A root that is seen from the working directory, with a path below it that is spelled from `/`
on, and a root with two slashes in front. -/
theorem isWithin_iff_not_goesUp_iff_spellings :
    let root : Text := "..//ws/."
    let twice : Text := "//ws"
    let name : Text := "A.sol"
    relative? "/w" root "///ws/a//../A.sol" = some name ∧
    (isWithin "/w" root "///ws/a//../A.sol" = true ↔ ¬ GoesUp name) ∧
    isWithin "/w" root "..//ws/./lib/./B.sol" = true ∧
    relative? "/w" twice "//ws/A.sol" = some name ∧
    ¬ (isWithin "/w" twice "//ws/A.sol" = true ↔ ¬ GoesUp name) := by
  intro root twice name
  have hone : lead (absolute "/w" root) = ['/'] := by decide +kernel
  have hname : relative? "/w" root "///ws/a//../A.sol" = some name := by decide +kernel
  have htwice : relative? "/w" twice "//ws/A.sol" = some name := by decide +kernel
  have hcwd : isAbsolute "/w" = true := by decide
  obtain ⟨hagree, hjoin⟩ := isWithin_iff_not_goesUp_iff hcwd root
  obtain ⟨seen, hseen, hiff⟩ := hagree "///ws/a//../A.sol" (by decide)
  obtain rfl := Option.some.inj (hname.symm.trans hseen)
  obtain ⟨seen, hseen, hiff'⟩ :=
    (isWithin_iff_not_goesUp_iff hcwd twice).1 "//ws/A.sol" (by decide)
  obtain rfl := Option.some.inj (htwice.symm.trans hseen)
  refine ⟨hname, hiff.2 (Or.inl hone), (hjoin ["lib", ".", "B.sol"] (by decide)).2 hone, htwice, ?_⟩
  rw [hiff']
  decide +kernel

/-- From a root with two slashes in front a file is reached without going up, and is not within. -/
theorem double_slash_root_has_nothing_within :
    let name : Text := "A.sol"
    relative? "/" "//ws" "//ws/A.sol" = some name ∧
      ¬ (isWithin "/" "//ws" "//ws/A.sol" = true ↔ ¬ GoesUp name) := by
  decide +kernel

end ContractAudit.Path
