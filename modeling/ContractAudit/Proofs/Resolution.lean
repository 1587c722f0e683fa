import ContractAudit.Proofs.Remapping
import ContractAudit.Proofs.Walk

/-!
# Resolved imports

The files that a text imports are the targets of its imports, each where it comes first.  Targets
are canonical, so the names of a target and the slashes in front of them are all there is to it.
An import that is seen from the file leads where a walk along its segments leads from the directory
of the file, and the file counts only by its absolute form.

    (rules.resolve cwd root text file).value = the targets of the imports, each once
                                                            (value_resolve)
    rules.targetOf cwd root file spec = some (below l (walk names.dropLast (split '/' spec)))
                                                            (targetOf_of_relative)
-/

namespace ContractAudit

namespace Path

/-- Canonical paths with the same names differ at most by a second slash in front. -/
theorem eq_or_double_slash {p q : Text} (hp : IsCanonical p) (hq : IsCanonical q)
    (h : segments p = segments q) : p = q ∨ p = '/' :: q ∨ q = '/' :: p := by
  obtain ⟨l, names, hl, hn, rfl⟩ := isCanonical_iff.1 hp
  obtain ⟨m, names', hm, hn', rfl⟩ := isCanonical_iff.1 hq
  rw [segments_below hl hn, segments_below hm hn'] at h
  subst h
  rcases hl with rfl | rfl
  · rcases hm with rfl | rfl
    · exact Or.inl rfl
    · exact Or.inr (Or.inr rfl)
  · rcases hm with rfl | rfl
    · exact Or.inr (Or.inl rfl)
    · exact Or.inl rfl

end Path

namespace ProjectRules

variable (rules : ProjectRules) {cwd : Text} (root text file : Text)

/-! ## The list of targets -/

/-- What has been seen is carried along as a list without repetitions. -/
theorem value_targetsOf (specs seen : List Text) :
    (rules.targetsOf cwd root file specs seen.eraseDups).value =
      (seen ++ specs.filterMap fun spec => (rules.target cwd root file spec).value).eraseDups := by
  induction specs generalizing seen with
  | nil => exact congrArg List.eraseDups (List.append_nil seen).symm
  | cons spec rest ih =>
    unfold targetsOf
    rw [Logged.value_bind, List.filterMap_cons]
    cases ht : (rules.target cwd root file spec).value with
    | none => exact ih seen
    | some p =>
      have hseen : (if seen.eraseDups.contains p then seen.eraseDups else seen.eraseDups ++ [p]) =
          (seen ++ [p]).eraseDups := by
        rw [eraseDups_concat]
        simp only [List.contains_eq_mem, List.mem_eraseDups, decide_eq_true_eq]
      simp only [hseen]
      rw [ih, List.append_assoc, List.singleton_append]

section
variable (hcwd : Path.isAbsolute cwd = true)
include hcwd

/-- A file counts only by its absolute form. -/
theorem targetOf_absolute (spec : Text) :
    rules.targetOf cwd root (Path.absolute cwd file) spec = rules.targetOf cwd root file spec := by
  unfold targetOf
  rw [Path.absolute_of_isCanonical (Path.isCanonical_absolute hcwd file)]

theorem value_resolve :
    (rules.resolve cwd root text file).value =
      ((Solidity.imports text rules.parse).filterMap fun spec =>
        (rules.target cwd root file spec).value).eraseDups := by
  have hlist := @value_targetsOf rules cwd root (Path.absolute cwd file)
    (Solidity.imports text rules.parse) []
  have htarget : ∀ spec, (rules.target cwd root (Path.absolute cwd file) spec).value =
      (rules.target cwd root file spec).value := by
    intro spec
    rw [value_target, value_target, targetOf_absolute rules root file hcwd]
  simp only [htarget] at hlist
  exact hlist

end

/-! ## An import seen from the file -/

/-- **An import that is seen from the file.** -/
theorem targetOf_of_relative {rules : ProjectRules} {root file spec l : Text} {names : List Text}
    (hl : Path.IsLead l) (hn : ∀ s ∈ names, Path.IsName s)
    (hfile : Path.absolute cwd file = Path.below l names) (hs : rules.isSource spec = true)
    (hrel : Path.isAbsolute spec = false) (hr : rules.IsUnmapped spec)
    (hp : rules.IsUnpackaged spec) :
    rules.targetOf cwd root file spec =
      some (Path.below l (Path.walk names.dropLast (Text.split '/' spec))) := by
  have hfront : ∀ s ∈ names.dropLast, Path.IsName s :=
    fun s hs => hn s (List.dropLast_subset names hs)
  have hmeans : rules.Means cwd root file spec (rules.targetOf cwd root file spec) :=
    means_targetOf hs
  generalize rules.targetOf cwd root file spec = o at hmeans ⊢
  cases hmeans with
  | remapped hf => exact absurd hr (not_isUnmapped_of_fits hf)
  | package _ hlead hstarts => exact absurd hstarts (hp _ hlead)
  | plain =>
    rw [hfile, Path.directory_below hl hn, Path.normalize_join_below hl hfront hrel]

/-! ## Top theorem -/

/-- The files that the imports of a text mean, when the text stands in a file. -/
structure IsResolution (rules : ProjectRules) (cwd root text file : Text)
    (targets : List Text) : Prop where
  canonical : ∀ p ∈ targets, Path.IsCanonical p
  /-- Equal paths are spelled alike, up to a second slash in front. -/
  one_spelling : ∀ p ∈ targets, ∀ q ∈ targets, Path.segments p = Path.segments q →
    p = q ∨ p = '/' :: q ∨ q = '/' :: p
  nodup : targets.Nodup
  /-- Each target stands where it is imported first. -/
  in_order : targets = ((Solidity.imports text rules.parse).filterMap fun spec =>
    (rules.target cwd root file spec).value).eraseDups

/-- **Resolved imports are canonical and lexically right.**  Whatever the rules, the root, the text
and the file are, the files that the text imports are canonical, each listed once and in the order
of the imports; another spelling of the file makes no difference; and an import that is relative,
not remapped and not of a package leads where its segments lead from the directory of the file. -/
theorem isResolution_resolve (hcwd : Path.isAbsolute cwd = true) :
    rules.IsResolution cwd (Path.absolute cwd root) text file
      (rules.resolve cwd (Path.absolute cwd root) text file).value ∧
    (∀ other, Path.absolute cwd other = Path.absolute cwd file →
      rules.resolve cwd (Path.absolute cwd root) text other =
        rules.resolve cwd (Path.absolute cwd root) text file) ∧
    ∀ spec, spec ≠ [] → '\x00' ∉ spec → rules.isSource spec = true →
      Path.isAbsolute spec = false → rules.IsUnmapped spec → rules.IsUnpackaged spec →
      ∃ p, (rules.target cwd (Path.absolute cwd root) file spec).value = some p ∧
        Path.lead p = Path.lead (Path.absolute cwd file) ∧
        Path.segments p =
          Path.walk (Path.segments (Path.absolute cwd file)).dropLast (Text.split '/' spec) := by
  have hroot := (Path.isCanonical_absolute hcwd root).1
  have hcanonical : ∀ p ∈ (rules.resolve cwd (Path.absolute cwd root) text file).value,
      Path.IsCanonical p := fun p hp => isCanonical_of_mem_resolve hcwd hroot hp
  have horder := value_resolve rules (Path.absolute cwd root) text file hcwd
  refine ⟨⟨hcanonical, ?_, ?_, horder⟩, ?_, ?_⟩
  · exact fun p hp q hq => Path.eq_or_double_slash (hcanonical p hp) (hcanonical q hq)
  · rw [horder]
    exact nodup_eraseDups _
  · intro other h
    unfold resolve
    rw [h]
  · intro spec hne hnul hs hrel hr hp
    obtain ⟨l, names, hl, hn, hfile⟩ :=
      Path.isCanonical_iff.1 (Path.isCanonical_absolute hcwd file)
    have htarget : rules.targetOf cwd (Path.absolute cwd root) file spec =
        some (Path.below l (Path.walk names.dropLast (Text.split '/' spec))) :=
      targetOf_of_relative hl hn hfile hs hrel hr hp
    have hvalue : (rules.target cwd (Path.absolute cwd root) file spec).value =
        some (Path.below l (Path.walk names.dropLast (Text.split '/' spec))) := by
      rw [value_target, isMalformed_eq_false_iff.2 ⟨hne, hnul⟩]
      exact htarget
    have hwalk : ∀ s ∈ Path.walk names.dropLast (Text.split '/' spec), Path.IsName s :=
      Path.isName_of_mem_walk (Path.not_mem_of_mem_split '/' spec)
        fun s hs => hn s (List.dropLast_subset names hs)
    refine ⟨_, hvalue, ?_, ?_⟩
    · rw [hfile, Path.lead_below hl hn, Path.lead_below hl hwalk]
    · rw [hfile, Path.segments_below hl hn, Path.segments_below hl hwalk]

/-- An import that climbs beyond `/`, one file under two spellings, an absolute path, a package, a
remapped import that leads back to the importing file, and an import of no source. -/
theorem isResolution_resolve_climbing :
    let rules : ProjectRules := { remappings := [("@lib", ".//lib/./")] }
    let text : Text := "import './B.sol'; import '../../..//x/./../D.sol'; " ++
      "import '../lib//B.sol'; import '/abs/../E.sol'; import '@x/P.sol'; " ++
      "import '@lib/A.sol'; import './B.txt';"
    let file : Text := "../ws/./lib//A.sol"
    let targets : List Text := ["/ws/lib/B.sol", "/D.sol", "/E.sol", "/ws/lib/A.sol"]
    rules.IsResolution "/w" "/ws" text file targets ∧
    (rules.resolve "/w" "/ws" text "/ws/lib/A.sol").value = targets ∧
    ∃ p, (rules.target "/w" "/ws" file "../../..//x/./../D.sol").value = some p ∧
      Path.segments p = Path.walk ["ws", "lib"] (Text.split '/' "../../..//x/./../D.sol") := by
  intro rules text file targets
  have hcwd : Path.isAbsolute "/w" = true := by decide
  obtain ⟨hres, hsame, hwalk⟩ := isResolution_resolve rules "../ws/" text file hcwd
  have hroot : Path.absolute "/w" "../ws/" = "/ws" := by decide +kernel
  have hfile : Path.absolute "/w" "/ws/lib/A.sol" = Path.absolute "/w" file := by decide +kernel
  have hvalue : (rules.resolve "/w" "/ws" text file).value = targets := by decide +kernel
  have hother := hsame "/ws/lib/A.sol" hfile
  obtain ⟨p, hp, -, hsegments⟩ := hwalk "../../..//x/./../D.sol" (by decide) (by decide) (by decide)
    (by decide) (by decide) (by decide)
  have hdir : (Path.segments (Path.absolute "/w" file)).dropLast = ["ws", "lib"] := by
    decide +kernel
  rw [hroot] at hres hother hp
  rw [hdir] at hsegments
  rw [hvalue] at hres
  refine ⟨hres, ?_, p, hp, hsegments⟩
  rw [hother]
  exact hvalue

end ProjectRules

end ContractAudit
