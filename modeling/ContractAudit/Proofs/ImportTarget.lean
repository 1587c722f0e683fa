import ContractAudit.Proofs.Path
import ContractAudit.ProjectRules

/-!
# The targets of imports

Every target is canonical, whatever the import looks like, so that two targets are one file if
and only if they are one text.

    p ∈ (rules.resolve cwd root text file).value → IsCanonical p  (isCanonical_of_mem_resolve)
-/

namespace ContractAudit.ProjectRules

variable (rules : ProjectRules) (cwd root : Text)

theorem value_target (file spec : Text) :
    (rules.target cwd root file spec).value =
      if isMalformed spec then none else rules.targetOf cwd root file spec := by
  unfold target
  split <;> rfl

theorem mem_targetsOf (file p : Text) (specs found : List Text) :
    p ∈ (rules.targetsOf cwd root file specs found).value ↔
      p ∈ found ∨ ∃ spec ∈ specs, (rules.target cwd root file spec).value = some p := by
  induction specs generalizing found with
  | nil => simp [targetsOf]
  | cons spec rest ih =>
    unfold targetsOf
    rw [Logged.value_bind]
    cases ht : (rules.target cwd root file spec).value with
    | none => simp [ih, ht]
    | some q =>
      simp only [List.contains_eq_mem, decide_eq_true_eq]
      rw [ih]
      have hq : p ∈ (if q ∈ found then found else found ++ [q]) ↔ p ∈ found ∨ q = p := by
        split
        · next hq =>
          constructor
          · exact Or.inl
          · rintro (hp | rfl)
            · exact hp
            · exact hq
        · rw [List.mem_append, List.mem_singleton, eq_comm]
      rw [hq, or_assoc]
      simp [ht]

theorem mem_resolve (text file p : Text) :
    p ∈ (rules.resolve cwd root text file).value ↔
      ∃ spec ∈ Solidity.imports text rules.parse, isMalformed spec = false ∧
        rules.targetOf cwd root (Path.absolute cwd file) spec = some p := by
  unfold resolve
  rw [mem_targetsOf]
  simp [value_target]

section
variable {rules cwd root} (hcwd : Path.isAbsolute cwd = true) (hroot : Path.isAbsolute root = true)
include hcwd hroot

theorem isCanonical_targetOf {file spec p : Text} (h : rules.targetOf cwd root file spec = some p) :
    Path.IsCanonical p := by
  unfold targetOf at h
  split at h
  · cases h
  · split at h
    · obtain rfl := Option.some.inj h
      exact Path.isCanonical_normalize (Path.isAbsolute_join hroot _)
    · split at h
      · cases h
      · obtain rfl := Option.some.inj h
        have hfile := (Path.isCanonical_absolute hcwd file).1
        exact Path.isCanonical_normalize (Path.isAbsolute_join (Path.isAbsolute_directory hfile) _)

/-- **Targets have one spelling.** -/
theorem isCanonical_of_mem_resolve {text file p : Text}
    (h : p ∈ (rules.resolve cwd root text file).value) : Path.IsCanonical p := by
  obtain ⟨spec, -, -, h⟩ := (mem_resolve rules cwd root text file p).1 h
  exact isCanonical_targetOf hcwd hroot h

end

end ContractAudit.ProjectRules
