import ContractAudit.Proofs.ImportTarget
import ContractAudit.Proofs.Partition
import ContractAudit.Proofs.Scan
import ContractAudit.Proofs.SourceFile
import ContractAudit.Workspace

/-!
# Bundles and groups of a workspace

A bundle of a group holds the files of the group that can be loaded, each under its relative path
and with the text it was loaded with, and nothing else.  The groups are the connected parts of the
graph of the files that a search finds.

    (ws.bundle group).value = .ok b → b holds the files of group that load
                                                            (bundle_spec)
    ws.groups.value = .ok groups → groups are a partition   (groups_eq_ok)
-/

namespace ContractAudit

/-- The settings that name a workspace and nothing else. -/
def Settings.ofWorkspace (workspace : Text) : Settings where
  apiUrl := defaultUrl
  apiKey := []
  timeout := .ofDecimal false 120 0
  workspace := workspace
  mode := .all
  activeFile := []
  includeVendor := false
  linting := true
  remappings := []
  severities := defaultSeverities
  lintCategories := []
  lintSeverities := []
  ignoreRules := []
  ignorePresets := []
  logWord := .info

namespace Workspace

/-- The working directory is absolute, and the entries of the tree have names. -/
structure WellFormed (ws : Workspace) : Prop where
  cwd : Path.isAbsolute ws.cwd = true
  named : ws.tree.Named

instance (ws : Workspace) : Decidable ws.WellFormed :=
  decidable_of_iff (Path.isAbsolute ws.cwd = true ∧ ws.tree.Named)
    ⟨fun h => ⟨h.1, h.2⟩, fun h => ⟨h.cwd, h.named⟩⟩

theorem isCanonical_root {ws : Workspace} (h : ws.WellFormed) : Path.IsCanonical ws.root :=
  Path.isCanonical_absolute h.cwd _

/-- Every fault of the texts is one that an analysis expects. -/
structure FaultsExpected (ws : Workspace) : Prop where
  source : ws.source.FaultsExpected
  later : ws.later.FaultsExpected

/-- The relative path of a file. -/
def nameOf? (ws : Workspace) (p : Text) : Option Text := Path.relative? ws.cwd ws.root p

/-! ## Bundles -/

section
variable {ws : Workspace} {group : List Text}

theorem addToBundle_spec {b b' : Bundle} (hb : b.names.Nodup)
    (h : (ws.addToBundle group b).value = .ok b') :
    b'.names.Nodup ∧ (∀ n ∈ b.names, n ∈ b'.names) ∧
    (∀ p ∈ group, ∀ f, ws.reload p = .ok f → f.relative ∈ b'.names) ∧
    ∀ n t, (n, t) ∈ b' → (n, t) ∈ b ∨ ∃ p ∈ group, ws.reload p = .ok ⟨p, n, t⟩ := by
  induction group generalizing b with
  | nil =>
    obtain rfl := Except.ok.inj h
    exact ⟨hb, fun n hn => hn, by simp, fun n t ht => Or.inl ht⟩
  | cons p rest ih =>
    unfold addToBundle at h
    cases hp : ws.reload p with
    | ok f =>
      simp only [hp] at h
      obtain ⟨hnd, hmono, hall, honly⟩ := ih (Bundle.nodup_names_add hb) h
      refine ⟨hnd, fun n hn => ?_, fun q hq g hg => ?_, fun n t ht => ?_⟩
      · exact hmono n ((Bundle.mem_names_add b f n).2 (Or.inl hn))
      · rcases List.mem_cons.1 hq with rfl | hq
        · obtain rfl := Except.ok.inj (hp.symm.trans hg)
          exact hmono _ ((Bundle.mem_names_add b f _).2 (Or.inr rfl))
        · exact hall q hq g hg
      · rcases honly n t ht with ht | ⟨q, hq, hload⟩
        · rcases Bundle.mem_of_mem_add ht with he | ht
          · obtain ⟨rfl, rfl⟩ := Prod.mk.inj he
            obtain ⟨rfl, -, -⟩ := SourceFile.load_eq_ok_iff.1 hp
            exact Or.inr ⟨f.path, List.mem_cons_self, hp⟩
          · exact Or.inl ht
        · exact Or.inr ⟨q, List.mem_cons_of_mem p hq, hload⟩
    | error f =>
      simp only [hp] at h
      split at h
      · obtain ⟨hnd, hmono, hall, honly⟩ := ih hb h
        refine ⟨hnd, hmono, fun q hq g hg => ?_, fun n t ht => ?_⟩
        · rcases List.mem_cons.1 hq with rfl | hq
          · cases hp.symm.trans hg
          · exact hall q hq g hg
        · rcases honly n t ht with ht | ⟨q, hq, hload⟩
          · exact Or.inl ht
          · exact Or.inr ⟨q, List.mem_cons_of_mem p hq, hload⟩
      · cases h

/-- **The bundle of a group.** -/
theorem bundle_spec {b : Bundle} (h : (ws.bundle group).value = .ok b) :
    b.names.Nodup ∧ (∀ p ∈ group, ∀ f, ws.reload p = .ok f → f.relative ∈ b.names) ∧
    ∀ n t, (n, t) ∈ b → ∃ p ∈ group, ws.reload p = .ok ⟨p, n, t⟩ := by
  obtain ⟨hnd, -, hall, honly⟩ := addToBundle_spec (b := []) List.nodup_nil h
  exact ⟨hnd, hall, fun n t ht => (honly n t ht).resolve_left List.not_mem_nil⟩

/-- Where all faults are expected, every group has a bundle. -/
theorem exists_bundle (hs : ws.later.FaultsExpected) (hne : ∀ p ∈ group, p ≠ []) :
    ∃ b, (ws.bundle group).value = .ok b := by
  have h : ∀ b, ∃ b', (ws.addToBundle group b).value = .ok b' := by
    induction group with
    | nil => exact fun b => ⟨b, rfl⟩
    | cons p rest ih =>
      have hrest := ih fun q hq => hne q (List.mem_cons_of_mem p hq)
      intro b
      unfold addToBundle
      cases hp : ws.reload p with
      | ok f => exact hrest _
      | error f =>
        have he := SourceFile.isExpected_of_load (hne p List.mem_cons_self) hs hp
        simp only [he, if_true]
        exact hrest b
  exact h []

end

/-! ## Groups -/

theorem groups_eq_ok {ws : Workspace} {groups : List (List Text)}
    (h : ws.groups.value = .ok groups) :
    ∃ files g, (Scan.run ws.rules ws.tree ws.root).value = .ok files ∧ files ≠ [] ∧
      (ImportGraph.build files ws.source.read ws.resolve).value = (g, none) ∧
      g.IsPartition groups := by
  unfold Workspace.groups at h
  simp only [Logged.value_bind] at h
  split at h
  · cases h
  · cases h
  · next files hne hscan =>
    simp only [Logged.value_bind] at h
    split at h
    · cases h
    · next g hg =>
      obtain rfl := Except.ok.inj h
      exact ⟨files, g, hscan, hne, hg, ImportGraph.isPartition_groups (ImportGraph.build_spec hg).1⟩

theorem groups_eq_error {ws : Workspace} {f : AnalysisFault} (h : ws.groups.value = .error f) :
    (∃ g, f = .scan g) ∨ f = .noSources ∨ ∃ g, f = .read g := by
  unfold Workspace.groups at h
  simp only [Logged.value_bind] at h
  split at h
  · exact Or.inl ⟨_, (Except.error.inj h).symm⟩
  · exact Or.inr (Or.inl (Except.error.inj h).symm)
  · simp only [Logged.value_bind] at h
    split at h
    · exact Or.inr (Or.inr ⟨_, (Except.error.inj h).symm⟩)
    · cases h

/-- Where all faults are expected, every project with source files has groups. -/
theorem exists_groups {ws : Workspace} {files : List Text} (hs : ws.source.FaultsExpected)
    (hscan : (Scan.run ws.rules ws.tree ws.root).value = .ok files) (hne : files ≠ []) :
    ∃ groups, ws.groups.value = .ok groups := by
  obtain ⟨g, hg⟩ := ImportGraph.exists_build files ws.resolve hs
  obtain ⟨p, rest, rfl⟩ := List.exists_cons_of_ne_nil hne
  unfold Workspace.groups
  simp only [Logged.value_bind, hscan, hg]
  exact ⟨_, rfl⟩

end Workspace

end ContractAudit
