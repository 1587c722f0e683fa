import ContractAudit.Proofs.ReportOrder

/-!
# The groups of a report

A finding may name several files, and a file several times.  Its group is the sorted list of the
findings that name it, whatever the other files of these findings are, so every finding is listed
once under each of its files.

    file has a group ↔ some finding names it                (mem_files_iff)
    the groups' entries are the findings with their files   (entries_perm)
    gs groups fs by file ↔ gs = groups fs                   (isGrouping_groups)
-/

namespace ContractAudit.Report

/-! ## Files of findings -/

theorem mem_files_iff {file : Text} {fs : List Finding} :
    file ∈ files fs ↔ ∃ f ∈ fs, IsIn file f := by
  rw [files_eq]
  simp only [mem_sortBy, List.mem_eraseDups, List.mem_flatMap, mem_distinctFiles_iff]

theorem nodup_files (fs : List Finding) : (files fs).Nodup := by
  rw [files_eq]
  exact (sortBy_perm fileLe _).nodup_iff.2 (nodup_eraseDups _)

theorem map_fst_groups (fs : List Finding) : (groups fs).map (·.1) = files fs := by
  rw [groups_eq, List.map_map]
  exact List.map_id' (files fs)

theorem FileBefore.asymm {a b : Text} (h : FileBefore a b) : ¬ FileBefore b a := by
  rintro ⟨hb, hba⟩
  obtain ⟨ha, hab⟩ := h
  have hlt := hab.resolve_left hb
  have hlt' := hba.resolve_left ha
  exact List.lt_asymm hlt hlt'

/-- Files that are in order and apart from each other are strictly in order. -/
theorem pairwise_files (fs : List Finding) : (files fs).Pairwise FileBefore := by
  have hsorted : (files fs).Pairwise fun a b => fileLe a b = true :=
    pairwise_sortBy fileLe_trans fileLe_total _
  refine (hsorted.and (nodup_files fs)).imp fun {a b} h => ?_
  by_contra hno
  have hba : fileLe b a = true := fileLe_iff_not_before.2 hno
  exact h.2 (fileLe_antisymm a b h.1 hba)

/-- Lists that are strictly in order are known by their members. -/
theorem eq_of_pairwise_before {as bs : List Text} (has : as.Pairwise FileBefore)
    (hbs : bs.Pairwise FileBefore) (h : ∀ file, file ∈ as ↔ file ∈ bs) : as = bs := by
  have hne : ∀ {a b : Text}, FileBefore a b → a ≠ b := by
    rintro a b hab rfl
    exact hab.asymm hab
  have hperm : as.Perm bs := (List.perm_ext_iff_of_nodup (has.imp hne) (hbs.imp hne)).2 h
  apply hperm.eq_of_pairwise _ has hbs
  intro a b _ _ hab hba
  exact absurd hba hab.asymm

/-! ## Entries -/

/-- The findings of a report, each with the file under which it is listed, in the order of the
report. -/
def entries (fs : List Finding) : List (Text × Finding) :=
  (groups fs).flatMap fun g => g.2.map fun f => (g.1, f)

theorem map_filter_eq_flatMap {α β : Type} (p : α → Bool) (g : α → β) (xs : List α) :
    (xs.filter p).map g = xs.flatMap fun x => if p x then [g x] else [] := by
  induction xs with
  | nil => rfl
  | cons x xs ih =>
    rw [List.flatMap_cons, ← ih, List.filter_cons]
    split <;> rfl

/-- What is listed row by row can be listed column by column. -/
theorem flatMap_swap_perm {α β γ : Type} (as : List α) (bs : List β) (g : α → β → List γ) :
    (as.flatMap fun a => bs.flatMap (g a)).Perm
      (bs.flatMap fun b => as.flatMap fun a => g a b) := by
  induction bs with
  | nil => exact .of_eq (List.flatMap_eq_nil_iff.2 fun _ _ => rfl)
  | cons b bs ih =>
    simp only [List.flatMap_cons]
    exact (List.flatMap_append_perm as _ _).symm.trans (ih.append_left _)

open scoped List in
/-- **Every finding is listed once under each of its files.** -/
theorem entries_perm (fs : List Finding) :
    (entries fs).Perm (fs.flatMap fun f => f.distinctFiles.map fun file => (file, f)) := by
  have hfiles : ∀ f ∈ fs, ((files fs).filter fun file => IsIn file f).Perm f.distinctFiles := by
    intro f hf
    apply (List.perm_ext_iff_of_nodup ((nodup_files fs).filter _) (nodup_distinctFiles f)).2
    intro file
    rw [List.mem_filter, decide_eq_true_iff, mem_distinctFiles_iff, mem_files_iff]
    exact and_iff_right_of_imp fun h => ⟨f, hf, h⟩
  calc entries fs
      = (files fs).flatMap fun file => (sort (fs.filter (IsIn file))).map fun f => (file, f) := by
        unfold entries
        rw [groups_eq, List.flatMap_map]
    _ ~ ((files fs).flatMap fun file => (fs.filter (IsIn file)).map fun f => (file, f)) :=
        List.Perm.flatMap_left _ fun file _ => (sort_perm _).map _
    _ = (files fs).flatMap fun file => fs.flatMap fun f =>
          if IsIn file f then [(file, f)] else [] := by
        simp only [map_filter_eq_flatMap, decide_eq_true_eq]
    _ ~ (fs.flatMap fun f => (files fs).flatMap fun file =>
          if IsIn file f then [(file, f)] else []) := flatMap_swap_perm _ _ _
    _ = fs.flatMap fun f =>
          ((files fs).filter fun file => IsIn file f).map fun file => (file, f) := by
        simp only [map_filter_eq_flatMap, decide_eq_true_eq]
    _ ~ (fs.flatMap fun f => f.distinctFiles.map fun file => (file, f)) :=
        List.Perm.flatMap_left _ fun f hf => (hfiles f hf).map _

/-! ## Groupings -/

/-- Neither the ranks nor the first files of two findings tell them apart. -/
def IsLevelWith (f g : Finding) : Prop :=
  g.severity.rank = f.severity.rank ∧ g.primaryFile = f.primaryFile

instance (f g : Finding) : Decidable (IsLevelWith f g) :=
  inferInstanceAs (Decidable (_ ∧ _))

/-- `gs` groups findings by file.  A finding stands in the group of a file as often as it stands in
`fs`, if it names the file, and findings that are level with each other stand as in `fs`. -/
structure IsGrouping (fs : List Finding) (gs : List (Text × List Finding)) : Prop where
  nodup : (gs.map (·.1)).Nodup
  ascending : (gs.map (·.1)).Pairwise FileBefore
  mem_iff : ∀ file, file ∈ gs.map (·.1) ↔ ∃ f ∈ fs, ∃ l ∈ f.locations, l.file = file
  members : ∀ g ∈ gs, g.2.Perm (fs.filter (IsIn g.1))
  ordered : ∀ g ∈ gs, g.2.Pairwise fun e f => ¬ FindingBefore f e
  stable : ∀ g ∈ gs, ∀ f, g.2.filter (IsLevelWith f) =
    (fs.filter (IsIn g.1)).filter (IsLevelWith f)

theorem filter_isLevelWith (f : Finding) (fs : List Finding) :
    fs.filter (IsLevelWith f) = fs.filter (tied findingLe f) := by
  apply List.filter_congr
  intro g _
  rw [Bool.eq_iff_iff, decide_eq_true_iff, tied_findingLe_iff]
  rfl

/-- A group is stably sorted, told in the words of a grouping. -/
theorem isStablySorted_iff_group {file : Text} {fs es : List Finding} :
    IsStablySorted findingLe (fs.filter (IsIn file)) es ↔
      es.Perm (fs.filter (IsIn file)) ∧ (es.Pairwise fun e f => ¬ FindingBefore f e) ∧
        ∀ f, es.filter (IsLevelWith f) = (fs.filter (IsIn file)).filter (IsLevelWith f) := by
  simp only [filter_isLevelWith, ← findingLe_iff_not_before]
  exact ⟨fun h => ⟨h.perm, h.ordered, h.stable⟩, fun ⟨hp, ho, hs⟩ => ⟨hp, ho, hs⟩⟩

theorem groups_isGrouping (fs : List Finding) : IsGrouping fs (groups fs) := by
  have hgroup : ∀ g ∈ groups fs, IsStablySorted findingLe (fs.filter (IsIn g.1)) g.2 := by
    intro g hg
    rw [groups_eq] at hg
    obtain ⟨file, -, rfl⟩ := List.mem_map.1 hg
    exact isStablySorted_sort _
  refine ⟨?_, ?_, ?_, fun g hg => ?_, fun g hg => ?_, fun g hg => ?_⟩
  · rw [map_fst_groups]
    exact nodup_files fs
  · rw [map_fst_groups]
    exact pairwise_files fs
  · intro file
    rw [map_fst_groups, mem_files_iff]
    rfl
  · exact (isStablySorted_iff_group.1 (hgroup g hg)).1
  · exact (isStablySorted_iff_group.1 (hgroup g hg)).2.1
  · exact (isStablySorted_iff_group.1 (hgroup g hg)).2.2

/-- The files and their order leave no choice, and neither does a stable sort. -/
theorem IsGrouping.eq_groups {fs : List Finding} {gs : List (Text × List Finding)}
    (h : IsGrouping fs gs) : gs = groups fs := by
  have hfiles : gs.map (·.1) = files fs := by
    apply eq_of_pairwise_before h.ascending (pairwise_files fs)
    intro file
    rw [h.mem_iff, mem_files_iff]
    rfl
  have hsort : ∀ g ∈ gs, g = (g.1, sort (fs.filter (IsIn g.1))) := by
    intro g hg
    have hsorted := isStablySorted_iff_group.2 ⟨h.members g hg, h.ordered g hg, h.stable g hg⟩
    exact Prod.ext rfl ((isStablySorted_iff findingLe_trans findingLe_total).1 hsorted)
  calc gs
      = gs.map fun g => (g.1, sort (fs.filter (IsIn g.1))) := by
        conv_lhs => rw [← List.map_id gs]
        exact List.map_congr_left hsort
    _ = (gs.map (·.1)).map fun file => (file, sort (fs.filter (IsIn file))) := by
        rw [List.map_map]
        rfl
    _ = groups fs := by
        rw [hfiles, groups_eq]

/-! ## Top theorem -/

/-- **Groups lose and repeat nothing.**  They are the grouping of the findings, and there is no
other one. -/
theorem isGrouping_groups (fs : List Finding) :
    IsGrouping fs (groups fs) ∧ ∀ gs, IsGrouping fs gs → gs = groups fs :=
  ⟨groups_isGrouping fs, fun _ h => h.eq_groups⟩

end ContractAudit.Report
