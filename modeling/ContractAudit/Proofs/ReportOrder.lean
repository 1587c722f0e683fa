import ContractAudit.Pipeline
import ContractAudit.Proofs.StableSort
import ContractAudit.Proofs.Table

/-!
# The order of a report

Files stand in the order of their code points with the unknown file behind all others, findings in
the order of their severities and then of their first files.  Both tests are total preorders, so
`sort` is the one stable sort by its order.  It then makes no difference whether findings are
sorted before they are filtered or behind, nor whether a report is made of sorted findings: groups
are sorted again, and files that are told apart leave no choice.

    fileLe a b = true ↔ ¬ FileBefore b a                    (fileLe_iff_not_before)
    findingLe f g = true ↔ ¬ FindingBefore g f              (findingLe_iff_not_before)
    groups fs = for each of `files fs` what is in it, sorted
                                                            (groups_eq)
    sort (fs.filter p) = (sort fs).filter p                 (sort_filter)
    groups (sort fs) = groups fs                            (groups_sort)
    text title (sorted r) = text title r                    (text_sorted)
-/

namespace ContractAudit

/-- The order of texts is the lexicographic one of code points. -/
theorem Text.le_iff_not_lt {s t : Text} : Text.le s t = true ↔ ¬ t < s := by
  induction s generalizing t with
  | nil =>
    have h : ¬ t < [] := List.not_lt_nil t
    exact iff_of_true rfl h
  | cons a s ih =>
    cases t with
    | nil =>
      have h : [] < a :: s := List.nil_lt_cons a s
      exact iff_of_false (by simp [Text.le]) fun hno => hno h
    | cons b t =>
      have hlt : b < a ↔ b.toNat < a.toNat := Iff.rfl
      have heq : b = a ↔ b.toNat = a.toNat := Char.toNat_inj.symm
      rw [Text.le_cons_iff, List.cons_lt_cons_iff, ih, hlt, heq]
      by_cases h : t < s
      · simp only [h, not_true_eq_false, and_false, or_false, and_true]
        omega
      · simp only [h, not_false_eq_true, and_true, and_false, or_false]
        omega

namespace Report

/-! ## Files -/

/-- The file stands before the other one: by code points, the unknown file behind all others. -/
def FileBefore (a b : Text) : Prop :=
  a ≠ Location.unknownFile ∧ (b = Location.unknownFile ∨ a < b)

theorem fileLe_iff {a b : Text} :
    fileLe a b = true ↔
      b = Location.unknownFile ∨ (a ≠ Location.unknownFile ∧ Text.le a b = true) := by
  unfold fileLe
  by_cases ha : a = Location.unknownFile
  · simp [ha]
  · simp [ha]

theorem fileLe_iff_not_before {a b : Text} : fileLe a b = true ↔ ¬ FileBefore b a := by
  rw [fileLe_iff, Text.le_iff_not_lt]
  unfold FileBefore
  tauto

theorem fileLe_trans (a b c : Text) (hab : fileLe a b = true) (hbc : fileLe b c = true) :
    fileLe a c = true := by
  rw [fileLe_iff] at *
  rcases hbc with hc | ⟨hb, hbc⟩
  · exact Or.inl hc
  · obtain ⟨ha, hab⟩ := hab.resolve_left hb
    exact Or.inr ⟨ha, Text.le_trans hab hbc⟩

theorem fileLe_total (a b : Text) : fileLe a b = true ∨ fileLe b a = true := by
  simp only [fileLe_iff]
  by_cases ha : a = Location.unknownFile
  · exact Or.inr (Or.inl ha)
  · by_cases hb : b = Location.unknownFile
    · exact Or.inl (Or.inl hb)
    · exact (Text.le_total a b).imp (fun h => Or.inr ⟨ha, h⟩) fun h => Or.inr ⟨hb, h⟩

theorem fileLe_antisymm (a b : Text) (hab : fileLe a b = true) (hba : fileLe b a = true) :
    a = b := by
  rw [fileLe_iff] at hab hba
  by_cases ha : a = Location.unknownFile
  · obtain hb : b = Location.unknownFile := hab.resolve_right fun h => h.1 ha
    rw [ha, hb]
  · have hba := hba.resolve_left ha
    have hab := hab.resolve_left hba.1
    exact Text.le_antisymm hab.2 hba.2

/-! ## Findings -/

/-- The finding stands before the other one: by severity, then by the file of the first location. -/
def FindingBefore (f g : Finding) : Prop :=
  f.severity.rank < g.severity.rank ∨
    (f.severity.rank = g.severity.rank ∧ FileBefore f.primaryFile g.primaryFile)

theorem findingLe_iff {f g : Finding} :
    findingLe f g = true ↔ f.severity.rank < g.severity.rank ∨
      (f.severity.rank = g.severity.rank ∧ fileLe f.primaryFile g.primaryFile = true) := by
  simp [findingLe]

theorem findingLe_iff_not_before {f g : Finding} :
    findingLe f g = true ↔ ¬ FindingBefore g f := by
  rw [findingLe_iff, fileLe_iff_not_before]
  unfold FindingBefore
  by_cases h : FileBefore g.primaryFile f.primaryFile
  · simp only [h, not_true_eq_false, and_false, or_false, and_true]
    omega
  · simp only [h, not_false_eq_true, and_true, and_false, or_false]
    omega

theorem findingLe_trans (f g e : Finding) (hfg : findingLe f g = true)
    (hge : findingLe g e = true) : findingLe f e = true := by
  rw [findingLe_iff] at *
  rcases hfg with hfg | ⟨hfg, hfile⟩
  · left
    omega
  · rcases hge with hge | ⟨hge, hfile'⟩
    · left
      omega
    · exact Or.inr ⟨hfg.trans hge, fileLe_trans _ _ _ hfile hfile'⟩

theorem findingLe_total (f g : Finding) : findingLe f g = true ∨ findingLe g f = true := by
  simp only [findingLe_iff]
  rcases Nat.lt_trichotomy f.severity.rank g.severity.rank with hlt | heq | hgt
  · exact Or.inl (Or.inl hlt)
  · exact (fileLe_total f.primaryFile g.primaryFile).imp (fun h => Or.inr ⟨heq, h⟩)
      fun h => Or.inr ⟨heq.symm, h⟩
  · exact Or.inr (Or.inl hgt)

/-- Findings are tied where neither their ranks nor their first files tell them apart. -/
theorem tied_findingLe_iff {f g : Finding} :
    tied findingLe f g = true ↔
      g.severity.rank = f.severity.rank ∧ g.primaryFile = f.primaryFile := by
  rw [tied_iff, findingLe_iff, findingLe_iff]
  constructor
  · rintro ⟨hfg, hgf⟩
    have hfile := (hfg.resolve_left (by omega)).2
    have hfile' := (hgf.resolve_left (by omega)).2
    exact ⟨by omega, fileLe_antisymm _ _ hfile' hfile⟩
  · rintro ⟨hrank, hfile⟩
    have hself : fileLe f.primaryFile f.primaryFile = true := refl_of_total fileLe_total _
    rw [hrank, hfile]
    exact ⟨Or.inr ⟨rfl, hself⟩, Or.inr ⟨rfl, hself⟩⟩

theorem isStablySorted_sort (fs : List Finding) : IsStablySorted findingLe fs (sort fs) :=
  isStablySorted_sortBy findingLe_trans findingLe_total fs

theorem sort_perm (fs : List Finding) : (sort fs).Perm fs := sortBy_perm findingLe fs

/-- **Filtering and sorting commute.** -/
theorem sort_filter (p : Finding → Bool) (fs : List Finding) :
    sort (fs.filter p) = (sort fs).filter p :=
  sortBy_filter findingLe_trans findingLe_total p fs

theorem sort_sort (fs : List Finding) : sort (sort fs) = sort fs :=
  sortBy_sortBy findingLe_trans findingLe_total fs

/-! ## Findings by file -/

/-- The finding has a location in the file. -/
def IsIn (file : Text) (f : Finding) : Prop := ∃ l ∈ f.locations, l.file = file

instance (file : Text) (f : Finding) : Decidable (IsIn file f) :=
  inferInstanceAs (Decidable (∃ l ∈ f.locations, l.file = file))

theorem mem_distinctFiles_iff {file : Text} {f : Finding} :
    file ∈ f.distinctFiles ↔ IsIn file f := by
  unfold Finding.distinctFiles IsIn
  rw [List.mem_eraseDups, List.mem_map]

theorem nodup_distinctFiles (f : Finding) : f.distinctFiles.Nodup := nodup_eraseDups _

/-- The rows that findings are gathered from: one for every file of every finding. -/
def fileRows (fs : List Finding) : List (Text × List Finding) :=
  fs.flatMap fun f => f.distinctFiles.map fun file => (file, [f])

theorem byFile_eq_gather (fs : List Finding) : byFile fs = gather (fileRows fs) := by
  unfold byFile gather fileRows
  rw [List.foldl_flatMap]
  simp only [List.foldl_map]

theorem map_fst_fileRows (fs : List Finding) :
    (fileRows fs).map (·.1) = fs.flatMap Finding.distinctFiles := by
  unfold fileRows
  rw [List.map_flatMap]
  simp only [List.map_map, Function.comp_def, List.map_id']

/-- A finding gives a file one item, however many of its locations are in the file. -/
theorem itemsOf_rows (file : Text) (f : Finding) {files : List Text} (h : files.Nodup) :
    itemsOf (files.map fun g => (g, [f])) file = if file ∈ files then [f] else [] := by
  induction files with
  | nil => rfl
  | cons g files ih =>
    obtain ⟨hg, hfiles⟩ := List.nodup_cons.1 h
    unfold itemsOf at ih ⊢
    rw [List.map_cons, List.filter_cons]
    by_cases he : g = file
    · subst he
      rw [if_pos (by simp), List.flatMap_cons, ih hfiles, if_neg hg, if_pos List.mem_cons_self]
      rfl
    · rw [if_neg (by simpa using he), ih hfiles]
      simp [Ne.symm he]

/-- **What is gathered for a file are the findings in it**, each as often as it is there. -/
theorem itemsOf_fileRows (file : Text) (fs : List Finding) :
    itemsOf (fileRows fs) file = fs.filter (IsIn file) := by
  induction fs with
  | nil => rfl
  | cons f fs ih =>
    have hf := itemsOf_rows file f (nodup_distinctFiles f)
    unfold fileRows at ih ⊢
    unfold itemsOf at ih hf ⊢
    rw [List.flatMap_cons, List.filter_append, List.flatMap_append, hf, ih, List.filter_cons]
    simp only [mem_distinctFiles_iff, decide_eq_true_eq]
    split
    · rfl
    · rfl

theorem byFile_eq (fs : List Finding) : byFile fs =
    (fs.flatMap Finding.distinctFiles).eraseDups.map fun file => (file, fs.filter (IsIn file)) := by
  rw [byFile_eq_gather, gather_eq, map_fst_fileRows]
  simp only [itemsOf_fileRows]

theorem files_eq (fs : List Finding) :
    files fs = sortBy fileLe (fs.flatMap Finding.distinctFiles).eraseDups := by
  unfold files
  rw [byFile_eq, List.map_map]
  exact congrArg _ (List.map_id' _)

/-- **The group of a file are the findings in it, sorted.** -/
theorem groups_eq (fs : List Finding) :
    groups fs = (files fs).map fun file => (file, sort (fs.filter (IsIn file))) := by
  unfold groups
  apply List.map_congr_left
  intro file hfile
  rw [files_eq, mem_sortBy] at hfile
  rw [byFile_eq, lookup?_map, if_pos hfile]
  rfl

/-! ## Reports of sorted findings -/

theorem files_eq_of_perm {fs gs : List Finding} (h : fs.Perm gs) : files fs = files gs := by
  rw [files_eq, files_eq]
  apply sortBy_eq_of_perm fileLe_trans fileLe_total fileLe_antisymm
  apply (List.perm_ext_iff_of_nodup (nodup_eraseDups _) (nodup_eraseDups _)).2
  intro file
  rw [List.mem_eraseDups, List.mem_eraseDups]
  exact (h.flatMap_right Finding.distinctFiles).mem_iff

/-- **Groups do not show whether findings have been sorted.** -/
theorem groups_sort (fs : List Finding) : groups (sort fs) = groups fs := by
  rw [groups_eq, groups_eq, files_eq_of_perm (sort_perm fs)]
  apply List.map_congr_left
  intro file _
  rw [← sort_filter, sort_sort]

theorem sectionLines_sort (name : Text) (fs : List Finding) :
    sectionLines name (sort fs) = sectionLines name fs := by
  have hlength : (sort fs).length = fs.length := (sort_perm fs).length_eq
  have hempty : (sort fs).isEmpty = fs.isEmpty := by
    rw [Bool.eq_iff_iff, List.isEmpty_iff_length_eq_zero, List.isEmpty_iff_length_eq_zero, hlength]
  unfold sectionLines
  rw [groups_sort, hlength, hempty]

theorem text_sorted (title : Text) (r : Findings) :
    text title (Pipeline.sorted r) = text title r := by
  unfold text lines Pipeline.sorted
  rw [sectionLines_sort, sectionLines_sort]

end Report

namespace Pipeline

theorem total_sorted (r : Findings) : (sorted r).total = r.total := by
  unfold sorted Findings.total
  rw [(Report.sort_perm _).length_eq, (Report.sort_perm _).length_eq]

theorem sorted_sorted (r : Findings) : sorted (sorted r) = sorted r := by
  unfold sorted
  rw [Report.sort_sort, Report.sort_sort]

theorem sorted_shown (p : FindingFilter) (r : Findings) :
    sorted (p.shown r) = p.shown (sorted r) := by
  unfold sorted FindingFilter.shown
  rw [Report.sort_filter, Report.sort_filter]

theorem value_apply (p : FindingFilter) (r : Findings) : (p.apply r).value = p.shown r := by
  unfold FindingFilter.apply
  by_cases h : r.total - (p.shown r).total = 0
  · simp only [h, ne_eq, not_true_eq_false, if_false]
    rfl
  · simp only [h, ne_eq, not_false_eq_true, if_true]
    rfl

/-- The entry about what is hidden is the same for sorted findings. -/
theorem log_apply_sorted (p : FindingFilter) (r : Findings) :
    (p.apply (sorted r)).log = (p.apply r).log := by
  have hhidden : (sorted r).total - (p.shown (sorted r)).total = r.total - (p.shown r).total := by
    rw [← sorted_shown, total_sorted, total_sorted]
  unfold FindingFilter.apply
  simp only [hhidden]
  by_cases h : r.total - (p.shown r).total = 0
  · simp only [h, ne_eq, not_true_eq_false, if_false]
    rfl
  · simp only [h, ne_eq, not_false_eq_true, if_true]
    rfl

/-- **A run that finds its findings sorted** publishes the same, down to the log. -/
theorem publish_sorted (ws : Workspace) (p : FindingFilter) (stamp : Text) (tally : Tally)
    (r : Findings) : publish ws p stamp tally (sorted r) = publish ws p stamp tally r := by
  have hvalue : sorted (p.apply (sorted r)).value = sorted (p.apply r).value := by
    rw [value_apply, value_apply, ← sorted_shown, sorted_sorted]
  have hlengths : (sorted r).vulnerabilities.length = r.vulnerabilities.length ∧
      (sorted r).lint.length = r.lint.length :=
    ⟨(Report.sort_perm _).length_eq, (Report.sort_perm _).length_eq⟩
  unfold publish
  rw [hlengths.1, hlengths.2]
  show Logged.bind _ (fun _ => Logged.bind _ _) = Logged.bind _ (fun _ => Logged.bind _ _)
  unfold Logged.bind
  simp only [hvalue, log_apply_sorted]

end Pipeline

/-! ## Top theorem -/

/-- **The stages of a run commute.**  Filtered findings that are sorted are sorted findings that are
filtered; a report shows neither whether findings have been sorted; and a run whose findings are
sorted already publishes what it would publish without. -/
theorem Report.stages_commute (p : FindingFilter) (r : Findings) :
    Pipeline.sorted (p.apply r).value = (p.apply (Pipeline.sorted r)).value ∧
    (∀ title, Report.text title (Pipeline.sorted r) = Report.text title r) ∧
    ∀ ws stamp tally,
      Pipeline.publish ws p stamp tally (Pipeline.sorted r) =
        Pipeline.publish ws p stamp tally r := by
  refine ⟨?_, fun title => text_sorted title r, fun ws stamp tally => ?_⟩
  · rw [Pipeline.value_apply, Pipeline.value_apply, Pipeline.sorted_shown]
  · exact Pipeline.publish_sorted ws p stamp tally r

end ContractAudit
