import ContractAudit.Proofs.LintJson
import ContractAudit.Proofs.MarkedLines
import ContractAudit.Proofs.Numbering
import ContractAudit.Proofs.ReportGroups

/-!
# The lines of a report

The header of a group begins with one mark, the entry of a finding with another.  Titles, rules,
messages of issues and names of files go into these lines as they are.  A report whose lines are
read back shows its groups and entries if no such text has a line break with a mark behind it; if
one has, there is a header of no group or an entry of no finding.

    marked m (text title r) = those of the title, headers and entries   (marked_text)
    the entry of a vulnerability is quiet ↔ title ++ " " is             (quiet_vulnerabilityLine)
    the entry of an issue is quiet ↔ its rule and its message are       (quiet_lintLine)
    the report shows what it lists ↔ all its texts are harmless         (shows_iff)
-/

namespace ContractAudit.Report

open ContractAudit.Text (Inline Quiet IsMark marked firstLine inline_append inline_cons)

/-! ## Marks -/

/-- What the header of a group begins with. -/
def groupMark : Text := "### "

/-- What the entry of a finding begins with. -/
def entryMark : Text := "- **["

def marks : List Text := [groupMark, entryMark]

theorem isMark_of_mem {m : Text} (hm : m ∈ marks) : IsMark m := by
  have hall : ∀ m ∈ marks, m ≠ [] ∧ Inline m := by decide
  exact ⟨(hall m hm).1, (hall m hm).2⟩

/-- No line of the text behind its first one begins like a header or an entry. -/
def Silent (t : Text) : Prop := ∀ m ∈ marks, Quiet m t

/-- The line that opens the entry of a finding in the group of a file. -/
def entryText (file : Text) (f : Finding) : Text :=
  match f.kind with
  | .lint => lintLine file f
  | .vulnerability => vulnerabilityLine file f

/-! ## Texts that the program writes itself -/

theorem inline_ofInt (n : Int) : Inline (Decimal.ofInt n) := fun c hc =>
  not_isLineBreak_of_isPrintableAscii (List.all_eq_true.1 (Json.isPrintableAscii_ofInt n) c hc)

theorem inline_place (ranges : List LineRange) : Inline (place ranges) := by
  have htext : ∀ r : LineRange, Inline r.text := by
    intro r
    unfold LineRange.text
    split
    · exact inline_ofInt _
    · rw [inline_append, inline_append]
      exact ⟨⟨inline_ofInt _, by decide⟩, inline_ofInt _⟩
  unfold place
  split
  · decide
  · rw [inline_append]
    refine ⟨by decide, Text.inline_join (by decide) fun t ht => ?_⟩
    obtain ⟨r, -, rfl⟩ := List.mem_map.1 ht
    exact htext r

theorem inline_columnMark (f : Finding) (ranges : List LineRange) :
    Inline (columnMark f ranges) := by
  unfold columnMark
  split
  · exact Text.inline_nil
  · split
    · exact Text.inline_nil
    · exact inline_cons.2 ⟨rfl, inline_ofInt _⟩

theorem inline_levelLabel (f : Finding) : Inline f.levelLabel := by
  unfold Finding.levelLabel
  cases f.lintSeverity.getD .unknown <;> decide

theorem inline_categoryLabel (f : Finding) : Inline f.categoryLabel := by
  unfold Finding.categoryLabel
  cases f.category.getD .miscellaneous <;> decide

theorem inline_severity (s : Severity) : Inline (label s) := by cases s <;> decide

theorem inline_confidence (s : Confidence) : Inline (label s) := by cases s <;> decide

/-! ## Entries -/

theorem entryText_begins (file : Text) (f : Finding) : entryMark <+: entryText file f := by
  unfold entryText
  cases f.kind with
  | lint =>
    unfold lintLine
    simp only [List.append_assoc]
    exact List.prefix_append _ _
  | vulnerability =>
    unfold vulnerabilityLine
    simp only [List.append_assoc]
    exact List.prefix_append _ _

theorem entryText_not_group (file : Text) (f : Finding) : ¬ groupMark <+: entryText file f := by
  intro h
  have hhead := List.prefix_of_prefix_length_le h (entryText_begins file f) (by decide)
  exact absurd hhead (by decide)

section
variable {m : Text} (hm : m ∈ marks) (file : Text) (f : Finding)
include hm

/-- The title of a vulnerability is followed by a blank, which may end a mark. -/
theorem quiet_vulnerabilityLine :
    Quiet m (vulnerabilityLine file f) ↔ Quiet m (f.title ++ " ".toList) := by
  have hparen : '(' ∉ m := (by decide : ∀ m ∈ marks, '(' ∉ m) m hm
  have hfront : Inline ("- **[".toList ++ label f.severity ++ "]** ".toList) := by
    rw [inline_append, inline_append]
    exact ⟨⟨by decide, inline_severity _⟩, by decide⟩
  have hback : Inline ('(' :: ("confidence: ".toList ++ label f.confidence ++ "), ".toList
      ++ place (rangesIn file f))) := by
    rw [inline_cons, inline_append, inline_append, inline_append]
    exact ⟨rfl, ⟨⟨by decide, inline_confidence _⟩, by decide⟩, inline_place _⟩
  have hline : vulnerabilityLine file f =
      ("- **[".toList ++ label f.severity ++ "]** ".toList) ++
        ((f.title ++ " ".toList) ++ '(' :: ("confidence: ".toList ++ label f.confidence
          ++ "), ".toList ++ place (rangesIn file f))) := by
    unfold vulnerabilityLine
    simp [List.append_assoc]
  rw [hline, Text.quiet_inline_append hfront, Text.quiet_append_cons hparen]
  exact and_iff_left (hback.quiet m)

theorem quiet_lintLine :
    Quiet m (lintLine file f) ↔ Quiet m f.ruleOrTitle ∧ Quiet m f.message := by
  have hquote : '\x60' ∉ m := (by decide : ∀ m ∈ marks, '\x60' ∉ m) m hm
  have hfront : Inline ("- **[".toList ++ f.levelLabel ++ "]** `".toList) := by
    rw [inline_append, inline_append]
    exact ⟨⟨by decide, inline_levelLabel f⟩, by decide⟩
  have hmiddle : Inline ('\x60' :: (" (".toList ++ f.categoryLabel ++ "), ".toList
      ++ place (rangesIn file f) ++ columnMark f (rangesIn file f) ++ ": ".toList)) := by
    rw [inline_cons, inline_append, inline_append, inline_append, inline_append, inline_append]
    exact ⟨rfl, ⟨⟨⟨⟨by decide, inline_categoryLabel f⟩, by decide⟩, inline_place _⟩,
      inline_columnMark f _⟩, by decide⟩
  have hline : lintLine file f =
      ("- **[".toList ++ f.levelLabel ++ "]** `".toList) ++
        (f.ruleOrTitle ++ '\x60' :: ((" (".toList ++ f.categoryLabel ++ "), ".toList
          ++ place (rangesIn file f) ++ columnMark f (rangesIn file f) ++ ": ".toList)
            ++ f.message)) := by
    unfold lintLine
    simp [List.append_assoc]
  rw [hline, Text.quiet_inline_append hfront, Text.quiet_append_cons hquote, ← List.cons_append,
    Text.quiet_inline_append hmiddle]

end

/-! ## The marked lines of a report -/

section
variable {m : Text} (hm : m ∈ marks)
include hm

/-- What begins otherwise than the marks do begins with none. -/
theorem not_prefix_append {start : Text} (hstart : ∀ m ∈ marks, ¬ m <+: start ∧ ¬ start <+: m)
    (rest : Text) : ¬ m <+: start ++ rest := by
  intro h
  rcases List.prefix_or_prefix_of_prefix h (List.prefix_append start rest) with hs | hs
  · exact (hstart m hm).1 hs
  · exact (hstart m hm).2 hs

/-- Lines of a message of a vulnerability are indented. -/
theorem marked_messageLines (message : Text) : (messageLines message).flatMap (marked m) = [] := by
  refine List.flatMap_eq_nil_iff.2 fun t ht => ?_
  obtain ⟨l, hl, rfl⟩ := List.mem_map.1 ht
  have hinline : Inline l := Text.inline_of_mem_lines (List.mem_of_mem_filter hl)
  apply Text.marked_eq_nil_of_inline
  · exact inline_append.2 ⟨by decide, hinline⟩
  · exact not_prefix_append hm (by decide) l

theorem marked_findingLines (file : Text) (f : Finding) :
    (findingLines file f).flatMap (marked m) = marked m (entryText file f) := by
  unfold findingLines entryText
  cases f.kind with
  | lint => exact List.flatMap_singleton _ _
  | vulnerability =>
    simp only [List.flatMap_cons]
    rw [marked_messageLines hm, List.append_nil]

theorem marked_groupLines (g : Text × List Finding) :
    (groupLines g).flatMap (marked m) =
      marked m (groupMark ++ g.1) ++ g.2.flatMap fun f => marked m (entryText g.1 f) := by
  unfold groupLines
  rw [List.flatMap_append, List.flatMap_cons, List.flatMap_assoc]
  simp only [marked_findingLines hm]
  exact List.append_nil _

theorem marked_sectionLines {name : Text} (hname : Inline name) (fs : List Finding) :
    (sectionLines name fs).flatMap (marked m) =
      (groups fs).flatMap fun g =>
        marked m (groupMark ++ g.1) ++ g.2.flatMap fun f => marked m (entryText g.1 f) := by
  have hhead : marked m ("## ".toList ++ name ++ " (".toList ++ Decimal.digits fs.length
      ++ ")".toList) = [] := by
    apply Text.marked_eq_nil_of_inline
    · rw [inline_append, inline_append, inline_append, inline_append]
      exact ⟨⟨⟨⟨by decide, hname⟩, by decide⟩, inline_ofInt fs.length⟩, by decide⟩
    · simp only [List.append_assoc]
      exact not_prefix_append hm (by decide) _
  have hnone : marked m "No issues found.".toList = [] := by
    apply Text.marked_eq_nil_of_inline (by decide)
    exact (by decide : ∀ m ∈ marks, ¬ m <+: "No issues found.".toList) m hm
  unfold sectionLines
  rw [List.flatMap_cons, hhead]
  cases fs with
  | nil =>
    simp only [List.isEmpty_nil, if_true, List.flatMap_cons, hnone]
    rfl
  | cons f fs =>
    simp only [List.isEmpty_cons, Bool.false_eq_true, if_false, List.flatMap_cons,
      List.flatMap_assoc, marked_groupLines hm]
    rfl

/-- **The marked lines of a report** are those of its title, of its headers and of its entries. -/
theorem marked_text (title : Text) (r : Findings) :
    marked m (text title r) = marked m ("# ".toList ++ title) ++
      (groups r.vulnerabilities ++ groups r.lint).flatMap fun g =>
        marked m (groupMark ++ g.1) ++ g.2.flatMap fun f => marked m (entryText g.1 f) := by
  unfold text lines
  rw [Text.marked_join (isMark_of_mem hm), List.flatMap_cons, List.flatMap_cons,
    List.flatMap_append, marked_sectionLines hm (by decide), marked_sectionLines hm (by decide),
    List.flatMap_append]
  rfl

end

/-! ## What a report shows -/

/-- The findings of both sections, each with the file under which it is listed. -/
def listed (r : Findings) : List (Text × Finding) := entries r.vulnerabilities ++ entries r.lint

/-- Among the lines of a report, those that begin like headers are the headers of the groups, and
those that begin like entries are the beginnings of the entries, one for each finding and each
distinct file of its locations. -/
structure Shows (ls : List Text) (r : Findings) : Prop where
  headers : ls.filter (Text.startsWith groupMark) =
    (groups r.vulnerabilities ++ groups r.lint).map fun g => groupMark ++ g.1
  entries : ∃ es : List (Text × Finding),
    es.Perm (r.all.flatMap fun f => f.distinctFiles.map fun file => (file, f)) ∧
    List.Forall₂ (fun l e => l <+: entryText e.1 e.2) (ls.filter (Text.startsWith entryMark)) es

/-- No text of the finding makes a line begin like a header or an entry. -/
structure IsHarmless (f : Finding) : Prop where
  files : ∀ l ∈ f.locations, Inline l.file
  title : f.kind = .vulnerability → Silent (f.title ++ " ".toList)
  rule : f.kind = .lint → Silent f.ruleOrTitle
  message : f.kind = .lint → Silent f.message

/-- What goes into the entry of a finding is silent if the entry is, under any file. -/
theorem silent_entryText_iff {file : Text} {f : Finding} :
    Silent (entryText file f) ↔
      (f.kind = .vulnerability → Silent (f.title ++ " ".toList)) ∧
        (f.kind = .lint → Silent f.ruleOrTitle ∧ Silent f.message) := by
  unfold entryText
  cases hk : f.kind with
  | lint =>
    have hline : Silent (lintLine file f) ↔ Silent f.ruleOrTitle ∧ Silent f.message := by
      unfold Silent
      rw [← forall₂_and]
      exact forall₂_congr fun m hm => quiet_lintLine hm file f
    simpa using hline
  | vulnerability =>
    have hline : Silent (vulnerabilityLine file f) ↔ Silent (f.title ++ " ".toList) :=
      forall₂_congr fun m hm => quiet_vulnerabilityLine hm file f
    simpa using hline

theorem isHarmless_iff {f : Finding} (file : Text) :
    IsHarmless f ↔ (∀ l ∈ f.locations, Inline l.file) ∧ Silent (entryText file f) := by
  rw [silent_entryText_iff]
  constructor
  · intro h
    exact ⟨h.files, h.title, fun hk => ⟨h.rule hk, h.message hk⟩⟩
  · rintro ⟨hfiles, htitle, hlint⟩
    exact ⟨hfiles, htitle, fun hk => (hlint hk).1, fun hk => (hlint hk).2⟩

/-! ## Listed findings -/

theorem listed_perm (r : Findings) :
    (listed r).Perm (r.all.flatMap fun f => f.distinctFiles.map fun file => (file, f)) := by
  unfold listed Findings.all
  rw [List.flatMap_append]
  exact (entries_perm _).append (entries_perm _)

theorem mem_listed_iff {r : Findings} {file : Text} {f : Finding} :
    (file, f) ∈ listed r ↔ f ∈ r.all ∧ IsIn file f := by
  rw [(listed_perm r).mem_iff, List.mem_flatMap]
  constructor
  · rintro ⟨g, hg, hmem⟩
    obtain ⟨file', hfile, heq⟩ := List.mem_map.1 hmem
    obtain ⟨rfl, rfl⟩ := Prod.mk.inj heq
    exact ⟨hg, mem_distinctFiles_iff.1 hfile⟩
  · rintro ⟨hf, hfile⟩
    exact ⟨f, hf, List.mem_map_of_mem (mem_distinctFiles_iff.2 hfile)⟩

/-- The entries of all groups are those of the listed findings. -/
theorem flatMap_marked_entryText (m : Text) (r : Findings) :
    ((groups r.vulnerabilities ++ groups r.lint).flatMap fun g =>
      g.2.flatMap fun f => marked m (entryText g.1 f)) =
        (listed r).flatMap fun e => marked m (entryText e.1 e.2) := by
  unfold listed entries
  simp only [List.flatMap_append, List.flatMap_assoc, List.flatMap_map]

theorem mem_map_groups_iff {r : Findings} {file : Text} :
    file ∈ (groups r.vulnerabilities ++ groups r.lint).map (·.1) ↔ ∃ f ∈ r.all, IsIn file f := by
  unfold Findings.all
  rw [List.map_append, List.mem_append, map_fst_groups, map_fst_groups, mem_files_iff,
    mem_files_iff]
  simp only [List.mem_append, or_and_right, exists_or]

/-- The names of groups are one line each if and only if all names of files are. -/
theorem inline_groups_iff {r : Findings} :
    (∀ g ∈ groups r.vulnerabilities ++ groups r.lint, Inline g.1) ↔
      ∀ f ∈ r.all, ∀ l ∈ f.locations, Inline l.file := by
  constructor
  · intro h f hf l hl
    obtain ⟨g, hg, hfile⟩ := List.mem_map.1 (mem_map_groups_iff.2 ⟨f, hf, l, hl, rfl⟩)
    rw [← hfile]
    exact h g hg
  · intro h g hg
    obtain ⟨f, hf, l, hl, hfile⟩ := mem_map_groups_iff.1 (List.mem_map_of_mem hg)
    rw [← hfile]
    exact h f hf l hl

theorem mem_listed_of_mem_group {r : Findings} {g : Text × List Finding} {f : Finding}
    (hg : g ∈ groups r.vulnerabilities ++ groups r.lint) (hf : f ∈ g.2) : (g.1, f) ∈ listed r := by
  unfold listed entries
  rw [← List.flatMap_append, List.mem_flatMap]
  exact ⟨g, hg, List.mem_map_of_mem hf⟩

/-! ## Headers and entries -/

theorem silent_iff {t : Text} : Silent t ↔ Quiet groupMark t ∧ Quiet entryMark t := by
  unfold Silent marks
  simp only [List.forall_mem_cons, List.not_mem_nil, false_implies, implies_true, and_true]

/-- The first line of an entry is marked as one, and others may be. -/
theorem marked_entryText (file : Text) (f : Finding) :
    marked entryMark (entryText file f) =
      firstLine (entryText file f) :: (marked entryMark (entryText file f)).tail := by
  obtain ⟨others, hmarked, -⟩ :=
    Text.exists_marked_eq_cons (isMark_of_mem (by decide)) (entryText_begins file f)
  rw [hmarked, List.tail_cons]

theorem silent_iff_marked {file : Text} {f : Finding} :
    Silent (entryText file f) ↔
      marked groupMark (entryText file f) = [] ∧
        (marked entryMark (entryText file f)).tail = [] := by
  obtain ⟨others, hmarked, hothers⟩ :=
    Text.exists_marked_eq_cons (isMark_of_mem (by decide)) (entryText_begins file f)
  have hgroup := Text.marked_eq_nil_iff (isMark_of_mem (by decide)) (entryText_not_group file f)
  rw [silent_iff, hgroup, hmarked, List.tail_cons, hothers]

theorem marked_title {m : Text} (hm : m ∈ marks) {title : Text} :
    marked m ("# ".toList ++ title) = [] ↔ Quiet m title := by
  rw [Text.marked_eq_nil_iff (isMark_of_mem hm) (not_prefix_append hm (by decide) title),
    Text.quiet_inline_append (by decide)]

section
variable (title : Text) {r : Findings}
  (hfiles : ∀ g ∈ groups r.vulnerabilities ++ groups r.lint, Inline g.1)
include hfiles

theorem marked_groupMark_text :
    marked groupMark (text title r) = marked groupMark ("# ".toList ++ title) ++
      (groups r.vulnerabilities ++ groups r.lint).flatMap fun g =>
        (groupMark ++ g.1) :: g.2.flatMap fun f => marked groupMark (entryText g.1 f) := by
  have hm : groupMark ∈ marks := by decide
  rw [marked_text hm]
  congr 1
  refine List.flatMap_congr fun g hg => ?_
  have hinline : Inline (groupMark ++ g.1) := inline_append.2 ⟨by decide, hfiles g hg⟩
  rw [Text.marked_of_inline (isMark_of_mem hm) hinline (List.prefix_append _ _),
    List.singleton_append]

theorem marked_entryMark_text :
    marked entryMark (text title r) = marked entryMark ("# ".toList ++ title) ++
      (listed r).flatMap fun e => marked entryMark (entryText e.1 e.2) := by
  have hm : entryMark ∈ marks := by decide
  rw [marked_text hm, ← flatMap_marked_entryText]
  congr 1
  refine List.flatMap_congr fun g hg => ?_
  have hinline : Inline (groupMark ++ g.1) := inline_append.2 ⟨by decide, hfiles g hg⟩
  have hno : ¬ entryMark <+: groupMark ++ g.1 := by
    intro h
    rcases List.prefix_or_prefix_of_prefix h (List.prefix_append groupMark g.1) with hp | hp
    · exact absurd hp (by decide)
    · exact absurd hp (by decide)
  rw [Text.marked_eq_nil_of_inline hinline hno, List.nil_append]

end

theorem length_flatMap_cons {α β : Type} (h : α → β) (t : α → List β) (xs : List α) :
    (xs.flatMap fun x => h x :: t x).length = xs.length + (xs.flatMap t).length := by
  induction xs with
  | nil => rfl
  | cons x xs ih =>
    simp only [List.flatMap_cons, List.length_append, List.length_cons, ih]
    omega

section
variable {title : Text} {r : Findings}

theorem shows_of_isHarmless (htitle : Silent title) (hr : ∀ f ∈ r.all, IsHarmless f) :
    Shows (Text.lines (text title r)) r := by
  have hfiles := inline_groups_iff.2 fun f hf => (hr f hf).files
  have hentry : ∀ e ∈ listed r, marked groupMark (entryText e.1 e.2) = [] ∧
      (marked entryMark (entryText e.1 e.2)).tail = [] := by
    intro e he
    have hf := (mem_listed_iff.1 he).1
    exact silent_iff_marked.1 ((isHarmless_iff e.1).1 (hr e.2 hf)).2
  have hquiet := silent_iff.1 htitle
  constructor
  · show marked groupMark (text title r) = _
    rw [marked_groupMark_text title hfiles, (marked_title (by decide)).2 hquiet.1, List.nil_append,
      List.map_eq_flatMap]
    refine List.flatMap_congr fun g hg => ?_
    rw [List.flatMap_eq_nil_iff.2 fun f hf => (hentry _ (mem_listed_of_mem_group hg hf)).1]
  · refine ⟨listed r, listed_perm r, ?_⟩
    have hfirst : marked entryMark (text title r) =
        (listed r).map fun e => firstLine (entryText e.1 e.2) := by
      rw [marked_entryMark_text title hfiles, (marked_title (by decide)).2 hquiet.2,
        List.nil_append, List.map_eq_flatMap]
      refine List.flatMap_congr fun e he => ?_
      rw [marked_entryText, (hentry e he).2]
    show List.Forall₂ _ (marked entryMark (text title r)) (listed r)
    rw [hfirst, List.forall₂_map_left_iff]
    exact List.forall₂_same.2 fun e _ => Text.firstLine_begins _

/-- There are as many headers as groups, so that nothing else begins like one. -/
theorem quiet_groupMark_of_shows (h : Shows (Text.lines (text title r)) r)
    (hfiles : ∀ g ∈ groups r.vulnerabilities ++ groups r.lint, Inline g.1) :
    Quiet groupMark title ∧ ∀ e ∈ listed r, marked groupMark (entryText e.1 e.2) = [] := by
  have hlength : (marked groupMark (text title r)).length =
      (groups r.vulnerabilities ++ groups r.lint).length := by
    rw [show marked groupMark (text title r) = _ from h.headers, List.length_map]
  rw [marked_groupMark_text title hfiles, List.length_append, length_flatMap_cons,
    flatMap_marked_entryText] at hlength
  have htitle : marked groupMark ("# ".toList ++ title) = [] :=
    List.length_eq_zero_iff.1 (by omega)
  have hentries : ((listed r).flatMap fun e => marked groupMark (entryText e.1 e.2)) = [] :=
    List.length_eq_zero_iff.1 (by omega)
  exact ⟨(marked_title (by decide)).1 htitle, List.flatMap_eq_nil_iff.1 hentries⟩

/-- There are as many entries as listed findings, so that nothing else begins like one. -/
theorem quiet_entryMark_of_shows (h : Shows (Text.lines (text title r)) r)
    (hfiles : ∀ g ∈ groups r.vulnerabilities ++ groups r.lint, Inline g.1) :
    Quiet entryMark title ∧
      ∀ e ∈ listed r, (marked entryMark (entryText e.1 e.2)).tail = [] := by
  obtain ⟨es, hperm, hes⟩ := h.entries
  have hlength : (marked entryMark (text title r)).length = (listed r).length :=
    hes.length_eq.trans (hperm.trans (listed_perm r).symm).length_eq
  rw [marked_entryMark_text title hfiles, List.length_append,
    List.flatMap_congr fun e _ => marked_entryText e.1 e.2, length_flatMap_cons] at hlength
  have htitle : marked entryMark ("# ".toList ++ title) = [] :=
    List.length_eq_zero_iff.1 (by omega)
  have hentries : ((listed r).flatMap fun e =>
      (marked entryMark (entryText e.1 e.2)).tail) = [] := List.length_eq_zero_iff.1 (by omega)
  exact ⟨(marked_title (by decide)).1 htitle, List.flatMap_eq_nil_iff.1 hentries⟩

theorem isHarmless_of_shows (h : Shows (Text.lines (text title r)) r) :
    Silent title ∧ ∀ f ∈ r.all, IsHarmless f := by
  -- what is read off as a header is one line, and so is the name of each file
  have hfiles : ∀ g ∈ groups r.vulnerabilities ++ groups r.lint, Inline g.1 := by
    intro g hg
    have hmem : groupMark ++ g.1 ∈ marked groupMark (text title r) := by
      rw [show marked groupMark (text title r) = _ from h.headers]
      exact List.mem_map_of_mem hg
    exact (inline_append.1 (Text.inline_of_mem_lines (List.mem_of_mem_filter hmem))).2
  obtain ⟨hgroupTitle, hgroup⟩ := quiet_groupMark_of_shows h hfiles
  obtain ⟨hentryTitle, hentry⟩ := quiet_entryMark_of_shows h hfiles
  refine ⟨silent_iff.2 ⟨hgroupTitle, hentryTitle⟩, fun f hf => ?_⟩
  have hinline := inline_groups_iff.1 hfiles f hf
  obtain ⟨l, hl⟩ := List.exists_mem_of_ne_nil _ f.locations_ne_nil
  have he : (l.file, f) ∈ listed r := mem_listed_iff.2 ⟨hf, l, hl, rfl⟩
  exact (isHarmless_iff l.file).2 ⟨hinline, silent_iff_marked.2 ⟨hgroup _ he, hentry _ he⟩⟩

end

/-! ## Top theorem -/

/-- **When a report shows what it lists.**  Its headers and entries can be read off its lines if and
only if none of the texts that go into them as they are has a line break with a mark behind it; a
name of a file may hold no line break at all.  Messages of vulnerabilities may hold anything. -/
theorem shows_iff (title : Text) (r : Findings) :
    Shows (Text.lines (text title r)) r ↔ Silent title ∧ ∀ f ∈ r.all, IsHarmless f :=
  ⟨isHarmless_of_shows, fun h => shows_of_isHarmless h.1 h.2⟩

/-- A title of the service opens a group that there is not, and a message of an issue an entry. -/
theorem reply_forges_header_and_entry :
    let r : Record.Response :=
      { result := some [.obj [("title", .str "x\n### B.sol")]]
        linter := some (.list [.obj [("message", .str "y\n- **[Error]** z")]]) }
    ∃ found : Findings, (Normalization.ofResponse 1 true r).value.outcome = .ok found ∧
      (Text.lines (text defaultTitle found)).filter (Text.startsWith groupMark) =
        ["### Unknown".toList, "### B.sol (confidence: Unknown), unknown location".toList,
          "### Unknown".toList] ∧
      ((Text.lines (text defaultTitle found)).filter (Text.startsWith entryMark)).length = 3 ∧
      found.all.length = 2 ∧ ¬ Shows (Text.lines (text defaultTitle found)) found := by
  intro r
  have hfound : (Normalization.ofResponse 1 true r).value.outcome = .ok ⟨[_], [_]⟩ := rfl
  refine ⟨_, hfound, by decide +kernel, by decide +kernel, rfl, fun h => ?_⟩
  exact absurd h.headers (by decide +kernel)

end ContractAudit.Report
