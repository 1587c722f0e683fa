import ContractAudit.Proofs.LintGrammar
import ContractAudit.Proofs.Normalization
import ContractAudit.Proofs.Numbering

/-!
# The levels of issues in the linter's text

The severity of an issue line is one of three key words in any letter case, and its finding has the
level of the word, as long as the small form of what is written there is the word.  Two letters
beyond ASCII are taken for an i and have another small form, so that a line with one of them is an
issue whose level is unknown.

    a key word in letters of either case has the word as its small form
                                                            (lower_of_isCased)
    a severity is such a word, or one of the two letters is in it and it names no level
                                                            (isCased_or_other, ofWord?_eq_none)
    the findings of the issue lines, one for each in order  (forall₂_lint)
    all of them have a known level ↔ no severity holds U+0130 or U+0131
                                                            (forall_isRated_iff)
-/

namespace ContractAudit

open Record (LintRecord)

/-! ## Levels -/

namespace Finding

/-- The issue has one of the three levels that a linter names, and the severity that goes with it
on the scale of all findings. -/
inductive IsRated (f : Finding) : Prop
  | error : f.lintSeverity = some .error → f.severity = .medium → IsRated f
  | warning : f.lintSeverity = some .warning → f.severity = .low → IsRated f
  | info : f.lintSeverity = some .info → f.severity = .informational → IsRated f

/-- The issue has the level that is no level. -/
structure IsUnrated (f : Finding) : Prop where
  level : f.lintSeverity = some .unknown
  severity : f.severity = .unknown

theorem IsUnrated.not_isRated {f : Finding} (h : f.IsUnrated) : ¬ f.IsRated := by
  intro hr
  cases hr with
  | error hlevel => cases h.level.symm.trans hlevel
  | warning hlevel => cases h.level.symm.trans hlevel
  | info hlevel => cases h.level.symm.trans hlevel

end Finding

namespace LintText

/-- The word, each letter small or capital. -/
def IsCased (word token : Text) : Prop :=
  List.Forall₂ (fun small c => c = small ∨ c = small.toUpper) word token

/-- The severity as it is written names the level. -/
inductive NamesLevel (token : Text) : LintSeverity → Prop
  | error : IsCased "error" token → NamesLevel token .error
  | warning : IsCased "warning" token → NamesLevel token .warning
  | info : IsCased "info" token → NamesLevel token .info

/-- The letter counts as an i and is none of ASCII: it has a dot as a capital or none as a small
letter. -/
def IsOtherI (c : Char) : Prop := c = '\u0130' ∨ c = '\u0131'

instance (c : Char) : Decidable (IsOtherI c) :=
  inferInstanceAs (Decidable (_ ∨ _))

/-- What becomes of the severity as it is written. -/
inductive HasLevel (token : Text) (f : Finding) : Prop
  | named {level : LintSeverity} : NamesLevel token level → f.lintSeverity = some level →
      f.severity = level.severity → HasLevel token f
  | missed {c : Char} : c ∈ token → IsOtherI c → f.IsUnrated → HasLevel token f

/-! ## Letters -/

/-- The letters of the key words. -/
def letters : List Char := severityWords.flatten

theorem mem_letters {word : Text} (h : word ∈ severityWords) {small : Char} (hs : small ∈ word) :
    small ∈ letters :=
  List.mem_flatten_of_mem h hs

/-- What holds of all the letters is checked letter by letter. -/
theorem forall_letters {P : Char → Prop} [DecidablePred P]
    (h : letters.all (fun small => P small) = true) : ∀ small ∈ letters, P small :=
  fun small hs => of_decide_eq_true (List.all_eq_true.1 h small hs)

theorem eq_of_lowerChar {small c : Char} (hs : small ∈ letters)
    (h : Text.lowerChar c = [small]) : c = small ∨ c = small.toUpper := by
  unfold Text.lowerChar at h
  split at h
  · next hc =>
    have hall : ∀ small ∈ letters, ∀ n ∈ List.range' 65 26,
        [Char.ofNat (n + 32)] = [small] → Char.ofNat n = small.toUpper :=
      forall_letters (by decide +kernel)
    have hmem : c.toNat ∈ List.range' 65 26 := by
      simp only [Bool.and_eq_true, decide_eq_true_eq] at hc
      rw [List.mem_range'_1]
      omega
    refine Or.inr ?_
    rw [← hall small hs c.toNat hmem h, Char.ofNat_toNat]
  · split at h
    · obtain rfl := (List.cons.inj h).1
      exact absurd hs (by decide)
    · split at h
      · cases (List.cons.inj h).2
      · exact Or.inl (List.cons.inj h).1

theorem lowerChar_of_isCased {small c : Char} (hs : small ∈ letters)
    (h : c = small ∨ c = small.toUpper) : Text.lowerChar c = [small] := by
  have hall : ∀ small ∈ letters, Text.lowerChar small = [small] ∧
      Text.lowerChar small.toUpper = [small] := forall_letters (by decide +kernel)
  rcases h with rfl | rfl
  · exact (hall c hs).1
  · exact (hall small hs).2

/-- A letter of a key word is written as itself in one of its cases, or as one of the two that are
taken for an i. -/
theorem sameLetter_cases {small c : Char} (hs : small ∈ letters)
    (h : Text.sameLetter small c = true) : (c = small ∨ c = small.toUpper) ∨ IsOtherI c := by
  simp only [Text.sameLetter, Bool.or_eq_true, Bool.and_eq_true, beq_iff_eq] at h
  rcases h with h | ⟨-, h | h⟩
  · exact Or.inl (eq_of_lowerChar hs h)
  · exact Or.inr (Or.inl (Char.toNat_inj.1 h))
  · exact Or.inr (Or.inr (Char.toNat_inj.1 h))

theorem isCased_or_other {word token : Text} (hw : ∀ small ∈ word, small ∈ letters)
    (h : List.Forall₂ (fun small c => Text.sameLetter small c = true) word token) :
    IsCased word token ∨ ∃ c ∈ token, IsOtherI c := by
  induction h with
  | nil => exact Or.inl .nil
  | cons hc _ ih =>
    obtain ⟨hsmall, hw⟩ := List.forall_mem_cons.1 hw
    rcases sameLetter_cases hsmall hc with hcased | hother
    · rcases ih hw with hrest | ⟨d, hd, hother⟩
      · exact Or.inl (.cons hcased hrest)
      · exact Or.inr ⟨d, List.mem_cons_of_mem _ hd, hother⟩
    · exact Or.inr ⟨_, List.mem_cons_self, hother⟩

/-- The small form of a key word is the word. -/
theorem lower_of_isCased {word token : Text} (hw : ∀ small ∈ word, small ∈ letters)
    (h : IsCased word token) : Text.lower token = word := by
  induction h with
  | nil => rfl
  | cons hc _ ih =>
    obtain ⟨hsmall, hw⟩ := List.forall_mem_cons.1 hw
    rw [Text.lower_cons, lowerChar_of_isCased hsmall hc, ih hw]
    rfl

/-- Every letter of a cased word is one of ASCII. -/
theorem not_isOtherI_of_isCased {word token : Text} (hw : ∀ small ∈ word, small ∈ letters)
    (h : IsCased word token) : ∀ c ∈ token, ¬ IsOtherI c := by
  have hall : ∀ small ∈ letters, (small ≠ '\u0130' ∧ small ≠ '\u0131') ∧
      small.toUpper ≠ '\u0130' ∧ small.toUpper ≠ '\u0131' := forall_letters (by decide +kernel)
  induction h with
  | nil => exact List.forall_mem_nil _
  | cons hc _ ih =>
    obtain ⟨hsmall, hw⟩ := List.forall_mem_cons.1 hw
    refine List.forall_mem_cons.2 ⟨?_, ih hw⟩
    rcases hc with rfl | rfl
    · exact not_or.2 (hall _ hsmall).1
    · exact not_or.2 (hall _ hsmall).2

/-! ## Words that are no label -/

/-- The mark that a small form keeps of one of the two letters. -/
def IsTrace (c : Char) : Prop := c = '\u0307' ∨ c = '\u0131'

theorem exists_trace {c : Char} (h : IsOtherI c) : ∃ d ∈ Text.lowerChar c, IsTrace d := by
  rcases h with rfl | rfl
  · exact ⟨'\u0307', by decide, Or.inl rfl⟩
  · exact ⟨'\u0131', by decide, Or.inr rfl⟩

/-- A trace is kept by all that is done to a word, and no label has one. -/
theorem ofWord?_eq_none {d : Char} (hd : IsTrace d) {t : Text} (h : d ∈ t) :
    Labelled.ofWord? LintSeverity t = none := by
  have hsolid : Text.isBlank d = false := by rcases hd with rfl | rfl <;> decide
  have hself : d ∈ Text.lowerChar d := by rcases hd with rfl | rfl <;> decide
  have hlabels : ∀ a ∈ (Labelled.members : List LintSeverity), d ∉ Text.lower (label a) := by
    rcases hd with rfl | rfl <;> decide
  have hlower : d ∈ Text.lower (Text.trim t) :=
    List.mem_flatMap.2 ⟨d, mem_trim h hsolid, hself⟩
  refine List.find?_eq_none.2 fun a ha he => hlabels a ha ?_
  rw [beq_iff_eq.1 he]
  exact hlower

/-! ## The level of an issue -/

section
variable {t : Text} {i : IssueLine} (h : IssueLine.ofLine? t = some i)
include h

theorem isSeverity_of_ofLine? : IsSeverity i.severity := by
  obtain ⟨d, hd, rfl, -⟩ := Division.exists_divides h
  exact hd.isIssue.severity

theorem hasLevel_of_lookup {f : Finding} {level : LintSeverity}
    (hmark : LintSeverity.ofMark (some (.word (Text.lower i.severity))) = .ok level)
    (hf : f.lintSeverity = some level) (hs : f.severity = level.severity) :
    HasLevel i.severity f := by
  rw [ofMark_severity h] at hmark
  obtain ⟨word, hword, hall⟩ := isSeverity_of_ofLine? h
  rcases isCased_or_other (fun _ => mem_letters hword) hall with hcased | ⟨c, hc, hother⟩
  · rw [lower_of_isCased (fun _ => mem_letters hword) hcased] at hmark
    simp only [severityWords, List.mem_cons, List.not_mem_nil, or_false] at hword
    rcases hword with rfl | rfl | rfl
    · obtain rfl : LintSeverity.error = level := Except.ok.inj hmark
      exact .named (.error hcased) hf hs
    · obtain rfl : LintSeverity.warning = level := Except.ok.inj hmark
      exact .named (.warning hcased) hf hs
    · obtain rfl : LintSeverity.info = level := Except.ok.inj hmark
      exact .named (.info hcased) hf hs
  · obtain ⟨d, hd, htrace⟩ := exists_trace hother
    have hlower : d ∈ Text.lower i.severity := List.mem_flatMap.2 ⟨c, hc, hd⟩
    rw [ofWord?_eq_none htrace hlower] at hmark
    obtain rfl : LintSeverity.unknown = level := Except.ok.inj hmark
    exact .missed hc hother ⟨hf, hs⟩

/-- **The finding of an issue line has the level that the line names**, if the name is written in
letters of ASCII, and is unknown otherwise. -/
theorem hasLevel_of_record {file : Option Text} {r : LintRecord} (hr : i.record file = .ok r)
    {f : Finding} (hf : Finding.ofLintRecord r = .ok f) : HasLevel i.severity f := by
  unfold Finding.ofLintRecord at hf
  rw [severity_of_record hr] at hf
  cases hmark : LintSeverity.ofMark (some (.word (Text.lower i.severity))) with
  | error fault =>
    rw [hmark] at hf
    cases hf
  | ok level =>
    rw [hmark] at hf
    obtain rfl := Except.ok.inj hf
    exact hasLevel_of_lookup h hmark rfl rfl

end

theorem HasLevel.withId {token : Text} {f : Finding} (h : HasLevel token f) (id : Text) :
    HasLevel token { f with id := id } := by
  cases h with
  | named hname hlevel hseverity => exact .named hname hlevel hseverity
  | missed hc hother hf => exact .missed hc hother ⟨hf.level, hf.severity⟩

/-- A known level is one whose name is written in letters of ASCII. -/
theorem HasLevel.isRated_iff {token : Text} {f : Finding} (h : HasLevel token f) :
    f.IsRated ↔ ∀ c ∈ token, ¬ IsOtherI c := by
  cases h with
  | missed hc hother hf =>
    exact ⟨fun hr => absurd hr hf.not_isRated, fun hall => absurd hother (hall _ hc)⟩
  | named hname hlevel hseverity =>
    have hascii : ∀ {word : Text}, word ∈ severityWords → IsCased word token →
        ∀ c ∈ token, ¬ IsOtherI c :=
      fun hword => not_isOtherI_of_isCased fun _ => mem_letters hword
    cases hname with
    | error hcased => exact iff_of_true (.error hlevel hseverity) (hascii (by decide) hcased)
    | warning hcased => exact iff_of_true (.warning hlevel hseverity) (hascii (by decide) hcased)
    | info hcased => exact iff_of_true (.info hlevel hseverity) (hascii (by decide) hcased)

/-! ## The levels of a text -/

/-- The issues that the lines of a text report, in order. -/
def issues (t : Text) : List IssueLine := (Text.lines t).filterMap IssueLine.ofLine?

theorem mem_issues {t : Text} {i : IssueLine} :
    i ∈ issues t ↔ ∃ line ∈ Text.lines t, Reports line i := by
  simp only [issues, List.mem_filterMap, ofLine?_eq_some_iff]

/-- Each issue line has its record. -/
theorem forall₂_recordsFrom {file : Option Text} {ts : List Text} {rs : List LintRecord}
    (h : recordsFrom file ts = .ok rs) :
    List.Forall₂ (fun i r => (∃ t, IssueLine.ofLine? t = some i) ∧ ∃ file, i.record file = .ok r)
      (ts.filterMap IssueLine.ofLine?) rs := by
  induction ts generalizing file rs with
  | nil =>
    obtain rfl := Except.ok.inj h
    exact .nil
  | cons t rest ih =>
    unfold recordsFrom at h
    cases hi : IssueLine.ofLine? t with
    | none =>
      rw [hi] at h
      rw [List.filterMap_cons_none hi]
      exact ih h
    | some i =>
      rw [hi] at h
      rw [List.filterMap_cons_some hi]
      simp only [] at h
      split at h
      · cases h
      · next r hr =>
        cases hrest : recordsFrom file rest with
        | error f =>
          rw [hrest] at h
          cases h
        | ok more =>
          rw [hrest] at h
          obtain rfl := Except.ok.inj h
          exact .cons ⟨⟨t, hi⟩, file, hr⟩ (ih hrest)

theorem forall₂_drafts {is : List IssueLine} {rs : List LintRecord} {drafts : List Finding}
    (h : List.Forall₂ (fun i r => (∃ t, IssueLine.ofLine? t = some i) ∧
      ∃ file, i.record file = .ok r) is rs)
    (hdrafts : List.Forall₂ (fun r d => Finding.ofLintRecord r = .ok d) rs drafts) :
    List.Forall₂ (fun i d => HasLevel i.severity d) is drafts := by
  induction h generalizing drafts with
  | nil =>
    cases hdrafts
    exact .nil
  | cons hr _ ih =>
    obtain ⟨⟨t, hi⟩, file, hr⟩ := hr
    cases hdrafts with
    | cons hd hrest => exact .cons (hasLevel_of_record hi hr hd) (ih hrest)

section
variable {t : Text} {rs : List LintRecord} (h : records t = .ok rs) (next : Nat)
include h

theorem forall₂_lint :
    ∃ fs, (Normalization.lint next rs).outcome = .ok fs ∧
      List.Forall₂ (fun i f => HasLevel i.severity f) (issues t) fs := by
  have hok : (Normalization.lint next rs).outcome.isOk = true := by
    unfold Normalization.lint
    rw [Normalization.isOk_findings, List.all_eq_true]
    intro r hr
    rw [isOk_ofLintRecord]
    exact isOk_severity h hr
  obtain ⟨fs, hfs⟩ := isOk_iff.1 hok
  obtain ⟨drafts, hdrafts, rfl, -⟩ := Normalization.findings_eq_ok hfs
  refine ⟨_, hfs, ?_⟩
  exact Numbering.forall₂_assign (fun _ _ id hf => hf.withId id)
    (forall₂_drafts (forall₂_recordsFrom h) hdrafts) next

end

theorem forall_isRated_of_forall₂ {is : List IssueLine} {fs : List Finding}
    (h : List.Forall₂ (fun i f => HasLevel i.severity f) is fs) :
    (∀ f ∈ fs, f.IsRated) ↔ ∀ i ∈ is, ∀ c ∈ i.severity, ¬ IsOtherI c := by
  induction h with
  | nil => simp
  | cons hf _ ih => rw [List.forall_mem_cons, List.forall_mem_cons, hf.isRated_iff, ih]

/-- **The levels of the issues in a text.**  Every record of the text becomes a finding, which has
the level that its line names.  All of the levels are known if and only if no line that reports an
issue has its severity written with a dotted capital or a dotless small i. -/
theorem forall_isRated_iff {t : Text} {rs : List LintRecord} (h : records t = .ok rs)
    (next : Nat) :
    ∃ fs, (Normalization.lint next rs).outcome = .ok fs ∧
      List.Forall₂ (fun i f => HasLevel i.severity f) (issues t) fs ∧
      ((∀ f ∈ fs, f.IsRated) ↔
        ∀ line ∈ Text.lines t, ∀ i, Reports line i → ∀ c ∈ i.severity, ¬ IsOtherI c) := by
  obtain ⟨fs, hfs, hlevels⟩ := forall₂_lint h next
  refine ⟨fs, hfs, hlevels, ?_⟩
  rw [forall_isRated_of_forall₂ hlevels]
  constructor
  · exact fun hall line hline i hi => hall i (mem_issues.2 ⟨line, hline, hi⟩)
  · intro hall i hi
    obtain ⟨line, hline, hreports⟩ := mem_issues.1 hi
    exact hall line hline i hreports

/-- Three key words in letters of either case, and a line on which a letter goes on behind one. -/
theorem forall_isRated_iff_cased :
    let t : Text := "a.sol\n 1:2 eRRor a b\n3:4 WARNING c  d\n5:6 \u0131nfos e f\n7:8 Info g h"
    let rs : List LintRecord :=
      [⟨some 1, some 2, some (.word "error"), some "a", some "b", some "a.sol", none⟩,
        ⟨some 3, some 4, some (.word "warning"), some "c", some "d", some "a.sol", none⟩,
        ⟨some 7, some 8, some (.word "info"), some "g", some "h", some "a.sol", none⟩]
    records t = .ok rs ∧ ∃ fs, (Normalization.lint 1 rs).outcome = .ok fs ∧
      fs.map (·.lintSeverity) = [some .error, some .warning, some .info] ∧
      ∀ f ∈ fs, f.IsRated := by
  intro t rs
  have hrs : records t = .ok rs := by decide +kernel
  have hplain : ∀ i ∈ issues t, i.severity.all (fun c => ¬ IsOtherI c) = true := by
    decide +kernel
  obtain ⟨fs, hfs, -, hrated⟩ := forall_isRated_iff hrs 1
  have hascii : ∀ line ∈ Text.lines t, ∀ i, Reports line i → ∀ c ∈ i.severity, ¬ IsOtherI c := by
    intro line hline i hi c hc
    exact of_decide_eq_true (List.all_eq_true.1 (hplain i (mem_issues.2 ⟨line, hline, hi⟩)) c hc)
  refine ⟨hrs, fs, hfs, ?_, hrated.2 hascii⟩
  obtain rfl := Except.ok.inj (hfs.symm.trans
    (show (Normalization.lint 1 rs).outcome = .ok _ from rfl))
  decide +kernel

/-- A capital with a dot or a small letter without one is taken for the i of a key word, and the
issue has no known level. -/
theorem other_i_has_no_level :
    ∃ rs fs, records "1:2 \u0130nfo a b\n3:4 warn\u0131ng c d" = .ok rs ∧
      (Normalization.lint 1 rs).outcome = .ok fs ∧
      fs.map (·.lintSeverity) = [some .unknown, some .unknown] ∧
      fs.map (·.severity) = [.unknown, .unknown] ∧ ∀ f ∈ fs, ¬ f.IsRated := by
  refine ⟨_, _, rfl, rfl, by decide +kernel, by decide +kernel, ?_⟩
  refine List.forall_mem_cons.2 ⟨?_, List.forall_mem_singleton.2 ?_⟩
  · exact Finding.IsUnrated.not_isRated ⟨by decide +kernel, by decide +kernel⟩
  · exact Finding.IsUnrated.not_isRated ⟨by decide +kernel, by decide +kernel⟩

end LintText

end ContractAudit
