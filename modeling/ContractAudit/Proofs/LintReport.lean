import ContractAudit.Proofs.LintGrammar
import ContractAudit.Proofs.Normalization

/-!
# Reading back a linter's report

A report names a file on a line of its own and then has one line for each issue of that file,
`line:column severity message rule`, with blanks between the four parts and around them.  The
message may hold numbers, colons, names of severities and words that look like rules: the place and
the severity are read from the left and the rule from the right, and the message is all between.

    ofLine? (i.written l) = some i.parts                    (ofLine?_written)
    records (report blocks) = .ok (recordsOf blocks)        (records_report)

The same records come from a list of objects that hold the same issues.
-/

namespace ContractAudit

open Record (LintRecord)

namespace LintText

/-! ## What a report says -/

/-- Blanks within a line. -/
structure Spacing where
  text : Text
  blank : ∀ c ∈ text, Text.isBlank c = true
  inline : ∀ c ∈ text, Text.isLineBreak c = false

/-- Blanks that keep two parts of a line apart. -/
structure Gap extends Spacing where
  ne_nil : text ≠ []

/-- An issue that a line can hold.  The severity may be written in either case. -/
structure Issue where
  line : Nat
  column : Nat
  severity : Text
  message : Text
  rule : Text
  line_short : (Decimal.digits line).length ≤ Decimal.limit
  column_short : (Decimal.digits column).length ≤ Decimal.limit
  severity_mem : Text.lower severity ∈ severityWords
  message_ne_nil : message ≠ []
  message_inline : ∀ c ∈ message, Text.isLineBreak c = false
  message_bare : Text.BareEnds message
  rule_ne_nil : rule ≠ []
  rule_chars : ∀ c ∈ rule, isRuleChar c = true

/-- The blanks around a line and between its four parts. -/
structure Layout where
  before : Spacing
  afterPlace : Gap
  afterSeverity : Gap
  afterMessage : Gap
  after : Spacing

/-- A file and its issues, each with the blanks of its line. -/
structure Block where
  path : Text
  issues : List (Issue × Layout)
  path_solid : ∀ c ∈ path, Text.isBlank c = false
  path_source : Text.endsWith ".sol" path = true
  path_long : 4 < path.length

namespace Issue

/-- The line of an issue. -/
def written (i : Issue) (l : Layout) : Text :=
  l.before.text ++ Decimal.digits i.line ++ ":" ++ Decimal.digits i.column ++ l.afterPlace.text
    ++ i.severity ++ l.afterSeverity.text ++ i.message ++ l.afterMessage.text ++ i.rule
    ++ l.after.text

/-- The parts of the line of an issue. -/
def parts (i : Issue) : IssueLine :=
  ⟨Decimal.digits i.line, Decimal.digits i.column, i.severity, i.message, i.rule⟩

/-- The record of an issue, its severity in small letters. -/
def record (i : Issue) (file : Text) : LintRecord :=
  { line := some i.line
    column := some i.column
    severity := some (.word (Text.lower i.severity))
    message := some i.message
    rule := some i.rule
    file := some file }

/-- The object of an issue, its rule and its file under the given keys. -/
def object (ruleKey fileKey : Text) (i : Issue) (file : Text) : Json :=
  .obj [("line", .int i.line), ("column", .int i.column),
    ("severity", .str (Text.lower i.severity)), ("message", .str i.message),
    (ruleKey, .str i.rule), (fileKey, .str file)]

end Issue

/-- The lines of a file. -/
def Block.lines (b : Block) : List Text := b.path :: b.issues.map fun x => x.1.written x.2

/-- The report on some files. -/
def report (blocks : List Block) : Text := Text.join ['\n'] (blocks.flatMap Block.lines)

/-- All issues in order, each with the file of its own block. -/
def entries (blocks : List Block) : List (Issue × Text) :=
  blocks.flatMap fun b => b.issues.map fun x => (x.1, b.path)

def recordsOf (blocks : List Block) : List LintRecord :=
  (entries blocks).map fun e => e.1.record e.2

def objectsOf (ruleKey fileKey : Text) (blocks : List Block) : List Json :=
  (entries blocks).map fun e => e.1.object ruleKey fileKey e.2

/-! ## The severity -/

/-- The key words are written in ASCII, without blanks. -/
theorem of_mem_severityWords {word : Text} (h : word ∈ severityWords) :
    ∀ c ∈ word, c.toNat < 128 ∧ Text.isBlank c = false := by
  have hall : ∀ word ∈ severityWords,
      (word.all fun c => c.toNat < 128 && ! Text.isBlank c) = true := by decide
  exact fun c hc => by simpa using List.all_eq_true.1 (hall word h) c hc

/-- A small form in ASCII is a single character: the only longer one holds a combining mark. -/
theorem lowerChar_eq_singleton {c : Char} (h : ∀ d ∈ Text.lowerChar c, d.toNat < 128) :
    ∃ d, Text.lowerChar c = [d] := by
  unfold Text.lowerChar at h ⊢
  split
  · exact ⟨_, rfl⟩
  · split
    · exact ⟨_, rfl⟩
    · split
      · next hlarge hkelvin hdotted =>
        rw [if_neg hlarge, if_neg hkelvin, if_pos hdotted] at h
        exact absurd (h (Char.ofNat 0x307) (by simp)) (by decide)
      · exact ⟨c, rfl⟩

theorem forall₂_lower {t : Text} (h : ∀ c ∈ Text.lower t, c.toNat < 128) :
    List.Forall₂ (fun small c => Text.sameLetter small c = true) (Text.lower t) t := by
  induction t with
  | nil => exact .nil
  | cons c t ih =>
    rw [Text.lower_cons, List.forall_mem_append] at h
    obtain ⟨d, hd⟩ := lowerChar_eq_singleton h.1
    rw [Text.lower_cons, hd]
    exact .cons (by simp [Text.sameLetter, hd]) (ih h.2)

/-- A text is a severity if its small form is. -/
theorem isSeverity_of_lower {t : Text} (h : Text.lower t ∈ severityWords) : IsSeverity t :=
  ⟨_, h, forall₂_lower fun c hc => (of_mem_severityWords h c hc).1⟩

/-- No severity holds a blank: a blank is its own small form. -/
theorem severity_solid {severity : Text} (h : Text.lower severity ∈ severityWords) :
    ∀ c ∈ severity, Text.isBlank c = false := by
  intro c hc
  rw [Bool.eq_false_iff]
  intro hb
  have hself : Text.lowerChar c = [c] := by
    have hall : ∀ n ∈ Text.blankCodes, Text.lowerChar (Char.ofNat n) = [Char.ofNat n] := by
      decide +kernel
    have hc := hall c.toNat (Text.toNat_mem_blankCodes hb)
    rwa [Char.ofNat_toNat] at hc
  have hmem : c ∈ Text.lower severity :=
    List.mem_flatMap.2 ⟨c, hc, hself ▸ List.mem_singleton_self c⟩
  exact Bool.false_ne_true ((of_mem_severityWords h c hmem).2.symm.trans hb)

/-! ## The parts of a line -/

/-- Between two gaps the message is all that is left. -/
theorem message?_append (i : Issue) (l : Layout) :
    message? (l.afterSeverity.text ++ (i.message ++ l.afterMessage.text)) = some i.message := by
  unfold message?
  rw [Text.trim_append l.afterSeverity.blank i.message_bare i.message_ne_nil l.afterMessage.blank]
  split
  · next h => exact absurd h i.message_ne_nil
  · rfl

/-- The line of an issue, divided as it was put together. -/
def Issue.division (i : Issue) (l : Layout) : Division :=
  ⟨l.before.text, l.afterPlace.text, l.afterSeverity.text, l.afterMessage.text, l.after.text,
    i.parts⟩

theorem Gap.isGap (g : Gap) : IsGap g.text := ⟨g.ne_nil, g.blank⟩

theorem isIssue_division (i : Issue) (l : Layout) : (i.division l).IsIssue where
  before := l.before.blank
  line := FileRef.isNumber_digits i.line
  column := FileRef.isNumber_digits i.column
  afterPlace := l.afterPlace.isGap
  severity := isSeverity_of_lower i.severity_mem
  afterSeverity := l.afterSeverity.isGap
  message := i.message_ne_nil
  afterMessage := l.afterMessage.isGap
  rule := ⟨i.rule_ne_nil, i.rule_chars⟩
  after := l.after.blank

theorem text_division (i : Issue) (l : Layout) : (i.division l).text = i.written l := by
  rw [Issue.written, Division.text]
  simp [Issue.division, Issue.parts, Division.middle]

/-- **The line of an issue is taken apart into the parts it was made of.** -/
theorem ofLine?_written (i : Issue) (l : Layout) :
    IssueLine.ofLine? (i.written l) = some i.parts := by
  have hmessage : message? (i.division l).middle = some i.message := message?_append i l
  rw [← text_division, (isIssue_division i l).ofLine?_text, hmessage]
  rfl

/-- No word without blanks is an issue. -/
theorem ofLine?_solid {t : Text} (h : ∀ c ∈ t, Text.isBlank c = false) :
    IssueLine.ofLine? t = none := by
  rw [ofLine?_eq_none_iff]
  rintro ⟨d, hd⟩
  obtain ⟨c, gap, hgap⟩ := List.exists_cons_of_ne_nil hd.isIssue.afterPlace.ne_nil
  have hblank := hd.isIssue.afterPlace.blank c (by rw [hgap]; exact List.mem_cons_self)
  have hc : c ∈ t := by
    rw [← hd.text, Division.text, hgap]
    simp
  rw [h c hc] at hblank
  cases hblank

theorem record_parts (i : Issue) (file : Text) :
    i.parts.record (some file) = .ok (i.record file) := by
  have hline := Decimal.readDigits_eq_ok_iff.2 ⟨i.line_short, Decimal.value_digits i.line⟩
  have hcolumn := Decimal.readDigits_eq_ok_iff.2 ⟨i.column_short, Decimal.value_digits i.column⟩
  simp only [IssueLine.record, Issue.parts, hline, hcolumn]
  rfl

theorem header?_path (b : Block) : header? b.path = some b.path := by
  have htrim : Text.trim b.path = b.path :=
    Text.trim_eq_self (Text.bareEnds_of_forall b.path_solid)
  have hsolid : b.path.any Text.isBlank = false :=
    List.any_eq_false.2 fun c hc => Bool.eq_false_iff.1 (b.path_solid c hc)
  unfold header?
  simp only [htrim, b.path_source, b.path_long, hsolid]
  rfl

/-! ## The records of a report -/

theorem recordsFrom_issues (file : Text) (issues : List (Issue × Layout)) (rest : List Text) :
    recordsFrom (some file) (issues.map (fun x => x.1.written x.2) ++ rest) =
      (recordsFrom (some file) rest).map (issues.map (fun x => x.1.record file) ++ ·) := by
  induction issues with
  | nil => cases h : recordsFrom (some file) rest <;> simp [h, Except.map]
  | cons x issues ih =>
    rw [List.map_cons, List.cons_append, recordsFrom, ofLine?_written]
    simp only [record_parts, ih]
    cases recordsFrom (some file) rest <;> rfl

theorem recordsFrom_block (file : Option Text) (b : Block) (rest : List Text) :
    recordsFrom file (b.lines ++ rest) =
      (recordsFrom (some b.path) rest).map (b.issues.map (fun x => x.1.record b.path) ++ ·) := by
  rw [Block.lines, List.cons_append, recordsFrom, ofLine?_solid b.path_solid]
  simp only [header?_path]
  exact recordsFrom_issues b.path b.issues rest

theorem recordsFrom_blocks (file : Option Text) (blocks : List Block) :
    recordsFrom file (blocks.flatMap Block.lines) = .ok (recordsOf blocks) := by
  induction blocks generalizing file with
  | nil => rfl
  | cons b blocks ih =>
    rw [List.flatMap_cons, recordsFrom_block, ih]
    simp [Except.map, recordsOf, entries, Function.comp_def]

/-! ## The lines of a report -/

theorem inline_of_solid {c : Char} (h : Text.isBlank c = false) : Text.isLineBreak c = false := by
  rw [Bool.eq_false_iff]
  exact fun hl => Bool.false_ne_true (h.symm.trans (Text.isBlank_of_isLineBreak hl))

theorem written_inline (i : Issue) (l : Layout) :
    ∀ c ∈ i.written l, Text.isLineBreak c = false := by
  intro c hc
  simp only [Issue.written, List.mem_append] at hc
  rcases hc with (((((((((hc | hc) | hc) | hc) | hc) | hc) | hc) | hc) | hc) | hc) | hc
  · exact l.before.inline c hc
  · exact inline_of_solid (decimal_solid ((FileRef.isNumber_digits _).2 c hc))
  · obtain rfl := List.mem_singleton.1 hc
    decide
  · exact inline_of_solid (decimal_solid ((FileRef.isNumber_digits _).2 c hc))
  · exact l.afterPlace.inline c hc
  · exact inline_of_solid (severity_solid i.severity_mem c hc)
  · exact l.afterSeverity.inline c hc
  · exact i.message_inline c hc
  · exact l.afterMessage.inline c hc
  · exact inline_of_solid (rule_solid (i.rule_chars c hc))
  · exact l.after.inline c hc

theorem written_ne_nil (i : Issue) (l : Layout) : i.written l ≠ [] := by
  simp [Issue.written]

/-- No line of a report is empty, and none holds a break. -/
theorem line_of_mem {blocks : List Block} {t : Text} (h : t ∈ blocks.flatMap Block.lines) :
    t ≠ [] ∧ ∀ c ∈ t, Text.isLineBreak c = false := by
  obtain ⟨b, -, ht⟩ := List.mem_flatMap.1 h
  rcases List.mem_cons.1 ht with rfl | ht
  · refine ⟨fun hnil => ?_, fun c hc => inline_of_solid (b.path_solid c hc)⟩
    have hlong := b.path_long
    rw [hnil] at hlong
    cases hlong
  · obtain ⟨x, -, rfl⟩ := List.mem_map.1 ht
    exact ⟨written_ne_nil x.1 x.2, written_inline x.1 x.2⟩

theorem lines_report (blocks : List Block) :
    Text.lines (report blocks) = blocks.flatMap Block.lines :=
  Text.lines_join (fun _ ht => (line_of_mem ht).1) fun _ ht => (line_of_mem ht).2

/-! ## The same issues as objects -/

/-- The names under which the rule of an issue may stand in an object. -/
def ruleKeys : List Text := ["ruleId", "rule_id"]

/-- The names under which its file may stand. -/
def fileKeys : List Text := ["filePath", "file_path"]

theorem ofJson_object {ruleKey fileKey : Text} (hr : ruleKey ∈ ruleKeys) (hf : fileKey ∈ fileKeys)
    (i : Issue) (file : Text) :
    LintRecord.ofJson (i.object ruleKey fileKey file) = .ok (i.record file) := by
  simp only [ruleKeys, fileKeys, List.mem_cons, List.not_mem_nil, or_false] at hr hf
  rcases hr with rfl | rfl <;> rcases hf with rfl | rfl <;> rfl

/-- **A report is read back**: one record for each issue, in order, and the same records as from a
list of objects with the same issues. -/
theorem records_report (blocks : List Block) :
    records (report blocks) = .ok (recordsOf blocks) ∧
      ∀ ruleKey ∈ ruleKeys, ∀ fileKey ∈ fileKeys,
        Normalization.checkLint (objectsOf ruleKey fileKey blocks) = pure (recordsOf blocks) := by
  constructor
  · rw [records, lines_report, recordsFrom_blocks]
  · intro ruleKey hr fileKey hf
    have hobject : ∀ e : Issue × Text, LintRecord.ofJson (e.1.object ruleKey fileKey e.2)
        = .ok (e.1.record e.2) := fun e => ofJson_object hr hf e.1 e.2
    exact Normalization.checkEach_map hobject _ 0 (entries blocks)

/-- A message that looks like the beginning of an issue, and one that looks like a file. -/
def misleadingBlocks : List Block :=
  let nothing : Spacing := ⟨[], nofun, nofun⟩
  let indent : Spacing := ⟨"  ", List.all_eq_true.1 rfl, Text.eq_false_of_any rfl⟩
  let gap : Gap := ⟨⟨" \t", List.all_eq_true.1 rfl, Text.eq_false_of_any rfl⟩, by decide⟩
  let layout : Layout := ⟨indent, gap, gap, gap, nothing⟩
  let first : Issue :=
    { line := 12, column := 5, severity := "WARNING", message := "3:4 error in a", rule := "no-b"
      line_short := by decide, column_short := by decide, severity_mem := by decide
      message_ne_nil := by decide, message_inline := Text.eq_false_of_any rfl
      message_bare := ⟨Text.stopsAt_cons.2 rfl, Text.stopsAt_cons.2 rfl⟩
      rule_ne_nil := by decide, rule_chars := List.all_eq_true.1 rfl }
  let second : Issue :=
    { line := 0, column := 77, severity := "error", message := "B.sol", rule := "@x/y.z"
      line_short := by decide, column_short := by decide, severity_mem := by decide
      message_ne_nil := by decide, message_inline := Text.eq_false_of_any rfl
      message_bare := ⟨Text.stopsAt_cons.2 rfl, Text.stopsAt_cons.2 rfl⟩
      rule_ne_nil := by decide, rule_chars := List.all_eq_true.1 rfl }
  [⟨"a/A.sol", [(first, layout), (second, layout)], Text.eq_false_of_any rfl, rfl, by decide⟩,
    ⟨"1:2.sol", [], Text.eq_false_of_any rfl, rfl, by decide⟩,
    ⟨"C.sol", [(first, layout)], Text.eq_false_of_any rfl, rfl, by decide⟩]

theorem records_report_misleading :
    report misleadingBlocks =
      "a/A.sol\n  12:5 \tWARNING \t3:4 error in a \tno-b\n  0:77 \terror \tB.sol \t@x/y.z".toList
        ++ "\n1:2.sol\nC.sol\n  12:5 \tWARNING \t3:4 error in a \tno-b".toList ∧
    records (report misleadingBlocks) = .ok
      [⟨some 12, some 5, some (.word "warning"), some "3:4 error in a", some "no-b",
          some "a/A.sol", none⟩,
        ⟨some 0, some 77, some (.word "error"), some "B.sol", some "@x/y.z", some "a/A.sol", none⟩,
        ⟨some 12, some 5, some (.word "warning"), some "3:4 error in a", some "no-b",
          some "C.sol", none⟩] ∧
    Normalization.checkLint (objectsOf "ruleId" "file_path" misleadingBlocks) =
      pure (recordsOf misleadingBlocks) :=
  ⟨by decide, (records_report misleadingBlocks).1,
    (records_report misleadingBlocks).2 _ (by decide) _ (by decide)⟩

end LintText

end ContractAudit
