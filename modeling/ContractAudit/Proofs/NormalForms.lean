import Mathlib.Data.List.Forall2
import ContractAudit.Proofs.Normalization

/-!
# Normal forms of records

A value that has passed a check is written in a normal form: one name for each field, all fields
in one order, numbers as whole numbers and texts as texts.  The normal form is described here by
itself (`IsRecordOf` and the forms of its fields), without the checks.  A value in normal form
passes the check and is written as it is, so checking what was written gives the same value.

    check (write a) = .ok a                                 (IsForm.taken)
    P v ↔ ∃ a, check v = .ok a ∧ write a = v                (IsForm.normalizes)
    checkEach check what i (as.map write) = pure as         (checkEach_map_write)
-/

namespace ContractAudit

namespace Record

/-! ## Normal forms -/

/-- A text, written as one. -/
inductive IsText : Json → Prop
  | str (t : Text) : IsText (.str t)

/-- A whole number, written as one. -/
inductive IsWhole : Json → Prop
  | int (n : Int) : IsWhole (.int n)

/-- The severity of an issue, number or word. -/
inductive IsCodeOrWord : Json → Prop
  | code (n : Int) : IsCodeOrWord (.int n)
  | word (t : Text) : IsCodeOrWord (.str t)

/-- What the linter says. -/
inductive IsOutput : Json → Prop
  | list (items : List Json) : IsOutput (.arr items)
  | object (members : List (Text × Json)) : IsOutput (.obj members)
  | text (t : Text) : IsOutput (.str t)

/-- A value of any form. -/
def IsAny (_ : Json) : Prop := True

/-- Null stands for what is not there. -/
inductive IsNullOr (P : Json → Prop) : Json → Prop
  | null : IsNullOr P .null
  | there {v : Json} : P v → IsNullOr P v

inductive IsListOf (P : Json → Prop) : Json → Prop
  | arr {items : List Json} : (∀ v ∈ items, P v) → IsListOf P (.arr items)

/-- A member of an object that has the key and the form of a field. -/
def IsField (field : Text × (Json → Prop)) (member : Text × Json) : Prop :=
  member.1 = field.1 ∧ field.2 member.2

/-- An object with these fields and no others, in this order. -/
inductive IsRecordOf (fields : List (Text × (Json → Prop))) : Json → Prop
  | obj {members : List (Text × Json)} :
      List.Forall₂ IsField fields members → IsRecordOf fields (.obj members)

def LineRef.IsNormal : Json → Prop :=
  IsRecordOf [("contract", IsText), ("lines", IsListOf IsWhole)]

def VulnerabilityRecord.IsNormal : Json → Prop :=
  IsRecordOf [
    ("id", IsNullOr IsText),
    ("check", IsNullOr IsText),
    ("title", IsNullOr IsText),
    ("description", IsNullOr IsText),
    ("impact", IsNullOr IsText),
    ("confidence", IsNullOr IsText),
    ("category", IsNullOr IsText),
    ("function", IsNullOr IsText),
    ("detector", IsNullOr IsText),
    ("lines", IsNullOr (IsListOf LineRef.IsNormal))
  ]

def LintRecord.IsNormal : Json → Prop :=
  IsRecordOf [
    ("line", IsNullOr IsWhole),
    ("column", IsNullOr IsWhole),
    ("severity", IsNullOr IsCodeOrWord),
    ("message", IsNullOr IsText),
    ("rule_id", IsNullOr IsText),
    ("file_path", IsNullOr IsText),
    ("category", IsNullOr IsText)
  ]

def Response.IsNormal : Json → Prop :=
  IsRecordOf [
    ("result", IsNullOr (IsListOf IsAny)),
    ("linter", IsNullOr IsOutput),
    ("success", IsAny),
    ("error", IsAny)
  ]

/-! ## Checks and what they take -/

/-- The values of a type are written in the form `P`, all that is in this form is one of them
written, and the check takes what is written back. -/
structure IsForm {α : Type} (check : Json → Checked α) (write : α → Json) (P : Json → Prop) :
    Prop where
  taken : ∀ a, check (write a) = .ok a
  normal_iff : ∀ v, P v ↔ ∃ a, write a = v

theorem isForm_text : IsForm text .str IsText where
  taken := text_str
  normal_iff v := by
    constructor
    · rintro ⟨t⟩
      exact ⟨t, rfl⟩
    · rintro ⟨t, rfl⟩
      exact .str t

theorem isForm_int : IsForm int .int IsWhole where
  taken := int_int
  normal_iff v := by
    constructor
    · rintro ⟨n⟩
      exact ⟨n, rfl⟩
    · rintro ⟨n, rfl⟩
      exact .int n

def writeMark : LintMark → Json
  | .code n => .int n
  | .word t => .str t

theorem isForm_mark : IsForm mark writeMark IsCodeOrWord where
  taken m := by
    cases m with
    | code n => rfl
    | word t => rfl
  normal_iff v := by
    constructor
    · rintro (n | t)
      · exact ⟨.code n, rfl⟩
      · exact ⟨.word t, rfl⟩
    · rintro ⟨n | t, rfl⟩
      · exact .code n
      · exact .word t

theorem isForm_lintOutput : IsForm LintOutput.ofJson LintOutput.toJson IsOutput where
  taken output := by
    cases output with
    | list items => rfl
    | object members => rfl
    | text t => rfl
  normal_iff v := by
    constructor
    · rintro (items | members | t)
      · exact ⟨.list items, rfl⟩
      · exact ⟨.object members, rfl⟩
      · exact ⟨.text t, rfl⟩
    · rintro ⟨items | members | t, rfl⟩
      · exact .list items
      · exact .object members
      · exact .text t

theorem isForm_any : IsForm .ok id IsAny where
  taken _ := rfl
  normal_iff v := ⟨fun _ => ⟨v, rfl⟩, fun _ => trivial⟩

theorem isForm_anyList : IsForm anyList .arr (IsListOf IsAny) where
  taken _ := rfl
  normal_iff v := by
    constructor
    · rintro ⟨-⟩
      exact ⟨_, rfl⟩
    · rintro ⟨items, rfl⟩
      exact .arr fun _ _ => trivial

section
variable {α : Type} {check : Json → Checked α} {write : α → Json} {P : Json → Prop}
  (h : IsForm check write P)
include h

theorem IsForm.eachFrom_eq (as : List α) (i : Nat) :
    Checked.eachFrom check i (as.map write) = .ok as := by
  induction as generalizing i with
  | nil => rfl
  | cons a rest ih =>
    rw [List.map_cons, Checked.eachFrom, h.taken, ih]
    rfl

theorem IsForm.forall_iff {items : List Json} :
    (∀ v ∈ items, P v) ↔ ∃ as : List α, as.map write = items := by
  induction items with
  | nil => exact ⟨fun _ => ⟨[], rfl⟩, fun _ => List.forall_mem_nil _⟩
  | cons v rest ih =>
    rw [List.forall_mem_cons, ih, h.normal_iff]
    constructor
    · rintro ⟨⟨a, rfl⟩, as, rfl⟩
      exact ⟨a :: as, rfl⟩
    · rintro ⟨as, has⟩
      obtain ⟨a, as, rfl, rfl, rfl⟩ := List.map_eq_cons_iff.1 has
      exact ⟨⟨a, rfl⟩, as, rfl⟩

/-- Lists are checked item by item, and so they are written. -/
theorem IsForm.list :
    IsForm (Checked.list check) (fun as => .arr (as.map write)) (IsListOf P) where
  taken as := h.eachFrom_eq as 0
  normal_iff v := by
    constructor
    · rintro ⟨hitems⟩
      obtain ⟨as, rfl⟩ := h.forall_iff.1 hitems
      exact ⟨as, rfl⟩
    · rintro ⟨as, rfl⟩
      exact .arr (h.forall_iff.2 ⟨as, rfl⟩)

theorem IsForm.orNull {writeNull : Option α → Json} (hnone : writeNull none = .null)
    (hsome : ∀ a, writeNull (some a) = write a) (hne : ∀ a, write a ≠ .null) :
    IsForm (Checked.orNull check) writeNull (IsNullOr P) where
  taken o := by
    cases o with
    | none =>
      rw [hnone]
      rfl
    | some a =>
      have hcheck : Checked.orNull check (write a) = some <$> check (write a) := by
        unfold Checked.orNull
        split
        · next hnull => exact absurd hnull (hne a)
        · rfl
      rw [hsome, hcheck, h.taken]
      rfl
  normal_iff v := by
    constructor
    · rintro (_ | hv)
      · exact ⟨none, hnone⟩
      · obtain ⟨a, rfl⟩ := (h.normal_iff _).1 hv
        exact ⟨some a, hsome a⟩
    · rintro ⟨_ | a, rfl⟩
      · rw [hnone]
        exact .null
      · rw [hsome]
        exact .there ((h.normal_iff _).2 ⟨a, rfl⟩)

end

/-! ## Fields -/

theorem Checked.map_ok {α β : Type} {x : Checked α} {a : α} (f : α → β) (hx : x = .ok a) :
    f <$> x = .ok (f a) := by
  rw [hx]
  rfl

theorem Checked.seq_ok {α β : Type} {c : Checked (α → β)} {x : Checked α} {f : α → β} {a : α}
    (hc : c = .ok f) (hx : x = .ok a) : c <*> x = .ok (f a) := by
  rw [hc, hx]
  rfl

section
variable {α : Type} {check : Json → Checked α} {P : Json → Prop} {members : List (Text × Json)}

section
variable {write : α → Json} (h : IsForm check write P)
include h

/-- The first member of a normal record is the first field, written. -/
theorem IsForm.cons_iff {key : Text} {fields : List (Text × (Json → Prop))} :
    List.Forall₂ IsField ((key, P) :: fields) members ↔
      ∃ a rest, members = (key, write a) :: rest ∧ List.Forall₂ IsField fields rest := by
  rw [List.forall₂_cons_left_iff]
  constructor
  · rintro ⟨⟨_, v⟩, rest, ⟨rfl, hv⟩, hrest, rfl⟩
    obtain ⟨a, rfl⟩ := (h.normal_iff _).1 hv
    exact ⟨a, rest, rfl, hrest⟩
  · rintro ⟨a, rest, rfl, hrest⟩
    exact ⟨_, rest, ⟨rfl, (h.normal_iff _).2 ⟨a, rfl⟩⟩, hrest, rfl⟩

theorem IsForm.under_eq (step : Step) (a : α) : (check (write a)).under step = .ok a := by
  rw [h.taken]
  rfl

variable {key : Text} {a : α} (hfind : Json.find? key members = some (write a))
include hfind

theorem IsForm.required_eq : Checked.required key check members = .ok a := by
  unfold Checked.required
  rw [hfind]
  exact h.under_eq _ a

theorem IsForm.orElse_eq (fallback : α) : Checked.orElse key check fallback members = .ok a := by
  unfold Checked.orElse
  rw [hfind]
  exact h.under_eq _ a

end

section
variable {write : Option α → Json} (h : IsForm (Checked.orNull check) write P) {key : Text}
  {o : Option α}
include h

theorem IsForm.optional_eq (hfind : Json.find? key members = some (write o)) :
    Checked.optional key check members = .ok o := by
  unfold Checked.optional
  rw [hfind]
  exact h.under_eq _ o

/-- The second name of a field counts where the first is not there. -/
theorem IsForm.optionalAlias_eq {other : Text} (habsent : Json.find? key members = none)
    (hfind : Json.find? other members = some (write o)) :
    Checked.optionalAlias key other check members = .ok o := by
  unfold Checked.optionalAlias
  rw [habsent, hfind]
  exact h.under_eq _ o

end

end

/-! ## Records -/

open Checked (map_ok seq_ok)

theorem isForm_textOrNull : IsForm (Checked.orNull text) Json.ofText? (IsNullOr IsText) :=
  isForm_text.orNull rfl (fun _ => rfl) (fun _ h => by cases h)

theorem isForm_intOrNull : IsForm (Checked.orNull int) Json.ofInt? (IsNullOr IsWhole) :=
  isForm_int.orNull rfl (fun _ => rfl) (fun _ h => by cases h)

theorem isForm_lineRef : IsForm LineRef.ofJson LineRef.toJson LineRef.IsNormal where
  taken r := by
    refine seq_ok (map_ok _ ?_) ?_
    · exact isForm_text.required_eq (a := r.contract) rfl
    · exact isForm_int.list.orElse_eq (a := r.lines) rfl []
  normal_iff v := by
    constructor
    · rintro ⟨h⟩
      simp only [isForm_text.cons_iff, isForm_int.list.cons_iff, List.forall₂_nil_left_iff] at h
      obtain ⟨contract, _, rfl, lines, _, rfl, rfl⟩ := h
      exact ⟨⟨contract, lines⟩, rfl⟩
    · rintro ⟨r, rfl⟩
      refine .obj ?_
      simp only [isForm_text.cons_iff, isForm_int.list.cons_iff, List.forall₂_nil_left_iff]
      exact ⟨_, _, rfl, _, _, rfl, rfl⟩

theorem isForm_lineRefsOrNull :
    IsForm (Checked.orNull (Checked.list LineRef.ofJson))
      (fun o => match o with | none => .null | some refs => .arr (refs.map LineRef.toJson))
      (IsNullOr (IsListOf LineRef.IsNormal)) :=
  isForm_lineRef.list.orNull rfl (fun _ => rfl) (fun _ h => by cases h)

theorem isForm_vulnerabilityRecord :
    IsForm VulnerabilityRecord.ofJson VulnerabilityRecord.toJson VulnerabilityRecord.IsNormal where
  taken := by
    rintro ⟨id, check, title, description, impact, confidence, category, function, detector, lines⟩
    refine seq_ok (seq_ok (seq_ok (seq_ok (seq_ok (seq_ok (seq_ok (seq_ok (seq_ok
      (map_ok _ ?_) ?_) ?_) ?_) ?_) ?_) ?_) ?_) ?_) ?lines
    case lines => exact isForm_lineRefsOrNull.optional_eq rfl
    all_goals exact isForm_textOrNull.optional_eq rfl
  normal_iff v := by
    constructor
    · rintro ⟨h⟩
      simp only [isForm_textOrNull.cons_iff, isForm_lineRefsOrNull.cons_iff,
        List.forall₂_nil_left_iff] at h
      obtain ⟨id, _, rfl, check, _, rfl, title, _, rfl, description, _, rfl, impact, _, rfl,
        confidence, _, rfl, category, _, rfl, function, _, rfl, detector, _, rfl, lines, _, rfl,
        rfl⟩ := h
      exact ⟨⟨id, check, title, description, impact, confidence, category, function, detector,
        lines⟩, rfl⟩
    · rintro ⟨r, rfl⟩
      refine .obj ?_
      simp only [isForm_textOrNull.cons_iff, isForm_lineRefsOrNull.cons_iff,
        List.forall₂_nil_left_iff]
      exact ⟨_, _, rfl, _, _, rfl, _, _, rfl, _, _, rfl, _, _, rfl, _, _, rfl, _, _, rfl, _, _, rfl,
        _, _, rfl, _, _, rfl, rfl⟩

theorem isForm_markOrNull :
    IsForm (Checked.orNull mark)
      (fun o => match o with
        | none => .null
        | some (.code n) => .int n
        | some (.word t) => .str t)
      (IsNullOr IsCodeOrWord) :=
  isForm_mark.orNull rfl (fun m => by cases m <;> rfl) (fun m h => by cases m <;> cases h)

theorem isForm_lintRecord : IsForm LintRecord.ofJson LintRecord.toJson LintRecord.IsNormal where
  taken := by
    rintro ⟨line, column, severity, message, rule, file, category⟩
    refine seq_ok (seq_ok (seq_ok (seq_ok (seq_ok (seq_ok (map_ok _ ?_) ?_) ?_) ?_) ?_) ?_) ?_
    · exact isForm_intOrNull.optional_eq rfl
    · exact isForm_intOrNull.optional_eq rfl
    · exact isForm_markOrNull.optional_eq rfl
    · exact isForm_textOrNull.optional_eq rfl
    · exact isForm_textOrNull.optionalAlias_eq rfl rfl
    · exact isForm_textOrNull.optionalAlias_eq rfl rfl
    · exact isForm_textOrNull.optional_eq rfl
  normal_iff v := by
    constructor
    · rintro ⟨h⟩
      simp only [isForm_intOrNull.cons_iff, isForm_markOrNull.cons_iff, isForm_textOrNull.cons_iff,
        List.forall₂_nil_left_iff] at h
      obtain ⟨line, _, rfl, column, _, rfl, severity, _, rfl, message, _, rfl, rule, _, rfl,
        file, _, rfl, category, _, rfl, rfl⟩ := h
      exact ⟨⟨line, column, severity, message, rule, file, category⟩, rfl⟩
    · rintro ⟨r, rfl⟩
      refine .obj ?_
      simp only [isForm_intOrNull.cons_iff, isForm_markOrNull.cons_iff, isForm_textOrNull.cons_iff,
        List.forall₂_nil_left_iff]
      exact ⟨_, _, rfl, _, _, rfl, _, _, rfl, _, _, rfl, _, _, rfl, _, _, rfl, _, _, rfl, rfl⟩

theorem isForm_listOrNull :
    IsForm (Checked.orNull anyList)
      (fun o => match o with | none => .null | some items => .arr items)
      (IsNullOr (IsListOf IsAny)) :=
  isForm_anyList.orNull rfl (fun _ => rfl) (fun _ h => by cases h)

theorem isForm_outputOrNull :
    IsForm (Checked.orNull LintOutput.ofJson)
      (fun o => match o with | none => .null | some output => output.toJson)
      (IsNullOr IsOutput) :=
  isForm_lintOutput.orNull rfl (fun _ => rfl) (fun output h => by cases output <;> cases h)

theorem isForm_response : IsForm Response.ofJson Response.toJson Response.IsNormal where
  taken := by
    rintro ⟨result, linter, success, error⟩
    refine seq_ok (seq_ok (seq_ok (map_ok _ ?_) ?_) ?_) ?_
    · exact isForm_listOrNull.optional_eq rfl
    · exact isForm_outputOrNull.optional_eq rfl
    · exact isForm_any.orElse_eq rfl .null
    · exact isForm_any.orElse_eq rfl .null
  normal_iff v := by
    constructor
    · rintro ⟨h⟩
      simp only [isForm_listOrNull.cons_iff, isForm_outputOrNull.cons_iff, isForm_any.cons_iff,
        List.forall₂_nil_left_iff] at h
      obtain ⟨result, _, rfl, linter, _, rfl, success, _, rfl, error, _, rfl, rfl⟩ := h
      exact ⟨⟨result, linter, success, error⟩, rfl⟩
    · rintro ⟨r, rfl⟩
      refine .obj ?_
      simp only [isForm_listOrNull.cons_iff, isForm_outputOrNull.cons_iff, isForm_any.cons_iff,
        List.forall₂_nil_left_iff]
      exact ⟨_, _, rfl, _, _, rfl, _, _, rfl, _, _, rfl, rfl⟩

end Record

namespace Normalization

open Record

/-- Records that were written pass again one by one, and no warning is given. -/
theorem checkEach_map_write {α : Type} {check : Json → Checked α} {write : α → Json}
    {P : Json → Prop} (h : IsForm check write P) (what : Text) (i : Nat) (as : List α) :
    checkEach check what i (as.map write) = pure as := by
  have hmap := checkEach_map (g := id) h.taken what i as
  rwa [List.map_id] at hmap

end Normalization

namespace Record

/-! ## Top theorem -/

/-- What passes a check is brought into a normal form. -/
structure Normalizes {α : Type} (check : Json → Checked α) (write : α → Json)
    (P : Json → Prop) : Prop where
  /-- What is written of a value that has passed passes again, as the same value. -/
  again : ∀ {v a}, check v = .ok a → check (write a) = .ok a
  /-- It is written in the normal form. -/
  normal : ∀ {v a}, check v = .ok a → P (write a)
  /-- The values in normal form are those that pass and are written as they are. -/
  kept_iff : ∀ v, P v ↔ ∃ a, check v = .ok a ∧ write a = v

theorem IsForm.normalizes {α : Type} {check : Json → Checked α} {write : α → Json}
    {P : Json → Prop} (h : IsForm check write P) : Normalizes check write P where
  again {_ a} _ := h.taken a
  normal {_ a} _ := (h.normal_iff _).2 ⟨a, rfl⟩
  kept_iff v := by
    rw [h.normal_iff]
    constructor
    · rintro ⟨a, rfl⟩
      exact ⟨a, h.taken a, rfl⟩
    · rintro ⟨a, -, ha⟩
      exact ⟨a, ha⟩

/-- **Checking a record twice is checking it once.**  Whatever value passes the check of a
reference to lines, of a vulnerability, of an issue or of a reply, under whichever names and
spellings of numbers, what is written of it is in normal form and passes again as the same record,
and only what is in normal form is written as it was.  Lists of records that have been checked pass
again without a warning. -/
theorem normalizes_records :
    Normalizes LineRef.ofJson LineRef.toJson LineRef.IsNormal ∧
    Normalizes VulnerabilityRecord.ofJson VulnerabilityRecord.toJson
      VulnerabilityRecord.IsNormal ∧
    Normalizes LintRecord.ofJson LintRecord.toJson LintRecord.IsNormal ∧
    Normalizes Response.ofJson Response.toJson Response.IsNormal ∧
    (∀ items, let rs := (Normalization.checkVulnerabilities items).value
      Normalization.checkVulnerabilities (rs.map VulnerabilityRecord.toJson) = pure rs) ∧
    ∀ items, let rs := (Normalization.checkLint items).value
      Normalization.checkLint (rs.map LintRecord.toJson) = pure rs :=
  ⟨isForm_lineRef.normalizes, isForm_vulnerabilityRecord.normalizes,
    isForm_lintRecord.normalizes, isForm_response.normalizes,
    fun _ => Normalization.checkEach_map_write isForm_vulnerabilityRecord _ 0 _,
    fun _ => Normalization.checkEach_map_write isForm_lintRecord _ 0 _⟩

/-- Numbers for texts; floating-point numbers, truth values and texts for whole numbers; both names
of a rule and the other name of a file; a field too many; and a severity of two and a half. -/
theorem normalizes_records_coerced :
    let half : Json := .float (.ofDecimal false 25 (-1))
    let two : Json := .float (.ofDecimal false 2 0)
    let v : Json := .obj [("id", .int (-7)), ("impact", two), ("lines", .arr [.obj
      [("lines", .arr [two, .bool true, .str "-0_7"]), ("contract", half)]])]
    let r : VulnerabilityRecord :=
      { id := some "-7", impact := some "2.0", lines := some [⟨"2.5", [2, 1, -7]⟩] }
    let v' : Json := .obj [("filePath", .str "a.sol"), ("rule_id", .int 7), ("ruleId", .str "no-x"),
      ("line", .str " 1_0.0 "), ("column", two), ("severity", half), ("extra", .null),
      ("message", .float .nan)]
    let r' : LintRecord :=
      { line := some 10, column := some 2, severity := some (.word "2.5"), message := some "nan",
        rule := some "no-x", file := some "a.sol" }
    VulnerabilityRecord.ofJson v = .ok r ∧ VulnerabilityRecord.ofJson r.toJson = .ok r ∧
    LintRecord.ofJson v' = .ok r' ∧ LintRecord.ofJson r'.toJson = .ok r' ∧
    LintRecord.IsNormal r'.toJson ∧ ¬ LintRecord.IsNormal v' := by
  intro half two v r v' r'
  obtain ⟨-, hvulnerability, hlint, -, -, -⟩ := normalizes_records
  have hv : VulnerabilityRecord.ofJson v = .ok r :=
    Normalization.toOption_eq_some.1 (by decide +kernel)
  have hv' : LintRecord.ofJson v' = .ok r' := Normalization.toOption_eq_some.1 (by decide +kernel)
  refine ⟨hv, hvulnerability.again hv, hv', hlint.again hv', hlint.normal hv', ?_⟩
  show ¬ LintRecord.IsNormal (.obj [_, _, _, _, _, _, _, _])
  rintro ⟨h⟩
  have hlength := h.length_eq
  cases hlength

end Record

end ContractAudit
