import ContractAudit.Normalization
import ContractAudit.Proofs.LintText

/-!
# Which responses can be turned into findings

Most of what can be wrong with a response is left out with a warning.  `Unreadable` lists what is
not: a reference with a number that is too long, and in the linter's part JSON nested too deep, a
line with a number that is too long, or a severity made of digits that are no number.

    (ofResponse next linting r depth).value.outcome.isOk ↔ ¬ Unreadable depth linting r
                                                            (isOk_ofResponse)
-/

namespace ContractAudit

open Record (Checked LintOutput LintRecord Response VulnerabilityRecord)

/-! ## Vulnerabilities -/

/-- The bounds of a reference can be read. -/
def FileRef.IsShort (r : FileRef) : Prop :=
  r.first.length ≤ Decimal.limit ∧ ∀ last, r.last = some last → last.length ≤ Decimal.limit

theorem FileRef.isOk_span (r : FileRef) : r.span.isOk = true ↔ r.IsShort := by
  have hfirst := Decimal.isOk_readDigits r.first
  unfold span bounds IsShort
  rw [isOk_map, ← decide_eq_true_iff (p := r.first.length ≤ Decimal.limit), ← hfirst]
  cases Decimal.readDigits r.first with
  | error f => simp
  | ok n =>
    cases hl : r.last with
    | none => simp
    | some last =>
      have hlast := Decimal.isOk_readDigits last
      simp only [isOk_map, isOk_bind_pure, hlast, decide_eq_true_iff, isOk_ok, true_and]
      exact ⟨fun h t e => Option.some.inj e ▸ h, fun h => h last rfl⟩

theorem isOk_ofDescription (t : Text) :
    (Location.ofDescription t).isOk = true ↔ ∀ r ∈ FileRef.ofText t, r.IsShort := by
  unfold Location.ofDescription
  rw [isOk_map, isOk_mapM, List.all_eq_true]
  simp only [FileRef.isOk_span]

theorem isOk_ofVulnerability (r : VulnerabilityRecord) :
    (Finding.ofVulnerability r).isOk = true ↔
      ∀ ref ∈ FileRef.ofText (r.description.getD []), ref.IsShort := by
  unfold Finding.ofVulnerability Finding.locationsOf
  rw [isOk_map, isOk_map, isOk_ofDescription]

/-! ## Severities -/

/-- A word made of digits that no number can be read from: one of them is not decimal, or there
are too many. -/
def LintSeverity.IsUnreadable (t : Text) : Prop :=
  Text.trim t ≠ [] ∧ (∀ c ∈ Text.trim t, Text.isDigit c = true) ∧
    ((∃ c ∈ Text.trim t, Text.isDecimal c = false) ∨ Decimal.limit < (Text.trim t).length)

theorem Decimal.isOk_read {t : Text} (h : t ≠ []) :
    (Decimal.read t).isOk = true ↔
      (∀ c ∈ t, Text.isDecimal c = true) ∧ t.length ≤ Decimal.limit := by
  unfold Decimal.read
  by_cases hall : ∀ c ∈ t, Text.isDecimal c = true
  · have hfront : t.takeWhile Text.isDecimal = t := List.takeWhile_eq_self_iff.2 hall
    have hdec : (t.all Text.isDecimal && ! t.isEmpty) = true := by
      rw [List.all_eq_true.2 hall, List.isEmpty_eq_false_iff.2 h]
      rfl
    rw [hfront, hdec]
    simp only [if_true]
    split
    · next hlong => exact ⟨fun h => (by cases h), fun h => absurd h.2 (by omega)⟩
    · next hlong => exact ⟨fun _ => ⟨hall, by omega⟩, fun _ => rfl⟩
  · have hdec : (t.all Text.isDecimal && ! t.isEmpty) = false := by
      rw [Bool.eq_false_iff]
      intro he
      rw [Bool.and_eq_true] at he
      exact hall (List.all_eq_true.1 he.1)
    rw [hdec]
    simp only [Bool.false_eq_true, if_false, hall, false_and, iff_false]
    split <;> exact fun h => (by cases h)

theorem LintSeverity.isOk_ofWord (t : Text) :
    (LintSeverity.ofWord t).isOk = true ↔ ¬ IsUnreadable t := by
  unfold ofWord IsUnreadable
  by_cases hne : Text.trim t = []
  · simp [hne]
  · by_cases hall : ∀ c ∈ Text.trim t, Text.isDigit c = true
    · have hdigits : (! (Text.trim t).isEmpty && (Text.trim t).all Text.isDigit) = true := by
        rw [List.all_eq_true.2 hall, List.isEmpty_eq_false_iff.2 hne]
        rfl
      simp only [hdigits, if_true]
      rw [isOk_map, isOk_bind_pure, Decimal.isOk_read hne]
      constructor
      · rintro ⟨hdec, hshort⟩ ⟨-, -, ⟨c, hc, hnot⟩ | hlong⟩
        · rw [hdec c hc] at hnot
          cases hnot
        · omega
      · intro h
        refine ⟨fun c hc => ?_, ?_⟩
        · rw [← Bool.not_eq_false]
          exact fun hnot => h ⟨hne, hall, Or.inl ⟨c, hc, hnot⟩⟩
        · rw [← Nat.not_lt]
          exact fun hlong => h ⟨hne, hall, Or.inr hlong⟩
    · have hdigits : (Text.trim t).all Text.isDigit = false := by
        rw [Bool.eq_false_iff]
        exact fun he => hall (List.all_eq_true.1 he)
      simp only [hdigits, Bool.and_false, Bool.false_eq_true, if_false, isOk_ok, true_iff]
      exact fun h => hall h.2.1

theorem isOk_ofLintRecord (r : LintRecord) :
    (Finding.ofLintRecord r).isOk = (LintSeverity.ofMark r.severity).isOk := by
  unfold Finding.ofLintRecord
  rw [isOk_map]

theorem LintSeverity.isOk_ofMark (m : Option LintMark) :
    (ofMark m).isOk = true ↔ ∀ t, m = some (.word t) → ¬ IsUnreadable t := by
  cases m with
  | none => simp [ofMark]
  | some m =>
    cases m with
    | code n => simp [ofMark]
    | word t =>
      unfold ofMark
      rw [isOk_ofWord]
      exact ⟨fun h u e => by cases e; exact h, fun h => h t rfl⟩

/-! ## Lists of records -/

namespace Normalization

theorem upToFault_snd {α β ε : Type} (f : α → Except ε β) (xs : List α) :
    (upToFault f xs).2 = none ↔ xs.all (fun x => (f x).isOk) = true := by
  induction xs with
  | nil => simp [upToFault]
  | cons x rest ih =>
    unfold upToFault
    rw [List.all_cons]
    cases f x with
    | error e => simp
    | ok b => simpa using ih

theorem isOk_findings {α : Type} (next : Nat) (draft : α → Except Decimal.Fault Finding)
    (records : List α) :
    (findings next draft records).outcome.isOk = records.all fun r => (draft r).isOk := by
  have h := upToFault_snd draft records
  unfold findings
  cases hf : (upToFault draft records).2 with
  | none =>
    rw [h.1 hf]
    simp only [hf]
    rfl
  | some f =>
    rw [hf] at h
    have hall : (records.all fun r => (draft r).isOk) = false :=
      Bool.eq_false_iff.2 fun ht => by cases h.2 ht
    rw [hall]
    simp only [hf]
    rfl

theorem toOption_eq_some {α : Type} {checked : Checked α} {a : α} :
    checked.toOption = some a ↔ checked = .ok a := by
  cases checked with
  | ok b => exact Option.some_inj.trans (by rw [Checked.ok.injEq])
  | bad issues => simp [Checked.toOption]

/-- The items in their form are kept in their order. -/
theorem value_checkEach {α : Type} (check : Json → Checked α) (what : Text) (i : Nat)
    (items : List Json) :
    (checkEach check what i items).value = items.filterMap fun v => (check v).toOption := by
  induction items generalizing i with
  | nil => rfl
  | cons v rest ih =>
    unfold checkEach
    rw [List.filterMap_cons]
    cases hv : check v with
    | ok a => simp only [Logged.value_bind, Logged.value_pure, Checked.toOption, ih]
    | bad issues => simp only [Logged.value_bind, Checked.toOption, ih]

/-- The items in their form are those that pass the check. -/
theorem mem_checkEach {α : Type} {check : Json → Checked α} {what : Text} {i : Nat}
    {items : List Json} {a : α} :
    a ∈ (checkEach check what i items).value ↔ ∃ v ∈ items, check v = .ok a := by
  rw [value_checkEach, List.mem_filterMap]
  simp only [toOption_eq_some]

/-- Items that all have their form are all kept, without a warning. -/
theorem checkEach_map {α β : Type} {check : Json → Checked α} {f : β → Json} {g : β → α}
    (h : ∀ b, check (f b) = .ok (g b)) (what : Text) (i : Nat) (bs : List β) :
    checkEach check what i (bs.map f) = pure (bs.map g) := by
  induction bs generalizing i with
  | nil => rfl
  | cons b bs ih =>
    rw [List.map_cons, checkEach, h]
    simp only [ih]
    rfl

theorem isOk_vulnerabilities (next : Nat) (items : List Json) :
    (vulnerabilities next (checkVulnerabilities items).value).outcome.isOk = true ↔
      ∀ v ∈ items, ∀ r, VulnerabilityRecord.ofJson v = .ok r →
        ∀ ref ∈ FileRef.ofText (r.description.getD []), ref.IsShort := by
  unfold vulnerabilities checkVulnerabilities
  rw [isOk_findings, List.all_eq_true]
  simp only [mem_checkEach, isOk_ofVulnerability]
  exact ⟨fun h v hv r hr => h r ⟨v, hv, hr⟩, fun h r ⟨v, hv, hr⟩ => h v hv r hr⟩

/-- Every issue among some items has a severity that can be read. -/
def Legible (items : List Json) : Prop :=
  ∀ v ∈ items, ∀ r, LintRecord.ofJson v = .ok r →
    ∀ t, r.severity = some (.word t) → ¬ LintSeverity.IsUnreadable t

theorem isOk_lint (next : Nat) (items : List Json) :
    (lint next (checkLint items).value).outcome.isOk = true ↔ Legible items := by
  unfold lint checkLint Legible
  rw [isOk_findings, List.all_eq_true]
  simp only [mem_checkEach, isOk_ofLintRecord, LintSeverity.isOk_ofMark]
  exact ⟨fun h v hv r hr => h r ⟨v, hv, hr⟩, fun h r ⟨v, hv, hr⟩ => h v hv r hr⟩

/-! ## The linter's part -/

/-- The linter's text begins like a list or an object. -/
def LooksLikeJson (t : Text) : Prop :=
  ∃ c, (Text.trim t).head? = some c ∧ (c = '[' ∨ c = '\x7b')

/-- The list of issues that a JSON value holds: the value itself, or its results, which an object
need not have. -/
def issuesIn? : Json → Option (List Json)
  | .arr items => some items
  | .obj members =>
    match Json.find? "results" members with
    | none => some []
    | some (.arr items) => some items
    | some _ => none
  | _ => none

/-- The linter's text is read line by line: it does not begin like JSON, or is no JSON in spite of
that, or is JSON without a list of issues. -/
inductive IsLines (depth : Nat) (t : Text) : Prop
  | plain (h : ¬ LooksLikeJson t)
  | malformed {cause : Json.Cause} {left : Nat}
      (h : Json.read depth (Text.trim t) = .error (.malformed cause left))
  | number {count : Nat} (h : Json.read depth (Text.trim t) = .error (.number count))
  | noList {v : Json} (h : Json.read depth (Text.trim t) = .ok v) (hv : issuesIn? v = none)

/-- The linter's output is a list of items, as it stands or written as text. -/
inductive IsItems (depth : Nat) : LintOutput → List Json → Prop
  | list (items : List Json) : IsItems depth (.list items) items
  | results {members : List (Text × Json)} {items : List Json}
      (h : Json.find? "results" members = some (.arr items)) :
      IsItems depth (.object members) items
  | text {t : Text} {v : Json} {items : List Json} (hj : LooksLikeJson t)
      (h : Json.read depth (Text.trim t) = .ok v) (hv : issuesIn? v = some items) :
      IsItems depth (.text t) items

/-- Why the linter's output cannot be turned into findings. -/
inductive UnreadableOutput (depth : Nat) : LintOutput → Prop
  /-- The text is JSON that is nested too deep. -/
  | nesting {t : Text} {object : Bool} (hj : LooksLikeJson t)
      (h : Json.read depth (Text.trim t) = .error (.tooDeep object)) :
      UnreadableOutput depth (.text t)
  /-- A line of the text has a number that is too long. -/
  | line {t line : Text} {issue : LintText.IssueLine} (ht : IsLines depth t)
      (hline : line ∈ Text.lines t) (hi : LintText.IssueLine.ofLine? line = some issue)
      (hlong : ¬ issue.IsShort) : UnreadableOutput depth (.text t)
  /-- The severity of an issue is made of digits and is no number. -/
  | severity {output : LintOutput} {items : List Json} {v : Json} {record : LintRecord} {t : Text}
      (hi : IsItems depth output items) (hv : v ∈ items) (hr : LintRecord.ofJson v = .ok record)
      (hs : record.severity = some (.word t)) (hw : LintSeverity.IsUnreadable t) :
      UnreadableOutput depth output

/-- Why a response cannot be turned into findings. -/
inductive Unreadable (depth : Nat) (linting : Bool) (r : Response) : Prop
  /-- A description refers to a line with a number that is too long. -/
  | reference {v : Json} {record : VulnerabilityRecord} {ref : FileRef}
      (hv : v ∈ r.result.getD []) (hr : VulnerabilityRecord.ofJson v = .ok record)
      (href : ref ∈ FileRef.ofText (record.description.getD [])) (hlong : ¬ ref.IsShort)
  /-- The linter is asked, and its output cannot be read. -/
  | linter {output : LintOutput} (hl : linting = true) (ho : r.linter = some output)
      (h : UnreadableOutput depth output)

theorem lintOfJson_eq (t : Text) (v : Json) :
    lintOfJson t v = match issuesIn? v with
      | some items => do return .ok (← checkLint items)
      | none => lintLines t := by
  unfold lintOfJson
  cases v with
  | obj members =>
    simp only [issuesIn?]
    cases Json.find? "results" members with
    | none => rfl
    | some v => cases v <;> rfl
  | _ => rfl

/-- What is found with the records of a step, if it has any. -/
def outcomeOf (next : Nat) :
    Except NormalizationFault (List LintRecord) → Except NormalizationFault (List Finding)
  | .error f => .error f
  | .ok records => (lint next records).outcome

theorem outcome_lintFindings (depth next : Nat) (output : LintOutput) :
    (lintFindings depth next output).value.outcome =
      outcomeOf next (lintRecords depth output).value := by
  unfold lintFindings outcomeOf
  rw [Logged.value_bind]
  cases (lintRecords depth output).value <;> rfl

theorem isOk_outcomeOf_checkLint (next : Nat) (items : List Json) :
    (outcomeOf next (.ok (checkLint items).value)).isOk = true ↔ Legible items :=
  isOk_lint next items

/-- Of a text that is read line by line only the numbers of its lines may be too long. -/
theorem isOk_outcomeOf_lintLines (next : Nat) (t : Text) :
    (outcomeOf next (lintLines t).value).isOk = true ↔
      ∀ line ∈ Text.lines t, ∀ i, LintText.IssueLine.ofLine? line = some i → i.IsShort := by
  rw [← LintText.isOk_records]
  unfold lintLines
  cases hr : LintText.records t with
  | error f => exact ⟨fun h => (by cases h), fun h => (by cases h)⟩
  | ok records =>
    refine ⟨fun _ => rfl, fun _ => ?_⟩
    show (lint next records).outcome.isOk = true
    unfold lint
    rw [isOk_findings, List.all_eq_true]
    intro r hrec
    rw [isOk_ofLintRecord]
    exact LintText.isOk_severity hr hrec

theorem looksLikeJson_iff (t : Text) :
    LooksLikeJson t ↔
      ((Text.trim t).head?.any fun c => c == '[' || c == '\x7b') = true := by
  unfold LooksLikeJson
  cases (Text.trim t).head? with
  | none => simp
  | some c => simp

/-- A list of items is as good as each of its items. -/
theorem isOk_of_isItems {depth next : Nat} {output : LintOutput} {items : List Json}
    (hi : IsItems depth output items)
    (hline : ∀ t, output = .text t → ¬ IsLines depth t)
    (hdeep : ∀ t object, output = .text t →
      Json.read depth (Text.trim t) ≠ .error (.tooDeep object))
    (huniq : ∀ other, IsItems depth output other → other = items) :
    (outcomeOf next (.ok (checkLint items).value)).isOk = true ↔
      ¬ UnreadableOutput depth output := by
  rw [isOk_outcomeOf_checkLint]
  constructor
  · intro hl h
    cases h with
    | nesting hj h => exact hdeep _ _ rfl h
    | line ht => exact hline _ rfl ht
    | severity hi' hv hr hs hw => exact hl _ (huniq _ hi' ▸ hv) _ hr _ hs hw
  · intro h v hv r hr t hs hw
    exact h (.severity hi hv hr hs hw)

/-- A text that is read line by line is as good as each of its lines. -/
theorem isOk_of_isLines {depth next : Nat} {t : Text} (ht : IsLines depth t)
    (hdeep : LooksLikeJson t → ∀ object, Json.read depth (Text.trim t) ≠ .error (.tooDeep object))
    (hitems : ∀ items, ¬ IsItems depth (.text t) items) :
    (outcomeOf next (lintLines t).value).isOk = true ↔ ¬ UnreadableOutput depth (.text t) := by
  rw [isOk_outcomeOf_lintLines]
  constructor
  · intro hl h
    cases h with
    | nesting hj h => exact hdeep hj _ h
    | line ht hline hi hlong => exact hlong (hl _ hline _ hi)
    | severity hi => exact hitems _ hi
  · intro h line hline i hi
    exact not_not.1 fun hlong => h (.line ht hline hi hlong)

theorem isOk_lintOfText (depth next : Nat) (t : Text) :
    (outcomeOf next (lintOfText depth t).value).isOk = true ↔
      ¬ UnreadableOutput depth (.text t) := by
  unfold lintOfText
  by_cases hj : LooksLikeJson t
  · simp only [(looksLikeJson_iff t).1 hj, if_true]
    cases hread : Json.read depth (Text.trim t) with
    | ok v =>
      simp only [lintOfJson_eq]
      cases hv : issuesIn? v with
      | some items =>
        refine isOk_of_isItems (.text hj hread hv) ?_ ?_ ?_
        · intro u e ht
          cases e
          cases ht with
          | plain h => exact h hj
          | malformed h => cases hread.symm.trans h
          | number h => cases hread.symm.trans h
          | noList h hn =>
            obtain rfl := Except.ok.inj (hread.symm.trans h)
            cases hv.symm.trans hn
        · intro u object e h
          cases e
          cases hread.symm.trans h
        · rintro other (_ | _ | ⟨-, h, ho⟩)
          obtain rfl := Except.ok.inj (hread.symm.trans h)
          exact Option.some.inj (ho.symm.trans hv)
      | none =>
        refine isOk_of_isLines (.noList hread hv) ?_ ?_
        · intro _ object h
          cases hread.symm.trans h
        · rintro items (_ | _ | ⟨-, h, ho⟩)
          obtain rfl := Except.ok.inj (hread.symm.trans h)
          cases hv.symm.trans ho
    | error f =>
      have hitems : ∀ items, ¬ IsItems depth (.text t) items := by
        rintro items (_ | _ | ⟨-, h, -⟩)
        cases hread.symm.trans h
      cases f with
      | tooDeep object =>
        exact ⟨fun h => (by cases h), fun h => absurd (.nesting hj hread) h⟩
      | malformed cause left =>
        simp only [Logged.value_bind]
        refine isOk_of_isLines (.malformed hread) ?_ hitems
        intro _ object h
        cases hread.symm.trans h
      | number count =>
        simp only [Logged.value_bind]
        refine isOk_of_isLines (.number hread) ?_ hitems
        intro _ object h
        cases hread.symm.trans h
  · rw [if_neg fun h => hj ((looksLikeJson_iff t).2 h)]
    refine isOk_of_isLines (.plain hj) (fun h => absurd h hj) ?_
    rintro items (_ | _ | ⟨h, -, -⟩)
    exact hj h

theorem isOk_lintFindings (depth next : Nat) (output : LintOutput) :
    (lintFindings depth next output).value.outcome.isOk = true ↔
      ¬ UnreadableOutput depth output := by
  rw [outcome_lintFindings]
  cases output with
  | text t => exact isOk_lintOfText depth next t
  | list items =>
    refine isOk_of_isItems (.list items) (fun t h => by cases h) (fun t o h => by cases h) ?_
    rintro other (_ | _ | _)
    rfl
  | object members =>
    unfold lintRecords
    simp only []
    split
    · next items hf =>
      refine isOk_of_isItems (.results hf) (fun t h => by cases h) (fun t o h => by cases h) ?_
      rintro other (_ | h | _)
      cases hf.symm.trans h
      rfl
    · next hf =>
      refine ⟨fun _ h => ?_, fun _ => rfl⟩
      cases h with
      | severity hi =>
        cases hi with
        | results h => exact hf _ h

/-- Output that says nothing can always be read. -/
theorem not_unreadableOutput_of_isEmpty {depth : Nat} {output : LintOutput}
    (h : output.isEmpty = true) : ¬ UnreadableOutput depth output := by
  rw [← isOk_lintFindings depth 0]
  cases output with
  | list items =>
    obtain rfl := List.isEmpty_iff.1 h
    rfl
  | object members =>
    obtain rfl := List.isEmpty_iff.1 h
    rfl
  | text t =>
    obtain rfl := List.isEmpty_iff.1 h
    rfl

/-! ## Top theorem -/

/-- **The responses that can be turned into findings.** -/
theorem isOk_ofResponse (depth next : Nat) (linting : Bool) (r : Response) :
    (ofResponse next linting r depth).value.outcome.isOk = true ↔ ¬ Unreadable depth linting r := by
  have hv := isOk_vulnerabilities next (r.result.getD [])
  unfold ofResponse
  simp only [Logged.value_bind]
  cases hf : (vulnerabilities next (checkVulnerabilities (r.result.getD [])).value).outcome with
  | error f =>
    rw [hf] at hv
    simp only [isOk_error, Bool.false_eq_true, false_iff, Logged.value_pure, not_not] at hv ⊢
    simp only [not_forall] at hv
    obtain ⟨v, hv, record, hr, ref, href, hlong⟩ := hv
    exact .reference hv hr href hlong
  | ok vs =>
    rw [hf] at hv
    have hshort := hv.1 rfl
    simp only [Logged.value_bind, Logged.value_pure, isOk_map]
    have hiff : Unreadable depth linting r ↔
        linting = true ∧ ∃ output, r.linter = some output ∧ UnreadableOutput depth output := by
      constructor
      · rintro (⟨hv, hr, href, hlong⟩ | ⟨hl, ho, h⟩)
        · exact absurd (hshort _ hv _ hr _ href) hlong
        · exact ⟨hl, _, ho, h⟩
      · rintro ⟨hl, output, ho, h⟩
        exact .linter hl ho h
    rw [hiff]
    unfold lintPart
    cases ho : r.linter with
    | none => simp
    | some output =>
      simp only [Option.some.injEq, exists_eq_left']
      cases linting with
      | false => simp
      | true =>
        cases he : output.isEmpty with
        | true => simpa using not_unreadableOutput_of_isEmpty he
        | false => simpa using isOk_lintFindings depth _ output

end Normalization

end ContractAudit
