import Mathlib.Data.List.Forall2
import Mathlib.Data.List.TakeWhile
import ContractAudit.LintText
import ContractAudit.Severity

/-!
# Reading the linter's lines

A number is read if and only if it is short enough, so the linter's text is read if and only if
no issue line of it has a longer one.  The severity of an issue line begins with a letter, in
whatever case and script it is written, and is therefore no number.

    (records t).isOk ↔ no issue line of t has a number of more than `limit` digits
                                                            (isOk_records)
    r ∈ records of t → the severity of r can be read        (isOk_severity)
-/

namespace ContractAudit

open Record (LintRecord)

/-! ## Steps that may fail -/

@[simp] theorem isOk_ok {α ε : Type} (a : α) : (.ok a : Except ε α).isOk = true := rfl

@[simp] theorem isOk_error {α ε : Type} (e : ε) : (.error e : Except ε α).isOk = false := rfl

@[simp] theorem isOk_map {α β ε : Type} (f : α → β) (x : Except ε α) :
    (x.map f).isOk = x.isOk := by
  cases x <;> rfl

theorem isOk_iff {α ε : Type} {x : Except ε α} : x.isOk = true ↔ ∃ a, x = .ok a := by
  cases x with
  | ok a => exact ⟨fun _ => ⟨a, rfl⟩, fun _ => rfl⟩
  | error e =>
    constructor
    · intro h
      cases h
    · rintro ⟨a, h⟩
      cases h

theorem isOk_bind_pure {α β ε : Type} (f : α → β) (x : Except ε α) :
    (x >>= fun a => pure (f a)).isOk = x.isOk := by
  cases x <;> rfl

/-- A list is gone through if and only if each item of it is. -/
theorem isOk_mapM {α β ε : Type} (f : α → Except ε β) (xs : List α) :
    (xs.mapM f).isOk = xs.all fun x => (f x).isOk := by
  induction xs with
  | nil => rfl
  | cons x rest ih =>
    rw [List.mapM_cons, List.all_cons, ← ih]
    cases f x with
    | error e => rfl
    | ok b => cases rest.mapM f <;> rfl

theorem forall₂_of_mapM {α β ε : Type} {f : α → Except ε β} {xs : List α} {ys : List β}
    (h : xs.mapM f = .ok ys) : List.Forall₂ (fun x y => f x = .ok y) xs ys := by
  induction xs generalizing ys with
  | nil =>
    cases h
    exact .nil
  | cons x rest ih =>
    rw [List.mapM_cons] at h
    cases hx : f x with
    | error e =>
      rw [hx] at h
      cases h
    | ok y =>
      rw [hx] at h
      cases hrest : rest.mapM f with
      | error e =>
        rw [hrest] at h
        cases h
      | ok zs =>
        rw [hrest] at h
        cases h
        exact .cons hx (ih hrest)

namespace Decimal

theorem isOk_readDigits (t : Text) : (readDigits t).isOk = decide (t.length ≤ limit) := by
  unfold readDigits
  split
  · next h => rw [isOk_error, decide_eq_false (by omega)]
  · next h => rw [isOk_ok, decide_eq_true (by omega)]

end Decimal

namespace LintText

/-! ## The numbers of a line -/

/-- The line and the column of an issue can be read. -/
def IssueLine.IsShort (i : IssueLine) : Prop :=
  i.line.length ≤ Decimal.limit ∧ i.column.length ≤ Decimal.limit

theorem isOk_record (i : IssueLine) (file : Option Text) :
    (i.record file).isOk = true ↔ i.IsShort := by
  have hline := Decimal.isOk_readDigits i.line
  have hcolumn := Decimal.isOk_readDigits i.column
  unfold IssueLine.record IssueLine.IsShort
  cases hl : Decimal.readDigits i.line with
  | error f =>
    rw [hl, isOk_error, eq_comm, decide_eq_false_iff_not] at hline
    simp [hline]
  | ok n =>
    rw [hl, isOk_ok, eq_comm, decide_eq_true_iff] at hline
    simp only [hline, true_and]
    rw [isOk_map, isOk_bind_pure, hcolumn, decide_eq_true_iff]

theorem isOk_recordsFrom (file : Option Text) (ts : List Text) :
    (recordsFrom file ts).isOk = true ↔
      ∀ t ∈ ts, ∀ i, IssueLine.ofLine? t = some i → i.IsShort := by
  induction ts generalizing file with
  | nil => simp [recordsFrom]
  | cons t rest ih =>
    unfold recordsFrom
    rw [List.forall_mem_cons]
    cases ho : IssueLine.ofLine? t with
    | none =>
      simp only [ih]
      simp
    | some issue =>
      have hi := isOk_record issue file
      simp only []
      cases hr : issue.record file with
      | error f =>
        rw [hr] at hi
        simp only [isOk_error, Bool.false_eq_true, false_iff] at hi ⊢
        exact fun h => hi (h.1 issue rfl)
      | ok r =>
        rw [hr] at hi
        simp only [isOk_map, ih]
        constructor
        · refine fun h => ⟨fun i e => ?_, h⟩
          obtain rfl := Option.some.inj e
          exact hi.1 rfl
        · exact fun h => h.2

theorem isOk_records (t : Text) :
    (records t).isOk = true ↔
      ∀ line ∈ Text.lines t, ∀ i, IssueLine.ofLine? line = some i → i.IsShort :=
  isOk_recordsFrom none _

/-! ## The severity of a line -/

theorem dropWord?_eq_some {word t rest : Text} (h : Text.dropWord? word t = some rest) :
    ∃ front, t = front ++ rest ∧
      List.Forall₂ (fun w c => Text.sameLetter w c = true) word front := by
  induction word generalizing t with
  | nil =>
    obtain rfl := Option.some.inj h
    exact ⟨[], rfl, .nil⟩
  | cons w word ih =>
    cases t with
    | nil => cases h
    | cons c t =>
      unfold Text.dropWord? at h
      split at h
      · next hc =>
        obtain ⟨front, rfl, hall⟩ := ih h
        exact ⟨c :: front, rfl, .cons hc hall⟩
      · cases h

/-- A key word of severity, each letter in either case. -/
def IsSeverity (t : Text) : Prop :=
  ∃ word ∈ severityWords, List.Forall₂ (fun small c => Text.sameLetter small c = true) word t

theorem severity?_eq_some {t severity rest : Text} (h : severity? t = some (severity, rest)) :
    t = severity ++ rest ∧ IsSeverity severity := by
  unfold severity? at h
  obtain ⟨word, hword, hdrop⟩ := List.exists_of_findSome?_eq_some h
  obtain ⟨rest', hrest, he⟩ := Option.map_eq_some_iff.1 hdrop
  obtain ⟨front, rfl, hall⟩ := dropWord?_eq_some hrest
  obtain ⟨hs, rfl⟩ := Prod.mk.inj he
  have hfront : severity = front := by
    rw [← hs, List.length_append, Nat.add_sub_cancel, List.take_left]
  subst hfront
  exact ⟨rfl, word, hword, hall⟩

/-- The letters with which the key words begin. -/
theorem exists_cons_of_mem_severityWords {word : Text} (h : word ∈ severityWords) :
    ∃ small ∈ ['e', 'w', 'i'], ∃ more, word = small :: more := by
  simp only [severityWords, List.mem_cons, List.not_mem_nil, or_false] at h
  rcases h with rfl | rfl | rfl
  · exact ⟨'e', by simp, _, rfl⟩
  · exact ⟨'w', by simp, _, rfl⟩
  · exact ⟨'i', by simp, _, rfl⟩

/-- The first character of a severity is an `e`, a `w` or an `i` in some form. -/
theorem IsSeverity.exists_cons {severity : Text} (h : IsSeverity severity) :
    ∃ small ∈ ['e', 'w', 'i'], ∃ c more, severity = c :: more ∧ Text.sameLetter small c = true := by
  obtain ⟨word, hword, hall⟩ := h
  obtain ⟨small, hsmall, _, rfl⟩ := exists_cons_of_mem_severityWords hword
  obtain ⟨c, more, hc, -, rfl⟩ := List.forall₂_cons_left_iff.1 hall
  exact ⟨small, hsmall, c, more, rfl, hc⟩

/-- Neither a blank nor a digit has a form of one of these letters. -/
theorem head_lowerChar {w c : Char} (hw : w ∈ ['e', 'w', 'i']) (h : Text.sameLetter w c = true) :
    ∃ d more, Text.lowerChar c = d :: more ∧ Text.isBlank d = false ∧ Text.isDigit d = false := by
  unfold Text.sameLetter at h
  simp only [Bool.or_eq_true, Bool.and_eq_true, beq_iff_eq] at h
  rcases h with h | ⟨-, h | h⟩
  · refine ⟨w, [], h, ?_⟩
    have hall : ∀ w ∈ ['e', 'w', 'i'], Text.isBlank w = false ∧ Text.isDigit w = false := by
      simp only [List.forall_mem_cons]
      exact ⟨⟨by decide, by decide⟩, ⟨by decide, by decide⟩, ⟨by decide, by decide⟩, by simp⟩
    exact hall w hw
  · obtain rfl : c = Char.ofNat 0x130 := Char.toNat_inj.1 h
    exact ⟨'i', [Char.ofNat 0x307], by decide, by decide, by decide⟩
  · obtain rfl : c = Char.ofNat 0x131 := Char.toNat_inj.1 h
    exact ⟨Char.ofNat 0x131, [], by decide, by decide, by decide⟩

theorem mem_trim {c : Char} {t : Text} (hc : c ∈ t) (hb : Text.isBlank c = false) :
    c ∈ Text.trim t := by
  have hdrop : ∀ {t : Text}, c ∈ t → c ∈ t.dropWhile Text.isBlank := by
    intro t hc
    rw [← List.takeWhile_append_dropWhile (p := Text.isBlank) (l := t)] at hc
    refine (List.mem_append.1 hc).resolve_left fun h => ?_
    rw [List.mem_takeWhile_imp h] at hb
    cases hb
  unfold Text.trim Text.trimEnd Text.trimStart
  exact List.mem_reverse.2 (hdrop (List.mem_reverse.2 (hdrop hc)))

/-- The severity of an issue is no number. -/
theorem exists_not_digit {t : Text} {i : IssueLine} (h : IssueLine.ofLine? t = some i) :
    ∃ c ∈ Text.trim (Text.lower i.severity), Text.isDigit c = false := by
  obtain ⟨u, rest, hu⟩ : ∃ u rest, severity? u = some (i.severity, rest) := by
    unfold IssueLine.ofLine? at h
    split at h
    · cases h
    · split at h
      · cases h
      · split at h
        · split at h
          · cases h
          · next severity rest hs =>
            obtain ⟨⟨message, rule⟩, -, rfl⟩ := Option.map_eq_some_iff.1 h
            exact ⟨_, rest, hs⟩
        · cases h
      · cases h
    · cases h
  obtain ⟨w, hw, c, more, hs, hc⟩ := (severity?_eq_some hu).2.exists_cons
  obtain ⟨d, ds, hl, hblank, hdigit⟩ := head_lowerChar hw hc
  refine ⟨d, mem_trim ?_ hblank, hdigit⟩
  rw [hs, Text.lower_cons, hl]
  exact List.mem_cons_self

theorem exists_line_of_mem_recordsFrom {file : Option Text} {ts : List Text}
    {rs : List LintRecord} (h : recordsFrom file ts = .ok rs) {r : LintRecord} (hr : r ∈ rs) :
    ∃ t ∈ ts, ∃ i file, IssueLine.ofLine? t = some i ∧ i.record file = .ok r := by
  induction ts generalizing file rs with
  | nil =>
    obtain rfl := Except.ok.inj h
    cases hr
  | cons t rest ih =>
    unfold recordsFrom at h
    split at h
    · next issue ho =>
      split at h
      · cases h
      · next first hf =>
        cases hrest : recordsFrom file rest with
        | error f => rw [hrest] at h; cases h
        | ok more =>
          rw [hrest] at h
          obtain rfl := Except.ok.inj h
          rcases List.mem_cons.1 hr with rfl | hr
          · exact ⟨t, List.mem_cons_self, issue, file, ho, hf⟩
          · obtain ⟨u, hu, hspec⟩ := ih hrest hr
            exact ⟨u, List.mem_cons_of_mem t hu, hspec⟩
    · obtain ⟨u, hu, hspec⟩ := ih h hr
      exact ⟨u, List.mem_cons_of_mem t hu, hspec⟩

theorem severity_of_record {i : IssueLine} {file : Option Text} {r : LintRecord}
    (h : i.record file = .ok r) : r.severity = some (.word (Text.lower i.severity)) := by
  unfold IssueLine.record at h
  split at h
  · cases h
  · cases hc : Decimal.readDigits i.column with
    | error f => rw [hc] at h; cases h
    | ok n =>
      rw [hc] at h
      obtain rfl := Except.ok.inj h
      rfl

/-- The severity of a line is looked up as a word. -/
theorem ofMark_severity {t : Text} {i : IssueLine} (h : IssueLine.ofLine? t = some i) :
    LintSeverity.ofMark (some (.word (Text.lower i.severity))) =
      .ok ((Labelled.ofWord? LintSeverity (Text.lower i.severity)).getD .unknown) := by
  obtain ⟨c, hc, hdigit⟩ := exists_not_digit h
  have hall : (Text.trim (Text.lower i.severity)).all Text.isDigit = false := by
    rw [Bool.eq_false_iff]
    intro hall
    rw [List.all_eq_true.1 hall c hc] at hdigit
    cases hdigit
  unfold LintSeverity.ofMark LintSeverity.ofWord
  simp only [hall, Bool.and_false, Bool.false_eq_true, if_false]

/-- Every severity that comes from a line can be read. -/
theorem isOk_severity {t : Text} {rs : List LintRecord} (h : records t = .ok rs)
    {r : LintRecord} (hr : r ∈ rs) : (LintSeverity.ofMark r.severity).isOk = true := by
  obtain ⟨line, -, i, file, hi, hrec⟩ := exists_line_of_mem_recordsFrom h hr
  rw [severity_of_record hrec, ofMark_severity hi]
  rfl

end LintText

end ContractAudit
