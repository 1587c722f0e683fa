import ContractAudit.Proofs.LintGrammar

/-!
# The records of a linter's text

A text is read line by line.  Every issue line has one record, in the order of the lines, and no
other line has any.  The file of a record is the one that was named last before its line.

    recordsFrom file (ts.drop n) = .ok rs, the reading of `ts` from line `n` on
                                                            (recordsFrom_spec)
    records t = .ok rs ↔ rs is the reading of the lines of t, if their numbers are short
                                                            (records_isReading)
-/

namespace ContractAudit.LintText

open Record (LintRecord)

/-! ## The file that was named last -/

/-- The line is no issue line and names the file. -/
def Names (t file : Text) : Prop := ¬ IsIssueLine t ∧ IsHeader t file

/-- The file that is named last in some lines, if any is. -/
def IsNamedLast (ts : List Text) : Option Text → Prop
  | none => ∀ t ∈ ts, ∀ file, ¬ Names t file
  | some file => ∃ front t behind, ts = front ++ t :: behind ∧ Names t file ∧
      ∀ u ∈ behind, ∀ other, ¬ Names u other

theorem Names.unique {t file other : Text} (h : Names t file) (h' : Names t other) :
    file = other :=
  Option.some.inj ((header?_eq_some_iff.2 h.2).symm.trans (header?_eq_some_iff.2 h'.2))

theorem isNamedLast_concat {ts : List Text} {t file : Text} (h : Names t file) :
    IsNamedLast (ts ++ [t]) (some file) :=
  ⟨ts, t, [], rfl, h, List.forall_mem_nil _⟩

/-- A line that names no file is passed over. -/
theorem IsNamedLast.pass {ts : List Text} {t : Text} {file : Option Text}
    (h : IsNamedLast ts file) (ht : ∀ other, ¬ Names t other) : IsNamedLast (ts ++ [t]) file := by
  cases file with
  | none => exact List.forall_mem_append.2 ⟨h, List.forall_mem_singleton.2 ht⟩
  | some file =>
    obtain ⟨front, u, behind, rfl, hu, hbehind⟩ := h
    refine ⟨front, u, behind ++ [t], by simp, hu, ?_⟩
    exact List.forall_mem_append.2 ⟨hbehind, List.forall_mem_singleton.2 ht⟩

/-- No line that names a file stands behind the last one that does. -/
theorem length_le_of_names {front behind front' behind' : List Text} {t t' file : Text}
    (he : front ++ t :: behind = front' ++ t' :: behind')
    (hbehind : ∀ u ∈ behind, ∀ other, ¬ Names u other) (h' : Names t' file) :
    front'.length ≤ front.length := by
  rcases List.append_eq_append_iff.1 he with ⟨more, rfl, ht⟩ | ⟨more, rfl, -⟩
  · cases more with
    | nil => simp
    | cons u more =>
      obtain ⟨-, rfl⟩ := List.cons.inj ht
      exact absurd h' (hbehind t' (by simp) file)
  · simp

theorem IsNamedLast.unique {ts : List Text} {file file' : Option Text} (h : IsNamedLast ts file)
    (h' : IsNamedLast ts file') : file = file' := by
  cases file with
  | none =>
    cases file' with
    | none => rfl
    | some file' =>
      obtain ⟨front, t, behind, rfl, ht, -⟩ := h'
      exact absurd ht (h t (by simp) file')
  | some file =>
    obtain ⟨front, t, behind, rfl, ht, hbehind⟩ := h
    cases file' with
    | none => exact absurd ht (h' t (by simp) file)
    | some file' =>
      obtain ⟨front', t', behind', he, ht', hbehind'⟩ := h'
      have hle := length_le_of_names he hbehind ht'
      have hle' := length_le_of_names he.symm hbehind' ht
      obtain ⟨-, hrest⟩ := List.append_inj he (Nat.le_antisymm hle' hle)
      obtain ⟨rfl, -⟩ := List.cons.inj hrest
      rw [ht.unique ht']

/-! ## The reading of some lines -/

/-- The issue as a record of a file, with the numbers that its digits stand for. -/
def IssueLine.toRecord (i : IssueLine) (file : Option Text) : LintRecord :=
  { line := some (Decimal.value i.line)
    column := some (Decimal.value i.column)
    severity := some (.word (Text.lower i.severity))
    message := some i.message
    rule := some i.rule
    file := file }

theorem record_eq_ok {i : IssueLine} (h : i.IsShort) (file : Option Text) :
    i.record file = .ok (i.toRecord file) := by
  unfold IssueLine.record
  rw [Decimal.readDigits_eq_ok_iff.2 ⟨h.1, rfl⟩, Decimal.readDigits_eq_ok_iff.2 ⟨h.2, rfl⟩]
  rfl

/-- At this place there is an issue line. -/
def IsIssueAt (ts : List Text) (n : Nat) : Prop := ∃ t, ts[n]? = some t ∧ IsIssueLine t

/-- The record of the line at this place, its file being the one that was named last before. -/
def IsRecordAt (ts : List Text) (n : Nat) (r : LintRecord) : Prop :=
  ∃ t issue file, ts[n]? = some t ∧ Reports t issue ∧ IsNamedLast (ts.take n) file ∧
    r = issue.toRecord file

/-- The records of the lines from a place on: one for each issue line, in order. -/
structure IsReadingFrom (start : Nat) (ts : List Text) (places : List Nat)
    (rs : List LintRecord) : Prop where
  increasing : places.Pairwise (· < ·)
  mem_places : ∀ n, n ∈ places ↔ start ≤ n ∧ IsIssueAt ts n
  records : List.Forall₂ (IsRecordAt ts) places rs

/-- The records of all lines. -/
def IsReading (ts : List Text) (rs : List LintRecord) : Prop :=
  ∃ places, IsReadingFrom 0 ts places rs

theorem IsRecordAt.unique {ts : List Text} {n : Nat} {r r' : LintRecord} (h : IsRecordAt ts n r)
    (h' : IsRecordAt ts n r') : r = r' := by
  obtain ⟨t, issue, file, ht, hissue, hfile, rfl⟩ := h
  obtain ⟨t', issue', file', ht', hissue', hfile', rfl⟩ := h'
  obtain rfl := Option.some.inj (ht.symm.trans ht')
  rw [hissue.unique hissue', hfile.unique hfile']

theorem IsReading.unique {ts : List Text} {rs rs' : List LintRecord} (h : IsReading ts rs)
    (h' : IsReading ts rs') : rs = rs' := by
  obtain ⟨places, h⟩ := h
  obtain ⟨places', h'⟩ := h'
  have hplaces : places = places' := h.increasing.eq_of_mem_iff h'.increasing fun n =>
    (h.mem_places n).trans (h'.mem_places n).symm
  subst hplaces
  have hunique : Relator.RightUnique (IsRecordAt ts) := fun _ _ _ hr hr' => hr.unique hr'
  exact hunique.forall₂ h.records h'.records

/-! ## Reading -/

section
variable {ts rest : List Text} {n : Nat} {t : Text} {places : List Nat} {rs : List LintRecord}

theorem isReadingFrom_end (h : ts.drop n = []) : IsReadingFrom n ts [] [] where
  increasing := .nil
  mem_places m := by
    refine ⟨fun hm => absurd hm List.not_mem_nil, ?_⟩
    rintro ⟨hle, t, ht, -⟩
    have hlt := (List.getElem?_eq_some_iff.1 ht).1
    have hlen := List.drop_eq_nil_iff.1 h
    omega
  records := .nil

theorem IsReadingFrom.issue (h : IsReadingFrom (n + 1) ts places rs) (ht : ts[n]? = some t)
    {issue : IssueLine} (hi : Reports t issue) {file : Option Text}
    (hfile : IsNamedLast (ts.take n) file) :
    IsReadingFrom n ts (n :: places) (issue.toRecord file :: rs) where
  increasing := List.pairwise_cons.2 ⟨fun m hm => ((h.mem_places m).1 hm).1, h.increasing⟩
  mem_places m := by
    rw [List.mem_cons, h.mem_places]
    constructor
    · rintro (rfl | ⟨hle, hissue⟩)
      · exact ⟨Nat.le_refl _, t, ht, hi.isIssueLine⟩
      · exact ⟨Nat.le_of_succ_le hle, hissue⟩
    · rintro ⟨hle, hissue⟩
      rcases Nat.eq_or_lt_of_le hle with rfl | hlt
      · exact Or.inl rfl
      · exact Or.inr ⟨hlt, hissue⟩
  records := .cons ⟨t, issue, file, ht, hi, hfile, rfl⟩ h.records

theorem IsReadingFrom.skip (h : IsReadingFrom (n + 1) ts places rs) (ht : ts[n]? = some t)
    (hi : ¬ IsIssueLine t) : IsReadingFrom n ts places rs where
  increasing := h.increasing
  mem_places m := by
    rw [h.mem_places]
    refine ⟨fun hm => ⟨Nat.le_of_succ_le hm.1, hm.2⟩, ?_⟩
    rintro ⟨hle, u, hu, hissue⟩
    refine ⟨Nat.lt_of_le_of_ne hle ?_, u, hu, hissue⟩
    rintro rfl
    exact hi (Option.some.inj (hu.symm.trans ht) ▸ hissue)
  records := h.records

theorem of_drop_eq_cons (h : ts.drop n = t :: rest) :
    ts[n]? = some t ∧ ts.drop (n + 1) = rest ∧ ts.take (n + 1) = ts.take n ++ [t] := by
  have ht : ts[n]? = some t := by
    rw [← List.head?_drop, h]
    rfl
  refine ⟨ht, ?_, ?_⟩
  · rw [← List.drop_drop, h]
    rfl
  · rw [List.take_add_one, ht]
    rfl

/-- **Reading goes on from line to line** with the file that was named last. -/
theorem recordsFrom_spec {file : Option Text} (hrest : ts.drop n = rest)
    (hfile : IsNamedLast (ts.take n) file)
    (hshort : ∀ u ∈ rest, ∀ d : Division, d.Divides u → d.issue.IsShort) :
    ∃ places rs, recordsFrom file rest = .ok rs ∧ IsReadingFrom n ts places rs := by
  induction rest generalizing n file with
  | nil => exact ⟨[], [], rfl, isReadingFrom_end hrest⟩
  | cons u rest ih =>
    obtain ⟨hu, hrest, htake⟩ := of_drop_eq_cons hrest
    obtain ⟨hushort, hshort⟩ := List.forall_mem_cons.1 hshort
    unfold recordsFrom
    cases hi : IssueLine.ofLine? u with
    | some issue =>
      have hreports := ofLine?_eq_some_iff.1 hi
      have hnames : ∀ other, ¬ Names u other := fun other ho => ho.1 hreports.isIssueLine
      obtain ⟨places, rs, hrs, hreading⟩ := ih hrest (htake ▸ hfile.pass hnames) hshort
      have hissue : issue.IsShort := by
        obtain ⟨d, hd, rfl, -⟩ := hreports
        exact hushort d hd
      simp only [record_eq_ok hissue, hrs]
      exact ⟨n :: places, issue.toRecord file :: rs, rfl, hreading.issue hu hreports hfile⟩
    | none =>
      have hnot := ofLine?_eq_none_iff.1 hi
      have hfile' : IsNamedLast (ts.take (n + 1)) ((header? u).orElse fun _ => file) := by
        rw [htake]
        cases hh : header? u with
        | some other => exact isNamedLast_concat ⟨hnot, header?_eq_some_iff.1 hh⟩
        | none =>
          refine hfile.pass fun other ho => ?_
          cases hh.symm.trans (header?_eq_some_iff.2 ho.2)
      obtain ⟨places, rs, hrs, hreading⟩ := ih hrest hfile' hshort
      exact ⟨places, rs, hrs, hreading.skip hu hnot⟩

end

/-! ## Top theorem -/

/-- **The records of a text are the reading of its lines**, if no issue line has a number that is
too long: there are records, and they are told by the grammar of the lines. -/
theorem records_isReading {t : Text}
    (h : ∀ line ∈ Text.lines t, ∀ d : Division, d.Divides line → d.issue.IsShort) :
    ∃ rs, records t = .ok rs ∧ ∀ other, IsReading (Text.lines t) other ↔ other = rs := by
  obtain ⟨places, rs, hrs, hreading⟩ := recordsFrom_spec rfl
    (show IsNamedLast ((Text.lines t).take 0) none from List.forall_mem_nil _) h
  refine ⟨rs, hrs, fun other => ⟨fun ho => ho.unique ⟨places, hreading⟩, ?_⟩⟩
  rintro rfl
  exact ⟨places, hreading⟩

/-- The numbers of a short line are short. -/
theorem isShort_of_length_le {line : Text} (h : line.length ≤ Decimal.limit) {d : Division}
    (hd : d.Divides line) : d.issue.IsShort := by
  rw [← hd.text] at h
  simp only [Division.text, List.length_append, List.length_cons] at h
  constructor <;> omega

/-- An issue before any header, a blank message, a dotted capital in a severity, a header between
blanks, one that is only the ending, and lines that look like issues. -/
theorem records_isReading_mixed :
    let t : Text :=
      "1:2 error a b\n .sol \n\ta/A.sol \n 3:04 ERROR \t no-c\nB.sol:7 error d e\r\n".toList
        ++ "5:6 \u0130nfo 7:8 error f g  @h/i.j \n3: 4 error k l\nC.sol D.sol\n".toList
        ++ "0:9 warning m n,".toList
    let rs : List LintRecord :=
      [⟨some 1, some 2, some (.word "error"), some "a", some "b", none, none⟩,
        ⟨some 3, some 4, some (.word "error"), some "\t", some "no-c", some "a/A.sol", none⟩,
        ⟨some 5, some 6, some (.word "i\u0307nfo"), some "7:8 error f g", some "@h/i.j",
          some "a/A.sol", none⟩]
    (∀ line ∈ Text.lines t, ∀ d : Division, d.Divides line → d.issue.IsShort) ∧
      records t = .ok rs ∧ ∀ other, IsReading (Text.lines t) other ↔ other = rs := by
  intro t rs
  have hlines : ∀ line ∈ Text.lines t, line.length ≤ Decimal.limit := by decide +kernel
  have hshort : ∀ line ∈ Text.lines t, ∀ d : Division, d.Divides line → d.issue.IsShort :=
    fun line hline _ hd => isShort_of_length_le (hlines line hline) hd
  have hrecords : records t = .ok rs := by decide +kernel
  obtain ⟨found, hfound, hreading⟩ := records_isReading hshort
  obtain rfl := Except.ok.inj (hrecords.symm.trans hfound)
  exact ⟨hshort, hrecords, hreading⟩

end ContractAudit.LintText
