import Mathlib.Data.List.TakeDrop
import Mathlib.Data.List.TakeWhile
import ContractAudit.Text.Digit

/-!
# Lines and the ends of texts

A text is cut where a run of characters of one kind ends: into lines at line breaks, into words
at blanks, into numbers where the digits end.  What is put together from such runs is taken apart
into the same runs.

    lines (join ['\n'] ls) = ls      for lines that are not empty and hold no break
                                                            (lines_join)
    trim (s ++ t ++ u) = t           for blanks s and u around a text with bare ends
                                                            (trim_append)
-/

namespace ContractAudit.Text

/-! ## Blanks -/

/-- The codes of the blanks. -/
def blankCodes : List Nat :=
  List.range' 9 5 ++ List.range' 28 5 ++ List.range' 0x2000 11
    ++ [0x85, 0xA0, 0x1680, 0x2028, 0x2029, 0x202F, 0x205F, 0x3000]

theorem toNat_mem_blankCodes {c : Char} (h : isBlank c = true) : c.toNat ∈ blankCodes := by
  simp only [isBlank, isSpace, isSeparator, Bool.or_eq_true, Bool.and_eq_true, decide_eq_true_eq,
    beq_iff_eq] at h
  simp only [blankCodes, List.mem_append, List.mem_range'_1, List.mem_cons, List.not_mem_nil,
    or_false]
  omega

/-- What no blank has is checked code by code. -/
theorem eq_false_of_isBlank {p : Char → Bool} (hp : ∀ n ∈ blankCodes, p (Char.ofNat n) = false)
    {c : Char} (h : isBlank c = true) : p c = false := by
  rw [← Char.ofNat_toNat c]
  exact hp c.toNat (toNat_mem_blankCodes h)

theorem isBlank_eq_false {p : Char → Bool} (hp : ∀ {c}, isBlank c = true → p c = false) {c : Char}
    (h : p c = true) : isBlank c = false := by
  rw [Bool.eq_false_iff]
  intro hb
  rw [hp hb] at h
  cases h

theorem eq_false_of_any {p : Char → Bool} {t : Text} (h : t.any p = false) :
    ∀ c ∈ t, p c = false :=
  fun c hc => Bool.eq_false_iff.2 (List.any_eq_false.1 h c hc)

theorem isDecimal_of_isBlank {c : Char} (h : isBlank c = true) : isDecimal c = false :=
  eq_false_of_isBlank (by decide +kernel) h

/-! ## Runs -/

/-- Nothing at the beginning of `t` has the property `p`. -/
def StopsAt (p : Char → Bool) (t : Text) : Prop := ∀ c ∈ t.head?, p c = false

theorem stopsAt_nil {p : Char → Bool} : StopsAt p [] := fun c h => by cases h

theorem stopsAt_cons {p : Char → Bool} {c : Char} {t : Text} :
    StopsAt p (c :: t) ↔ p c = false := by
  simp [StopsAt]

instance (p : Char → Bool) : (t : Text) → Decidable (StopsAt p t)
  | [] => isTrue stopsAt_nil
  | c :: _ => decidable_of_iff (p c = false) stopsAt_cons.symm

theorem stopsAt_of_forall {p : Char → Bool} {t : Text} (hne : t ≠ [])
    (h : ∀ c ∈ t, p c = false) (rest : Text) : StopsAt p (t ++ rest) := by
  obtain ⟨c, t, rfl⟩ := List.exists_cons_of_ne_nil hne
  exact stopsAt_cons.2 (h c List.mem_cons_self)

theorem stopsAt_reverse_of_forall {p : Char → Bool} {t : Text} (hne : t ≠ [])
    (h : ∀ c ∈ t, p c = false) (front : Text) : StopsAt p (front ++ t).reverse := by
  rw [List.reverse_append]
  refine stopsAt_of_forall (List.reverse_ne_nil_iff.2 hne) (fun c hc => ?_) _
  exact h c (List.mem_reverse.1 hc)

theorem StopsAt.append {p : Char → Bool} {t : Text} (h : StopsAt p t) (hne : t ≠ [])
    (rest : Text) : StopsAt p (t ++ rest) := by
  obtain ⟨c, t, rfl⟩ := List.exists_cons_of_ne_nil hne
  exact stopsAt_cons.2 (stopsAt_cons.1 h)

theorem dropWhile_eq_self {p : Char → Bool} {t : Text} (h : StopsAt p t) : t.dropWhile p = t := by
  cases t with
  | nil => rfl
  | cons c t => rw [List.dropWhile_cons, stopsAt_cons.1 h, if_neg Bool.false_ne_true]

theorem takeWhile_eq_nil {p : Char → Bool} {t : Text} (h : StopsAt p t) : t.takeWhile p = [] := by
  cases t with
  | nil => rfl
  | cons c t => rw [List.takeWhile_cons, stopsAt_cons.1 h, if_neg Bool.false_ne_true]

/-- A run is taken off where it stops. -/
theorem dropWhile_run {p : Char → Bool} {run rest : Text} (h : ∀ c ∈ run, p c = true)
    (hr : StopsAt p rest) : (run ++ rest).dropWhile p = rest := by
  rw [List.dropWhile_append_of_pos h, dropWhile_eq_self hr]

theorem takeWhile_run {p : Char → Bool} {run rest : Text} (h : ∀ c ∈ run, p c = true)
    (hr : StopsAt p rest) : (run ++ rest).takeWhile p = run := by
  rw [List.takeWhile_append_of_pos h, takeWhile_eq_nil hr, List.append_nil]

theorem span_run {p : Char → Bool} {run rest : Text} (h : ∀ c ∈ run, p c = true)
    (hr : StopsAt p rest) : (run ++ rest).span p = (run, rest) := by
  rw [List.span_eq_takeWhile_dropWhile, takeWhile_run h hr, dropWhile_run h hr]

/-- What is taken off as a run is one. -/
theorem of_span {p : Char → Bool} {t run rest : Text} (h : t.span p = (run, rest)) :
    t = run ++ rest ∧ ∀ c ∈ run, p c = true := by
  rw [List.span_eq_takeWhile_dropWhile] at h
  obtain ⟨rfl, rfl⟩ := Prod.mk.inj h
  exact ⟨List.takeWhile_append_dropWhile.symm, fun c hc => List.mem_takeWhile_imp hc⟩

theorem stopsAt_dropWhile (p : Char → Bool) (t : Text) : StopsAt p (t.dropWhile p) := by
  intro c hc
  have h := List.head?_dropWhile_not p t
  rw [Option.mem_def.1 hc] at h
  simpa using h

/-- A text begins in one way with a run that stops. -/
theorem run_inj {p : Char → Bool} {run run' rest rest' : Text} (h : ∀ c ∈ run, p c = true)
    (hr : StopsAt p rest) (h' : ∀ c ∈ run', p c = true) (hr' : StopsAt p rest')
    (he : run ++ rest = run' ++ rest') : run = run' ∧ rest = rest' := by
  have hrun : run = run' := by
    rw [← takeWhile_run h hr, he, takeWhile_run h' hr']
  rw [hrun] at he
  exact ⟨hrun, List.append_cancel_left he⟩

/-- No run is longer than one that stops. -/
theorem length_le_run {p : Char → Bool} {run run' rest rest' : Text}
    (h : ∀ c ∈ run, p c = true) (hr : StopsAt p rest) (h' : ∀ c ∈ run', p c = true)
    (he : run' ++ rest' = run ++ rest) : run'.length ≤ run.length := by
  have htake := takeWhile_run h hr
  rw [← he, List.takeWhile_append_of_pos h'] at htake
  rw [← htake, List.length_append]
  exact Nat.le_add_right _ _

/-! ## Blanks around a text -/

/-- The text neither begins nor ends with a blank. -/
structure BareEnds (t : Text) : Prop where
  start : StopsAt isBlank t
  stop : StopsAt isBlank t.reverse

/-- A text without blanks has bare ends. -/
theorem bareEnds_of_forall {t : Text} (h : ∀ c ∈ t, isBlank c = false) : BareEnds t where
  start c hc := h c (List.mem_of_mem_head? hc)
  stop c hc := h c (List.mem_reverse.1 (List.mem_of_mem_head? hc))

theorem trimStart_append {s t : Text} (hs : ∀ c ∈ s, isBlank c = true)
    (ht : StopsAt isBlank t) : trimStart isBlank (s ++ t) = t :=
  dropWhile_run hs ht

theorem trimEnd_append {t u : Text} (ht : StopsAt isBlank t.reverse)
    (hu : ∀ c ∈ u, isBlank c = true) : trimEnd isBlank (t ++ u) = t := by
  rw [trimEnd, List.reverse_append,
    dropWhile_run (fun c hc => hu c (List.mem_reverse.1 hc)) ht, List.reverse_reverse]

/-- Trimming takes off the blanks around a text, and nothing of the text. -/
theorem trim_append {s t u : Text} (hs : ∀ c ∈ s, isBlank c = true) (h : BareEnds t)
    (hne : t ≠ []) (hu : ∀ c ∈ u, isBlank c = true) : trim (s ++ (t ++ u)) = t := by
  rw [trim, trimStart_append hs (h.start.append hne u), trimEnd_append h.stop hu]

theorem trim_eq_self {t : Text} (h : BareEnds t) : trim t = t := by
  rw [trim, trimStart, dropWhile_eq_self h.start, trimEnd, dropWhile_eq_self h.stop,
    List.reverse_reverse]

/-- What trimming takes off stands before and behind what it leaves. -/
theorem exists_trim_eq (t : Text) : ∃ before after : Text, t = before ++ (trim t ++ after) ∧
    (∀ c ∈ before, isBlank c = true) ∧ ∀ c ∈ after, isBlank c = true := by
  refine ⟨t.takeWhile isBlank, ((t.dropWhile isBlank).reverse.takeWhile isBlank).reverse, ?_,
    fun c hc => List.mem_takeWhile_imp hc,
    fun c hc => List.mem_takeWhile_imp (List.mem_reverse.1 hc)⟩
  unfold trim trimEnd trimStart
  rw [← List.reverse_append, List.takeWhile_append_dropWhile, List.reverse_reverse,
    List.takeWhile_append_dropWhile]

theorem bareEnds_trim (t : Text) : BareEnds (trim t) where
  start := by
    intro c hc
    have hprefix : trim t <+: t.dropWhile isBlank := by
      unfold trim trimEnd trimStart
      rw [← List.reverse_suffix, List.reverse_reverse]
      exact List.dropWhile_suffix _
    obtain ⟨after, hafter⟩ := hprefix
    refine stopsAt_dropWhile isBlank t c ?_
    rw [← hafter, List.head?_append, Option.mem_def.1 hc]
    rfl
  stop := by
    unfold trim trimEnd
    rw [List.reverse_reverse]
    exact stopsAt_dropWhile _ _

/-! ## Lines -/

/-- Every line break is a blank. -/
theorem isBlank_of_isLineBreak {c : Char} (h : isLineBreak c = true) : isBlank c = true := by
  simp only [isLineBreak, isBlank, isSpace, isSeparator, Bool.or_eq_true, Bool.and_eq_true,
    decide_eq_true_eq, beq_iff_eq] at h ⊢
  omega

/-- The line read so far takes up everything before the next break. -/
theorem linesFrom_append {line : Text} (h : ∀ c ∈ line, isLineBreak c = false)
    (current rest : Text) :
    linesFrom current (line ++ rest) = linesFrom (line.reverse ++ current) rest := by
  induction line generalizing current with
  | nil => rfl
  | cons c line ih =>
    obtain ⟨hc, h⟩ := List.forall_mem_cons.1 h
    have hr : c ≠ '\r' := by
      rintro rfl
      cases hc
    rw [List.cons_append, linesFrom, hc, if_neg Bool.false_ne_true, ih h, List.reverse_cons,
      List.append_assoc, List.singleton_append]
    exact fun _ he => absurd he hr

theorem linesFrom_newline (current rest : Text) :
    linesFrom current ('\n' :: rest) = current.reverse :: linesFrom [] rest := by
  rw [linesFrom]
  · rfl
  · exact fun _ he => absurd he (by decide)

/-- A text without a break is one line. -/
theorem lines_eq_singleton {t : Text} (hne : t ≠ []) (h : ∀ c ∈ t, isLineBreak c = false) :
    lines t = [t] := by
  have hlines := linesFrom_append h [] []
  rw [List.append_nil, List.append_nil] at hlines
  rw [lines, hlines, linesFrom]
  simp [hne]

/-- Lines that were joined are the lines of the text. -/
theorem lines_join {ls : List Text} (hne : ∀ l ∈ ls, l ≠ [])
    (h : ∀ l ∈ ls, ∀ c ∈ l, isLineBreak c = false) : lines (join ['\n'] ls) = ls := by
  induction ls with
  | nil => rfl
  | cons l rest ih =>
    obtain ⟨hl, h⟩ := List.forall_mem_cons.1 h
    obtain ⟨hlne, hne⟩ := List.forall_mem_cons.1 hne
    have hrest := ih hne h
    unfold join at hrest ⊢
    cases rest with
    | nil => rw [List.intercalate_singleton, lines_eq_singleton hlne hl]
    | cons m rest =>
      rw [lines] at hrest ⊢
      rw [List.intercalate_cons_cons, List.append_assoc, linesFrom_append hl, List.append_nil,
        List.singleton_append, linesFrom_newline, hrest, List.reverse_reverse]

end ContractAudit.Text
