import ContractAudit.Proofs.Lines

/-!
# Lines that begin with a mark

A mark is a few characters with which some lines of a text begin.  Texts that are put together line
by line have the marked lines of their parts.  A part that is meant to be one line has its first
line, and one more marked line for every line break in it that the mark comes behind: there is none
if and only if the part is quiet.

    marked m (join ['\n'] ts) = ts.flatMap (marked m)       (marked_join)
    marked m t = the first line of t, and others unless t is quiet
                                                            (exists_marked_eq_cons)
-/

namespace ContractAudit.Text

/-! ## Texts without line breaks -/

/-- The text holds no line break. -/
def Inline (t : Text) : Prop := ∀ c ∈ t, isLineBreak c = false

instance (t : Text) : Decidable (Inline t) :=
  List.decidableBAll (fun c => isLineBreak c = false) t

theorem inline_nil : Inline [] := fun _ hc => absurd hc List.not_mem_nil

theorem inline_cons {c : Char} {t : Text} :
    Inline (c :: t) ↔ isLineBreak c = false ∧ Inline t :=
  List.forall_mem_cons

theorem inline_append {s t : Text} : Inline (s ++ t) ↔ Inline s ∧ Inline t :=
  List.forall_mem_append

theorem inline_join {sep : Text} (hsep : Inline sep) {pieces : List Text}
    (h : ∀ p ∈ pieces, Inline p) : Inline (join sep pieces) := by
  unfold join
  induction pieces with
  | nil => exact inline_nil
  | cons p rest ih =>
    obtain ⟨hp, hrest⟩ := List.forall_mem_cons.1 h
    cases rest with
    | nil => simpa [List.intercalate_singleton] using hp
    | cons q rest =>
      rw [List.intercalate_cons_cons, inline_append, inline_append]
      exact ⟨⟨hp, hsep⟩, ih hrest⟩

/-- No line of a text holds a line break. -/
theorem inline_of_mem_linesFrom {current t : Text} (hcurrent : Inline current) :
    ∀ l ∈ linesFrom current t, Inline l := by
  have hreverse : Inline current.reverse := fun c hc => hcurrent c (List.mem_reverse.1 hc)
  fun_induction linesFrom current t with
  | case1 current hempty => simp
  | case2 current hempty => simpa using hreverse
  | case3 current rest ih =>
    exact List.forall_mem_cons.2 ⟨hreverse, ih inline_nil inline_nil⟩
  | case4 current c rest hcrlf hbreak ih =>
    exact List.forall_mem_cons.2 ⟨hreverse, ih inline_nil inline_nil⟩
  | case5 current c rest hcrlf hbreak ih =>
    have hcons : Inline (c :: current) := inline_cons.2 ⟨by simpa using hbreak, hcurrent⟩
    exact ih hcons fun d hd => hcons d (List.mem_reverse.1 hd)

theorem inline_of_mem_lines {t l : Text} (h : l ∈ lines t) : Inline l :=
  inline_of_mem_linesFrom inline_nil l h

/-! ## Marked lines -/

/-- The lines of a text that begin with `m`. -/
def marked (m t : Text) : List Text := (lines t).filter (startsWith m)

/-- A mark holds some character, and no line break. -/
structure IsMark (m : Text) : Prop where
  ne_nil : m ≠ []
  inline : Inline m

section
variable {m : Text} (hm : IsMark m)
include hm

theorem IsMark.not_prefix_nil : ¬ m <+: [] := fun h => hm.ne_nil (List.prefix_nil.1 h)

theorem IsMark.startsWith_nil : startsWith m [] = false := by
  rw [Bool.eq_false_iff, ne_eq, startsWith_iff]
  exact hm.not_prefix_nil

theorem marked_of_inline {t : Text} (ht : Inline t) (h : m <+: t) : marked m t = [t] := by
  have hne : t ≠ [] := by
    rintro rfl
    exact hm.not_prefix_nil h
  unfold marked
  rw [lines_eq_singleton hne ht, List.filter_cons_of_pos ((startsWith_iff m t).2 h),
    List.filter_nil]

omit hm in
theorem marked_eq_nil_of_inline {t : Text} (ht : Inline t) (h : ¬ m <+: t) : marked m t = [] := by
  by_cases hne : t = []
  · rw [hne]
    rfl
  · unfold marked
    rw [lines_eq_singleton hne ht,
      List.filter_cons_of_neg fun hs => h ((startsWith_iff m t).1 hs), List.filter_nil]

/-- A line feed parts the lines before it from those behind; only an empty one may be lost. -/
theorem filter_linesFrom_append (current s t : Text) :
    (linesFrom current (s ++ '\n' :: t)).filter (startsWith m) =
      (linesFrom current s).filter (startsWith m) ++ marked m t := by
  have hempty : ∀ ls, ([] :: ls).filter (startsWith m) = ls.filter (startsWith m) :=
    fun ls => List.filter_cons_of_neg (by rw [hm.startsWith_nil]; exact Bool.false_ne_true)
  fun_induction linesFrom current s with
  | case1 current hnil =>
    obtain rfl := List.isEmpty_iff.1 hnil
    rw [List.nil_append, linesFrom_newline]
    exact hempty _
  | case2 current hnil =>
    rw [List.nil_append, linesFrom_newline, List.filter_cons, List.filter_cons]
    split <;> rfl
  | case3 current rest ih =>
    rw [List.cons_append, List.cons_append, linesFrom, List.filter_cons, List.filter_cons, ih]
    split <;> rfl
  | case4 current c rest hcrlf hbreak ih =>
    have hlines : (linesFrom current (c :: rest ++ '\n' :: t)).filter (startsWith m) =
        (current.reverse :: linesFrom [] (rest ++ '\n' :: t)).filter (startsWith m) := by
      -- a carriage return at the end of the first text makes one break with the line feed
      by_cases hr : c = '\r' ∧ rest = []
      · obtain ⟨rfl, rfl⟩ := hr
        rw [List.nil_append, linesFrom_newline, List.filter_cons, List.reverse_nil, hempty,
          ← List.filter_cons]
        rfl
      · rw [List.cons_append, linesFrom, if_pos hbreak]
        intro r hc hrest
        cases rest with
        | nil => exact hr ⟨hc, rfl⟩
        | cons d rest => exact hcrlf rest hc (by rw [(List.cons.inj hrest).1])
    rw [hlines, List.filter_cons, List.filter_cons, ih]
    split <;> rfl
  | case5 current c rest hcrlf hbreak ih =>
    rw [List.cons_append, linesFrom, if_neg hbreak, ih]
    intro r hc
    exact absurd (hc ▸ rfl) hbreak

theorem marked_append (s t : Text) : marked m (s ++ '\n' :: t) = marked m s ++ marked m t :=
  filter_linesFrom_append hm [] s t

/-- **The marked lines of joined texts are those of each.** -/
theorem marked_join (ts : List Text) : marked m (join ['\n'] ts) = ts.flatMap (marked m) := by
  unfold join
  induction ts with
  | nil => rfl
  | cons t rest ih =>
    cases rest with
    | nil => rw [List.intercalate_singleton, List.flatMap_singleton]
    | cons u rest =>
      rw [List.intercalate_cons_cons, List.append_assoc, List.singleton_append, marked_append hm,
        ih]
      rfl

end

/-! ## Quiet texts -/

/-- The text does not go on with `m` behind any of its line breaks. -/
def Quiet (m t : Text) : Prop :=
  ∀ before c after, t = before ++ c :: after → isLineBreak c = true → ¬ m <+: after

theorem quiet_nil (m : Text) : Quiet m [] := by
  intro before c after h
  exact absurd h.symm (List.append_ne_nil_of_right_ne_nil before (List.cons_ne_nil c after))

theorem quiet_cons {m t : Text} {c : Char} :
    Quiet m (c :: t) ↔ (isLineBreak c = true → ¬ m <+: t) ∧ Quiet m t := by
  constructor
  · intro h
    refine ⟨h [] c t rfl, fun before d after ht => h (c :: before) d after ?_⟩
    rw [ht, List.cons_append]
  · rintro ⟨hc, ht⟩ before d after hsplit hd
    cases before with
    | nil =>
      obtain ⟨rfl, rfl⟩ := List.cons.inj hsplit
      exact hc hd
    | cons b before => exact ht before d after (List.cons.inj hsplit).2 hd

theorem Inline.quiet {t : Text} (h : Inline t) (m : Text) : Quiet m t := by
  intro before c after ht hc
  have hfalse := h c (ht ▸ List.mem_append_right before List.mem_cons_self)
  rw [hfalse] at hc
  cases hc

/-- The first line of a text. -/
def firstLine (t : Text) : Text := t.takeWhile fun c => ! isLineBreak c

theorem firstLine_begins (t : Text) : firstLine t <+: t := List.takeWhile_prefix _

theorem prefix_firstLine_iff {m t : Text} (hm : IsMark m) : m <+: firstLine t ↔ m <+: t := by
  constructor
  · intro h
    exact h.trans (firstLine_begins t)
  · rintro ⟨u, rfl⟩
    have hall : ∀ c ∈ m, (! isLineBreak c) = true := fun c hc => by rw [hm.inline c hc]; rfl
    unfold firstLine
    rw [List.takeWhile_append_of_pos hall]
    exact List.prefix_append m _

/-- The text begins behind `s`, and `stop` is in no mark, so a mark ends before `stop` or begins
behind it. -/
theorem prefix_append_cons_iff {m : Text} {stop : Char} (hstop : stop ∉ m) (s t : Text) :
    m <+: s ++ stop :: t ↔ m <+: s := by
  constructor
  · rintro ⟨u, hu⟩
    rcases List.append_eq_append_iff.1 hu with ⟨v, rfl, -⟩ | ⟨v, rfl, hv⟩
    · exact List.prefix_append m v
    · cases v with
      | nil => exact ⟨[], by rw [List.append_nil, List.append_nil]⟩
      | cons d v =>
        obtain ⟨rfl, -⟩ := List.cons.inj hv
        exact absurd (List.mem_append_right s List.mem_cons_self) hstop
  · intro h
    exact h.trans (List.prefix_append s _)

/-- Texts with a character between them that is in no mark are quiet together if each is. -/
theorem quiet_append_cons {m : Text} {stop : Char} (hstop : stop ∉ m) (s t : Text) :
    Quiet m (s ++ stop :: t) ↔ Quiet m s ∧ Quiet m (stop :: t) := by
  induction s with
  | nil => simp [quiet_nil]
  | cons c s ih =>
    rw [List.cons_append, quiet_cons, quiet_cons, ih, prefix_append_cons_iff hstop, and_assoc]

theorem quiet_inline_append {m s : Text} (hs : Inline s) (t : Text) :
    Quiet m (s ++ t) ↔ Quiet m t := by
  induction s with
  | nil => rfl
  | cons c s ih =>
    obtain ⟨hc, hs⟩ := inline_cons.1 hs
    rw [List.cons_append, quiet_cons, ih hs]
    exact and_iff_right fun h => by rw [hc] at h; cases h

/-! ## First lines and others -/

section
variable {m : Text} (hm : IsMark m)
include hm

theorem IsMark.not_prefix_cons {c : Char} (hc : isLineBreak c = true) (t : Text) :
    ¬ m <+: c :: t := by
  intro h
  obtain ⟨d, rest, rfl⟩ := List.exists_cons_of_ne_nil hm.ne_nil
  obtain ⟨rfl, -⟩ := List.cons_prefix_cons.1 h
  rw [hm.inline d List.mem_cons_self] at hc
  cases hc

/-- The line that has been begun goes on with the first line of the text; the others are marked
where the mark comes behind a line break. -/
theorem exists_linesFrom_eq (current t : Text) (hne : current ≠ [] ∨ t ≠ []) :
    ∃ others, linesFrom current t = (current.reverse ++ firstLine t) :: others ∧
      ((∀ l ∈ others, ¬ m <+: l) ↔ Quiet m t) := by
  -- what is known of the lines behind a break, from the text behind it
  have hbehind : ∀ rest : Text, (([] : Text) ≠ [] ∨ rest ≠ [] →
      ∃ others, linesFrom [] rest = ([].reverse ++ firstLine rest) :: others ∧
        ((∀ l ∈ others, ¬ m <+: l) ↔ Quiet m rest)) →
      ((∀ l ∈ linesFrom [] rest, ¬ m <+: l) ↔ ¬ m <+: rest ∧ Quiet m rest) := by
    intro rest ih
    by_cases hrest : rest = []
    · subst hrest
      exact iff_of_true (fun l hl => absurd hl List.not_mem_nil) ⟨hm.not_prefix_nil, quiet_nil m⟩
    · obtain ⟨others, hlines, hquiet⟩ := ih (Or.inr hrest)
      rw [hlines, List.forall_mem_cons, hquiet, List.reverse_nil, List.nil_append,
        prefix_firstLine_iff hm]
  fun_induction linesFrom current t with
  | case1 current hnil =>
    rcases hne with hne | hne
    · exact absurd (List.isEmpty_iff.1 hnil) hne
    · exact absurd rfl hne
  | case2 current hnil =>
    refine ⟨[], by simp [firstLine], ?_⟩
    exact iff_of_true (fun l hl => absurd hl List.not_mem_nil) (quiet_nil m)
  | case3 current rest ih =>
    refine ⟨linesFrom [] rest, by simp [firstLine, show isLineBreak '\r' = true from rfl], ?_⟩
    have hfeed : ¬ m <+: '\n' :: rest := hm.not_prefix_cons rfl rest
    have hbreak : isLineBreak '\n' = true := rfl
    rw [hbehind rest ih, quiet_cons, quiet_cons]
    simp only [hfeed, hbreak, not_false_eq_true, implies_true, true_and, forall_const]
  | case4 current c rest hcrlf hbreak ih =>
    refine ⟨linesFrom [] rest, by simp [firstLine, hbreak], ?_⟩
    rw [hbehind rest ih, quiet_cons]
    simp only [hbreak, forall_const]
  | case5 current c rest hcrlf hbreak ih =>
    obtain ⟨others, hlines, hquiet⟩ := ih (Or.inl (List.cons_ne_nil c current))
    refine ⟨others, ?_, ?_⟩
    · rw [hlines, List.reverse_cons, List.append_assoc]
      simp [firstLine, hbreak]
    · rw [hquiet, quiet_cons]
      exact (and_iff_right fun h => absurd h hbreak).symm

/-- **The marked lines of a text** that begins with the mark are its first line, and others unless
it is quiet. -/
theorem exists_marked_eq_cons {t : Text} (h : m <+: t) :
    ∃ others, marked m t = firstLine t :: others ∧ (others = [] ↔ Quiet m t) := by
  have ht : t ≠ [] := by
    rintro rfl
    exact hm.not_prefix_nil h
  obtain ⟨others, hlines, hquiet⟩ := exists_linesFrom_eq hm [] t (Or.inr ht)
  refine ⟨others.filter (startsWith m), ?_, ?_⟩
  · have hfirst : startsWith m (firstLine t) = true :=
      (startsWith_iff m _).2 ((prefix_firstLine_iff hm).2 h)
    unfold marked lines
    rw [hlines, List.reverse_nil, List.nil_append, List.filter_cons_of_pos hfirst]
  · rw [← hquiet, List.filter_eq_nil_iff]
    simp only [startsWith_iff]

/-- A text that begins otherwise has no marked line if and only if it is quiet. -/
theorem marked_eq_nil_iff {t : Text} (h : ¬ m <+: t) : marked m t = [] ↔ Quiet m t := by
  by_cases ht : t = []
  · subst ht
    exact iff_of_true rfl (quiet_nil m)
  · obtain ⟨others, hlines, hquiet⟩ := exists_linesFrom_eq hm [] t (Or.inr ht)
    have hfirst : ¬ m <+: firstLine t := fun hf => h ((prefix_firstLine_iff hm).1 hf)
    unfold marked lines
    rw [hlines, List.reverse_nil, List.nil_append, List.filter_eq_nil_iff]
    simp only [startsWith_iff, List.forall_mem_cons, hfirst, not_false_eq_true, true_and]
    exact hquiet

end

end ContractAudit.Text
