import Mathlib.Data.List.Sort
import ContractAudit.Proofs.FileRef
import ContractAudit.Proofs.LintText

/-!
# The lines of a linter's text

A line reports an issue if it can be divided into a line and a column with a colon between them, a
severity, a message and a rule, with blanks where the grammar asks for them.  Every division puts
the place, the severity and the rule into the same characters.  Only the message can be cut from
the blanks around it in several ways: most blanks go before it, and then it is as short as it can
be.  A line that names a file is that file between blanks.

    ofLine? t = some i ↔ i is the issue of the preferred division of t   (ofLine?_eq_some_iff)
    header? t = some file ↔ t is that file between blanks                (header?_eq_some_iff)
    the records of a text are the reading of its lines                   (records_isReading)
-/

namespace ContractAudit.LintText

open Record (LintRecord)

/-! ## The grammar -/

/-- Blanks that keep two parts of a line apart. -/
structure IsGap (t : Text) : Prop where
  ne_nil : t ≠ []
  blank : ∀ c ∈ t, Text.isBlank c = true

/-- A word of the characters that rules are made of. -/
structure IsRule (t : Text) : Prop where
  ne_nil : t ≠ []
  chars : ∀ c ∈ t, isRuleChar c = true

/-- The issue with another message. -/
def IssueLine.withMessage (i : IssueLine) (message : Text) : IssueLine :=
  ⟨i.line, i.column, i.severity, message, i.rule⟩

/-- The parts of a line with the blanks around them. -/
structure Division where
  before : Text
  afterPlace : Text
  afterSeverity : Text
  afterMessage : Text
  after : Text
  issue : IssueLine

namespace Division

/-- What stands between the severity and the rule. -/
def middle (d : Division) : Text := d.afterSeverity ++ (d.issue.message ++ d.afterMessage)

def text (d : Division) : Text :=
  d.before ++ (d.issue.line ++ ':' :: (d.issue.column ++ (d.afterPlace ++ (d.issue.severity ++
    (d.middle ++ (d.issue.rule ++ d.after))))))

/-- The parts have the form of an issue.  The message may be any text that is not empty. -/
structure IsIssue (d : Division) : Prop where
  before : ∀ c ∈ d.before, Text.isBlank c = true
  line : FileRef.IsNumber d.issue.line
  column : FileRef.IsNumber d.issue.column
  afterPlace : IsGap d.afterPlace
  severity : IsSeverity d.issue.severity
  afterSeverity : IsGap d.afterSeverity
  message : d.issue.message ≠ []
  afterMessage : IsGap d.afterMessage
  rule : IsRule d.issue.rule
  after : ∀ c ∈ d.after, Text.isBlank c = true

/-- The line is divided as an issue. -/
structure Divides (d : Division) (t : Text) : Prop where
  isIssue : d.IsIssue
  text : d.text = t

/-- Of two divisions of a line the one with more blanks before the message is preferred, or else
the one with the shorter message. -/
structure Prefers (d other : Division) : Prop where
  afterSeverity : other.afterSeverity.length ≤ d.afterSeverity.length
  message : other.afterSeverity.length = d.afterSeverity.length →
    d.issue.message.length ≤ other.issue.message.length

end Division

/-- The line is an issue line. -/
def IsIssueLine (t : Text) : Prop := ∃ d : Division, d.Divides t

/-- The line reports the issue: it is that of the preferred division. -/
def Reports (t : Text) (i : IssueLine) : Prop :=
  ∃ d : Division, d.Divides t ∧ d.issue = i ∧ ∀ other : Division, other.Divides t → d.Prefers other

/-- The line is a file between blanks: a word that ends in `.sol` and is longer than that. -/
structure IsHeader (t file : Text) : Prop where
  between : ∃ before after : Text, t = before ++ (file ++ after) ∧
    (∀ c ∈ before, Text.isBlank c = true) ∧ ∀ c ∈ after, Text.isBlank c = true
  solid : ∀ c ∈ file, Text.isBlank c = false
  source : ∃ name : Text, name ≠ [] ∧ file = name ++ ".sol"

/-! ## Characters -/

theorem isRuleChar_of_isBlank {c : Char} (h : Text.isBlank c = true) : isRuleChar c = false :=
  Text.eq_false_of_isBlank (by decide +kernel) h

theorem rule_solid {c : Char} (h : isRuleChar c = true) : Text.isBlank c = false :=
  Text.isBlank_eq_false isRuleChar_of_isBlank h

theorem decimal_solid {c : Char} (h : Text.isDecimal c = true) : Text.isBlank c = false :=
  Text.isBlank_eq_false Text.isDecimal_of_isBlank h

theorem IsGap.head? {t : Text} (h : IsGap t) (rest : Text) :
    ((t ++ rest).head?.any Text.isBlank) = true := by
  obtain ⟨c, t, rfl⟩ := List.exists_cons_of_ne_nil h.ne_nil
  exact h.blank c List.mem_cons_self

theorem IsGap.stopsAt {p : Char → Bool} (hp : ∀ {c}, Text.isBlank c = true → p c = false)
    {t : Text} (h : IsGap t) (rest : Text) : Text.StopsAt p (t ++ rest) :=
  Text.stopsAt_of_forall h.ne_nil (fun c hc => hp (h.blank c hc)) rest

theorem IsGap.stopsAt_reverse {t : Text} (h : IsGap t) (front : Text) :
    Text.StopsAt (! Text.isBlank ·) (front ++ t).reverse := by
  refine Text.stopsAt_reverse_of_forall h.ne_nil (fun c hc => ?_) front
  rw [h.blank c hc]
  rfl

/-! ## The severity -/

theorem dropWord?_append {word severity : Text}
    (h : List.Forall₂ (fun small c => Text.sameLetter small c = true) word severity)
    (rest : Text) : Text.dropWord? word (severity ++ rest) = some rest := by
  induction h with
  | nil => rfl
  | cons hc _ ih =>
    rw [List.cons_append, Text.dropWord?, if_pos hc]
    exact ih

/-- A character is a form of at most one of the letters with which the key words begin. -/
theorem sameLetter_inj {small small' c : Char} (h : small ∈ ['e', 'w', 'i'])
    (h' : small' ∈ ['e', 'w', 'i']) (hc : Text.sameLetter small c = true)
    (hc' : Text.sameLetter small' c = true) : small = small' := by
  -- the two forms of `i` beyond ASCII have no other letter as their small form
  have hspecial : ∀ letter ∈ ['e', 'w', 'i'], c.toNat = 0x130 ∨ c.toNat = 0x131 →
      Text.lowerChar c ≠ [letter] := by
    have hall : ∀ n ∈ [0x130, 0x131],
        Text.lowerChar (Char.ofNat n) ∉ ['e', 'w', 'i'].map fun letter => [letter] := by decide
    intro letter hl hn hlower
    refine hall c.toNat (by simpa using hn) ?_
    rw [Char.ofNat_toNat, hlower]
    exact List.mem_map_of_mem hl
  simp only [Text.sameLetter, Bool.or_eq_true, Bool.and_eq_true, beq_iff_eq] at hc hc'
  rcases hc with hc | ⟨rfl, hn⟩
  · rcases hc' with hc' | ⟨rfl, hn⟩
    · rw [hc] at hc'
      exact (List.cons.inj hc').1
    · exact absurd hc (hspecial small h hn)
  · rcases hc' with hc' | ⟨rfl, -⟩
    · exact absurd hc' (hspecial small' h' hn)
    · rfl

/-- The key words begin with different letters. -/
theorem eq_of_head?_eq {word word' : Text} (h : word ∈ severityWords) (h' : word' ∈ severityWords)
    (he : word.head? = word'.head?) : word = word' := by
  have hall : ∀ word ∈ severityWords, ∀ word' ∈ severityWords,
      word.head? = word'.head? → word = word' := by decide
  exact hall word h word' h' he

namespace IsSeverity

variable {severity severity' rest rest' : Text} (h : IsSeverity severity)
include h

theorem ne_nil : severity ≠ [] := by
  obtain ⟨-, -, c, more, rfl, -⟩ := h.exists_cons
  exact List.cons_ne_nil c more

/-- No severity begins with a blank: a blank is its own small form. -/
theorem stopsAt (rest : Text) : Text.StopsAt Text.isBlank (severity ++ rest) := by
  obtain ⟨small, hsmall, c, more, rfl, hc⟩ := h.exists_cons
  refine Text.stopsAt_cons.2 (Bool.eq_false_iff.2 fun hb => ?_)
  have hall : ∀ n ∈ Text.blankCodes,
      ['e', 'w', 'i'].any (Text.sameLetter · (Char.ofNat n)) = false := by decide +kernel
  have hnot := @Text.eq_false_of_isBlank (fun c => ['e', 'w', 'i'].any (Text.sameLetter · c)) hall
  have hany : ['e', 'w', 'i'].any (Text.sameLetter · c) = true :=
    List.any_eq_true.2 ⟨small, hsmall, hc⟩
  exact Bool.false_ne_true ((hnot hb).symm.trans hany)

/-- A text begins with a severity in one way. -/
theorem inj (h' : IsSeverity severity') (he : severity ++ rest = severity' ++ rest') :
    severity = severity' ∧ rest = rest' := by
  obtain ⟨word, hword, hall⟩ := h
  obtain ⟨word', hword', hall'⟩ := h'
  obtain ⟨small, hsmall, more, rfl⟩ := exists_cons_of_mem_severityWords hword
  obtain ⟨small', hsmall', more', rfl⟩ := exists_cons_of_mem_severityWords hword'
  obtain ⟨c, t, hc, -, rfl⟩ := List.forall₂_cons_left_iff.1 hall
  obtain ⟨c', t', hc', -, rfl⟩ := List.forall₂_cons_left_iff.1 hall'
  obtain ⟨rfl, -⟩ := List.cons.inj he
  obtain rfl := sameLetter_inj hsmall hsmall' hc hc'
  have hwords := eq_of_head?_eq hword hword' rfl
  refine List.append_inj he ?_
  rw [← hall.length_eq, hwords, hall'.length_eq]

theorem severity?_append (rest : Text) :
    severity? (severity ++ rest) = some (severity, rest) := by
  cases hs : severity? (severity ++ rest) with
  | none =>
    obtain ⟨word, hword, hall⟩ := h
    have hnone := List.findSome?_eq_none_iff.1 hs word hword
    rw [dropWord?_append hall] at hnone
    cases hnone
  | some found =>
    obtain ⟨severity', rest'⟩ := found
    obtain ⟨htext, h'⟩ := severity?_eq_some hs
    obtain ⟨rfl, rfl⟩ := h.inj h' htext
    rfl

end IsSeverity

/-! ## The message -/

/-- A text cut into a message and the gaps around it. -/
structure IsCut (middle before message after : Text) : Prop where
  text : middle = before ++ (message ++ after)
  before : IsGap before
  ne_nil : message ≠ []
  after : IsGap after

/-- Of two cuts of a text the one with more blanks in front is preferred, or else the one with the
shorter message. -/
def IsPreferredCut (middle before message : Text) : Prop :=
  ∀ before' message' after', IsCut middle before' message' after' →
    before'.length ≤ before.length ∧
      (before'.length = before.length → message.length ≤ message'.length)

theorem IsCut.three_le_length {middle before message after : Text}
    (h : IsCut middle before message after) :
    before.length + message.length + after.length = middle.length ∧
      1 ≤ before.length ∧ 1 ≤ message.length ∧ 1 ≤ after.length := by
  refine ⟨?_, List.length_pos_iff.2 h.before.ne_nil, List.length_pos_iff.2 h.ne_nil,
    List.length_pos_iff.2 h.after.ne_nil⟩
  rw [h.text, List.length_append, List.length_append, Nat.add_assoc]

/-- Where a message can be cut out, one is found. -/
theorem IsCut.exists_message {middle before message after : Text}
    (h : IsCut middle before message after) : ∃ found, message? middle = some found := by
  obtain ⟨hlen, hbefore, hmessage, hafter⟩ := h.three_le_length
  unfold message?
  split
  · rw [if_pos (by omega)]
    exact ⟨_, rfl⟩
  · exact ⟨_, rfl⟩

section
variable {middle message : Text} (h : message? middle = some message)
include h

/-- Of at least three blanks the last but one is the message. -/
theorem exists_cut_of_blank (hblank : ∀ c ∈ middle, Text.isBlank c = true) :
    ∃ before after, IsCut middle before message after ∧ IsPreferredCut middle before message := by
  have htrim : Text.trim middle = [] := by
    obtain ⟨before, after, htext, -, -⟩ := Text.exists_trim_eq middle
    by_contra hne
    obtain ⟨c, t, hc⟩ := List.exists_cons_of_ne_nil hne
    have hstart := (Text.bareEnds_trim middle).start
    rw [hc, Text.stopsAt_cons, hblank c (by rw [htext, hc]; simp)] at hstart
    cases hstart
  unfold message? at h
  rw [htrim] at h
  simp only [] at h
  split at h
  · next hthree =>
    obtain rfl := Option.some.inj h
    have hmessage : ((middle.drop (middle.length - 2)).take 1).length = 1 := by
      rw [List.length_take, List.length_drop]
      omega
    refine ⟨middle.take (middle.length - 2), (middle.drop (middle.length - 2)).drop 1,
      ⟨?_, ⟨?_, fun c hc => hblank c (List.mem_of_mem_take hc)⟩, ?_, ⟨?_, fun c hc => ?_⟩⟩,
      fun before' message' after' h' => ?_⟩
    · rw [List.take_append_drop, List.take_append_drop]
    · refine List.ne_nil_of_length_pos ?_
      rw [List.length_take]
      omega
    · refine List.ne_nil_of_length_pos ?_
      omega
    · refine List.ne_nil_of_length_pos ?_
      rw [List.length_drop, List.length_drop]
      omega
    · exact hblank c (List.mem_of_mem_drop (List.mem_of_mem_drop hc))
    · obtain ⟨hlen, hbefore, hone, hafter⟩ := h'.three_le_length
      rw [List.length_take, hmessage]
      omega
  · cases h

omit h in
/-- No cut has more blanks in front than there are before a message with bare ends, or fewer
behind it. -/
theorem isPreferredCut_of_bareEnds {before after : Text}
    (hbefore : ∀ c ∈ before, Text.isBlank c = true) (hbare : Text.BareEnds message)
    (hne : message ≠ []) (hafter : ∀ c ∈ after, Text.isBlank c = true) :
    IsPreferredCut (before ++ (message ++ after)) before message := by
  intro before' message' after' h'
  have htext : before' ++ (message' ++ after') = before ++ (message ++ after) := h'.text.symm
  refine ⟨Text.length_le_run hbefore (hbare.start.append hne after) h'.before.blank htext,
    fun he => ?_⟩
  have hreverse : after'.reverse ++ (before' ++ message').reverse =
      after.reverse ++ (message.reverse ++ before.reverse) := by
    rw [← List.reverse_append, ← List.reverse_append, ← List.reverse_append, List.append_assoc,
      htext, List.append_assoc]
  have hle := Text.length_le_run (fun c hc => hafter c (List.mem_reverse.1 hc))
    (hbare.stop.append (List.reverse_ne_nil_iff.2 hne) before.reverse)
    (fun c hc => h'.after.blank c (List.mem_reverse.1 hc)) hreverse
  have hlen := congrArg List.length htext
  simp only [List.length_append, List.length_reverse] at hlen hle
  omega

/-- A message that is not blank goes from its first character that is no blank to its last one. -/
theorem exists_cut_of_not_blank (hstart : middle.head?.any Text.isBlank = true)
    (hstop : Text.StopsAt (! Text.isBlank ·) middle.reverse) (hne : Text.trim middle ≠ []) :
    ∃ before after, IsCut middle before message after ∧ IsPreferredCut middle before message := by
  obtain rfl : Text.trim middle = message := by
    unfold message? at h
    split at h
    · next hnil => exact absurd hnil hne
    · exact Option.some.inj h
  clear h
  obtain ⟨before, after, htext, hbefore, hafter⟩ := Text.exists_trim_eq middle
  have hbare := Text.bareEnds_trim middle
  generalize Text.trim middle = message at hne htext hbare ⊢
  subst htext
  refine ⟨before, after, ⟨rfl, ⟨?_, hbefore⟩, hne, ⟨?_, hafter⟩⟩,
    isPreferredCut_of_bareEnds hbefore hbare hne hafter⟩
  · rintro rfl
    obtain ⟨c, t, rfl⟩ := List.exists_cons_of_ne_nil hne
    have hc := Text.stopsAt_cons.1 hbare.start
    exact Bool.false_ne_true (hc.symm.trans hstart)
  · rintro rfl
    obtain ⟨c, t, hc⟩ := List.exists_cons_of_ne_nil (List.reverse_ne_nil_iff.2 hne)
    have hlast := hbare.stop
    rw [List.append_nil, List.reverse_append, hc, List.cons_append, Text.stopsAt_cons] at hstop
    rw [hc, Text.stopsAt_cons] at hlast
    rw [hlast] at hstop
    cases hstop

/-- **The message is that of the preferred cut.** -/
theorem exists_cut (hstart : middle.head?.any Text.isBlank = true)
    (hstop : Text.StopsAt (! Text.isBlank ·) middle.reverse) :
    ∃ before after, IsCut middle before message after ∧ IsPreferredCut middle before message := by
  by_cases hne : Text.trim middle = []
  · refine exists_cut_of_blank h fun c hc => ?_
    obtain ⟨before, after, htext, hbefore, hafter⟩ := Text.exists_trim_eq middle
    rw [htext, hne, List.nil_append] at hc
    exact (List.mem_append.1 hc).elim (hbefore c) (hafter c)
  · exact exists_cut_of_not_blank h hstart hstop hne

end

/-! ## The rule -/

/-- The rule is the last word of a line, and the message is looked for in all before it. -/
theorem messageAndRule?_append {middle rule blanks : Text} (hhead : middle.head?.any Text.isBlank)
    (hlast : Text.StopsAt (! Text.isBlank ·) middle.reverse) (hrule : IsRule rule)
    (hblanks : ∀ c ∈ blanks, Text.isBlank c = true) :
    messageAndRule? (middle ++ (rule ++ blanks)) =
      (message? middle).map fun message => (message, rule) := by
  have hstop := Text.stopsAt_reverse_of_forall hrule.ne_nil
    (fun c hc => rule_solid (hrule.chars c hc)) middle
  have hword : ∀ c ∈ rule.reverse, (! Text.isBlank c) = true := fun c hc => by
    rw [rule_solid (hrule.chars c (List.mem_reverse.1 hc))]
    rfl
  unfold messageAndRule?
  rw [← List.append_assoc]
  simp only [Text.trimEnd_append hstop hblanks, List.reverse_append,
    Text.takeWhile_run hword hlast, Text.dropWhile_run hword hlast, List.reverse_reverse, hhead,
    List.all_eq_true.2 hrule.chars, Bool.and_self, if_true]

/-- What stands after a severity is cut into message, rule and blanks. -/
theorem messageAndRule?_eq_some {t message rule : Text}
    (h : messageAndRule? t = some (message, rule)) :
    ∃ middle after, t = middle ++ (rule ++ after) ∧ message? middle = some message ∧
      middle.head?.any Text.isBlank = true ∧ Text.StopsAt (! Text.isBlank ·) middle.reverse ∧
      IsRule rule ∧ ∀ c ∈ after, Text.isBlank c = true := by
  have hstop := Text.stopsAt_dropWhile Text.isBlank t.reverse
  have hblanks := @List.takeWhile_append_dropWhile _ Text.isBlank t.reverse
  unfold messageAndRule? Text.trimEnd at h
  rw [List.reverse_reverse] at h
  generalize t.reverse.dropWhile Text.isBlank = body at h hstop hblanks
  have hbody := @List.takeWhile_append_dropWhile _ (! Text.isBlank ·) body
  simp only [] at h
  split at h
  · next hcond =>
    obtain ⟨found, hfound, he⟩ := Option.map_eq_some_iff.1 h
    obtain ⟨rfl, rfl⟩ := Prod.mk.inj he
    obtain ⟨hhead, hchars⟩ := Bool.and_eq_true_iff.1 hcond
    refine ⟨_, (t.reverse.takeWhile Text.isBlank).reverse, ?_, hfound, hhead, ?_,
      ⟨?_, List.all_eq_true.1 hchars⟩, fun c hc => ?_⟩
    · rw [← List.reverse_append, ← List.reverse_append, List.append_assoc, hbody, hblanks,
        List.reverse_reverse]
    · rw [List.reverse_reverse]
      exact Text.stopsAt_dropWhile _ body
    · -- a body without a word at its end is empty, and then nothing stands before the rule
      intro hnil
      rw [List.reverse_eq_nil_iff] at hnil
      cases body with
      | nil => cases hhead
      | cons c body =>
        rw [List.takeWhile_cons, Text.stopsAt_cons.1 hstop] at hnil
        cases hnil
    · exact List.mem_takeWhile_imp (List.mem_reverse.1 hc)
  · cases h

/-! ## Issue lines -/

namespace Division

variable {d other : Division} {t : Text}

theorem isCut (h : d.IsIssue) : IsCut d.middle d.afterSeverity d.issue.message d.afterMessage :=
  ⟨rfl, h.afterSeverity, h.message, h.afterMessage⟩

theorem IsIssue.stopsAt_middle (h : d.IsIssue) :
    Text.StopsAt (! Text.isBlank ·) d.middle.reverse := by
  unfold middle
  rw [← List.append_assoc]
  exact h.afterMessage.stopsAt_reverse _

/-- The place and the severity are read from the left. -/
theorem ofLine?_append {before line column gap severity : Text}
    (hbefore : ∀ c ∈ before, Text.isBlank c = true) (hline : FileRef.IsNumber line)
    (hcolumn : FileRef.IsNumber column) (hgap : IsGap gap) (hseverity : IsSeverity severity)
    (rest : Text) :
    IssueLine.ofLine? (before ++ (line ++ ':' :: (column ++ (gap ++ (severity ++ rest))))) =
      (messageAndRule? rest).map fun (message, rule) =>
        ⟨line, column, severity, message, rule⟩ := by
  -- the first blank of the gap ends the column, and the others are passed over
  obtain ⟨g, gs, rfl⟩ := List.exists_cons_of_ne_nil hgap.ne_nil
  obtain ⟨hg, hgs⟩ := List.forall_mem_cons.1 hgap.blank
  have hstart : ∀ more, Text.trimStart Text.isBlank (before ++ (line ++ more)) = line ++ more :=
    fun more => Text.trimStart_append hbefore
      (Text.stopsAt_of_forall hline.1 (fun c hc => decimal_solid (hline.2 c hc)) more)
  have hspan : ∀ more, (line ++ ':' :: more).span Text.isDecimal = (line, ':' :: more) :=
    fun more => Text.span_run hline.2 (Text.stopsAt_cons.2 (by decide))
  have hspan' : (column ++ (g :: gs ++ (severity ++ rest))).span Text.isDecimal
      = (column, g :: (gs ++ (severity ++ rest))) :=
    Text.span_run hcolumn.2 (Text.stopsAt_cons.2 (Text.isDecimal_of_isBlank hg))
  have hskip : Text.trimStart Text.isBlank (gs ++ (severity ++ rest)) = severity ++ rest :=
    Text.trimStart_append hgs (hseverity.stopsAt rest)
  obtain ⟨d, ds, rfl⟩ := List.exists_cons_of_ne_nil hline.1
  obtain ⟨e, es, rfl⟩ := List.exists_cons_of_ne_nil hcolumn.1
  rw [IssueLine.ofLine?, hstart, hspan]
  simp only [hspan', hg, if_true, hskip, hseverity.severity?_append]

/-- Of a divided line only the message is still to be found, in what is left between the severity
and the rule. -/
theorem IsIssue.ofLine?_text (h : d.IsIssue) :
    IssueLine.ofLine? d.text = (message? d.middle).map d.issue.withMessage := by
  have hhead : d.middle.head?.any Text.isBlank = true := h.afterSeverity.head? _
  unfold text
  rw [ofLine?_append h.before h.line h.column h.afterPlace h.severity,
    messageAndRule?_append hhead h.stopsAt_middle h.rule h.after, Option.map_map]
  rfl

/-- A line that reports an issue is divided. -/
theorem exists_divides {i : IssueLine} (h : IssueLine.ofLine? t = some i) :
    ∃ d : Division, d.Divides t ∧ d.issue = i ∧
      IsPreferredCut d.middle d.afterSeverity d.issue.message := by
  have hbefore := @List.takeWhile_append_dropWhile _ Text.isBlank t
  unfold IssueLine.ofLine? Text.trimStart at h
  generalize t.dropWhile Text.isBlank = u at h hbefore
  split at h
  · cases h
  · next line rest hline hspan =>
    obtain ⟨rfl, hline'⟩ := Text.of_span hspan
    split at h
    · cases h
    · next column c gap hcolumn hspan' =>
      obtain ⟨rfl, hcolumn'⟩ := Text.of_span hspan'
      split at h
      · next hc =>
        have hgap := @List.takeWhile_append_dropWhile _ Text.isBlank gap
        generalize gap.dropWhile Text.isBlank = v at h hgap
        split at h
        · cases h
        · next severity more hs =>
          obtain ⟨rfl, hseverity⟩ := severity?_eq_some hs
          obtain ⟨⟨message, rule⟩, hm, rfl⟩ := Option.map_eq_some_iff.1 h
          obtain ⟨middle, after, rfl, hmessage, hhead, hstop, hrule, hafter⟩ :=
            messageAndRule?_eq_some hm
          obtain ⟨before, behind, hcut, hpreferred⟩ := exists_cut hmessage hhead hstop
          have hmiddle := hcut.text
          subst hmiddle
          refine ⟨⟨t.takeWhile Text.isBlank, c :: gap.takeWhile Text.isBlank, before, behind, after,
            ⟨line, column, severity, message, rule⟩⟩, ⟨⟨fun c hc => List.mem_takeWhile_imp hc,
            ⟨hline, hline'⟩, ⟨hcolumn, hcolumn'⟩, ⟨List.cons_ne_nil _ _, ?_⟩, hseverity,
            hcut.before, hcut.ne_nil, hcut.after, hrule, hafter⟩, ?_⟩, rfl, hpreferred⟩
          · exact List.forall_mem_cons.2 ⟨hc, fun d hd => List.mem_takeWhile_imp hd⟩
          · conv => rhs; rw [← hbefore, ← hgap]
            rfl
      · cases h
    · cases h
  · cases h

/-- All divisions of a line have the same parts, the message apart. -/
theorem Divides.eq (h : d.Divides t) (h' : other.Divides t) :
    d.middle = other.middle ∧ d.issue.withMessage other.issue.message = other.issue := by
  obtain ⟨h, rfl⟩ := h
  obtain ⟨h', ht⟩ := h'
  have hstart : ∀ {e : Division}, e.IsIssue → ∀ more,
      Text.StopsAt Text.isBlank (e.issue.line ++ more) := fun he more =>
    Text.stopsAt_of_forall he.line.1 (fun c hc => decimal_solid (he.line.2 c hc)) more
  obtain ⟨-, ht⟩ := Text.run_inj h'.before (hstart h' _) h.before (hstart h _) ht
  obtain ⟨hline, ht⟩ := Text.run_inj h'.line.2 (Text.stopsAt_cons.2 (by decide)) h.line.2
    (Text.stopsAt_cons.2 (by decide)) ht
  obtain ⟨hcolumn, ht⟩ := Text.run_inj h'.column.2
    (h'.afterPlace.stopsAt Text.isDecimal_of_isBlank _) h.column.2
    (h.afterPlace.stopsAt Text.isDecimal_of_isBlank _) (List.cons.inj ht).2
  obtain ⟨-, ht⟩ := Text.run_inj h'.afterPlace.blank (h'.severity.stopsAt _) h.afterPlace.blank
    (h.severity.stopsAt _) ht
  obtain ⟨hseverity, ht⟩ := h'.severity.inj h.severity ht
  -- the rest is read from the right
  have hsolid : ∀ {e : Division}, e.IsIssue → ∀ c ∈ e.issue.rule.reverse,
      (! Text.isBlank c) = true := fun he c hc => by
    rw [rule_solid (he.rule.chars c (List.mem_reverse.1 hc))]
    rfl
  have hstop : ∀ {e : Division}, e.IsIssue →
      Text.StopsAt Text.isBlank (e.issue.rule.reverse ++ e.middle.reverse) := fun he =>
    Text.stopsAt_of_forall (List.reverse_ne_nil_iff.2 he.rule.ne_nil)
      (fun c hc => by simpa using hsolid he c hc) _
  have hreverse := congrArg List.reverse ht
  simp only [List.reverse_append, List.append_assoc] at hreverse
  obtain ⟨-, hreverse⟩ := Text.run_inj (fun c hc => h'.after c (List.mem_reverse.1 hc)) (hstop h')
    (fun c hc => h.after c (List.mem_reverse.1 hc)) (hstop h) hreverse
  obtain ⟨hrule, hmiddle⟩ := Text.run_inj (hsolid h') h'.stopsAt_middle (hsolid h)
    h.stopsAt_middle hreverse
  refine ⟨(List.reverse_injective hmiddle).symm, ?_⟩
  unfold IssueLine.withMessage
  rw [← hline, ← hcolumn, ← hseverity, ← List.reverse_injective hrule]

/-- Two divisions that are each preferred to the other hold the same issue. -/
theorem Prefers.issue_eq (h : d.Divides t) (h' : other.Divides t) (hd : d.Prefers other)
    (ho : other.Prefers d) : d.issue = other.issue := by
  obtain ⟨hmiddle, hparts⟩ := h.eq h'
  have hafter := Nat.le_antisymm ho.afterSeverity hd.afterSeverity
  have hmessage := Nat.le_antisymm (hd.message hafter.symm) (ho.message hafter)
  unfold middle at hmiddle
  obtain ⟨-, hrest⟩ := List.append_inj hmiddle hafter
  rw [← hparts, ← (List.append_inj hrest hmessage).1]
  rfl

end Division

theorem Reports.isIssueLine {t : Text} {i : IssueLine} (h : Reports t i) : IsIssueLine t := by
  obtain ⟨d, hd, -, -⟩ := h
  exact ⟨d, hd⟩

theorem Reports.unique {t : Text} {i i' : IssueLine} (h : Reports t i) (h' : Reports t i') :
    i = i' := by
  obtain ⟨d, hd, rfl, hprefers⟩ := h
  obtain ⟨other, ho, rfl, hprefers'⟩ := h'
  exact Division.Prefers.issue_eq hd ho (hprefers other ho) (hprefers' d hd)

theorem reports_of_ofLine? {t : Text} {i : IssueLine} (h : IssueLine.ofLine? t = some i) :
    Reports t i := by
  obtain ⟨d, hd, rfl, hpreferred⟩ := Division.exists_divides h
  refine ⟨d, hd, rfl, fun other ho => ?_⟩
  have hcut := Division.isCut ho.isIssue
  rw [← (hd.eq ho).1] at hcut
  obtain ⟨hafter, hmessage⟩ := hpreferred _ _ _ hcut
  exact ⟨hafter, hmessage⟩

theorem ofLine?_eq_none_iff {t : Text} : IssueLine.ofLine? t = none ↔ ¬ IsIssueLine t := by
  constructor
  · rintro h ⟨d, hd⟩
    obtain ⟨found, hfound⟩ := (Division.isCut hd.isIssue).exists_message
    rw [← hd.text, hd.isIssue.ofLine?_text, hfound] at h
    cases h
  · intro h
    rw [Option.eq_none_iff_forall_ne_some]
    exact fun i hi => h (reports_of_ofLine? hi).isIssueLine

/-- **The issue of a line.** -/
theorem ofLine?_eq_some_iff {t : Text} {i : IssueLine} :
    IssueLine.ofLine? t = some i ↔ Reports t i := by
  refine ⟨reports_of_ofLine?, fun h => ?_⟩
  cases hi : IssueLine.ofLine? t with
  | none => exact absurd h.isIssueLine (ofLine?_eq_none_iff.1 hi)
  | some i' => rw [(reports_of_ofLine? hi).unique h]

/-! ## Headers -/

/-- **The file that a line names.** -/
theorem header?_eq_some_iff {t file : Text} : header? t = some file ↔ IsHeader t file := by
  unfold header?
  simp only [Option.ite_none_right_eq_some, Option.some.injEq, Bool.and_eq_true,
    Bool.not_eq_true', decide_eq_true_eq]
  constructor
  · rintro ⟨⟨⟨hsource, hlong⟩, hsolid⟩, rfl⟩
    obtain ⟨before, after, htext, hbefore, hafter⟩ := Text.exists_trim_eq t
    obtain ⟨name, hname⟩ := (Text.endsWith_iff _ _).1 hsource
    refine ⟨⟨before, after, htext, hbefore, hafter⟩, Text.eq_false_of_any hsolid, name, ?_,
      hname.symm⟩
    rintro rfl
    rw [← hname] at hlong
    exact absurd hlong (by decide)
  · rintro ⟨⟨before, after, rfl, hbefore, hafter⟩, hsolid, name, hne, rfl⟩
    rw [Text.trim_append hbefore (Text.bareEnds_of_forall hsolid) (by simp) hafter]
    refine ⟨⟨⟨(Text.endsWith_iff _ _).2 (List.suffix_append _ _), ?_⟩, ?_⟩, rfl⟩
    · have hpos := List.length_pos_iff.2 hne
      rw [List.length_append]
      exact Nat.lt_add_of_pos_left hpos
    · exact List.any_eq_false.2 fun c hc => Bool.eq_false_iff.1 (hsolid c hc)

end ContractAudit.LintText
