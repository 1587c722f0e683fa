import ContractAudit.Proofs.JsonText
import ContractAudit.Proofs.Normalization

/-!
# The linter's output as data and as text

The linter's output comes as a list or an object, or as the text of one.  A written list or object
is read back, so the issues in it are the same.  Where it holds no list of issues the text is read
line by line in its place, and nothing is found there: the text is a single line, which begins with
a bracket and not with a number.

    lintFindings depth next (.text (write comma colon output.toJson)) =
      lintFindings depth next output                        (lintFindings_write)
-/

namespace ContractAudit

open Record (LintOutput)

/-- A bracket or a brace at the beginning and another one at the end. -/
def IsEnclosed (t : Text) : Prop :=
  ∃ first middle last, t = first :: middle ++ [last] ∧
    (first = '[' ∨ first = '\x7b') ∧ (last = ']' ∨ last = '\x7d')

theorem isEnclosed_write (comma colon : Text) {output : LintOutput}
    (hn : ∀ t, output ≠ .text t) : IsEnclosed (Json.write comma colon output.toJson) := by
  cases output with
  | list items =>
    obtain ⟨front, hf⟩ := Json.exists_writeItems_eq comma colon items
    refine ⟨'[', front, ']', ?_, Or.inl rfl, Or.inl rfl⟩
    rw [LintOutput.toJson, Json.write, hf]
    rfl
  | object members =>
    obtain ⟨front, hf⟩ := Json.exists_writeMembers_eq comma colon members
    refine ⟨'\x7b', front, '\x7d', ?_, Or.inr rfl, Or.inr rfl⟩
    rw [LintOutput.toJson, Json.write, hf]
    rfl
  | text t => exact absurd rfl (hn t)

namespace IsEnclosed

variable {t : Text} (h : IsEnclosed t)

include h

theorem bareEnds : Text.BareEnds t := by
  obtain ⟨first, middle, last, rfl, hfirst, hlast⟩ := h
  constructor
  · rw [List.cons_append, Text.stopsAt_cons]
    rcases hfirst with rfl | rfl <;> decide
  · rw [List.reverse_append, List.reverse_singleton, List.singleton_append, Text.stopsAt_cons]
    rcases hlast with rfl | rfl <;> decide

theorem looksLikeJson : Normalization.LooksLikeJson t := by
  unfold Normalization.LooksLikeJson
  rw [Text.trim_eq_self h.bareEnds]
  obtain ⟨first, middle, last, rfl, hfirst, -⟩ := h
  exact ⟨first, rfl, hfirst⟩

/-- No issue begins with a bracket. -/
theorem ofLine?_eq_none : LintText.IssueLine.ofLine? t = none := by
  have hstart := h.bareEnds.start
  have hdecimal : Text.StopsAt Text.isDecimal t := by
    obtain ⟨first, middle, last, rfl, hfirst, -⟩ := h
    rw [List.cons_append, Text.stopsAt_cons]
    rcases hfirst with rfl | rfl <;> decide
  rw [LintText.IssueLine.ofLine?, Text.trimStart, Text.dropWhile_eq_self hstart,
    List.span_eq_takeWhile_dropWhile, Text.takeWhile_eq_nil hdecimal]

/-- In a single line that is enclosed no issue is found. -/
theorem records_eq_nil (hline : ∀ c ∈ t, Text.isLineBreak c = false) :
    LintText.records t = .ok [] := by
  have hne : t ≠ [] := by
    obtain ⟨first, middle, last, rfl, -⟩ := h
    exact List.cons_ne_nil _ _
  rw [LintText.records, Text.lines_eq_singleton hne hline, LintText.recordsFrom,
    h.ofLine?_eq_none]
  rfl

end IsEnclosed

theorem not_isLineBreak_of_isPrintableAscii {c : Char} (h : Json.isPrintableAscii c = true) :
    Text.isLineBreak c = false := by
  simp only [Json.isPrintableAscii, Bool.and_eq_true, decide_eq_true_eq] at h
  rw [Bool.eq_false_iff]
  simp only [Text.isLineBreak, ne_eq, Bool.or_eq_true, Bool.and_eq_true, decide_eq_true_eq,
    beq_iff_eq]
  omega

namespace Normalization

theorem lintOfText_of_read {depth : Nat} {t : Text} (h : IsEnclosed t) {v : Json}
    (hread : Json.read depth t = .ok v) : lintOfText depth t = lintOfJson t v := by
  have hjson := (looksLikeJson_iff t).1 h.looksLikeJson
  rw [Text.trim_eq_self h.bareEnds] at hjson
  simp only [lintOfText, Text.trim_eq_self h.bareEnds, hjson, if_true, hread]

/-- **The linter's output may come as data or as text**: the findings, their ids, the number that
is next and the warnings are the same. -/
theorem lintFindings_write {depth : Nat} (next : Nat) {comma colon : Text}
    (hcomma : Json.IsMark ',' comma) (hcolon : Json.IsMark ':' colon) {output : LintOutput}
    (hn : ∀ t, output ≠ .text t)
    (h : Json.Plain depth output.toJson) :
    lintFindings depth next (.text (Json.write comma colon output.toJson)) =
      lintFindings depth next output := by
  have henc := isEnclosed_write comma colon hn
  have hascii := List.all_eq_true.1 (Json.isPrintableAscii_write hcomma hcolon h)
  have hnil := henc.records_eq_nil fun c hc => not_isLineBreak_of_isPrintableAscii (hascii c hc)
  have hread := Json.read_write hcomma hcolon h
  suffices hrecords :
      lintRecords depth (.text (Json.write comma colon output.toJson)) =
        lintRecords depth output by
    rw [lintFindings, lintFindings, hrecords]
  rw [lintRecords, lintOfText_of_read henc hread, lintOfJson_eq, lintLines, hnil]
  cases output with
  | list items => rfl
  | object members =>
    rw [lintRecords, LintOutput.toJson, issuesIn?]
    cases Json.find? "results" members with
    | none => rfl
    | some v => cases v <;> rfl
  | text t => exact absurd rfl (hn t)

/-- An object whose results hold escapes, a character of two units, and lists in lists. -/
def nestedOutput : LintOutput :=
  .object [("results", .arr [
    .obj [("line", .int 3), ("message", .str "say \"é\"\n😀"), ("ruleId", .str "no-console")],
    .int (-5),
    .arr [.null, .bool true, .arr [.obj []]]])]

theorem plain_nestedOutput : Json.Plain 5 nestedOutput.toJson := by
  refine .obj (by decide) ?_
  simp only [List.forall_mem_singleton]
  refine .arr ?_
  simp only [List.forall_mem_cons, List.not_mem_nil, false_imp_iff, implies_true, and_true]
  refine ⟨.obj (by decide) ?_, .int (by decide), .arr ?_⟩
  · simp only [List.forall_mem_cons, List.not_mem_nil, false_imp_iff, implies_true, and_true]
    exact ⟨.int (by decide), .str _, .str _⟩
  · simp only [List.forall_mem_cons, List.not_mem_nil, false_imp_iff, implies_true, and_true]
    exact ⟨.null, .bool true, .arr fun v h => List.mem_singleton.1 h ▸ .obj List.nodup_nil nofun⟩

/-- An object whose results are no list, but a text that reports an issue. -/
def strayOutput : LintOutput := .object [("results", .str "3:5 error Use of tx.origin no-origin")]

theorem plain_strayOutput : Json.Plain 1 strayOutput.toJson := by
  refine .obj (by decide) ?_
  simp only [List.forall_mem_singleton]
  exact .str _

theorem lintFindings_write_nested :
    Json.compact nestedOutput.toJson =
      "\x7b\"results\":[\x7b\"line\":3,\"message\":\"say \\\"\\u00e9\\\"\\n\\ud83d\\ude00\",".toList
        ++ "\"ruleId\":\"no-console\"\x7d,-5,[null,true,[\x7b\x7d]]]\x7d".toList ∧
    lintFindings 5 7 (.text (Json.compact nestedOutput.toJson)) = lintFindings 5 7 nestedOutput ∧
    (lintFindings 5 7 nestedOutput).value.next = 8 ∧
    lintFindings 1 7 (.text (Json.compact strayOutput.toJson)) = lintFindings 1 7 strayOutput ∧
    (lintFindings 1 7 strayOutput).value.next = 7 :=
  ⟨by decide, lintFindings_write 7 (.bare ',') (.bare ':') nofun plain_nestedOutput, by decide,
    lintFindings_write 7 (.bare ',') (.bare ':') nofun plain_strayOutput, by decide⟩

end Normalization

end ContractAudit
