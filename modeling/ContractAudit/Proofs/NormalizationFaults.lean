import ContractAudit.Proofs.LintGrammar
import ContractAudit.Proofs.Normalization

/-!
# When normalization fails

A response is turned into findings unless one of four things is in it: a reference with a number
that is too long, or, if the linter is asked and says something, JSON nested too deep, an issue line
with a number that is too long, or a severity made of digits that are no number.  References and
issue lines are told here by their grammar, not by the readers that find them.

    (ofResponse next linting r depth).value.outcome = .error _ ↔ Raises depth linting r
    (ofResponse next linting r depth).value.outcome = .ok _ ↔ ¬ Raises depth linting r
                                                            (outcome_ofResponse_iff)
-/

namespace ContractAudit

open Record (LintOutput LintRecord Response VulnerabilityRecord)

namespace Normalization

/-- The linter is asked, and says something. -/
structure Heeds (linting : Bool) (r : Response) (output : LintOutput) : Prop where
  asked : linting = true
  answered : r.linter = some output
  ne_empty : output.isEmpty = false

/-- Why a response raises a fault. -/
inductive Raises (depth : Nat) (linting : Bool) (r : Response) : Prop
  /-- A reference in the description of a vulnerability has a number that is too long. -/
  | reference {v : Json} {record : VulnerabilityRecord} {found : List FileRef} {ref : FileRef}
      (hv : v ∈ r.result.getD []) (hr : VulnerabilityRecord.ofJson v = .ok record)
      (hfound : FileRef.IsFound (record.description.getD []) found) (href : ref ∈ found)
      (hlong : ¬ ref.IsShort)
  /-- The linter's text begins like JSON and is nested too deep. -/
  | nesting {t : Text} {object : Bool} (h : Heeds linting r (.text t)) (hj : LooksLikeJson t)
      (hread : Json.read depth (Text.trim t) = .error (.tooDeep object))
  /-- The linter's text is read line by line, and an issue line has a number that is too long. -/
  | line {t line : Text} {d : LintText.Division} (h : Heeds linting r (.text t))
      (ht : IsLines depth t) (hline : line ∈ Text.lines t) (hd : d.Divides line)
      (hlong : ¬ d.issue.IsShort)
  /-- The severity of an issue is made of digits and is no number. -/
  | severity {output : LintOutput} {items : List Json} {v : Json} {record : LintRecord} {t : Text}
      (h : Heeds linting r output) (hi : IsItems depth output items) (hv : v ∈ items)
      (hr : LintRecord.ofJson v = .ok record) (hs : record.severity = some (.word t))
      (hw : LintSeverity.IsUnreadable t)

end Normalization

namespace LintText.Division

/-- However a line is divided, its numbers are the same. -/
theorem Divides.isShort_iff {d other : Division} {t : Text} (h : d.Divides t)
    (h' : other.Divides t) : d.issue.IsShort ↔ other.issue.IsShort := by
  have hissue := (h.eq h').2
  rw [← hissue]
  exact Iff.rfl

end LintText.Division

namespace Normalization

theorem UnreadableOutput.ne_empty {depth : Nat} {output : LintOutput}
    (h : UnreadableOutput depth output) : output.isEmpty = false := by
  rw [Bool.eq_false_iff]
  intro hempty
  exact not_unreadableOutput_of_isEmpty hempty h

theorem UnreadableOutput.raises {depth : Nat} {linting : Bool} {r : Response} {output : LintOutput}
    (h : UnreadableOutput depth output) (hheeds : Heeds linting r output) :
    Raises depth linting r := by
  cases h with
  | nesting hj hread => exact .nesting hheeds hj hread
  | line ht hline hi hlong =>
    obtain ⟨d, hd, rfl, -⟩ := LintText.ofLine?_eq_some_iff.1 hi
    exact .line hheeds ht hline hd hlong
  | severity hi hv hr hs hw => exact .severity hheeds hi hv hr hs hw

/-- What cannot be read is what the grammar says. -/
theorem unreadable_iff {depth : Nat} {linting : Bool} {r : Response} :
    Unreadable depth linting r ↔ Raises depth linting r := by
  constructor
  · intro h
    cases h with
    | reference hv hr href hlong => exact .reference hv hr (FileRef.isFound_ofText _) href hlong
    | linter hl ho hbad => exact hbad.raises ⟨hl, ho, hbad.ne_empty⟩
  · intro h
    cases h with
    | reference hv hr hfound href hlong =>
      rw [FileRef.isFound_iff.1 hfound] at href
      exact .reference hv hr href hlong
    | nesting h hj hread => exact .linter h.asked h.answered (.nesting hj hread)
    | @line t line d h ht hline hd hlong =>
      cases hi : LintText.IssueLine.ofLine? line with
      | none => exact absurd ⟨d, hd⟩ (LintText.ofLine?_eq_none_iff.1 hi)
      | some issue =>
        obtain ⟨other, hother, rfl, -⟩ := LintText.ofLine?_eq_some_iff.1 hi
        have hlong' := fun hshort => hlong ((hd.isShort_iff hother).2 hshort)
        exact .linter h.asked h.answered (.line ht hline hi hlong')
    | severity h hi hv hr hs hw => exact .linter h.asked h.answered (.severity hi hv hr hs hw)

/-! ## Top theorem -/

/-- **The responses that raise a fault.** -/
theorem outcome_ofResponse_iff (depth next : Nat) (linting : Bool) (r : Response) :
    ((∃ f, (ofResponse next linting r depth).value.outcome = .error f) ↔ Raises depth linting r) ∧
      ((∃ found, (ofResponse next linting r depth).value.outcome = .ok found) ↔
        ¬ Raises depth linting r) := by
  have h := isOk_ofResponse depth next linting r
  rw [unreadable_iff] at h
  cases hout : (ofResponse next linting r depth).value.outcome with
  | ok found =>
    rw [hout, isOk_ok] at h
    have hnot := h.1 rfl
    exact ⟨⟨fun ⟨f, hf⟩ => (by cases hf), fun hr => absurd hr hnot⟩,
      ⟨fun _ => hnot, fun _ => ⟨found, rfl⟩⟩⟩
  | error f =>
    rw [hout, isOk_error] at h
    have hraises : Raises depth linting r := by
      by_contra hnot
      cases h.2 hnot
    exact ⟨⟨fun _ => hraises, fun _ => ⟨f, rfl⟩⟩,
      ⟨fun ⟨found, hf⟩ => (by cases hf), fun hnot => absurd hraises hnot⟩⟩

/-- A superscript two is a digit, and no number can be read from it. -/
example :
    let r : Response := { linter := some (.list [.obj [("severity", .str "\u00b2")]]) }
    (ofResponse 1 true r).value.outcome = .error (.number (.notDecimal "\u00b2")) := rfl

end Normalization

end ContractAudit
