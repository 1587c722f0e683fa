import ContractAudit.Decimal
import ContractAudit.Text.Quoted

/-! Vocabularies, and those of how grave a finding is and how sure the analysis is of it.

A label is the word that names a member of a small vocabulary.  `ofLabel?` accepts a label as it
is written, `ofWord?` in any letter case and with blanks around it.  What a word that is no label
means is decided by each vocabulary for itself.

The severities are listed from the gravest on, and `rank` is the place in that list: reports
sort by it.  A word that names no severity means `unknown`, and so with confidences. -/

namespace ContractAudit

/-! ## Labels -/

/-- A vocabulary: its members in their order, and the word for each. -/
class Labelled (α : Type) where
  members : List α
  label : α → Text

export Labelled (label)

namespace Labelled

variable {α : Type} [Labelled α]

/-- The member with exactly this label. -/
def ofLabel? (α : Type) [Labelled α] (t : Text) : Option α :=
  (Labelled.members : List α).find? fun a => label a == t

/-- The member whose label is this word, blanks and letter case aside. -/
def ofWord? (α : Type) [Labelled α] (t : Text) : Option α :=
  (Labelled.members : List α).find? fun a => Text.lower (label a) == Text.lower (Text.trim t)

end Labelled

/-! ## Severities and confidences -/

/-- How grave a finding is. -/
inductive Severity
  | critical | high | medium | low | optimization | informational | unknown
  deriving DecidableEq, Repr

namespace Severity

instance : Labelled Severity where
  members := [critical, high, medium, low, optimization, informational, unknown]
  label
    | critical => "Critical"
    | high => "High"
    | medium => "Medium"
    | low => "Low"
    | optimization => "Optimization"
    | informational => "Informational"
    | unknown => "Unknown"

/-- The place among the severities, the gravest first. -/
def rank : Severity → Nat
  | critical => 0
  | high => 1
  | medium => 2
  | low => 3
  | optimization => 4
  | informational => 5
  | unknown => 6

def ofWord (word : Option Text) : Severity :=
  (word.bind (Labelled.ofWord? Severity)).getD unknown

end Severity

/-- How sure the analysis is of a finding. -/
inductive Confidence
  | high | medium | low | unknown
  deriving DecidableEq, Repr

namespace Confidence

instance : Labelled Confidence where
  members := [high, medium, low, unknown]
  label
    | high => "High"
    | medium => "Medium"
    | low => "Low"
    | unknown => "Unknown"

def ofWord (word : Option Text) : Confidence :=
  (word.bind (Labelled.ofWord? Confidence)).getD unknown

end Confidence

/-! ## Severities of a linter

A linter writes a number (2, 1 or 0) or a word.  A word made of digits is read as a number;
the only fault is a word of digits that no number can be read from. -/

/-- How grave a linter finds an issue. -/
inductive LintSeverity
  | error | warning | info | unknown
  deriving DecidableEq, Repr

/-- The severity as a linter writes it. -/
inductive LintMark
  | code (n : Int)
  | word (t : Text)
  deriving DecidableEq

namespace LintSeverity

instance : Labelled LintSeverity where
  members := [error, warning, info, unknown]
  label
    | error => "Error"
    | warning => "Warning"
    | info => "Info"
    | unknown => "Unknown"

/-- The severity with a number. -/
def ofCode (n : Int) : LintSeverity :=
  if n = 2 then error else if n = 1 then warning else if n = 0 then info else unknown

/-- The severity that a word or a number in digits names. -/
def ofWord (t : Text) : Except Decimal.Fault LintSeverity :=
  let digits := Text.trim t
  if ! digits.isEmpty && digits.all Text.isDigit then
    (Decimal.read digits).map fun n => ofCode n
  else .ok ((Labelled.ofWord? LintSeverity t).getD unknown)

/-- The severity that a mark names. -/
def ofMark : Option LintMark → Except Decimal.Fault LintSeverity
  | none => .ok unknown
  | some (.code n) => .ok (ofCode n)
  | some (.word t) => ofWord t

/-- The place of an issue on the scale of all findings. -/
def severity : LintSeverity → Severity
  | error => .medium
  | warning => .low
  | info => .informational
  | unknown => .unknown

end LintSeverity

end ContractAudit
