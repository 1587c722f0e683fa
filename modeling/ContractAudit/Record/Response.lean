import ContractAudit.Record.Check
import ContractAudit.Severity

/-! Replies of the service.

Only the outer form is checked here: the vulnerabilities are a list, and what the linter says
is a list, an object or a text.  The single records are checked one by one later, so that a
malformed one does not spoil the others. -/

namespace ContractAudit.Record

/-! ## Replies -/

/-- What the linter says: records, an object that may hold them, or text. -/
inductive LintOutput
  | list (items : List Json)
  | object (members : List (Text × Json))
  | text (t : Text)

namespace LintOutput

def ofJson : Json → Checked LintOutput
  | .arr items => .ok (list items)
  | .obj members => .ok (object members)
  | .str t => .ok (text t)
  | _ =>
    .bad [⟨[.shape .list], .notList⟩, ⟨[.shape .object], .notObject⟩, ⟨[.shape .text], .notText⟩]

def toJson : LintOutput → Json
  | list items => .arr items
  | object members => .obj members
  | text t => .str t

def isEmpty : LintOutput → Bool
  | list items => items.isEmpty
  | object members => members.isEmpty
  | text t => t.isEmpty

end LintOutput

/-- A list of values of any form. -/
def anyList : Json → Checked (List Json)
  | .arr items => .ok items
  | _ => .fail .notList

/-- A reply of the service; `success` and `error` are null if they are absent. -/
structure Response where
  result : Option (List Json) := none
  linter : Option LintOutput := none
  success : Json := .null
  error : Json := .null

namespace Response

def ofJson : Json → Checked Response :=
  Checked.record fun members =>
    Response.mk <$> Checked.optional "result" anyList members
      <*> Checked.optional "linter" LintOutput.ofJson members
      <*> Checked.orElse "success" .ok .null members
      <*> Checked.orElse "error" .ok .null members

def toJson (r : Response) : Json :=
  .obj [
    ("result", match r.result with | none => .null | some items => .arr items),
    ("linter", match r.linter with | none => .null | some output => output.toJson),
    ("success", r.success),
    ("error", r.error)
  ]

end Response

/-! ## Vulnerabilities

Every field may be absent; what is there is brought into one form, and `toJson` writes that
form. -/

/-- Lines of a contract. -/
structure LineRef where
  contract : Text
  lines : List Int
  deriving DecidableEq

namespace LineRef

def ofJson : Json → Checked LineRef :=
  Checked.record fun members =>
    LineRef.mk <$> Checked.required "contract" text members
      <*> Checked.orElse "lines" (Checked.list int) [] members

def toJson (r : LineRef) : Json :=
  .obj [("contract", .str r.contract), ("lines", .arr (r.lines.map .int))]

end LineRef

/-- A vulnerability as the service reports it. -/
structure VulnerabilityRecord where
  id : Option Text := none
  check : Option Text := none
  title : Option Text := none
  description : Option Text := none
  impact : Option Text := none
  confidence : Option Text := none
  category : Option Text := none
  function : Option Text := none
  detector : Option Text := none
  lines : Option (List LineRef) := none
  deriving DecidableEq

namespace VulnerabilityRecord

def ofJson : Json → Checked VulnerabilityRecord :=
  Checked.record fun members =>
    VulnerabilityRecord.mk <$> Checked.optional "id" text members
      <*> Checked.optional "check" text members
      <*> Checked.optional "title" text members
      <*> Checked.optional "description" text members
      <*> Checked.optional "impact" text members
      <*> Checked.optional "confidence" text members
      <*> Checked.optional "category" text members
      <*> Checked.optional "function" text members
      <*> Checked.optional "detector" text members
      <*> Checked.optional "lines" (Checked.list LineRef.ofJson) members

def toJson (r : VulnerabilityRecord) : Json :=
  .obj [
    ("id", Json.ofText? r.id),
    ("check", Json.ofText? r.check),
    ("title", Json.ofText? r.title),
    ("description", Json.ofText? r.description),
    ("impact", Json.ofText? r.impact),
    ("confidence", Json.ofText? r.confidence),
    ("category", Json.ofText? r.category),
    ("function", Json.ofText? r.function),
    ("detector", Json.ofText? r.detector),
    ("lines", match r.lines with | none => .null | some refs => .arr (refs.map LineRef.toJson))
  ]

end VulnerabilityRecord

/-! ## Issues

The rule and the file have two names each; the one with a capital inside wins.  The severity
keeps the form in which it was written, number or word. -/

/-- A severity: a number stays a number and a text stays a text; a truth value and a
floating-point number become a number if they have that value, and a text otherwise. -/
def mark : Json → Checked LintMark
  | .int n => .ok (.code n)
  | .str t => .ok (.word t)
  | .bool b => .ok (.code (if b then 1 else 0))
  | .float x =>
    match intOfFloat x with
    | .ok n => .ok (.code n)
    | .bad _ => .ok (.word x.toText)
  | _ => .bad [⟨[.shape .int], .notInt⟩, ⟨[.shape .text], .notText⟩]

/-- An issue as the linter reports it. -/
structure LintRecord where
  line : Option Int := none
  column : Option Int := none
  severity : Option LintMark := none
  message : Option Text := none
  rule : Option Text := none
  file : Option Text := none
  category : Option Text := none
  deriving DecidableEq

namespace LintRecord

def ofJson : Json → Checked LintRecord :=
  Checked.record fun members =>
    LintRecord.mk <$> Checked.optional "line" int members
      <*> Checked.optional "column" int members
      <*> Checked.optional "severity" mark members
      <*> Checked.optional "message" text members
      <*> Checked.optionalAlias "ruleId" "rule_id" text members
      <*> Checked.optionalAlias "filePath" "file_path" text members
      <*> Checked.optional "category" text members

def toJson (r : LintRecord) : Json :=
  .obj [
    ("line", Json.ofInt? r.line),
    ("column", Json.ofInt? r.column),
    ("severity", match r.severity with
      | none => .null
      | some (.code n) => .int n
      | some (.word t) => .str t),
    ("message", Json.ofText? r.message),
    ("rule_id", Json.ofText? r.rule),
    ("file_path", Json.ofText? r.file),
    ("category", Json.ofText? r.category)
  ]

end LintRecord

end ContractAudit.Record
