import ContractAudit.Finding
import ContractAudit.Log

/-! Which findings a report shows.

A vulnerability is shown if its severity is wanted, and always if its severity is unknown.  An
issue is shown unless its rule is ignored, or its severity or its category is not among the
wanted ones; a list of wanted ones that is empty wants all. -/

namespace ContractAudit

/-- Which findings a report shows. -/
structure FindingFilter where
  /-- The wanted severities; all, if there is no list. -/
  severities : Option (List Severity) := none
  /-- The wanted severities of the linter, in small letters. -/
  lintSeverities : List Text := []
  /-- The wanted categories, in small letters. -/
  lintCategories : List Text := []
  ignoredRules : List Text := []

namespace FindingFilter

/-- The rules of the presets that are known; there is a warning for each other one. -/
def presetRules : List Text → Logged (List Text)
  | [] => pure []
  | name :: rest =>
    match LintRule.preset? name with
    | some rules => do return rules ++ (← presetRules rest)
    | none => do
      Logged.warning ("[Report] Unknown rule preset ignored: " ++ name)
      presetRules rest

/-- The filter with these words. -/
def ofWords (severities : Option (List Text))
    (lintSeverities lintCategories ignoreRules ignorePresets : List Text) :
    Logged FindingFilter := do
  let rules ← presetRules ignorePresets
  return {
    severities := severities.map fun words => words.map fun w => Severity.ofWord (some w)
    lintSeverities := lintSeverities.map Text.lower
    lintCategories := lintCategories.map Text.lower
    ignoredRules := ignoreRules ++ rules
  }

/-- A label is among the wanted words, or none are given. -/
def wants (words : List Text) (label : Option Text) : Bool :=
  words.isEmpty || label.all fun t => words.contains (Text.lower t)

def keeps (p : FindingFilter) (f : Finding) : Bool :=
  match f.kind with
  | .vulnerability =>
    f.severity == .unknown || p.severities.all fun wanted => wanted.contains f.severity
  | .lint =>
    ! (f.rule.any fun rule => ! rule.isEmpty && p.ignoredRules.contains rule)
      && wants p.lintSeverities (f.lintSeverity.map label)
      && wants p.lintCategories (f.category.map label)

def shown (p : FindingFilter) (r : Findings) : Findings :=
  ⟨r.vulnerabilities.filter p.keeps, r.lint.filter p.keeps⟩

/-- The findings that are shown, with an entry about how many are not. -/
def apply (p : FindingFilter) (r : Findings) : Logged Findings := do
  let hidden := r.total - (p.shown r).total
  if hidden ≠ 0 then
    Logged.info ("[Report] " ++ Decimal.digits hidden ++ " findings hidden by filters")
  return p.shown r

end FindingFilter

end ContractAudit
