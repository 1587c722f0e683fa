import ContractAudit.Severity

/-! The rules of the linter: their categories, and the presets that switch off several at
once.

A category that the service names wins over the one derived from the rule's name, and a word
that names no category means `miscellaneous`; only an absent or empty word leaves the choice to
`LintCategory.ofRule`. -/

namespace ContractAudit

/-- What a rule is about. -/
inductive LintCategory
  | security | gasConsumption | bestPractice | styleGuide | miscellaneous
  deriving DecidableEq, Repr

namespace LintRule

def styleOnly : List Text :=
  [
    "quotes",
    "const-name-snakecase",
    "func-name-mixedcase",
    "contract-name-capwords",
    "var-name-mixedcase",
    "visibility-modifier-order",
    "imports-order"
  ]

def namingConventions : List Text :=
  [
    "const-name-snakecase",
    "contract-name-capwords",
    "event-name-capwords",
    "func-name-mixedcase",
    "func-param-name-mixedcase",
    "interface-starts-with-i",
    "modifier-name-mixedcase",
    "private-vars-leading-underscore",
    "var-name-mixedcase"
  ]

def gasOptimizations : List Text :=
  [
    "gas-calldata-parameters",
    "gas-custom-errors",
    "gas-increment-by-one",
    "gas-indexed-events",
    "gas-length-in-loops",
    "gas-multitoken1155",
    "gas-named-return-values",
    "gas-small-strings",
    "gas-strict-inequalities",
    "gas-struct-packing"
  ]

def documentation : List Text :=
  ["reason-string", "func-named-parameters", "named-parameters-mapping"]

def security : List Text :=
  [
    "avoid-call-value",
    "avoid-low-level-calls",
    "avoid-sha3",
    "avoid-suicide",
    "avoid-throw",
    "avoid-tx-origin",
    "check-send-result",
    "compiler-version",
    "func-visibility",
    "multiple-sends",
    "no-complex-fallback",
    "no-inline-assembly",
    "not-rely-on-block-hash",
    "not-rely-on-time",
    "reentrancy",
    "state-visibility"
  ]

def bestPractice : List Text :=
  [
    "code-complexity",
    "constructor-syntax",
    "custom-errors",
    "explicit-types",
    "function-max-lines",
    "max-line-length",
    "max-states-count",
    "no-console",
    "no-empty-blocks",
    "no-global-import",
    "no-unused-import",
    "no-unused-vars",
    "one-contract-per-file",
    "payable-fallback",
    "reason-string"
  ]

def otherStyle : List Text :=
  ["ordering", "immutable-vars-naming", "use-forbidden-name", "foundry-test-functions"]

def styleGuide : List Text := styleOnly ++ namingConventions ++ otherStyle

/-- The rules of a preset. -/
def preset? (name : Text) : Option (List Text) :=
  if name = "style-only" then some styleOnly
  else if name = "naming-conventions" then some namingConventions
  else if name = "gas-optimizations-advanced" then some gasOptimizations
  else if name = "documentation-rules" then some documentation
  else none

end LintRule

namespace LintCategory

instance : Labelled LintCategory where
  members := [security, gasConsumption, bestPractice, styleGuide, miscellaneous]
  label
    | security => "Security"
    | gasConsumption => "Gas Consumption"
    | bestPractice => "Best Practice"
    | styleGuide => "Style Guide"
    | miscellaneous => "Miscellaneous"

/-- The category that a word names, if there is a word. -/
def ofWord? : Option Text → Option LintCategory
  | none => none
  | some [] => none
  | some t => some ((Labelled.ofWord? LintCategory t).getD miscellaneous)

/-- The category of a rule, from its name. -/
def ofRule : Option Text → LintCategory
  | none => miscellaneous
  | some rule =>
    if Text.startsWith "gas-" rule then gasConsumption
    else if LintRule.security.contains rule then security
    else if LintRule.bestPractice.contains rule then bestPractice
    else if LintRule.styleGuide.contains rule then styleGuide
    else miscellaneous

end LintCategory

end ContractAudit
