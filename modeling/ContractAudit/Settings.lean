import ContractAudit.Decimal.NumberText
import ContractAudit.Json.Reader
import ContractAudit.Log
import ContractAudit.ProjectRules
import ContractAudit.Record.Check
import ContractAudit.Severity
import ContractAudit.TextSource

/-! Settings of a run.

A setting is taken from the arguments, else from the environment, else from a file of settings,
else from its default.  Names are read without regard to letter case, and lists and tables are
written as JSON in the environment and in the file.  A table is put together from all places that
have it, entry by entry. -/

namespace ContractAudit

open Record (Cause Checked Issue)

/-- What a run looks at: the whole project, or one file with its imports. -/
inductive Mode
  | all | current
  deriving DecidableEq, Repr

instance : Labelled Mode where
  members := [.all, .current]
  label
    | .all => "all"
    | .current => "current"

/-- The word that says which log entries are shown. -/
inductive LogWord
  | debug | info | warn | warning | error
  deriving DecidableEq, Repr

instance : Labelled LogWord where
  members := [.debug, .info, .warn, .warning, .error]
  label
    | .debug => "debug"
    | .info => "info"
    | .warn => "warn"
    | .warning => "warning"
    | .error => "error"

/-- The least level of the entries that are shown. -/
def LogWord.level : LogWord → LogLevel
  | .debug => .debug
  | .info => .info
  | .warn => .warning
  | .warning => .warning
  | .error => .error

/-- Settings of a run. -/
structure Settings where
  apiUrl : Text
  apiKey : Text
  timeout : Binary64
  workspace : Text
  mode : Mode
  activeFile : Text
  includeVendor : Bool
  linting : Bool
  remappings : List (Text × Text)
  severities : List Text
  lintCategories : List Text
  lintSeverities : List Text
  ignoreRules : List Text
  ignorePresets : List Text
  logWord : LogWord
  deriving DecidableEq

/-- Why there are no settings. -/
inductive SettingsFault
  | invalid (issues : List Issue)
  /-- The value of a list or a table is no JSON. -/
  | unreadable (name : Text) (inFile : Bool)
  /-- The value of a list or a table is nested too deep. -/
  | nesting (f : Json.Fault)
  /-- The file of settings is no text. -/
  | encoding (f : Bytes.Fault)

namespace SettingsFault

/-- The fault in words; that of values in the wrong form is told by its issues. -/
def message : SettingsFault → Text
  | invalid _ => []
  | unreadable name inFile =>
    "error parsing value for field \"" ++ name ++ "\" from source \""
      ++ (if inFile then "DotEnvSettingsSource" else "EnvSettingsSource") ++ "\""
  | nesting f => f.message []
  | encoding f => f.message

end SettingsFault

namespace Settings

def defaultUrl : Text := "https://api.iard.solutions/v2/analyze"

def defaultSeverities : List Text :=
  ["Critical", "High", "Medium", "Low", "Informational", "Optimization"]

def names : List Text :=
  [
    "api_url",
    "api_key",
    "request_timeout_seconds",
    "workspace_path",
    "mode",
    "active_file",
    "analyze_node_modules",
    "enable_linting",
    "remappings",
    "filter_severity",
    "filter_lint_categories",
    "filter_lint_severity",
    "ignore_rules",
    "ignore_presets",
    "log_level"
  ]

/-- The names of the settings that are lists or tables. -/
def compound : List Text :=
  [
    "remappings",
    "filter_severity",
    "filter_lint_categories",
    "filter_lint_severity",
    "ignore_rules",
    "ignore_presets"
  ]

/-- The value of a name among bindings, letter case aside.  The last binding counts, also one
without a value. -/
def valueOf? (name : Text) (bindings : List (Text × Option Text)) : Option Text :=
  (bindings.reverse.find? fun b => Text.lower b.1 == name).bind (·.2)

/-- The settings with some names that bindings hold; a list or a table may be nested `depth`
deep. -/
def fromBindings (depth : Nat) (inFile : Bool) (bindings : List (Text × Option Text)) :
    List Text → Except SettingsFault (List (Text × Json))
  | [] => .ok []
  | name :: rest =>
    match valueOf? name bindings with
    | none => fromBindings depth inFile bindings rest
    | some t =>
      if compound.contains name then
        match Json.read depth t with
        | .error (.tooDeep object) => .error (.nesting (.tooDeep object))
        | .error _ => .error (.unreadable name inFile)
        | .ok .null => fromBindings depth inFile bindings rest
        | .ok v => (fromBindings depth inFile bindings rest).map ((name, v) :: ·)
      else (fromBindings depth inFile bindings rest).map ((name, .str t) :: ·)

mutual

/-- A value with another laid on top of it: two tables are put together. -/
def overlay : (top below : Json) → Json
  | .obj top, .obj below => .obj (overlayAll top below)
  | top, _ => top

/-- Members with others laid on top of them. -/
def overlayAll : (top below : List (Text × Json)) → List (Text × Json)
  | [], below => below
  | (k, v) :: top, below =>
    overlayAll top (match lookup? k below with
      | some w => put k (overlay v w) below
      | none => put k v below)

end

def text : Json → Checked Text
  | .str t => .ok t
  | _ => .fail .notText

/-- A truth value: a truth value, zero or one, or a word for one of the two. -/
def truth : Json → Checked Bool
  | .bool b => .ok b
  | .int n => ofInt n
  | .float x =>
    match Record.intOfFloat x with
    | .ok n => ofInt n
    | .bad _ => .fail .notBool
  | .str t =>
    let word := Text.lower t
    if yes.contains word then .ok true
    else if no.contains word then .ok false
    else .fail .notBoolText
  | _ => .fail .notBool
where
  /-- The words for what is so. -/
  yes : List Text := ["1", "on", "t", "true", "y", "yes"]
  /-- The words for what is not so. -/
  no : List Text := ["0", "off", "f", "false", "n", "no"]
  /-- A whole number of 64 bits as a truth value. -/
  ofInt (n : Int) : Checked Bool :=
    if n = 0 then .ok false
    else if n = 1 then .ok true
    else if -9223372036854775808 ≤ n && n ≤ 9223372036854775807 then .fail .notBoolText
    else .fail .notBool

/-- A floating-point number; a whole number counts as one if it is not too great. -/
def float : Json → Checked Binary64
  | .float x => .ok x
  | .int n =>
    match Binary64.ofDecimal (n < 0) n.natAbs 0 with
    | .infinite _ => .fail .notFloat
    | x => .ok x
  | .bool b => .ok (Binary64.ofDecimal false (if b then 1 else 0) 0)
  | .str t =>
    match Binary64.read? t with
    | some x => .ok x
    | none => .fail .notFloatText
  | _ => .fail .notFloat

/-- A word of a vocabulary. -/
def choice (α : Type) [Labelled α] : Json → Checked α
  | .str t =>
    match Labelled.ofLabel? α t with
    | some a => .ok a
    | none => .fail .notChoice
  | _ => .fail .notChoice

/-- The entries of a table, each a text. -/
def entries : List (Text × Json) → Checked (List (Text × Text))
  | [] => .ok []
  | (k, v) :: rest =>
    List.cons <$> ((Prod.mk k) <$> (text v).under (.field k)) <*> entries rest

def table : Json → Checked (List (Text × Text))
  | .obj members => entries members
  | _ => .fail .notObject

/-- Checks the settings that have been put together. -/
def check (members : List (Text × Json)) : Checked Settings :=
  Settings.mk <$> Checked.orElse "api_url" text defaultUrl members
    <*> Checked.orElse "api_key" text [] members
    <*> Checked.orElse "request_timeout_seconds" float (.ofDecimal false 120 0) members
    <*> Checked.required "workspace_path" text members
    <*> Checked.orElse "mode" (choice Mode) .all members
    <*> Checked.orElse "active_file" text [] members
    <*> Checked.orElse "analyze_node_modules" truth false members
    <*> Checked.orElse "enable_linting" truth true members
    <*> Checked.orElse "remappings" table [] members
    <*> Checked.orElse "filter_severity" (Checked.list text) defaultSeverities members
    <*> Checked.orElse "filter_lint_categories" (Checked.list text) [] members
    <*> Checked.orElse "filter_lint_severity" (Checked.list text) [] members
    <*> Checked.orElse "ignore_rules" (Checked.list text) [] members
    <*> Checked.orElse "ignore_presets" (Checked.list text) [] members
    <*> Checked.orElse "log_level" (choice LogWord) .info members

/-- The arguments under their names in small letters; the last one of a name counts. -/
def byName (arguments : List (Text × Json)) : List (Text × Json) :=
  arguments.foldl (fun all a => put (Text.lower a.1) a.2 all) []

/-- The settings from arguments, the environment and a file of settings. -/
def ofSources (arguments : List (Text × Json)) (environment : List (Text × Text))
    (file : List (Text × Option Text)) (depth : Nat := Json.usualDepth) :
    Except SettingsFault Settings :=
  match fromBindings depth false (environment.map fun b => (b.1, some b.2)) names with
  | .error f => .error f
  | .ok fromEnvironment =>
    match fromBindings depth true file names with
    | .error f => .error f
    | .ok fromFile =>
      match check (overlayAll (byName arguments) (overlayAll fromEnvironment fromFile)) with
      | .ok s => .ok s
      | .bad issues => .error (.invalid issues)

def rules (s : Settings) : ProjectRules :=
  { includeVendor := s.includeVendor, remappings := s.remappings }

end Settings

end ContractAudit
