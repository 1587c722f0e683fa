import ContractAudit.Ignore
import ContractAudit.Log
import ContractAudit.Path
import ContractAudit.Solidity.ImportDirective
import ContractAudit.Sort
import ContractAudit.Text.Quoted

/-! The rules by which a project is searched for sources, and which file an import means.

The rules say how source files end, which directories hold the packages of others, which imports
mean packages, and which beginnings of imports are put in place of others.  They also name the
parser of sources and the reader of ignore files.

Only imports of source files count.  A remapping replaces the beginning of an import by a
directory below the root, and of several that fit the one with the longest beginning is used.
Without a remapping an import that begins like the name of a package means no file, and any
other one is seen from the directory of the file that imports it. -/

namespace ContractAudit

/-- How a project is searched for sources. -/
structure ProjectRules where
  /-- The endings of source files. -/
  endings : List Text := [".sol"]
  /-- The directories that hold packages of others. -/
  vendorDirectories : List Text := ["node_modules"]
  /-- The packages of others are searched too. -/
  includeVendor : Bool := false
  /-- The beginnings of imports that mean packages. -/
  packageLeads : List Text := ["@"]
  /-- Beginnings of imports, each with what is put in its place. -/
  remappings : List (Text × Text) := []
  /-- The parser of sources. -/
  parse : Text → Solidity.Node := Solidity.parse
  /-- The paths, relative to the root, that the lines of an ignore file name. -/
  ignored : List Text → Except Ignore.Fault (Text → Bool) := Ignore.matcher

namespace ProjectRules

/-- The path ends like a source file. -/
def isSource (rules : ProjectRules) (p : Text) : Bool :=
  rules.endings.any fun tail => Text.endsWith tail p

/-- The remappings, those with longer beginnings first. -/
def byLength (rules : ProjectRules) : List (Text × Text) :=
  sortBy (fun a b => b.1.length ≤ a.1.length) rules.remappings

/-- The remapped form of an import, if a remapping fits. -/
def remapped? (rules : ProjectRules) (spec : Text) : Option Text :=
  (rules.byLength.find? fun r => Text.startsWith r.1 spec).map fun r =>
    r.2 ++ spec.drop r.1.length

/-- The file that an import of a source means; `root` is an absolute path. -/
def targetOf (rules : ProjectRules) (cwd root file spec : Text) : Option Text :=
  if ! rules.isSource spec then none
  else
    match rules.remapped? spec with
    | some p => some (Path.normalize (Path.join root p))
    | none =>
      if rules.packageLeads.any fun lead => Text.startsWith lead spec then none
      else some (Path.normalize (Path.join (Path.directory (Path.absolute cwd file)) spec))

/-- An import that no file can be meant by: it is empty or holds a null character. -/
def isMalformed (spec : Text) : Bool := spec.isEmpty || spec.contains '\x00'

def target (rules : ProjectRules) (cwd root file spec : Text) : Logged (Option Text) := do
  if isMalformed spec then
    Logged.debug ("[Imports] Skipping malformed import in " ++ file ++ ": " ++ Text.quoted spec)
    return none
  else return rules.targetOf cwd root file spec

/-- The files that imports mean, each once, in the order of the imports. -/
def targetsOf (rules : ProjectRules) (cwd root file : Text) :
    List Text → (found : List Text) → Logged (List Text)
  | [], found => pure found
  | spec :: rest, found => do
    match ← rules.target cwd root file spec with
    | some p =>
      rules.targetsOf cwd root file rest (if found.contains p then found else found ++ [p])
    | none => rules.targetsOf cwd root file rest found

/-- The files that the text of a file imports. -/
def resolve (rules : ProjectRules) (cwd root : Text) (text file : Text) : Logged (List Text) :=
  rules.targetsOf cwd root (Path.absolute cwd file) (Solidity.imports text rules.parse) []

end ProjectRules

end ContractAudit
