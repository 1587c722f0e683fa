import ContractAudit.ProjectRules
import ContractAudit.TextSource

/-! A file with all that it imports.

The search looks at the imports of the file loaded last first.  A path is reached once; what
lies outside the root and what cannot be read is passed over.  A fault that an analysis does not
expect ends the search. -/

namespace ContractAudit

/-- A file with all that it imports, and the paths that were reached. -/
structure ImportClosure where
  files : List SourceFile
  visited : List Text

namespace ImportClosure

/-- A search: the files loaded in reverse, the paths reached, and the files whose imports are
still to be looked at with the next one first. -/
structure Search where
  files : List SourceFile
  visited : List Text
  stack : List SourceFile

/-- Where to search. -/
structure Setting where
  cwd : Text
  /-- The root, an absolute path. -/
  root : Text
  rules : ProjectRules
  source : TextSource

/-- The search after the target of an import. -/
def reach (env : Setting) (s : Search) (p : Text) : Logged (Except ReadFault Search) := do
  if s.visited.contains p then return .ok s
  let s := { s with visited := p :: s.visited }
  if ! Path.isWithin env.cwd env.root p then
    Logged.debug ("[Closure] Import outside workspace skipped: " ++ p)
    return .ok s
  match SourceFile.load env.cwd env.root env.source p with
  | .ok f =>
    Logged.debug ("[Closure] Added imported file: " ++ f.relative)
    return .ok { s with files := f :: s.files, stack := f :: s.stack }
  | .error f =>
    if f.isExpected then
      Logged.warning ("[Closure] Failed to open import file " ++ p ++ ": " ++ f.message)
      return .ok s
    else return .error f

def reachAll (env : Setting) : List Text → Search → Logged (Except ReadFault Search)
  | [], s => pure (.ok s)
  | p :: rest, s => do
    match ← reach env s p with
    | .ok s => reachAll env rest s
    | .error f => return .error f

/-- The search until no file is left to be looked at. -/
def search (env : Setting) : (fuel : Nat) → Search → Logged (Except ReadFault Search)
  | 0, s => pure (.ok s)
  | fuel + 1, s =>
    match s.stack with
    | [] => pure (.ok s)
    | f :: rest => do
      let targets ← env.rules.resolve env.cwd env.root f.text f.path
      match ← reachAll env targets { s with stack := rest } with
      | .ok s => search env fuel s
      | .error fault => return .error fault

/-- The file `seed` with all that it imports. -/
def ofSeed (env : Setting) (seed : SourceFile) : Logged (Except ReadFault ImportClosure) := do
  let start : Search := ⟨[seed], [Path.absolute env.cwd seed.path], [seed]⟩
  match ← search env (env.source.support.length + 2) start with
  | .ok s => return .ok ⟨s.files.reverse, s.visited⟩
  | .error f => return .error f

end ImportClosure

end ContractAudit
