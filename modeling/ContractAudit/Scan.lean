import ContractAudit.FileTree
import ContractAudit.Log
import ContractAudit.ProjectRules
import ContractAudit.Sort

/-! The source files of a project.

All directories below the root are searched but the one of the version control, the directories
of packages, and those that the ignore file of the root names.  A link to a directory is not
followed, and is no file either; a link that leads nowhere counts as a file. -/

namespace ContractAudit

/-- Why a project cannot be searched. -/
inductive ScanFault
  | read (f : ReadFault)
  | ignore (f : Ignore.Fault)
  deriving DecidableEq

def ScanFault.message : ScanFault → Text
  | read f => f.message
  | ignore f => f.message

namespace Scan

def ignoreFile : Text := ".gitignore"

def versionControl : Text := ".git"

/-- What a search asks about names and paths. -/
structure Filter where
  /-- The directory is passed over, whatever its path. -/
  hides : Text → Bool
  /-- The name is one of a source file. -/
  isSource : Text → Bool
  /-- The path, relative to the root, is ignored. -/
  ignores : Text → Bool
  /-- There is a directory behind the link at this path. -/
  leadsToDirectory : Text → Bool

/-- The path of an entry relative to the root, `directory` being the one of its directory. -/
def relativeName (directory name : Text) : Text :=
  if directory.isEmpty then name else directory ++ '/' :: name

mutual

/-- The source files of an entry. -/
def ofEntry (f : Filter) (path relative name : Text) : FileTree → List Text
  | .directory entries =>
    if f.hides name || f.ignores (relativeName relative name ++ ['/']) then []
    else ofEntries f (Path.join path name) (relativeName relative name) entries
  | .file _ =>
    if f.isSource name && ! f.ignores (relativeName relative name) then [Path.join path name]
    else []
  | .link _ =>
    if f.isSource name && ! f.ignores (relativeName relative name)
        && ! f.leadsToDirectory (Path.join path name) then
      [Path.join path name]
    else []

/-- The source files of the entries of a directory, `path` being its path and `relative` its path
relative to the root. -/
def ofEntries (f : Filter) (path relative : Text) : List (Text × FileTree) → List Text
  | [] => []
  | (name, t) :: rest => ofEntry f path relative name t ++ ofEntries f path relative rest

end

/-- The directory is passed over, whatever its path. -/
def hides (rules : ProjectRules) (name : Text) : Bool :=
  name == versionControl || (! rules.includeVendor && rules.vendorDirectories.contains name)

/-- The lines of an ignore file that can be read before its fault shows, and the fault.  A file
that ends inside a character is read up to its last complete line, and the fault is told as one
of the bytes that are left; any other fault shows before the first line. -/
def ignoreLines (content : Bytes) : List Text × Option Bytes.Fault :=
  match Bytes.utf8From 0 content with
  | (t, none) => (Text.linesKept (Text.unifyBreaks t), none)
  | (t, some fault) =>
    if fault.reason = .cutShort then
      let t := if t.getLast? == some '\r' then t.dropLast else t
      let lines := (Text.linesKept (Text.unifyBreaks t)).filter fun l => l.getLast? == some '\n'
      (lines, some { fault with first := 0, last := fault.last - fault.first })
    else ([], some fault)

/-- The paths that the ignore file of a project names. -/
def ignoredIn (rules : ProjectRules) (tree : FileTree) (root : Text) :
    Except ScanFault (Text → Bool) :=
  let path := Path.join root ignoreFile
  match tree.find path with
  | .error _ => .ok fun _ => false
  | .ok _ =>
    match tree.readBytes path with
    | .error f => .error (.read f)
    | .ok content =>
      let (lines, fault) := ignoreLines content
      match rules.ignored lines, fault with
      | .error f, _ => .error (.ignore f)
      | .ok _, some f => .error (.read (.encoding f))
      | .ok ignored, none => .ok ignored

/-- The source files below a root, where some paths are ignored. -/
def files (rules : ProjectRules) (ignored : Text → Bool) (tree : FileTree) (root : Text) :
    List Text :=
  let filter : Filter :=
    { hides := hides rules
      isSource := rules.isSource
      ignores := ignored
      leadsToDirectory := tree.isDirectory }
  match tree.find root with
  | .ok (.directory entries) => sortBy Text.le (ofEntries filter root [] entries)
  | _ => []

/-- The source files below a root, an absolute path. -/
def run (rules : ProjectRules) (tree : FileTree) (root : Text) :
    Logged (Except ScanFault (List Text)) :=
  match ignoredIn rules tree root with
  | .error f => pure (.error f)
  | .ok ignored => do
    Logged.info "[Scanner] Finding Solidity files in workspace..."
    let found := files rules ignored tree root
    Logged.info ("[Scanner] Found " ++ Decimal.digits found.length ++ " files")
    return .ok found

end Scan

end ContractAudit
