import ContractAudit.ImportClosure
import ContractAudit.ImportGraph.Partition
import ContractAudit.Normalization
import ContractAudit.Scan
import ContractAudit.Settings
import ContractAudit.Submission

/-! The project that a run looks at.

Directories are searched in a tree of files, and texts are read from a source, which may hold
texts that differ from those of the tree.  A run over groups reads each of its files twice: first
for its imports, then for the bundle of its group.  In between the texts may change, so there is
a source for each of the two.

`Libraries` are the parts that a workspace is put together with: the parser of sources, the reader
of ignore files and the one of addresses.  A fault says why the analysis of a workspace has no
findings. -/

namespace ContractAudit

/-! ## Faults -/

/-- Why an analysis has no findings. -/
inductive AnalysisFault
  | busy
  | noWorkspace
  | noActiveFile
  | notSource
  | unreadable (path : Text) (f : ReadFault)
  | noSources
  | allFailed (groups : Nat)
  | submission (f : SubmissionFault)
  | scan (f : ScanFault)
  | read (f : ReadFault)
  | normalization (f : NormalizationFault)
  /-- The report cannot be saved. -/
  | write (f : SystemFault) (path : Text)
  deriving DecidableEq

namespace AnalysisFault

def message : AnalysisFault → Text
  | busy => "An analysis is already running."
  | noWorkspace => "Please open a workspace folder containing the Solidity files."
  | noActiveFile => "No active editor found."
  | notSource => "The document is not a Solidity file."
  | unreadable path f => "Cannot read active file " ++ path ++ ": " ++ f.message
  | noSources => "No Solidity files found in the workspace."
  | allFailed groups => "All " ++ Decimal.digits groups ++ " file groups failed to analyze."
  | submission f => f.message
  | scan f => f.message
  | read f => f.message
  | normalization f => f.message
  | write f path => (ReadFault.system f path).message

/-- The fault is one that a run tells its user of; any other one is a defect. -/
def isReported : AnalysisFault → Bool
  | submission f => f.isExpected
  | scan _ => false
  | read _ => false
  | normalization _ => false
  | write .. => false
  | _ => true

end AnalysisFault

/-! ## Workspaces -/

/-- The parts that a workspace is put together with. -/
structure Libraries where
  /-- The parser of sources. -/
  parse : Text → Solidity.Node := Solidity.parse
  /-- The paths, relative to the root, that the lines of an ignore file name. -/
  ignored : List Text → Except Ignore.Fault (Text → Bool) := Ignore.matcher
  /-- The address to which a request for a text goes, or why there is none. -/
  address : Text → Except Text Address := Url.address

/-- The project that a run looks at, and the settings of the run. -/
structure Workspace where
  /-- The working directory, an absolute path. -/
  cwd : Text
  settings : Settings
  tree : FileTree
  source : TextSource
  /-- The source once the imports of the files are known, from which bundles are made. -/
  later : TextSource := source
  libraries : Libraries := {}
  depths : Json.Depths := {}

namespace Workspace

/-- The workspace whose texts are those of the tree. -/
def ofTree (cwd : Text) (settings : Settings) (tree : FileTree) : Workspace :=
  { cwd, settings, tree, source := tree.source }

/-- The workspace with texts of an editor in front of its own. -/
def withBuffers (ws : Workspace) (buffers : List (Text × Text)) : Workspace :=
  { ws with
    source := ws.source.withBuffers ws.cwd buffers
    later := ws.later.withBuffers ws.cwd buffers }

def root (ws : Workspace) : Text := Path.absolute ws.cwd ws.settings.workspace

def rules (ws : Workspace) : ProjectRules :=
  { ws.settings.rules with parse := ws.libraries.parse, ignored := ws.libraries.ignored }

def endpoint (ws : Workspace) : Endpoint := ⟨ws.settings.apiUrl, ws.settings.apiKey⟩

/-- The files that the text of a file imports. -/
def resolve (ws : Workspace) (text file : Text) : Logged (List Text) :=
  ws.rules.resolve ws.cwd ws.root text file

def load (ws : Workspace) (path : Text) : Except ReadFault SourceFile :=
  SourceFile.load ws.cwd ws.root ws.source path

/-- The file as it is once the imports are known. -/
def reload (ws : Workspace) (path : Text) : Except ReadFault SourceFile :=
  SourceFile.load ws.cwd ws.root ws.later path

/-- What is sent for a bundle. -/
def request (ws : Workspace) (b : Bundle) : Logged (Except SubmissionFault Request) :=
  Submission.request ws.endpoint b ws.libraries.address

/-- The response in the reply to a request. -/
def response (ws : Workspace) (r : Request) (reply : Reply) :
    Logged (Except SubmissionFault Record.Response) :=
  Submission.response r reply ws.depths.body

/-- The findings of a response, numbered from `next` on. -/
def findings (ws : Workspace) (next : Nat) (r : Record.Response) : Logged (Numbered Findings) :=
  Normalization.ofResponse next ws.settings.linting r ws.depths.lint

/-- There is a directory at the root, with an entry if there is none. -/
def isOpen (ws : Workspace) : Logged Bool := do
  if ws.tree.isDirectory ws.root then return true
  Logged.error ("No workspace folder opened: " ++ ws.root)
  return false

/-- The groups of files that belong together. -/
def groups (ws : Workspace) : Logged (Except AnalysisFault (List (List Text))) := do
  match ← Scan.run ws.rules ws.tree ws.root with
  | .error f => return .error (.scan f)
  | .ok [] =>
    Logged.warning "No Solidity files found in the workspace"
    return .error .noSources
  | .ok files =>
    match ← ImportGraph.build files ws.source.read ws.resolve with
    | (_, some f) => return .error (.read f)
    | (graph, none) => return .ok (← graph.partition)

/-- The bundle with the files of a group added to it; a file that cannot be read is left out. -/
def addToBundle (ws : Workspace) : List Text → Bundle → Logged (Except ReadFault Bundle)
  | [], b => pure (.ok b)
  | p :: rest, b =>
    match ws.reload p with
    | .ok f => ws.addToBundle rest (b.add f)
    | .error f =>
      if f.isExpected then do
        Logged.warning ("[Batch] Failed to open file: " ++ p ++ ": " ++ f.message)
        ws.addToBundle rest b
      else pure (.error f)

def bundle (ws : Workspace) (group : List Text) : Logged (Except ReadFault Bundle) :=
  ws.addToBundle group []

/-- The files that a file reaches by imports, and the file itself. -/
def closure (ws : Workspace) (seed : SourceFile) : Logged (Except ReadFault ImportClosure) :=
  ImportClosure.ofSeed ⟨ws.cwd, ws.root, ws.rules, ws.source⟩ seed

end Workspace

end ContractAudit
