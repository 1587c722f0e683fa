import ContractAudit.Pipeline
import ContractAudit.Settings.Load

/-! The command line.

The settings come from the environment and from the file `.env` of the project.  The project is
the first line of standard input: an object with the texts of its files by absolute path, and
with the time of the run.  Every request is written as one line, and the next line of standard
input is its reply: an object with the status and the body, or with a message if there is no
answer.  In the end every file of the run is written as one line.  The log goes to standard
error. -/

namespace ContractAudit.CommandLine

/-- The working directory. -/
def cwd : Text := "/"

/-- A text member of an object, empty if it is missing. -/
def textOf (key : Text) (members : List (Text × Json)) : Text :=
  match Json.find? key members with
  | some (.str t) => t
  | _ => []

/-- The tree of the files in an object. -/
def treeOf (members : List (Text × Json)) : FileTree :=
  match Json.find? "files" members with
  | some (.obj files) =>
    files.foldl (fun tree f =>
      match f.2 with
      | .str t => tree.insert f.1 (.file (Bytes.ofText t))
      | _ => tree) (.directory [])
  | _ => .directory []

/-- The reply in an object. -/
def replyOf (members : List (Text × Json)) : Reply :=
  match Json.find? "status" members with
  | some (.int n) => .answer n.toNat (Bytes.ofText (textOf "body" members))
  | _ => .broken (textOf "message" members)

/-- A request as it is written. -/
def requestLine (r : Request) : Text :=
  Json.compact (.obj [
    ("method", .str Request.method),
    ("url", .str r.url.text),
    ("key", .str r.key),
    ("type", .str Request.contentType),
    ("body", r.body)
  ])

/-- A file of the run as it is written. -/
def artifactLine (a : Pipeline.Artifact) : Text :=
  Json.compact (.obj [("path", .str a.path), ("text", .str a.text)])

/-- The members of the object that a line holds. -/
def membersOf (line : Text) : List (Text × Json) :=
  match Json.read Json.usualDepth line with
  | .ok (.obj members) => members
  | _ => []

def readLine : IO Text := do
  return (← (← IO.getStdin).getLine).toList

def writeLine (t : Text) : IO Unit := do
  let output ← IO.getStdout
  output.putStrLn t.toStr
  output.flush

/-- Shows the entries of a log, and goes on with the value. -/
def showLog {α : Type} (w : LogWord) (x : Logged α) : IO α := do
  for e in Pipeline.shownLog w x.log do
    IO.eprintln e.text.toStr
  return x.value

/-- The variables of the environment that are settings. -/
def environment : IO (List (Text × Text)) := do
  let mut all := []
  for name in Settings.names do
    for spelling in [name, name.map Char.toUpper] do
      if let some value ← IO.getEnv spelling.toStr then
        all := all ++ [(spelling, value.toList)]
  return all

/-- Asks for replies until the call has come to its end, or `fuel` replies are used up. -/
def converse (ws : Workspace) : (fuel : Nat) → Stage → IO Stage
  | 0, stage => return stage
  | fuel + 1, stage =>
    match stage.progress with
    | .done _ => return stage
    | .waiting p => do
      writeLine (requestLine p.request)
      let reply := replyOf (membersOf (← readLine))
      let next ← showLog ws.settings.logWord (ws.resume stage.tally p reply)
      converse ws fuel next

/-- Ends a run whose call has come to its end. -/
def conclude (ws : Workspace) (filter : FindingFilter) (stamp : Text) (stage : Stage) :
    IO UInt32 := do
  match stage.progress with
  | .waiting _ => return 1
  | .done outcome =>
    let word := ws.settings.logWord
    let published ← showLog word (Pipeline.finish ws filter stamp stage.tally outcome)
    if let .ok p := published then
      for a in p.artifacts do
        writeLine (artifactLine a)
    match ← showLog word (Pipeline.exitCode published) with
    | .ok code => return code.toUInt32
    | .error f =>
      IO.eprintln f.message.toStr
      return 1

def run : IO UInt32 := do
  let project := membersOf (← readLine)
  let tree := treeOf project
  match Settings.load tree cwd [] (← environment) with
  | .error f =>
    IO.eprintln f.message.toStr
    return 1
  | .ok settings =>
    let ws := Workspace.ofTree cwd settings tree
    let (filter, stage) ← showLog settings.logWord (Pipeline.start ws)
    conclude ws filter (textOf "stamp" project) (← converse ws stage.work stage)

end ContractAudit.CommandLine

def main : IO UInt32 := ContractAudit.CommandLine.run
