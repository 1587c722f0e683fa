import ContractAudit.TextSource
import ContractAudit.Log

/-! The graph of imports between the files of a project.

Every node has the list of the files it imports and the list of the files that import it, each
in the order in which the edges came.  An edge is added once.  `build` starts afresh; a fault
that an analysis does not expect ends it and leaves what was built until then. -/

namespace ContractAudit

/-- Files with the files they import, and the files that import them. -/
structure ImportGraph where
  forward : List (Text × List Text) := []
  backward : List (Text × List Text) := []
  deriving DecidableEq

namespace ImportGraph

def nodes (g : ImportGraph) : List Text := g.forward.map (·.1)

/-- The files that a file imports. -/
def dependencies (g : ImportGraph) (p : Text) : List Text := (lookup? p g.forward).getD []

/-- The files that import a file. -/
def dependents (g : ImportGraph) (p : Text) : List Text := (lookup? p g.backward).getD []

def edgeCount (g : ImportGraph) : Nat := g.forward.foldr (fun e n => e.2.length + n) 0

/-- The pairs with `key`, empty if it was not there. -/
def withKey (key : Text) (pairs : List (Text × List Text)) : List (Text × List Text) :=
  match lookup? key pairs with
  | some _ => pairs
  | none => pairs ++ [(key, [])]

/-- The pairs with one more item at the end of the list under `key`. -/
def appendAt (key item : Text) (pairs : List (Text × List Text)) : List (Text × List Text) :=
  put key ((lookup? key pairs).getD [] ++ [item]) pairs

def addNode (g : ImportGraph) (p : Text) : ImportGraph :=
  ⟨withKey p g.forward, withKey p g.backward⟩

/-- The graph with an edge, and with the files at both ends. -/
def addEdge (g : ImportGraph) (a b : Text) : ImportGraph :=
  let g := (g.addNode a).addNode b
  if (g.dependencies a).contains b then g else ⟨appendAt a b g.forward, appendAt b a g.backward⟩

/-- The graph with the edges from a file to those targets that are files of the graph. -/
def addTargets (g : ImportGraph) (a : Text) (targets : List Text) : ImportGraph :=
  targets.foldl (fun g b => if g.nodes.contains b then g.addEdge a b else g) g

/-- The graph of some files without edges. -/
def ofNodes (files : List Text) : ImportGraph := files.foldl addNode {}

/-- The graph with the imports of some files, and the fault that ended the reading, if any. -/
def readEdges (read : Text → Except ReadFault Text) (resolve : Text → Text → Logged (List Text)) :
    List Text → ImportGraph → Logged (ImportGraph × Option ReadFault)
  | [], g => pure (g, none)
  | p :: rest, g => do
    match read p with
    | .ok text => readEdges read resolve rest (g.addTargets p (← resolve text p))
    | .error f =>
      if f.isExpected then
        Logged.warning ("[Graph] Failed to analyze imports in " ++ p ++ ": " ++ f.message)
        readEdges read resolve rest g
      else return (g, some f)

/-- The graph of the imports between some files, and the fault that ended the reading, if
any. -/
def build (files : List Text) (read : Text → Except ReadFault Text)
    (resolve : Text → Text → Logged (List Text)) : Logged (ImportGraph × Option ReadFault) := do
  Logged.info "[Graph] Building dependency graph..."
  let start := ofNodes files
  match ← readEdges read resolve start.nodes start with
  | (g, some f) => return (g, some f)
  | (g, none) => do
    Logged.info ("[Graph] Built with " ++ Decimal.digits g.nodes.length ++ " nodes, "
      ++ Decimal.digits g.edgeCount ++ " edges")
    return (g, none)

end ImportGraph

end ContractAudit
