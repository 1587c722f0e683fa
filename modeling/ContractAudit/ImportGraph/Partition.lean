import ContractAudit.ImportGraph
import ContractAudit.Sort

/-! Groups of files that belong together.

Two files belong together if a chain of imports, followed in either direction, joins them.  The
search begins with the least file that is in no group yet; within a group the files stand in the
order in which a depth-first search with a stack reaches them. -/

namespace ContractAudit.ImportGraph

/-- A search: the files reached, those of them still to be looked at with the next one first,
and those looked at in reverse. -/
structure Search where
  visited : List Text
  stack : List Text
  found : List Text

/-- The files next to a file: those it imports, then those that import it. -/
def neighbours (g : ImportGraph) (p : Text) : List Text := g.dependencies p ++ g.dependents p

/-- The search after one more file has been reached. -/
def Search.reach (s : Search) (p : Text) : Search :=
  if s.visited.contains p then s else { s with visited := p :: s.visited, stack := p :: s.stack }

/-- The search until nothing is left to be looked at. -/
def search (g : ImportGraph) : (fuel : Nat) → Search → Search
  | 0, s => s
  | fuel + 1, s =>
    match s.stack with
    | [] => s
    | p :: rest =>
      g.search fuel ((g.neighbours p).foldl Search.reach
        { s with stack := rest, found := p :: s.found })

/-- The files that are found from `p` on, and all files reached then. -/
def component (g : ImportGraph) (visited : List Text) (p : Text) : List Text × List Text :=
  let s := g.search (g.nodes.length + 1) ⟨p :: visited, [p], []⟩
  (s.found.reverse, s.visited)

/-- The groups of files in some starts that have not been reached. -/
def groupsFrom (g : ImportGraph) (visited : List Text) : List Text → List (List Text)
  | [] => []
  | p :: rest =>
    if visited.contains p then g.groupsFrom visited rest
    else
      let (group, visited) := g.component visited p
      group :: g.groupsFrom visited rest

def groups (g : ImportGraph) : List (List Text) := g.groupsFrom [] (sortBy Text.le g.nodes)

/-- The groups of a graph, with an entry about their number. -/
def partition (g : ImportGraph) : Logged (List (List Text)) := do
  Logged.info ("[Partition] Identified " ++ Decimal.digits g.groups.length
    ++ " independent file groups")
  return g.groups

end ContractAudit.ImportGraph
