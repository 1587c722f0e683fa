import ContractAudit.TextSource

/-! Trees of files.

`find` follows a path from the root of a tree, through links and `..`, to a file or a directory.
A link whose target is absolute leads from the root of the tree on, and at most `maxHops` links
are followed.  `read` opens a file as text: bytes in UTF-8, with every line break as a line
feed.  `source` offers all that can be read.  `write` and `erase` change the tree at a path. -/

namespace ContractAudit

/-- A file, a link or a directory. -/
inductive FileTree
  | file (content : Bytes)
  | link (target : Text)
  | directory (entries : List (Text × FileTree))

namespace FileTree

/-- How many links are followed on one path. -/
def maxHops : Nat := 40

/-- The greatest number of bytes of a name. -/
def maxName : Nat := 255

/-- The greatest number of bytes of a path. -/
def maxPath : Nat := 4095

/-- A node, and the directories above it up to the root, each with its name. -/
abbrev Way := List (Text × FileTree)

/-- The names from the root down to the node of a way, that of the root left out. -/
def Way.names (way : Way) : List Text := (way.map (·.1)).dropLast.reverse

/-- Where the way along some segments ends: at a node, or at a link that has to be followed
first. -/
inductive Stop
  | node (way : Way)
  /-- A link in a directory, with the segments that come after it. -/
  | link (place : Way) (target : Text) (rest : List Text)

/-- The way from a node along some segments. -/
def walk : Way → List Text → Except SystemFault Stop
  | [], _ => .error .missing
  | here :: above, [] => .ok (.node (here :: above))
  | (name, .directory entries) :: above, s :: rest =>
    if s = Path.here then walk ((name, .directory entries) :: above) rest
    else if s = Path.up then
      walk (if above.isEmpty then [(name, .directory entries)] else above) rest
    else if maxName < Bytes.utf8Size s then .error .nameTooLong
    else
      match lookup? s entries with
      | none => .error .missing
      | some (.link target) => .ok (.link ((name, .directory entries) :: above) target rest)
      | some t => walk ((s, t) :: (name, .directory entries) :: above) rest
  | _ :: _, _ :: _ => .error .notDirectory

/-- The segments of the target of a link.  A slash at its end leads to a directory only. -/
def targetSegments (target : Text) : List Text :=
  Path.segments target ++ (if Text.endsWith ['/'] target then [Path.here] else [])

/-- The way to the node at the end of some segments, after at most `hops` links. -/
def locateFrom (root : FileTree) : (hops : Nat) → Way → List Text → Except SystemFault Way
  | hops, way, segments =>
    match walk way segments with
    | .error f => .error f
    | .ok (.node way) => .ok way
    | .ok (.link place target rest) =>
      match hops with
      | 0 => .error .linkLoop
      | hops + 1 =>
        locateFrom root hops (if Path.isAbsolute target then [([], root)] else place)
          (targetSegments target ++ rest)

/-- The way to the node at an absolute path. -/
def locate (root : FileTree) (p : Text) : Except SystemFault Way :=
  if maxPath < Bytes.utf8Size p then .error .nameTooLong
  else locateFrom root maxHops [([], root)] (Path.segments p)

/-- The node at an absolute path. -/
def find (root : FileTree) (p : Text) : Except SystemFault FileTree :=
  match root.locate p with
  | .error f => .error f
  | .ok [] => .error .missing
  | .ok ((_, t) :: _) => .ok t

def isDirectory (root : FileTree) (p : Text) : Bool :=
  match root.find p with
  | .ok (.directory _) => true
  | _ => false

/-- The directory of an absolute path has an entry of its name, be it a link that leads nowhere. -/
def hasEntry (root : FileTree) (p : Text) : Bool :=
  match root.find (Path.directory p) with
  | .ok (.directory entries) => (lookup? (Path.name p) entries).isSome
  | _ => false

def readBytes (root : FileTree) (p : Text) : Except ReadFault Bytes :=
  if p.contains '\x00' then .error .nulInPath
  else
    match root.find p with
    | .error f => .error (.system f p)
    | .ok (.file content) => .ok content
    | .ok _ => .error (.system .isDirectory p)

def read (root : FileTree) (p : Text) : Except ReadFault Text :=
  match root.readBytes p with
  | .error f => .error f
  | .ok bytes => ((Bytes.utf8 bytes).map Text.unifyBreaks).mapError .encoding

mutual

/-- The number of directories on the longest way down. -/
def height : FileTree → Nat
  | directory entries => heightOfAll entries + 1
  | _ => 0

def heightOfAll : List (Text × FileTree) → Nat
  | [] => 0
  | (_, t) :: rest => max (height t) (heightOfAll rest)

end

mutual

/-- The paths of the files and links of a tree that stands at `p`. -/
def leaves (p : Text) : FileTree → List Text
  | directory entries => leavesOfAll p entries
  | _ => [p]

def leavesOfAll (p : Text) : List (Text × FileTree) → List Text
  | [] => []
  | (s, t) :: rest => leaves (Path.join p s) t ++ leavesOfAll p rest

end

def isLink : FileTree → Bool
  | link _ => true
  | _ => false

/-- The paths of files at `p` or below, at most `depth` names further down; those behind a link to
a directory are told by `beyond`. -/
def pathsBelow (root : FileTree) (beyond : Text → List Text) : (depth : Nat) → Text → List Text
  | 0, _ => []
  | depth + 1, p =>
    match root.find p with
    | .ok (.directory entries) =>
      entries.flatMap fun e =>
        let q := Path.join p e.1
        if e.2.isLink && root.isDirectory q then beyond q else pathsBelow root beyond depth q
    | .ok _ => [p]
    | .error _ => []

/-- The paths of files at `p` or below that lead through at most `hops` links to directories. -/
def pathsThrough (root : FileTree) : (hops : Nat) → Text → List Text
  | 0 => pathsBelow root (fun _ => []) (root.height + 1)
  | hops + 1 => pathsBelow root (pathsThrough root hops) (root.height + 1)

/-- The texts of all files, by path.  A link to a directory makes the files in it readable a
second time.  As no link leads back to a directory above it, a path takes every link once at
most. -/
def texts (root : FileTree) : List (Text × Text) :=
  let hops := ((leaves ['/'] root).filter root.isDirectory).length
  (pathsThrough root hops ['/']).filterMap fun p => (root.read p).toOption.map fun t => (p, t)

/-- The fault of a path that has no text. -/
def faultAt (root : FileTree) (p : Text) : ReadFault :=
  match root.read p with
  | .error f => f
  | .ok _ => .system .missing p

def source (root : FileTree) : TextSource := .ofTexts root.texts root.faultAt

/-- The texts of the files in the directory at `p`, by path; a link to a directory in it is passed
over. -/
def textsIn (root : FileTree) (p : Text) : List (Text × Text) :=
  match root.find p with
  | .ok (.directory entries) =>
    (leavesOfAll p entries).filterMap fun q => (root.read q).toOption.map fun t => (q, t)
  | _ => []

/-- The entries with the file or directory at some segments put in place, the directories
above it made where they are missing. -/
def insertAt (t : FileTree) : List Text → List (Text × FileTree) → List (Text × FileTree)
  | [], entries => entries
  | [s], entries => put s t entries
  | s :: rest, entries =>
    let inner := match lookup? s entries with
      | some (.directory inner) => inner
      | _ => []
    put s (.directory (insertAt t rest inner)) entries

/-- The entries without what stands at some segments. -/
def eraseAt : List Text → List (Text × FileTree) → List (Text × FileTree)
  | [], entries => entries
  | [s], entries => entries.filter fun e => e.1 ≠ s
  | s :: rest, entries =>
    match lookup? s entries with
    | some (.directory inner) => put s (.directory (eraseAt rest inner)) entries
    | _ => entries

/-- The tree with `t` at the end of some names. -/
def insertIn (root : FileTree) (names : List Text) (t : FileTree) : FileTree :=
  match root with
  | directory entries => directory (insertAt t names entries)
  | other => other

/-- The names from the root to a directory, given by the segments of its path with the last one
first.  Where the tree ends, the segments that are left count as names. -/
def placeOf (root : FileTree) : List Text → List Text
  | [] => []
  | s :: above =>
    match root.locate ('/' :: Text.join ['/'] (s :: above).reverse) with
    | .ok way => way.names
    | .error _ => placeOf root above ++ [s]

/-- The tree with `t` at an absolute path. -/
def insert (root : FileTree) (p : Text) (t : FileTree) : FileTree :=
  match (Path.segments p).reverse with
  | [] => root
  | s :: above => root.insertIn (root.placeOf above ++ [s]) t

/-- The tree with a directory at an absolute path, unless there is one. -/
def insertDirectory (root : FileTree) (p : Text) : FileTree :=
  if root.isDirectory p then root else root.insert p (.directory [])

/-- The tree after a file has been written to an absolute path, after at most `hops` links at the
end of the path. -/
def writeFrom (root : FileTree) (content : Bytes) : (hops : Nat) → Text → FileTree
  | hops, p =>
    match root.locate (Path.directory p) with
    | .ok ((name, .directory entries) :: above) =>
      let names := Way.names ((name, .directory entries) :: above)
      match hops, lookup? (Path.name p) entries with
      | hops + 1, some (.link target) =>
        writeFrom root content hops (Path.join ('/' :: Text.join ['/'] names) target)
      | _, _ => root.insertIn (names ++ [Path.name p]) (.file content)
    | _ => root.insert p (.file content)

/-- The tree after a file has been written to an absolute path: a link leads the text to where it
points. -/
def write (root : FileTree) (p : Text) (content : Bytes) : FileTree :=
  root.writeFrom content maxHops p

/-- The tree without what stands at an absolute path; of a link only the link goes. -/
def erase (root : FileTree) (p : Text) : FileTree :=
  match root, root.locate (Path.directory p) with
  | directory entries, .ok way => directory (eraseAt (way.names ++ [Path.name p]) entries)
  | _, _ => root

end FileTree

end ContractAudit
