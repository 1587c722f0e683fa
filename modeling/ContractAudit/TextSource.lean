import ContractAudit.Path
import ContractAudit.Table
import ContractAudit.Text.Bytes

/-! Sources of texts, addressed by path.

A source answers every path with a text or a fault, and lists its finitely many readable paths
in `support`.  Buffers are texts that are open in an editor, and `Buffers.read` lays them over what
is read otherwise: what is looked up there is the absolute form of the path, so that all spellings
of a path mean one text.

A source file keeps the text that it had when it was loaded.  A bundle holds texts by their path
relative to the root; a text that is added under a path already there takes its place. -/

namespace ContractAudit

namespace Path

/-- The path is absolute and has no shorter spelling. -/
def IsCanonical (p : Text) : Prop := isAbsolute p = true ∧ normalize p = p

instance (p : Text) : Decidable (IsCanonical p) :=
  inferInstanceAs (Decidable (_ ∧ _))

theorem absolute_of_isCanonical {p : Text} (h : IsCanonical p) (cwd : Text) :
    absolute cwd p = p := by
  simp [absolute, h.1, h.2]

end Path

/-- What a system says when it does not open a file. -/
inductive SystemFault
  | missing | denied | present | notDirectory | isDirectory | nameTooLong | linkLoop
  deriving DecidableEq, Repr

namespace SystemFault

/-- The number of a fault. -/
def number : SystemFault → Nat
  | missing => 2
  | denied => 13
  | present => 17
  | notDirectory => 20
  | isDirectory => 21
  | nameTooLong => 36
  | linkLoop => 40

def words : SystemFault → Text
  | missing => "No such file or directory"
  | denied => "Permission denied"
  | present => "File exists"
  | notDirectory => "Not a directory"
  | isDirectory => "Is a directory"
  | nameTooLong => "File name too long"
  | linkLoop => "Too many levels of symbolic links"

end SystemFault

/-- Why no text is read from a path. -/
inductive ReadFault
  | system (f : SystemFault) (path : Text)
  | encoding (f : Bytes.Fault)
  | emptyPath
  | nulInPath
  | other (message : Text)
  deriving DecidableEq

namespace ReadFault

def message : ReadFault → Text
  | system f path =>
    "[Errno " ++ Decimal.digits f.number ++ "] " ++ f.words ++ ": " ++ Text.quoted path
  | encoding f => f.message
  | emptyPath => "no path specified"
  | nulInPath => "embedded null byte"
  | other message => message

/-- The fault is one of a file or its contents; an analysis goes on without the file. -/
def isExpected : ReadFault → Bool
  | system .. => true
  | encoding _ => true
  | _ => false

end ReadFault

namespace Buffers

/-- The buffers after the text under a path has become `t`. -/
def update (cwd p t : Text) (buffers : List (Text × Text)) : List (Text × Text) :=
  put (Path.absolute cwd p) t buffers

/-- The buffers after some texts have been written one after the other. -/
def ofPairs (cwd : Text) (pairs : List (Text × Text)) : List (Text × Text) :=
  pairs.foldl (fun buffers p => update cwd p.1 p.2 buffers) []

/-- What is read with buffers, by absolute path, in front of a fallback. -/
def read {ε : Type} (cwd : Text) (buffers : List (Text × Text)) (fallback : Text → Except ε Text)
    (p : Text) : Except ε Text :=
  match lookup? (Path.absolute cwd p) buffers with
  | some t => .ok t
  | none => fallback (Path.absolute cwd p)

end Buffers

/-- A source of texts. -/
structure TextSource where
  read : Text → Except ReadFault Text
  /-- The canonical paths that can be read, and perhaps others. -/
  support : List Text
  mem_support : ∀ {p t}, read p = .ok t → Path.IsCanonical p → p ∈ support

namespace TextSource

/-- The source that holds these texts, with a fault for every other path. -/
def ofTexts (texts : List (Text × Text)) (fault : Text → ReadFault) : TextSource where
  read p :=
    match lookup? p texts with
    | some t => .ok t
    | none => .error (fault p)
  support := texts.map (·.1)
  mem_support {p t} h _ := by
    split at h
    · rename_i found
      exact mem_of_lookup? found
    · cases h

/-- The source with other texts, by absolute path, in front of it. -/
def withBuffers (cwd : Text) (buffers : List (Text × Text)) (source : TextSource) :
    TextSource where
  read := Buffers.read cwd buffers source.read
  support := buffers.map (·.1) ++ source.support
  mem_support {p t} h canonical := by
    unfold Buffers.read at h
    simp only [Path.absolute_of_isCanonical canonical] at h
    split at h
    · rename_i found
      exact List.mem_append_left _ (mem_of_lookup? found)
    · exact List.mem_append_right _ (source.mem_support h canonical)

end TextSource

/-- A source file as it was when it was loaded. -/
structure SourceFile where
  path : Text
  relative : Text
  text : Text
  deriving DecidableEq

/-- The texts of one request, by relative path. -/
abbrev Bundle := List (Text × Text)

namespace SourceFile

def load (cwd root : Text) (source : TextSource) (path : Text) : Except ReadFault SourceFile :=
  match Path.relative? cwd root path with
  | none => .error .emptyPath
  | some relative => (source.read path).map fun text => ⟨path, relative, text⟩

end SourceFile

namespace Bundle

def add (b : Bundle) (f : SourceFile) : Bundle := put f.relative f.text b

def ofFiles (files : List SourceFile) : Bundle := files.foldl add []

def names (b : Bundle) : List Text := b.map (·.1)

/-- The number of bytes of all texts of a bundle. -/
def size (b : Bundle) : Nat := b.foldr (fun f n => Bytes.utf8Size f.2 + n) 0

end Bundle

end ContractAudit
