import ContractAudit.Proofs.FileTree
import ContractAudit.Scan

/-!
# The source files of a project

A search goes down from the root and puts one name after the other behind its path, so every file
it finds is the path of the root with some names below it.  Such paths are canonical, and each
has a relative path of its own.

    p is found below `below l names` → p = below l (names ++ more)   (isBelow_of_mem_files)
    p and q have one relative path → p = q                           (relative?_injective)
-/

namespace ContractAudit.Scan

open ContractAudit.Path (IsLead IsName below)

/-- The path lies below the directory with these names. -/
def IsBelow (l : Text) (names : List Text) (p : Text) : Prop :=
  ∃ more, more ≠ [] ∧ (∀ s ∈ more, IsName s) ∧ p = below l (names ++ more)

theorem IsBelow.of_concat {l p s : Text} {names : List Text} (hs : IsName s)
    (h : IsBelow l (names ++ [s]) p) : IsBelow l names p := by
  obtain ⟨more, -, hmore, rfl⟩ := h
  refine ⟨s :: more, List.cons_ne_nil s more, fun t ht => ?_, ?_⟩
  · rcases List.mem_cons.1 ht with rfl | ht
    · exact hs
    · exact hmore t ht
  · rw [List.append_assoc, List.singleton_append]

section
variable (f : Filter) {l p : Text}

theorem isBelow_join (hl : IsLead l) {names : List Text} (hn : ∀ s ∈ names, IsName s)
    {name : Text} (hname : IsName name) : IsBelow l names (Path.join (below l names) name) := by
  rw [Path.join_below hl hn hname]
  exact ⟨[name], List.cons_ne_nil name [], by simpa using hname, rfl⟩

mutual

theorem isBelow_ofEntry (hl : IsLead l) {names : List Text} (hn : ∀ s ∈ names, IsName s)
    {name relative : Text} (hname : IsName name) (t : FileTree) (ht : t.Named)
    (h : p ∈ ofEntry f (below l names) relative name t) : IsBelow l names p := by
  cases t with
  | file content =>
    unfold ofEntry at h
    split at h
    · obtain rfl := List.mem_singleton.1 h
      exact isBelow_join hl hn hname
    · cases h
  | link target =>
    unfold ofEntry at h
    split at h
    · obtain rfl := List.mem_singleton.1 h
      exact isBelow_join hl hn hname
    · cases h
  | directory entries =>
    unfold ofEntry at h
    split at h
    · cases h
    · rw [Path.join_below hl hn hname] at h
      refine IsBelow.of_concat hname (isBelow_ofEntries hl ?_ entries ht h)
      intro s hs
      rcases List.mem_append.1 hs with hs | hs
      · exact hn s hs
      · exact List.mem_singleton.1 hs ▸ hname

theorem isBelow_ofEntries (hl : IsLead l) {names : List Text} (hn : ∀ s ∈ names, IsName s)
    {relative : Text} (entries : List (Text × FileTree)) (hall : FileTree.NamedAll entries)
    (h : p ∈ ofEntries f (below l names) relative entries) : IsBelow l names p := by
  cases entries with
  | nil => cases h
  | cons e rest =>
    obtain ⟨name, t⟩ := e
    obtain ⟨hname, ht, hrest⟩ := hall
    unfold ofEntries at h
    rcases List.mem_append.1 h with h | h
    · exact isBelow_ofEntry hl hn hname t ht h
    · exact isBelow_ofEntries hl hn rest hrest h

end

end

/-! ## Below a root -/

theorem isBelow_of_mem_files {rules : ProjectRules} {ignored : Text → Bool} {tree : FileTree}
    {l p : Text} {names : List Text} (hl : IsLead l) (hn : ∀ s ∈ names, IsName s)
    (ht : tree.Named) (h : p ∈ files rules ignored tree (below l names)) : IsBelow l names p := by
  unfold files at h
  simp only [] at h
  split at h
  · next entries hfind =>
    exact isBelow_ofEntries _ hl hn entries (FileTree.named_of_find ht hfind) (mem_sortBy.1 h)
  · cases h

theorem eq_files_of_run {rules : ProjectRules} {tree : FileTree} {root : Text}
    {found : List Text} (h : (run rules tree root).value = .ok found) :
    ∃ ignored, ignoredIn rules tree root = .ok ignored ∧
      found = files rules ignored tree root := by
  unfold run at h
  split at h
  · cases h
  · next ignored hi => exact ⟨ignored, hi, (Except.ok.inj h).symm⟩

section
variable {rules : ProjectRules} {tree : FileTree} {root : Text} {found : List Text}
  (hroot : Path.IsCanonical root) (ht : tree.Named) (h : (run rules tree root).value = .ok found)
include hroot ht h

theorem isBelow_of_run : ∃ l names, IsLead l ∧ (∀ s ∈ names, IsName s) ∧ root = below l names ∧
    ∀ p ∈ found, IsBelow l names p := by
  obtain ⟨l, names, hl, hn, rfl⟩ := Path.isCanonical_iff.1 hroot
  obtain ⟨ignored, -, rfl⟩ := eq_files_of_run h
  exact ⟨l, names, hl, hn, rfl, fun p hp => isBelow_of_mem_files hl hn ht hp⟩

theorem isCanonical_of_run {p : Text} (hp : p ∈ found) : Path.IsCanonical p := by
  obtain ⟨l, names, hl, hn, -, hbelow⟩ := isBelow_of_run hroot ht h
  obtain ⟨more, -, hmore, rfl⟩ := hbelow p hp
  refine Path.isCanonical_below hl fun s hs => ?_
  exact (List.mem_append.1 hs).elim (hn s) (hmore s)

/-- **No two files of a project have one relative path.** -/
theorem relative?_injective (cwd : Text) {p q : Text} (hp : p ∈ found) (hq : q ∈ found)
    (he : Path.relative? cwd root p = Path.relative? cwd root q) : p = q := by
  obtain ⟨l, names, hl, hn, rfl, hbelow⟩ := isBelow_of_run hroot ht h
  obtain ⟨more, hne, hmore, rfl⟩ := hbelow p hp
  obtain ⟨other, hne', hother, rfl⟩ := hbelow q hq
  rw [Path.relative?_below hl hn cwd hmore hne, Path.relative?_below hl hn cwd hother hne'] at he
  rw [Path.join_injective hmore hother (Option.some.inj he)]

end

end ContractAudit.Scan
