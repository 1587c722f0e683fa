import ContractAudit.Proofs.Scan

/-!
# Visible sources

A search passes over a directory with all that lies below it.  So what it finds are the files that
count as sources and are not ignored themselves, and below the root have only directories above
them that the search goes into.

    p ∈ ofEntries (filter rules ignored tree) (below l (base ++ above)) (join above) entries ↔
      a file with visible names stands below the entries, and p is its path
                                                            (mem_ofEntries_iff)

Names lead down to one file and paths tell names apart, so that no path is found twice
(`nodup_ofEntries`), and a sorted list of them increases.
-/

namespace ContractAudit

namespace FileTree

/-- Down the names from a node there stands a file. -/
inductive IsFileAt : FileTree → List Text → Prop
  | here (content : Bytes) : IsFileAt (file content) []
  | down {entries : List (Text × FileTree)} {name : Text} {t : FileTree} {names : List Text}
      (mem : (name, t) ∈ entries) (h : IsFileAt t names) :
      IsFileAt (directory entries) (name :: names)

mutual

/-- No link stands in a tree, and no directory of it has two entries of one name. -/
def Plain : FileTree → Prop
  | file _ => True
  | link _ => False
  | directory entries => (entries.map (·.1)).Nodup ∧ PlainAll entries

/-- Each of some entries is a plain tree. -/
def PlainAll : List (Text × FileTree) → Prop
  | [] => True
  | (_, t) :: rest => Plain t ∧ PlainAll rest

end

mutual

def decidablePlain : (t : FileTree) → Decidable t.Plain
  | file _ => .isTrue trivial
  | link _ => .isFalse id
  | directory entries => @instDecidableAnd _ _ inferInstance (decidablePlainAll entries)

def decidablePlainAll : (entries : List (Text × FileTree)) → Decidable (PlainAll entries)
  | [] => .isTrue trivial
  | (_, t) :: rest => @instDecidableAnd _ _ (decidablePlain t) (decidablePlainAll rest)

end

instance (t : FileTree) : Decidable t.Plain := decidablePlain t

theorem plainAll_iff {entries : List (Text × FileTree)} :
    PlainAll entries ↔ ∀ e ∈ entries, e.2.Plain := by
  induction entries with
  | nil => exact iff_of_true trivial (List.forall_mem_nil _)
  | cons e rest ih =>
    rw [List.forall_mem_cons, ← ih]
    exact Iff.rfl

theorem hereditary_plain : Hereditary Plain :=
  fun _ h e he => plainAll_iff.1 h.2 e he

theorem IsFileAt.isName {t : FileTree} {names : List Text} (h : t.IsFileAt names)
    (ht : t.Named) : ∀ s ∈ names, Path.IsName s := by
  induction h with
  | here => exact List.forall_mem_nil _
  | down mem _ ih =>
    obtain ⟨hname, hnamed⟩ := namedAll_iff.1 ht _ mem
    exact List.forall_mem_cons.2 ⟨hname, ih hnamed⟩

end FileTree

namespace Scan

open ContractAudit.Path (IsLead IsName below)
open FileTree (IsFileAt Plain PlainAll NamedAll)

/-! ## What is visible -/

/-- A search goes into the directory `name` of a directory below the root: it is not the one of
the version control, it holds no packages that are left out, and it is not ignored. -/
structure IsEntered (rules : ProjectRules) (ignored : Text → Bool) (above : List Text)
    (name : Text) : Prop where
  searched : name ≠ ".git"
  vendor : name ∈ rules.vendorDirectories → rules.includeVendor = true
  kept : ignored (Text.join ['/'] (above ++ [name]) ++ ['/']) = false

/-- A search goes down all the directories. -/
def AllEntered (rules : ProjectRules) (ignored : Text → Bool) (names : List Text) : Prop :=
  ∀ above name rest, names = above ++ name :: rest → IsEntered rules ignored above name

/-- A file, given by the names that lead to it from the root, counts as a source, is not ignored,
and stands in a directory that a search goes down to. -/
structure IsVisible (rules : ProjectRules) (ignored : Text → Bool) (names : List Text) : Prop where
  source : ∃ name ∈ names.getLast?, ∃ tail ∈ rules.endings, tail <:+ name
  kept : ignored (Text.join ['/'] names) = false
  entered : AllEntered rules ignored names.dropLast

/-- What a search asks that goes by these rules. -/
def filter (rules : ProjectRules) (ignored : Text → Bool) (tree : FileTree) : Filter where
  hides := hides rules
  isSource := rules.isSource
  ignores := ignored
  leadsToDirectory := tree.isDirectory

theorem relativeName_join {above : List Text} (h : ∀ s ∈ above, IsName s) (name : Text) :
    relativeName (Text.join ['/'] above) name = Text.join ['/'] (above ++ [name]) := by
  unfold relativeName
  cases above with
  | nil => simp [Text.join]
  | cons s rest =>
    have hne : (Text.join ['/'] (s :: rest)).isEmpty = false := by
      obtain ⟨c, s', rfl⟩ := List.exists_cons_of_ne_nil (h s List.mem_cons_self).1
      cases rest <;> simp [Text.join, List.intercalate_cons_cons]
    rw [hne, Path.join_append (List.cons_ne_nil s rest) (List.cons_ne_nil name [])]
    simp [Text.join]

section
variable {rules : ProjectRules} {ignored : Text → Bool}

theorem isSource_iff {name : Text} :
    rules.isSource name = true ↔ ∃ tail ∈ rules.endings, tail <:+ name := by
  unfold ProjectRules.isSource
  simp only [List.any_eq_true, Text.endsWith_iff]

theorem hides_eq_false_iff {name : Text} :
    hides rules name = false ↔
      name ≠ ".git" ∧ (name ∈ rules.vendorDirectories → rules.includeVendor = true) := by
  unfold hides versionControl
  cases rules.includeVendor <;> simp

theorem allEntered_concat {above : List Text} {name : Text} :
    AllEntered rules ignored (above ++ [name]) ↔
      AllEntered rules ignored above ∧ IsEntered rules ignored above name := by
  constructor
  · intro h
    refine ⟨fun dir s rest he => h dir s (rest ++ [name]) ?_, h above name [] rfl⟩
    rw [he, List.append_assoc, List.cons_append]
  · rintro ⟨habove, hname⟩ dir s rest he
    rcases List.eq_nil_or_concat rest with rfl | ⟨rest, last, rfl⟩
    · obtain ⟨rfl, hs⟩ := List.append_inj' he rfl
      obtain rfl := (List.cons.inj hs).1
      exact hname
    · rw [List.concat_eq_append, ← List.cons_append, ← List.append_assoc] at he
      exact habove dir s rest (List.append_inj' he rfl).1

theorem isVisible_concat {above : List Text} {name : Text} :
    IsVisible rules ignored (above ++ [name]) ↔
      (∃ tail ∈ rules.endings, tail <:+ name) ∧
        ignored (Text.join ['/'] (above ++ [name])) = false ∧ AllEntered rules ignored above := by
  constructor
  · rintro ⟨⟨last, hlast, hsource⟩, hkept, hentered⟩
    rw [List.getLast?_concat, Option.mem_some_iff] at hlast
    rw [List.dropLast_concat] at hentered
    subst hlast
    exact ⟨hsource, hkept, hentered⟩
  · rintro ⟨hsource, hkept, hentered⟩
    refine ⟨⟨name, by rw [List.getLast?_concat]; rfl, hsource⟩, hkept, ?_⟩
    rw [List.dropLast_concat]
    exact hentered

/-- Below a visible file's directories a search goes on. -/
theorem IsVisible.isEntered {above : List Text} {name : Text} {rest : List Text}
    (h : IsVisible rules ignored (above ++ name :: rest)) (hrest : rest ≠ []) :
    IsEntered rules ignored above name := by
  refine h.entered above name rest.dropLast ?_
  rw [List.dropLast_append_of_ne_nil (List.cons_ne_nil name rest),
    List.dropLast_cons_of_ne_nil hrest]

end

/-! ## What is found -/

section
variable {rules : ProjectRules} {ignored : Text → Bool} {tree : FileTree} {l : Text}
  {base : List Text}

/-- The path of an entry of a directory below the root. -/
theorem join_entry (hl : IsLead l) (hbase : ∀ s ∈ base, IsName s) {above : List Text}
    (habove : ∀ s ∈ above, IsName s) {name : Text} (hname : IsName name) :
    Path.join (below l (base ++ above)) name = below l (base ++ (above ++ [name])) := by
  rw [Path.join_below hl (List.forall_mem_append.2 ⟨hbase, habove⟩) hname, List.append_assoc]

/-- What a search asks of a directory. -/
theorem shut_eq_false_iff {above : List Text} (habove : ∀ s ∈ above, IsName s) (name : Text) :
    (hides rules name || ignored (relativeName (Text.join ['/'] above) name ++ ['/'])) = false ↔
      IsEntered rules ignored above name := by
  rw [relativeName_join habove, Bool.or_eq_false_iff]
  constructor
  · rintro ⟨hhides, hkept⟩
    obtain ⟨hsearched, hvendor⟩ := hides_eq_false_iff.1 hhides
    exact ⟨hsearched, hvendor, hkept⟩
  · rintro ⟨hsearched, hvendor, hkept⟩
    exact ⟨hides_eq_false_iff.2 ⟨hsearched, hvendor⟩, hkept⟩

/-- What a search asks of a file. -/
theorem shown_iff {above : List Text} (habove : ∀ s ∈ above, IsName s)
    (hentered : AllEntered rules ignored above) (name : Text) :
    (rules.isSource name && ! ignored (relativeName (Text.join ['/'] above) name)) = true ↔
      IsVisible rules ignored (above ++ [name]) := by
  rw [isVisible_concat, relativeName_join habove, Bool.and_eq_true, Bool.not_eq_true',
    ← isSource_iff]
  exact and_congr_right fun _ => (and_iff_left hentered).symm

section
variable (hl : IsLead l) (hbase : ∀ s ∈ base, IsName s) {above : List Text}
  (habove : ∀ s ∈ above, IsName s) {name : Text} (hname : IsName name)
include hl hbase habove hname

theorem ofEntry_of_isEntered (h : IsEntered rules ignored above name)
    (entries : List (Text × FileTree)) :
    ofEntry (filter rules ignored tree) (below l (base ++ above)) (Text.join ['/'] above) name
        (.directory entries) =
      ofEntries (filter rules ignored tree) (below l (base ++ (above ++ [name])))
        (Text.join ['/'] (above ++ [name])) entries := by
  have hopen := (shut_eq_false_iff habove name).2 h
  unfold ofEntry
  rw [join_entry hl hbase habove hname, relativeName_join habove]
  rw [relativeName_join habove] at hopen
  exact if_neg (Bool.eq_false_iff.1 hopen)

omit hl hbase hname in
theorem ofEntry_of_not_isEntered (h : ¬ IsEntered rules ignored above name) (path : Text)
    (entries : List (Text × FileTree)) :
    ofEntry (filter rules ignored tree) path (Text.join ['/'] above) name (.directory entries) =
      [] := by
  unfold ofEntry
  exact if_pos (by_contra fun hopen =>
    h ((shut_eq_false_iff habove name).1 (Bool.eq_false_iff.2 hopen)))

variable (hentered : AllEntered rules ignored above) (content : Bytes)
include hentered

theorem ofEntry_of_isVisible (h : IsVisible rules ignored (above ++ [name])) :
    ofEntry (filter rules ignored tree) (below l (base ++ above)) (Text.join ['/'] above) name
        (.file content) = [below l (base ++ (above ++ [name]))] := by
  unfold ofEntry
  rw [join_entry hl hbase habove hname]
  exact if_pos ((shown_iff habove hentered name).2 h)

omit hl hbase hname in
theorem ofEntry_of_not_isVisible (h : ¬ IsVisible rules ignored (above ++ [name])) (path : Text) :
    ofEntry (filter rules ignored tree) path (Text.join ['/'] above) name (.file content) = [] := by
  unfold ofEntry
  exact if_neg fun hshown => h ((shown_iff habove hentered name).1 hshown)

end

mutual

/-- **What is found in an entry**: by cases on the node, a search going on below a directory. -/
theorem mem_ofEntry_iff (hl : IsLead l) (hbase : ∀ s ∈ base, IsName s) {above : List Text}
    (habove : ∀ s ∈ above, IsName s) (hentered : AllEntered rules ignored above) {name p : Text}
    (hname : IsName name) (t : FileTree) (hplain : t.Plain) (hnamed : t.Named) :
    p ∈ ofEntry (filter rules ignored tree) (below l (base ++ above)) (Text.join ['/'] above)
        name t ↔
      ∃ names, t.IsFileAt names ∧ p = below l (base ++ (above ++ name :: names)) ∧
        IsVisible rules ignored (above ++ name :: names) := by
  cases t with
  | link target => exact hplain.elim
  | file content =>
    by_cases hvisible : IsVisible rules ignored (above ++ [name])
    · rw [ofEntry_of_isVisible hl hbase habove hname hentered content hvisible, List.mem_singleton]
      constructor
      · exact fun hp => ⟨[], .here content, hp, hvisible⟩
      · rintro ⟨names, hfile, hp, -⟩
        cases hfile
        exact hp
    · rw [ofEntry_of_not_isVisible habove hentered content hvisible]
      refine iff_of_false List.not_mem_nil ?_
      rintro ⟨names, hfile, -, hvisible'⟩
      cases hfile
      exact hvisible hvisible'
  | directory entries =>
    by_cases hopen : IsEntered rules ignored above name
    · have hall : ∀ s ∈ above ++ [name], IsName s :=
        List.forall_mem_append.2 ⟨habove, List.forall_mem_singleton.2 hname⟩
      rw [ofEntry_of_isEntered hl hbase habove hname hopen, mem_ofEntries_iff hl hbase hall
        (allEntered_concat.2 ⟨hentered, hopen⟩) entries hplain.2 hnamed]
      simp only [List.append_assoc, List.singleton_append]
      constructor
      · rintro ⟨s, t, names, hmem, hfile, hp, hvisible⟩
        exact ⟨s :: names, .down hmem hfile, hp, hvisible⟩
      · rintro ⟨names, hfile, hp, hvisible⟩
        cases hfile with
        | down hmem hfile => exact ⟨_, _, _, hmem, hfile, hp, hvisible⟩
    · rw [ofEntry_of_not_isEntered habove hopen]
      refine iff_of_false List.not_mem_nil ?_
      rintro ⟨names, hfile, -, hvisible⟩
      cases hfile with
      | down => exact hopen (hvisible.isEntered (List.cons_ne_nil _ _))

/-- **What is found in some entries.** -/
theorem mem_ofEntries_iff (hl : IsLead l) (hbase : ∀ s ∈ base, IsName s) {above : List Text}
    (habove : ∀ s ∈ above, IsName s) (hentered : AllEntered rules ignored above) {p : Text}
    (entries : List (Text × FileTree)) (hplain : PlainAll entries) (hnamed : NamedAll entries) :
    p ∈ ofEntries (filter rules ignored tree) (below l (base ++ above)) (Text.join ['/'] above)
        entries ↔
      ∃ name t names, (name, t) ∈ entries ∧ t.IsFileAt names ∧
        p = below l (base ++ (above ++ name :: names)) ∧
        IsVisible rules ignored (above ++ name :: names) := by
  cases entries with
  | nil =>
    refine iff_of_false List.not_mem_nil ?_
    rintro ⟨_, _, _, hmem, -⟩
    cases hmem
  | cons e rest =>
    obtain ⟨name, t⟩ := e
    obtain ⟨hname, ht, hrest⟩ := hnamed
    unfold ofEntries
    rw [List.mem_append, mem_ofEntry_iff hl hbase habove hentered hname t hplain.1 ht,
      mem_ofEntries_iff hl hbase habove hentered rest hplain.2 hrest]
    constructor
    · rintro (⟨names, h⟩ | ⟨s, u, names, hmem, h⟩)
      · exact ⟨name, t, names, List.mem_cons_self, h⟩
      · exact ⟨s, u, names, List.mem_cons_of_mem _ hmem, h⟩
    · rintro ⟨s, u, names, hmem, h⟩
      rcases List.mem_cons.1 hmem with he | hmem
      · cases he
        exact Or.inl ⟨names, h⟩
      · exact Or.inr ⟨s, u, names, hmem, h⟩

end

/-- Paths below the root tell their names apart. -/
theorem names_eq_of_path_eq (hl : IsLead l) (hbase : ∀ s ∈ base, IsName s) {names more : List Text}
    (hn : ∀ s ∈ names, IsName s) (hm : ∀ s ∈ more, IsName s)
    (h : below l (base ++ names) = below l (base ++ more)) : names = more := by
  have hsegments := congrArg Path.segments h
  rw [Path.segments_below hl (List.forall_mem_append.2 ⟨hbase, hn⟩),
    Path.segments_below hl (List.forall_mem_append.2 ⟨hbase, hm⟩)] at hsegments
  exact List.append_cancel_left hsegments

mutual

theorem nodup_ofEntry (hl : IsLead l) (hbase : ∀ s ∈ base, IsName s) {above : List Text}
    (habove : ∀ s ∈ above, IsName s) (hentered : AllEntered rules ignored above) {name : Text}
    (hname : IsName name) (t : FileTree) (hplain : t.Plain) (hnamed : t.Named) :
    (ofEntry (filter rules ignored tree) (below l (base ++ above)) (Text.join ['/'] above)
      name t).Nodup := by
  cases t with
  | link target => exact hplain.elim
  | file content =>
    unfold ofEntry
    split
    · exact List.nodup_singleton _
    · exact List.nodup_nil
  | directory entries =>
    by_cases hopen : IsEntered rules ignored above name
    · rw [ofEntry_of_isEntered hl hbase habove hname hopen]
      exact nodup_ofEntries hl hbase
        (List.forall_mem_append.2 ⟨habove, List.forall_mem_singleton.2 hname⟩)
        (allEntered_concat.2 ⟨hentered, hopen⟩) entries hplain.1 hplain.2 hnamed
    · rw [ofEntry_of_not_isEntered habove hopen]
      exact List.nodup_nil

/-- **No path is found twice**: the names of entries are apart, and so are the paths below them. -/
theorem nodup_ofEntries (hl : IsLead l) (hbase : ∀ s ∈ base, IsName s) {above : List Text}
    (habove : ∀ s ∈ above, IsName s) (hentered : AllEntered rules ignored above)
    (entries : List (Text × FileTree)) (hnodup : (entries.map (·.1)).Nodup)
    (hplain : PlainAll entries) (hnamed : NamedAll entries) :
    (ofEntries (filter rules ignored tree) (below l (base ++ above)) (Text.join ['/'] above)
      entries).Nodup := by
  cases entries with
  | nil => exact List.nodup_nil
  | cons e rest =>
    obtain ⟨name, t⟩ := e
    obtain ⟨hname, ht, hrest⟩ := hnamed
    obtain ⟨hnew, hnodup⟩ := List.nodup_cons.1 hnodup
    unfold ofEntries
    refine List.nodup_append.2 ⟨nodup_ofEntry hl hbase habove hentered hname t hplain.1 ht,
      nodup_ofEntries hl hbase habove hentered rest hnodup hplain.2 hrest, ?_⟩
    rintro p hp q hq rfl
    obtain ⟨names, hfile, hp, -⟩ :=
      (mem_ofEntry_iff hl hbase habove hentered hname t hplain.1 ht).1 hp
    obtain ⟨other, u, more, hmem, hfile', hq, -⟩ :=
      (mem_ofEntries_iff hl hbase habove hentered rest hplain.2 hrest).1 hq
    obtain ⟨hother, hu⟩ := FileTree.namedAll_iff.1 hrest _ hmem
    have hnames := names_eq_of_path_eq hl hbase
      (List.forall_mem_append.2 ⟨habove, List.forall_mem_cons.2 ⟨hname, hfile.isName ht⟩⟩)
      (List.forall_mem_append.2 ⟨habove, List.forall_mem_cons.2 ⟨hother, hfile'.isName hu⟩⟩)
      (hp.symm.trans hq)
    have hname' : name = other := (List.cons.inj (List.append_cancel_left hnames)).1
    exact hnew (List.mem_map.2 ⟨(other, u), hmem, hname'.symm⟩)

end

end

/-! ## Below a root -/

theorem foldl_join_below {l : Text} (hl : IsLead l) {base names : List Text}
    (hbase : ∀ s ∈ base, IsName s) (hn : ∀ s ∈ names, IsName s) :
    names.foldl Path.join (below l base) = below l (base ++ names) := by
  induction names generalizing base with
  | nil => rw [List.foldl_nil, List.append_nil]
  | cons s rest ih =>
    obtain ⟨hs, hrest⟩ := List.forall_mem_cons.1 hn
    rw [List.foldl_cons, Path.join_below hl hbase hs,
      ih (List.forall_mem_append.2 ⟨hbase, List.forall_mem_singleton.2 hs⟩) hrest,
      List.append_assoc, List.singleton_append]

section
variable {tree : FileTree} (hplain : tree.Plain) (hnamed : tree.Named) {l : Text}
  {base : List Text} (hl : IsLead l) (hbase : ∀ s ∈ base, IsName s) (rules : ProjectRules)
  (ignored : Text → Bool)
include hplain hnamed hl hbase

theorem mem_files_iff {p : Text} :
    p ∈ files rules ignored tree (below l base) ↔
      ∃ t names, tree.find (below l base) = .ok t ∧ t.IsFileAt names ∧ names ≠ [] ∧
        p = below l (base ++ names) ∧ IsVisible rules ignored names := by
  have hdown : ∀ entries, tree.find (below l base) = .ok (.directory entries) →
      (p ∈ ofEntries (filter rules ignored tree) (below l base) [] entries ↔
        ∃ name t names, (name, t) ∈ entries ∧ t.IsFileAt names ∧
          p = below l (base ++ name :: names) ∧ IsVisible rules ignored (name :: names)) := by
    intro entries hfind
    have hiff := @mem_ofEntries_iff rules ignored tree l base hl hbase [] (List.forall_mem_nil _)
      (fun above name rest he => absurd he.symm (by simp)) p entries
      (FileTree.of_find FileTree.hereditary_plain hplain hfind).2
      (FileTree.named_of_find hnamed hfind)
    rw [List.append_nil] at hiff
    exact hiff
  unfold files
  simp only []
  split
  · next entries hfind =>
    refine mem_sortBy.trans ((hdown entries hfind).trans ?_)
    constructor
    · rintro ⟨name, t, names, hmem, hfile, hp, hvisible⟩
      exact ⟨_, name :: names, hfind, .down hmem hfile, List.cons_ne_nil _ _, hp, hvisible⟩
    · rintro ⟨t, names, hfind', hfile, -, hp, hvisible⟩
      obtain rfl := Except.ok.inj (hfind.symm.trans hfind')
      cases hfile with
      | down hmem hfile => exact ⟨_, _, _, hmem, hfile, hp, hvisible⟩
  · next hother =>
    refine iff_of_false List.not_mem_nil ?_
    rintro ⟨t, names, hfind, hfile, hne, -⟩
    cases hfile with
    | here => exact hne rfl
    | down => exact hother _ hfind

theorem nodup_files : (files rules ignored tree (below l base)).Nodup := by
  unfold files
  simp only []
  split
  · next entries hfind =>
    have ht := FileTree.of_find FileTree.hereditary_plain hplain hfind
    have hnodup := @nodup_ofEntries rules ignored tree l base hl hbase [] (List.forall_mem_nil _)
      (fun above name rest he => absurd he.symm (by simp)) entries ht.1 ht.2
      (FileTree.named_of_find hnamed hfind)
    rw [List.append_nil] at hnodup
    exact (sortBy_perm _ _).nodup_iff.2 hnodup
  · exact List.nodup_nil

end

/-! ## Top theorem -/

/-- A visible source stands below the root down these names. -/
structure IsSourceAt (rules : ProjectRules) (ignored : Text → Bool) (tree : FileTree)
    (root : Text) (names : List Text) (p : Text) : Prop where
  file : ∃ t, tree.find root = .ok t ∧ t.IsFileAt names
  ne_nil : names ≠ []
  path : p = names.foldl Path.join root
  relative : ∀ cwd, Path.relative? cwd root p = some (Text.join ['/'] names)
  visible : IsVisible rules ignored names

/-- Some paths are those of the visible sources below a root, in increasing order. -/
structure IsListing (rules : ProjectRules) (ignored : Text → Bool) (tree : FileTree)
    (root : Text) (found : List Text) : Prop where
  increasing : found.Pairwise fun p q => Text.le p q = true ∧ p ≠ q
  absolute : ∀ p ∈ found, Path.isAbsolute p = true
  mem_iff : ∀ p, p ∈ found ↔ ∃ names, IsSourceAt rules ignored tree root names p

theorem isListing_files {tree : FileTree} (hplain : tree.Plain) (hnamed : tree.Named) {root : Text}
    (hroot : Path.IsCanonical root) (rules : ProjectRules) (ignored : Text → Bool) :
    IsListing rules ignored tree root (files rules ignored tree root) := by
  obtain ⟨l, base, hl, hbase, rfl⟩ := Path.isCanonical_iff.1 hroot
  have hmem := fun p => @mem_files_iff tree hplain hnamed l base hl hbase rules ignored p
  constructor
  case increasing =>
    refine List.Pairwise.and ?_ (nodup_files hplain hnamed hl hbase rules ignored)
    unfold files
    simp only []
    split
    · exact @pairwise_sortBy Text Text.le (fun _ _ _ => Text.le_trans) Text.le_total _
    · exact List.Pairwise.nil
  case absolute =>
    intro p hp
    obtain ⟨_, names, -, -, -, rfl, -⟩ := (hmem p).1 hp
    exact Path.isAbsolute_below hl _
  case mem_iff =>
    intro p
    rw [hmem]
    constructor
    · rintro ⟨t, names, hfind, hfile, hne, rfl, hvisible⟩
      have hn := hfile.isName (FileTree.named_of_find hnamed hfind)
      exact ⟨names, ⟨t, hfind, hfile⟩, hne, (foldl_join_below hl hbase hn).symm,
        fun cwd => Path.relative?_below hl hbase cwd hn hne, hvisible⟩
    · rintro ⟨names, ⟨t, hfind, hfile⟩, hne, hp, -, hvisible⟩
      have hn := hfile.isName (FileTree.named_of_find hnamed hfind)
      exact ⟨t, names, hfind, hfile, hne, hp.trans (foldl_join_below hl hbase hn), hvisible⟩

/-- The same rules, with or without the packages of others. -/
abbrev withVendor (rules : ProjectRules) (included : Bool) : ProjectRules :=
  { rules with includeVendor := included }

theorem IsEntered.withVendor {rules : ProjectRules} {ignored : Text → Bool} {above : List Text}
    {name : Text} (h : IsEntered (withVendor rules false) ignored above name) :
    IsEntered (withVendor rules true) ignored above name :=
  ⟨h.searched, fun _ => rfl, h.kept⟩

/-- What is visible only with the packages of others stands below a directory of packages. -/
theorem exists_vendor_of_not_isVisible {rules : ProjectRules} {ignored : Text → Bool}
    {names : List Text} (h : IsVisible (withVendor rules true) ignored names)
    (hnot : ¬ IsVisible (withVendor rules false) ignored names) :
    ∃ above name rest, names.dropLast = above ++ name :: rest ∧
      name ∈ rules.vendorDirectories := by
  by_contra hnone
  refine hnot ⟨h.source, h.kept, fun above name rest he => ?_⟩
  obtain ⟨hsearched, -, hkept⟩ := h.entered above name rest he
  exact ⟨hsearched, fun hmem => absurd ⟨above, name, rest, he, hmem⟩ hnone, hkept⟩

/-- **A search finds exactly the visible sources.**  In a plain tree, whatever is ignored, the
files that are found below a root are listed in increasing order; so it is with what the ignore
file of the root ignores.  To search the packages of others too only adds files, all of which stand
below a directory of packages. -/
theorem isListing_and_vendor_files (rules : ProjectRules) (ignored : Text → Bool)
    {tree : FileTree} (hplain : tree.Plain) (hnamed : tree.Named) {cwd : Text}
    (hcwd : Path.isAbsolute cwd = true) (place : Text) :
    let root := Path.absolute cwd place
    IsListing rules ignored tree root (files rules ignored tree root) ∧
    (∀ found, (run rules tree root).value = .ok found → ∃ ignoring,
      ignoredIn rules tree root = .ok ignoring ∧
        IsListing rules ignoring tree root found) ∧
    (∀ p ∈ files (withVendor rules false) ignored tree root,
      p ∈ files (withVendor rules true) ignored tree root) ∧
    ∀ p ∈ files (withVendor rules true) ignored tree root,
      p ∉ files (withVendor rules false) ignored tree root →
        ∃ above name rest, rest ≠ [] ∧ name ∈ rules.vendorDirectories ∧
          p = (above ++ name :: rest).foldl Path.join root := by
  intro root
  have hroot : Path.IsCanonical root := Path.isCanonical_absolute hcwd place
  have hwith := isListing_files hplain hnamed hroot (withVendor rules true) ignored
  have hwithout := isListing_files hplain hnamed hroot (withVendor rules false) ignored
  refine ⟨isListing_files hplain hnamed hroot rules ignored, ?_, ?_, ?_⟩
  · intro found hfound
    obtain ⟨ignoring, hignoring, rfl⟩ := eq_files_of_run hfound
    exact ⟨ignoring, hignoring, isListing_files hplain hnamed hroot rules _⟩
  · intro p hp
    obtain ⟨names, hfile, hne, hpath, hrelative, hvisible⟩ := (hwithout.mem_iff p).1 hp
    refine (hwith.mem_iff p).2 ⟨names, hfile, hne, hpath, hrelative, hvisible.source,
      hvisible.kept, fun above name rest he => ?_⟩
    exact (hvisible.entered above name rest he).withVendor
  · intro p hp hnot
    obtain ⟨names, hfile, hne, hpath, hrelative, hvisible⟩ := (hwith.mem_iff p).1 hp
    obtain ⟨above, name, rest, he, hmem⟩ := exists_vendor_of_not_isVisible hvisible fun hv =>
      hnot ((hwithout.mem_iff p).2 ⟨names, hfile, hne, hpath, hrelative, hv⟩)
    refine ⟨above, name, rest ++ [names.getLast hne], by simp, hmem, ?_⟩
    rw [hpath, ← List.cons_append, ← List.append_assoc, ← he, List.dropLast_concat_getLast]

/-- Directories of every kind that is passed over, a directory named like a source, an ignored file,
and an empty directory. -/
theorem isListing_and_vendor_files_mixed :
    let rules : ProjectRules := {}
    let ignored : Text → Bool := fun p => (["build/", "src/B.sol"] : List Text).contains p
    let code : FileTree := .file []
    let tree : FileTree := .directory [("ws", .directory [
      ("src.sol", .directory [("C.sol", code), ("none", .directory [])]),
      ("src", .directory [("D.sol", code), ("B.sol", code), ("notes.md", code),
        ("node_modules", .directory [("@x", .directory [("N.sol", code)])])]),
      (".git", .directory [("H.sol", code)]), ("build", .directory [("O.sol", code)]),
      ("A.sol", code)])]
    let found : List Text := ["/ws/A.sol", "/ws/src.sol/C.sol", "/ws/src/D.sol"]
    tree.Plain ∧ tree.Named ∧ IsListing rules ignored tree "/ws" found ∧
      files (withVendor rules true) ignored tree "/ws" =
        found ++ ["/ws/src/node_modules/@x/N.sol".toList] ∧
      ∃ above name rest, rest ≠ [] ∧ name ∈ rules.vendorDirectories ∧
        ("/ws/src/node_modules/@x/N.sol" : Text) =
          (above ++ name :: rest).foldl Path.join "/ws" := by
  intro rules ignored code tree found
  have hplain : tree.Plain := by decide +kernel
  have hnamed : tree.Named := by decide +kernel
  have hroot : Path.absolute "/" "ws/./" = "/ws" := by decide +kernel
  have hfiles : files rules ignored tree "/ws" = found := by decide +kernel
  have hvendor : files (withVendor rules true) ignored tree "/ws" =
    found ++ ["/ws/src/node_modules/@x/N.sol".toList] := by decide +kernel
  have hcwd : Path.isAbsolute "/" = true := by decide
  have hall := isListing_and_vendor_files rules ignored hplain hnamed hcwd "ws/./"
  simp only [hroot] at hall
  obtain ⟨hlisting, -, -, hbelow⟩ := hall
  rw [hfiles] at hlisting
  refine ⟨hplain, hnamed, hlisting, hvendor, hbelow _ ?_ ?_⟩
  · rw [hvendor]
    exact List.mem_append_right _ (List.mem_singleton_self _)
  · rw [show files (withVendor rules false) ignored tree "/ws" = found from hfiles]
    decide +kernel

end Scan

end ContractAudit
