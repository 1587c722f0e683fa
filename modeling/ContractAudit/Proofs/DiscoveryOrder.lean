import Mathlib.Data.List.Forall2
import ContractAudit.Proofs.Partition

/-!
# Groups do not depend on the order of discovery

Files may be discovered in any order, and more than once.  Their graph holds the same imports, but
its nodes, and the files that import a file, stand in another order, and the searches go other
ways.  What a partition of a graph is leaves no choice, though: a group begins with the least of
the files that are joined with it, the groups stand in the order of their first files, and the
first file tells which others are in the group.

    g.IsPartition groups → g'.IsPartition groups' → the first files are the same
                                                            (map_firstFile)
    files and others have the same members → their graphs are alike, and so are the groups
                                                            (alike_build)
-/

namespace ContractAudit.ImportGraph

/-! ## Graphs that are alike -/

/-- Two graphs have the same files and imports.  The order of the files, and of those that import
a file, may differ. -/
structure Alike (g g' : ImportGraph) : Prop where
  nodes : g.nodes.Perm g'.nodes
  dependencies : ∀ p, g.dependencies p = g'.dependencies p
  dependents : ∀ p, (g.dependents p).Perm (g'.dependents p)

/-- Well-formed graphs with the same members in their first indices are alike. -/
theorem WellFormed.alike {g g' : ImportGraph} (hg : g.WellFormed) (hg' : g'.WellFormed)
    (hnodes : ∀ p, p ∈ g.nodes ↔ p ∈ g'.nodes)
    (hdeps : ∀ p, g.dependencies p = g'.dependencies p) : Alike g g' where
  nodes := (List.perm_ext_iff_of_nodup hg.nodup_nodes hg'.nodup_nodes).2 hnodes
  dependencies := hdeps
  dependents b := by
    refine (List.perm_ext_iff_of_nodup (hg.nodup_dependents b) (hg'.nodup_dependents b)).2 ?_
    intro a
    rw [← hg.transpose, ← hg'.transpose, hdeps]

theorem Alike.joined_eq {g g' : ImportGraph} (h : Alike g g') : g.Joined = g'.Joined := by
  have hadjacent : g.Adjacent = g'.Adjacent := by
    funext a b
    unfold Adjacent
    rw [h.dependencies, h.dependencies]
  unfold Joined
  rw [hadjacent]

/-! ## The first files of groups -/

/-- The first file of a group. -/
def firstFile (group : List Text) : Text := group.headD []

theorem head?_eq_firstFile {group : List Text} (h : group ≠ []) :
    group.head? = some (firstFile group) := by
  obtain ⟨p, rest, rfl⟩ := List.exists_cons_of_ne_nil h
  rfl

/-- The file is the least of those that are joined with it. -/
def IsLeast (g : ImportGraph) (p : Text) : Prop :=
  p ∈ g.nodes ∧ ∀ q ∈ g.nodes, g.Joined p q → Text.le p q = true

theorem before_antisymm {p q : Text} (hpq : Before p q) (hqp : Before q p) : p = q :=
  Text.le_antisymm hpq.1 hqp.1

section
variable {g : ImportGraph} {groups : List (List Text)} (h : g.IsPartition groups)
include h

theorem IsPartition.firstFile_mem {group : List Text} (hg : group ∈ groups) :
    firstFile group ∈ group :=
  List.mem_of_mem_head? (head?_eq_firstFile (h.ne_nil group hg))

theorem IsPartition.mem_nodes {group : List Text} (hg : group ∈ groups) {p : Text}
    (hp : p ∈ group) : p ∈ g.nodes :=
  (h.mem_flatten p).1 (List.mem_flatten.2 ⟨group, hg, hp⟩)

/-- The first file of a group tells which files are in it. -/
theorem IsPartition.mem_iff {group : List Text} (hg : group ∈ groups) (q : Text) :
    q ∈ group ↔ q ∈ g.nodes ∧ g.Joined (firstFile group) q := by
  have hfirst := h.firstFile_mem hg
  have hnode := h.mem_nodes hg hfirst
  constructor
  · intro hq
    have hqnode := h.mem_nodes hg hq
    exact ⟨hqnode, (h.joined_iff _ hnode q hqnode).1 ⟨group, hg, hfirst, hq⟩⟩
  · rintro ⟨hqnode, hj⟩
    exact (h.mem_iff_of_joined hg hnode hqnode hj).1 hfirst

theorem IsPartition.nodup_group {group : List Text} (hg : group ∈ groups) : group.Nodup :=
  (List.nodup_flatten.1 h.nodup).1 group hg

/-- **The first files of the groups** are the files that are least. -/
theorem IsPartition.mem_firstFiles (p : Text) : p ∈ groups.map firstFile ↔ g.IsLeast p := by
  constructor
  · intro hp
    obtain ⟨group, hg, rfl⟩ := List.mem_map.1 hp
    refine ⟨h.mem_nodes hg (h.firstFile_mem hg), fun q hq hj => ?_⟩
    exact h.first_least group hg _ (head?_eq_firstFile (h.ne_nil group hg)) q
      ((h.mem_iff hg q).2 ⟨hq, hj⟩)
  · rintro ⟨hp, hleast⟩
    obtain ⟨group, hg, hpg⟩ := List.mem_flatten.1 ((h.mem_flatten p).2 hp)
    have hfirst := h.firstFile_mem hg
    have hle := h.first_least group hg _ (head?_eq_firstFile (h.ne_nil group hg)) p hpg
    have hge := hleast _ (h.mem_nodes hg hfirst) ((h.mem_iff hg p).1 hpg).2.symm
    exact List.mem_map.2 ⟨group, hg, Text.le_antisymm hle hge⟩

theorem IsPartition.pairwise_firstFiles : (groups.map firstFile).Pairwise Before := by
  refine List.pairwise_map.2 (h.increasing.imp_of_mem fun {a b} ha hb hab => ?_)
  exact hab _ _ (head?_eq_firstFile (h.ne_nil a ha)) (head?_eq_firstFile (h.ne_nil b hb))

theorem IsPartition.nodup_firstFiles : (groups.map firstFile).Nodup :=
  h.pairwise_firstFiles.imp And.right

end

/-! ## Groups of graphs that are alike -/

section
variable {g g' : ImportGraph} {groups groups' : List (List Text)} (h : g.IsPartition groups)
  (h' : g'.IsPartition groups') (halike : Alike g g')
include h h' halike

/-- The groups begin with the same files, in the same order. -/
theorem map_firstFile : groups.map firstFile = groups'.map firstFile := by
  have hmem : ∀ p, p ∈ groups.map firstFile ↔ p ∈ groups'.map firstFile := by
    intro p
    rw [h.mem_firstFiles, h'.mem_firstFiles]
    unfold IsLeast
    simp only [halike.nodes.mem_iff, halike.joined_eq]
  have hperm := (List.perm_ext_iff_of_nodup h.nodup_firstFiles h'.nodup_firstFiles).2 hmem
  exact hperm.eq_of_pairwise (fun _ _ _ _ => before_antisymm) h.pairwise_firstFiles
    h'.pairwise_firstFiles

/-- Groups that begin with the same file have the same members. -/
theorem perm_of_firstFile {a b : List Text} (ha : a ∈ groups) (hb : b ∈ groups')
    (hfirst : firstFile a = firstFile b) : a.Perm b := by
  refine (List.perm_ext_iff_of_nodup (h.nodup_group ha) (h'.nodup_group hb)).2 fun q => ?_
  rw [h.mem_iff ha, h'.mem_iff hb, hfirst, halike.nodes.mem_iff, halike.joined_eq]

/-- **Partitions of graphs that are alike** have the same groups in the same places. -/
theorem forall₂_perm : List.Forall₂ List.Perm groups groups' := by
  have hmap := map_firstFile h h' halike
  refine List.forall₂_iff_get.2 ⟨?_, fun i hi hi' => ?_⟩
  · rw [← List.length_map firstFile, hmap, List.length_map]
  · refine perm_of_firstFile h h' halike (List.get_mem ..) (List.get_mem ..) ?_
    have hget : (groups.map firstFile)[i]? = (groups'.map firstFile)[i]? := by rw [hmap]
    rw [List.getElem?_map, List.getElem?_map, List.getElem?_eq_getElem hi,
      List.getElem?_eq_getElem hi'] at hget
    exact Option.some.inj hget

end

/-! ## Top theorem -/

/-- **The order of discovery does not count.**  Where the same files are given in another order,
and some of them more than once, the build goes through or not as before; if it does, the graphs
are alike, and so are the groups at each place. -/
theorem alike_build {files others : List Text} (h : ∀ p, p ∈ files ↔ p ∈ others)
    (read : Text → Except ReadFault Text) (resolve : Text → Text → Logged (List Text)) :
    let built := (build files read resolve).value
    let rebuilt := (build others read resolve).value
    (built.2 = none ↔ rebuilt.2 = none) ∧
    (built.2 = none → Alike built.1 rebuilt.1 ∧
      List.Forall₂ List.Perm built.1.partition.value rebuilt.1.partition.value) := by
  intro built rebuilt
  have hiff : built.2 = none ↔ rebuilt.2 = none := by
    rw [build_eq_none_iff, build_eq_none_iff]
    simp only [h]
  refine ⟨hiff, fun hbuilt => ?_⟩
  have hvalue : (build files read resolve).value = (built.1, none) := Prod.ext rfl hbuilt
  have hvalue' : (build others read resolve).value = (rebuilt.1, none) :=
    Prod.ext rfl (hiff.1 hbuilt)
  obtain ⟨hg, hnodes, -⟩ := build_spec hvalue
  obtain ⟨hg', hnodes', -⟩ := build_spec hvalue'
  have halike : Alike built.1 rebuilt.1 := by
    refine hg.alike hg' (fun p => ?_) fun p => ?_
    · rw [hnodes, hnodes', h]
    · rw [(lists_build hvalue).2, (lists_build hvalue').2, importsIn_congr h]
      simp only [h]
  exact ⟨halike, forall₂_perm (isPartition_groups hg) (isPartition_groups hg') halike⟩

/-- Two files import a third one, and one cannot be read.  In another order, with a repetition, the
importers change places in their group. -/
theorem alike_build_reversed :
    let read : Text → Except ReadFault Text := fun p =>
      if p = "d" then .error (.system .missing p) else .ok p
    let resolve : Text → Text → Logged (List Text) := fun t _ =>
      pure (if t = "a" then ["x"] else ["a", "x"])
    let files : List Text := ["a", "b", "c", "d"]
    let others : List Text := ["d", "c", "b", "c", "a"]
    let built := (build files read resolve).value
    let rebuilt := (build others read resolve).value
    let groups : List (List Text) := [["a", "c", "b"], ["d"]]
    let groups' : List (List Text) := [["a", "b", "c"], ["d"]]
    (∀ p, p ∈ files ↔ p ∈ others) ∧ built.2 = none ∧
      built.1.partition.value = groups ∧ rebuilt.1.partition.value = groups' ∧
      Alike built.1 rebuilt.1 ∧ List.Forall₂ List.Perm groups groups' := by
  intro read resolve files others built rebuilt groups groups'
  have hsame : ∀ p, p ∈ files ↔ p ∈ others := by
    intro p
    simp only [files, others, List.mem_cons, List.not_mem_nil, or_false]
    tauto
  have hbuilt : built.2 = none := by decide +kernel
  have hgroups : built.1.partition.value = groups := by decide +kernel
  have hgroups' : rebuilt.1.partition.value = groups' := by decide +kernel
  obtain ⟨halike, hforall⟩ := (alike_build hsame read resolve).2 hbuilt
  exact ⟨hsame, hbuilt, hgroups, hgroups', halike, hgroups ▸ hgroups' ▸ hforall⟩

end ContractAudit.ImportGraph
