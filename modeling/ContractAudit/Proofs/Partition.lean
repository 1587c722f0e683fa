import Mathlib.Data.List.Pairwise
import Mathlib.Logic.Relation
import ContractAudit.ImportGraph.Partition
import ContractAudit.Proofs.ImportGraph

/-!
# The groups of a graph are its connected parts

The search marks a file when it is put on the stack, and one set of marks serves the searches
from all starts.  `Search.Inv` is what holds between two steps of a search from `p`, `base` being
the files marked before it: the files found and those on the stack are new, joined with `p` and
all that is marked beside `base`, and the neighbours of a file found are marked.  A graph has
only so many files, so the stack is empty in time (`stack_search`), and then the files found are
all that is joined with `p` (`mem_component`).

    Reachable g → g.IsPartition g.partition.value           (isPartition_partition)
-/

namespace ContractAudit.ImportGraph

/-! ## Connection -/

/-- One of two files imports the other. -/
def Adjacent (g : ImportGraph) (a b : Text) : Prop :=
  b ∈ g.dependencies a ∨ a ∈ g.dependencies b

/-- A chain of imports, each followed in either direction, leads from one file to another. -/
def Joined (g : ImportGraph) : Text → Text → Prop := Relation.ReflTransGen g.Adjacent

theorem Adjacent.symm {g : ImportGraph} {a b : Text} (h : g.Adjacent a b) : g.Adjacent b a :=
  Or.symm h

theorem Joined.symm {g : ImportGraph} {a b : Text} (h : g.Joined a b) : g.Joined b a := by
  induction h with
  | refl => exact .refl
  | tail _ hbc ih => exact .head hbc.symm ih

theorem mem_neighbours {g : ImportGraph} (hg : g.WellFormed) (a b : Text) :
    b ∈ g.neighbours a ↔ g.Adjacent a b := by
  unfold neighbours Adjacent
  rw [List.mem_append, hg.transpose (a := b)]

theorem mem_nodes_of_adjacent {g : ImportGraph} (hg : g.WellFormed) {a b : Text}
    (h : g.Adjacent a b) : b ∈ g.nodes := by
  rcases h with h | h
  · exact (hg.mem_nodes h).2
  · exact (hg.mem_nodes h).1

/-! ## One search -/

theorem foldl_reach (ps : List Text) (s : Search) :
    ∃ new : List Text, new.Nodup ∧ (∀ x ∈ new, x ∈ ps ∧ x ∉ s.visited) ∧
      (∀ x ∈ ps, x ∈ new ∨ x ∈ s.visited) ∧
      ps.foldl Search.reach s = ⟨new ++ s.visited, new ++ s.stack, s.found⟩ := by
  induction ps generalizing s with
  | nil => exact ⟨[], List.nodup_nil, by simp, by simp, rfl⟩
  | cons p ps ih =>
    rw [List.foldl_cons]
    by_cases hp : p ∈ s.visited
    · have hr : s.reach p = s := by simp [Search.reach, hp]
      obtain ⟨new, hnd, hnew, hall, he⟩ := ih s
      rw [hr]
      refine ⟨new, hnd, fun x hx => ⟨List.mem_cons_of_mem p (hnew x hx).1, (hnew x hx).2⟩, ?_, he⟩
      intro x hx
      rcases List.mem_cons.1 hx with rfl | hx
      · exact Or.inr hp
      · exact hall x hx
    · have hr : s.reach p = ⟨p :: s.visited, p :: s.stack, s.found⟩ := by simp [Search.reach, hp]
      obtain ⟨new, hnd, hnew, hall, he⟩ := ih (s.reach p)
      rw [hr] at hnew hall he
      rw [hr, he]
      refine ⟨new ++ [p], ?_, ?_, ?_, by simp⟩
      · refine List.nodup_append_comm.1 (List.nodup_cons.2 ⟨fun h => ?_, hnd⟩)
        exact (hnew p h).2 List.mem_cons_self
      · intro x hx
        rcases List.mem_append.1 hx with hx | hx
        · exact ⟨List.mem_cons_of_mem p (hnew x hx).1,
            fun h => (hnew x hx).2 (List.mem_cons_of_mem p h)⟩
        · obtain rfl := List.mem_singleton.1 hx
          exact ⟨List.mem_cons_self, hp⟩
      · intro x hx
        rcases List.mem_cons.1 hx with rfl | hx
        · exact Or.inl (by simp)
        · rcases hall x hx with h | h
          · exact Or.inl (List.mem_append_left _ h)
          · rcases List.mem_cons.1 h with rfl | h
            · exact Or.inl (by simp)
            · exact Or.inr h

/-- What holds between two steps of a search from `p`, the files of `base` having been marked
before it. -/
structure Search.Inv (g : ImportGraph) (base : List Text) (p : Text) (s : Search) : Prop where
  first : (s.found.reverse ++ s.stack).head? = some p
  nodup : (s.found ++ s.stack).Nodup
  mem_visited : ∀ x, x ∈ s.visited ↔ x ∈ s.found ++ s.stack ∨ x ∈ base
  disjoint : ∀ x ∈ s.found ++ s.stack, x ∉ base
  joined : ∀ x ∈ s.found ++ s.stack, g.Joined p x
  mem_nodes : ∀ x ∈ s.found ++ s.stack, x ∈ g.nodes
  closed : ∀ x ∈ s.found, ∀ y, g.Adjacent x y → y ∈ s.visited

section
variable {g : ImportGraph} (hg : g.WellFormed) {base : List Text} {p : Text}

theorem Search.inv_start (hp : p ∈ g.nodes) (hb : p ∉ base) :
    Search.Inv g base p ⟨p :: base, [p], []⟩ where
  first := rfl
  nodup := by simp
  mem_visited x := by simp
  disjoint x hx := by simp at hx; exact hx ▸ hb
  joined x hx := by simp at hx; exact hx ▸ Relation.ReflTransGen.refl
  mem_nodes x hx := by simp at hx; exact hx ▸ hp
  closed x hx := by simp at hx

include hg

/-- **One step.**  The file on top is found, and those of its neighbours that are new go on the
stack. -/
theorem Search.inv_step {s : Search} (h : Search.Inv g base p s) {q : Text} {rest : List Text}
    (hs : s.stack = q :: rest) :
    Search.Inv g base p ((g.neighbours q).foldl Search.reach
      { s with stack := rest, found := q :: s.found }) := by
  obtain ⟨new, hnd, hnew, hall, he⟩ :=
    foldl_reach (g.neighbours q) { s with stack := rest, found := q :: s.found }
  rw [he]
  simp only [] at hnew hall ⊢
  have hmem : ∀ x, x ∈ q :: s.found ++ (new ++ rest) ↔ x ∈ s.found ++ s.stack ∨ x ∈ new := by
    intro x
    rw [hs]
    simp only [List.cons_append, List.mem_cons, List.mem_append]
    tauto
  have hq : q ∈ s.found ++ s.stack := by rw [hs]; simp
  refine ⟨?_, ?_, ?_, ?_, ?_, ?_, ?_⟩
  · have hf := h.first
    rw [hs] at hf
    simp only [List.reverse_cons, List.append_assoc, List.singleton_append]
    cases hr : s.found.reverse with
    | nil => rw [hr] at hf; exact hf
    | cons a l => rw [hr] at hf; exact hf
  · have hold : (q :: s.found ++ rest).Nodup := by
      have := h.nodup
      rw [hs] at this
      exact (List.perm_middle.nodup_iff).1 this
    have hp : (q :: s.found ++ (new ++ rest)).Perm (new ++ (q :: s.found ++ rest)) := by
      rw [← List.append_assoc, ← List.append_assoc]
      exact (List.perm_append_comm).append_right rest
    rw [hp.nodup_iff, List.nodup_append]
    refine ⟨hnd, hold, fun a ha b hb e => (hnew a ha).2 ((h.mem_visited a).2 (Or.inl ?_))⟩
    subst e
    rw [hs]
    simp only [List.cons_append, List.mem_cons, List.mem_append] at hb ⊢
    tauto
  · intro x
    rw [hmem, List.mem_append, h.mem_visited]
    tauto
  · intro x hx
    rcases (hmem x).1 hx with hx | hx
    · exact h.disjoint x hx
    · exact fun hb => (hnew x hx).2 ((h.mem_visited x).2 (Or.inr hb))
  · intro x hx
    rcases (hmem x).1 hx with hx | hx
    · exact h.joined x hx
    · exact (h.joined q hq).tail ((mem_neighbours hg q x).1 (hnew x hx).1)
  · intro x hx
    rcases (hmem x).1 hx with hx | hx
    · exact h.mem_nodes x hx
    · exact mem_nodes_of_adjacent hg ((mem_neighbours hg q x).1 (hnew x hx).1)
  · intro x hx y hy
    rcases List.mem_cons.1 hx with rfl | hx
    · rcases hall y ((mem_neighbours hg x y).2 hy) with hy | hy
      · exact List.mem_append_left _ hy
      · exact List.mem_append_right _ hy
    · exact List.mem_append_right _ (h.closed x hx y hy)

theorem Search.inv_search (fuel : Nat) {s : Search} (h : Search.Inv g base p s) :
    Search.Inv g base p (g.search fuel s) := by
  induction fuel generalizing s with
  | zero => exact h
  | succ fuel ih =>
    unfold search
    split
    · exact h
    · next q rest hs => exact ih (Search.inv_step hg h hs)

/-- A search from any start needs no more steps than the graph has files. -/
theorem Search.stack_search (fuel : Nat) {s : Search} (h : Search.Inv g base p s)
    (hf : g.nodes.length ≤ fuel + s.found.length) : (g.search fuel s).stack = [] := by
  induction fuel generalizing s with
  | zero =>
    have hle := h.nodup.length_le_of_subset h.mem_nodes
    rw [List.length_append] at hle
    show s.stack = []
    exact List.length_eq_zero_iff.1 (by omega)
  | succ fuel ih =>
    unfold search
    split
    · next hs => exact hs
    · next q rest hs =>
      apply ih (Search.inv_step hg h hs)
      obtain ⟨new, -, -, -, he⟩ :=
        foldl_reach (g.neighbours q) { s with stack := rest, found := q :: s.found }
      rw [he, List.length_cons]
      omega

/-! ## One group -/

/-- Who is next to a file of `base` is in `base` too. -/
def Closed (g : ImportGraph) (base : List Text) : Prop :=
  ∀ x ∈ base, ∀ y, g.Adjacent x y → y ∈ base

theorem component_spec (hp : p ∈ g.nodes) (hb : p ∉ base) (hbase : g.Closed base) :
    (g.component base p).1.head? = some p ∧ (g.component base p).1.Nodup ∧
      (∀ x, x ∈ (g.component base p).1 ↔ g.Joined p x) ∧
      (∀ x, x ∈ (g.component base p).2 ↔ g.Joined p x ∨ x ∈ base) ∧
      (∀ x, g.Joined p x → x ∈ g.nodes ∧ x ∉ base) := by
  have h := Search.inv_search hg (g.nodes.length + 1) (Search.inv_start hp hb)
  have hs := Search.stack_search hg (g.nodes.length + 1) (Search.inv_start hp hb) (by simp)
  unfold component
  simp only []
  generalize g.search (g.nodes.length + 1) ⟨p :: base, [p], []⟩ = s at h hs
  have hfs : s.found ++ s.stack = s.found := by rw [hs, List.append_nil]
  have hpf : p ∈ s.found := by
    have hf := h.first
    rw [hs, List.append_nil] at hf
    exact List.mem_reverse.1 (List.mem_of_mem_head? hf)
  have hmem : ∀ x, x ∈ s.found ↔ g.Joined p x := by
    intro x
    refine ⟨fun hx => h.joined x (by rw [hfs]; exact hx), fun hj => ?_⟩
    induction hj with
    | refl => exact hpf
    | @tail b c _ hbc ih =>
      rcases (h.mem_visited c).1 (h.closed b ih c hbc) with hc | hc
      · rw [hfs] at hc
        exact hc
      · exact absurd (hbase c hc b hbc.symm) (h.disjoint b (by rw [hfs]; exact ih))
  refine ⟨?_, List.nodup_reverse.2 (hfs ▸ h.nodup), ?_, ?_, ?_⟩
  · rw [← h.first, hs, List.append_nil]
  · intro x
    rw [List.mem_reverse, hmem]
  · intro x
    rw [h.mem_visited, hfs, hmem]
  · intro x hx
    have hx := (hmem x).2 hx
    exact ⟨h.mem_nodes x (by rw [hfs]; exact hx), h.disjoint x (by rw [hfs]; exact hx)⟩

/-! ## All groups -/

/-- The order of files without repetitions. -/
def Before (p q : Text) : Prop := Text.le p q = true ∧ p ≠ q

/-- What the searches from some starts find, the files of `base` having been found before. -/
structure Sweep (g : ImportGraph) (base starts : List Text) (groups : List (List Text)) :
    Prop where
  group : ∀ group ∈ groups, ∃ p ∈ starts, group.head? = some p ∧
    ∀ x, (x ∈ group ↔ g.Joined p x) ∧ (x ∈ group → Text.le p x = true)
  nodup : groups.flatten.Nodup
  mem_flatten : ∀ x, x ∈ groups.flatten ↔ x ∈ g.nodes ∧ x ∉ base
  increasing : groups.Pairwise fun a b =>
    ∀ p q, a.head? = some p → b.head? = some q → Before p q

omit hg in
/-- A start that has been found before adds no group. -/
theorem Sweep.skip {starts : List Text} {groups : List (List Text)}
    (h : g.Sweep base starts groups) (p : Text) : g.Sweep base (p :: starts) groups := by
  refine ⟨fun group hgroup => ?_, h.nodup, h.mem_flatten, h.increasing⟩
  obtain ⟨q, hq, hspec⟩ := h.group group hgroup
  exact ⟨q, List.mem_cons_of_mem p hq, hspec⟩

/-- A start that is new adds the group of all that is joined to it, in front of the others. -/
theorem Sweep.cons {starts : List Text} {groups : List (List Text)} (hbase : g.Closed base)
    (hp : p ∈ g.nodes) (hb : p ∉ base) (hbefore : ∀ q ∈ starts, Before p q)
    (hall : ∀ x ∈ g.nodes, x ∈ base ∨ x ∈ p :: starts)
    (h : g.Sweep (g.component base p).2 starts groups) :
    g.Sweep base (p :: starts) ((g.component base p).1 :: groups) := by
  obtain ⟨hhead, hnd, hmem, hvis, hnew⟩ := component_spec hg hp hb hbase
  generalize g.component base p = c at *
  refine ⟨?_, ?_, ?_, ?_⟩
  · intro group hgroup
    rcases List.mem_cons.1 hgroup with rfl | hgroup
    · refine ⟨p, List.mem_cons_self, hhead, fun x => ⟨hmem x, fun hx => ?_⟩⟩
      -- a file before `p` would have been a start before it
      rcases hall x (hnew x ((hmem x).1 hx)).1 with hxb | hxs
      · exact absurd hxb (hnew x ((hmem x).1 hx)).2
      · rcases List.mem_cons.1 hxs with rfl | hxs
        · exact (Text.le_total x x).elim id id
        · exact (hbefore x hxs).1
    · exact (h.skip p).group group hgroup
  · rw [List.flatten_cons, List.nodup_append]
    refine ⟨hnd, h.nodup, fun a ha b hb e => ((h.mem_flatten b).1 hb).2 ?_⟩
    subst e
    exact (hvis a).2 (Or.inl ((hmem a).1 ha))
  · intro x
    rw [List.flatten_cons, List.mem_append, hmem, h.mem_flatten, hvis]
    constructor
    · rintro (hx | ⟨hx, hv⟩)
      · exact hnew x hx
      · exact ⟨hx, fun hb => hv (Or.inr hb)⟩
    · rintro ⟨hx, hb⟩
      by_cases hj : g.Joined p x
      · exact Or.inl hj
      · exact Or.inr ⟨hx, fun h => h.elim hj hb⟩
  · refine List.pairwise_cons.2 ⟨fun group hgroup a b ha hb => ?_, h.increasing⟩
    obtain ⟨q, hq, hhead', -⟩ := h.group group hgroup
    obtain rfl : p = a := Option.some.inj (hhead.symm.trans ha)
    obtain rfl : q = b := Option.some.inj (hhead'.symm.trans hb)
    exact hbefore q hq

theorem closed_component (hp : p ∈ g.nodes) (hb : p ∉ base) (hbase : g.Closed base) :
    g.Closed (g.component base p).2 := by
  obtain ⟨-, -, -, hvis, -⟩ := component_spec hg hp hb hbase
  intro x hx y hy
  rw [hvis] at hx ⊢
  rcases hx with hx | hx
  · exact Or.inl (hx.tail hy)
  · exact Or.inr (hbase x hx y hy)

theorem sweep_groupsFrom {starts : List Text} (hbase : g.Closed base)
    (hsorted : starts.Pairwise Before) (hstarts : ∀ x ∈ starts, x ∈ g.nodes)
    (hall : ∀ x ∈ g.nodes, x ∈ base ∨ x ∈ starts) :
    g.Sweep base starts (g.groupsFrom base starts) := by
  induction starts generalizing base with
  | nil =>
    refine ⟨by simp [groupsFrom], by simp [groupsFrom], fun x => ?_, by simp [groupsFrom]⟩
    simpa [groupsFrom] using hall x
  | cons p rest ih =>
    obtain ⟨hbefore, hsorted⟩ := List.pairwise_cons.1 hsorted
    have hp : p ∈ g.nodes := hstarts p List.mem_cons_self
    have hrest : ∀ x ∈ rest, x ∈ g.nodes := fun x hx => hstarts x (List.mem_cons_of_mem p hx)
    unfold groupsFrom
    rw [List.contains_eq_mem]
    split
    · next hb =>
      refine (ih hbase hsorted hrest fun x hx => ?_).skip p
      rcases hall x hx with hx | hx
      · exact Or.inl hx
      · rcases List.mem_cons.1 hx with rfl | hx
        · exact Or.inl (of_decide_eq_true hb)
        · exact Or.inr hx
    · next hb =>
      have hb : p ∉ base := fun h => hb (decide_eq_true h)
      obtain ⟨-, -, -, hvis, -⟩ := component_spec hg hp hb hbase
      refine Sweep.cons hg hbase hp hb hbefore hall
        (ih (closed_component hg hp hb hbase) hsorted hrest fun x hx => ?_)
      rw [hvis]
      rcases hall x hx with hx | hx
      · exact Or.inl (Or.inr hx)
      · rcases List.mem_cons.1 hx with rfl | hx
        · exact Or.inl (Or.inl .refl)
        · exact Or.inr hx

end

/-- Groups of the files of a graph: none is empty, a file stands in one place of one group, two
files share a group if and only if they are joined, the first file of a group is its least, and
the groups stand in the order of their least files. -/
structure IsPartition (g : ImportGraph) (groups : List (List Text)) : Prop where
  ne_nil : ∀ group ∈ groups, group ≠ []
  nodup : groups.flatten.Nodup
  mem_flatten : ∀ p, p ∈ groups.flatten ↔ p ∈ g.nodes
  joined_iff : ∀ p ∈ g.nodes, ∀ q ∈ g.nodes,
    (∃ group ∈ groups, p ∈ group ∧ q ∈ group) ↔ g.Joined p q
  first_least : ∀ group ∈ groups, ∀ p, group.head? = some p →
    ∀ q ∈ group, Text.le p q = true
  increasing : groups.Pairwise fun a b =>
    ∀ p q, a.head? = some p → b.head? = some q → Before p q

theorem pairwise_before_sortBy {files : List Text} (h : files.Nodup) :
    (sortBy Text.le files).Pairwise Before :=
  (@pairwise_sortBy Text Text.le (fun _ _ _ => Text.le_trans) Text.le_total files).and
    ((sortBy_perm Text.le files).nodup_iff.2 h)

theorem isPartition_groups {g : ImportGraph} (hg : g.WellFormed) : g.IsPartition g.groups := by
  have h : g.Sweep [] (sortBy Text.le g.nodes) g.groups :=
    sweep_groupsFrom hg (by intro x hx; cases hx) (pairwise_before_sortBy hg.nodup_nodes)
      (fun x hx => mem_sortBy.1 hx) (fun x hx => Or.inr (mem_sortBy.2 hx))
  have hmem : ∀ p, p ∈ g.groups.flatten ↔ p ∈ g.nodes := by
    intro p
    rw [h.mem_flatten]
    simp
  refine ⟨?_, h.nodup, hmem, ?_, ?_, h.increasing⟩
  · rintro group hgroup rfl
    obtain ⟨p, -, hp, -⟩ := h.group [] hgroup
    cases hp
  · intro p hp q hq
    constructor
    · rintro ⟨group, hgroup, hpg, hqg⟩
      obtain ⟨a, -, -, ha⟩ := h.group group hgroup
      exact (((ha p).1.1 hpg).symm).trans ((ha q).1.1 hqg)
    · intro hj
      obtain ⟨group, hgroup, hpg⟩ := List.mem_flatten.1 ((hmem p).2 hp)
      obtain ⟨a, -, -, ha⟩ := h.group group hgroup
      exact ⟨group, hgroup, hpg, (ha q).1.2 (((ha p).1.1 hpg).trans hj)⟩
  · intro group hgroup p hp q hq
    obtain ⟨a, -, ha, hspec⟩ := h.group group hgroup
    obtain rfl : a = p := Option.some.inj (ha.symm.trans hp)
    exact (hspec q).2 hq

section
variable {g : ImportGraph} {groups : List (List Text)} (h : g.IsPartition groups)
include h

theorem IsPartition.disjoint : groups.Pairwise fun a b => ∀ p ∈ a, p ∉ b :=
  (List.nodup_flatten.1 h.nodup).2.imp fun hd _ ha hb => hd ha hb

theorem IsPartition.eq_of_mem {a b : List Text} (ha : a ∈ groups) (hb : b ∈ groups) {p : Text}
    (hpa : p ∈ a) (hpb : p ∈ b) : a = b := by
  have : Std.Symm fun a b : List Text => ∀ p ∈ a, p ∉ b := ⟨fun _ _ hd _ hb ha => hd _ ha hb⟩
  by_contra hne
  exact h.disjoint.forall ha hb hne p hpa hpb

/-- Files that are joined are in one group. -/
theorem IsPartition.mem_iff_of_joined {group : List Text} (hg : group ∈ groups) {p q : Text}
    (hp : p ∈ g.nodes) (hq : q ∈ g.nodes) (hj : g.Joined p q) : p ∈ group ↔ q ∈ group := by
  obtain ⟨common, hc, hpc, hqc⟩ := (h.joined_iff p hp q hq).2 hj
  constructor
  · exact fun hpg => h.eq_of_mem hg hc hpg hpc ▸ hqc
  · exact fun hqg => h.eq_of_mem hg hc hqg hqc ▸ hpc

end

/-! ## Top theorem -/

/-- **The groups of a graph are its connected parts.**  Whatever has been marked before, each
search ends with an empty stack after at most one step for each file. -/
theorem isPartition_partition {g : ImportGraph} (h : Reachable g) :
    (∀ (base : List Text) (p : Text) (fuel : Nat), p ∈ g.nodes → p ∉ base →
      g.nodes.length ≤ fuel → (g.search fuel ⟨p :: base, [p], []⟩).stack = []) ∧
    g.IsPartition g.partition.value := by
  have hg := wellFormed_of_reachable h
  refine ⟨fun base p fuel hp hb hf => ?_, isPartition_groups hg⟩
  exact Search.stack_search hg fuel (Search.inv_start hp hb) (by simpa using hf)

/-- A file that imports itself, a circle, a file with several importers, and one that is only
there. -/
theorem isPartition_partition_circle :
    let read : Text → Except ReadFault Text := fun p => .ok (if p = "a" then "d" else p)
    let g := ((((build ["d", "c", "b", "a"] read fun t _ => pure [t]).value.1.addEdge
      "d" "b").addEdge "b" "a").addEdge "e" "a")
    let groups : List (List Text) := [["a", "e", "b", "d"], ["c"]]
    Reachable g ∧ g.partition.value = groups ∧ g.IsPartition groups := by
  intro read g groups
  have hg : Reachable g :=
    .addEdge _ _ (.addEdge _ _ (.addEdge _ _ (.build ["d", "c", "b", "a"] read _)))
  have hval : g.partition.value = groups := by decide +kernel
  exact ⟨hg, hval, hval ▸ (isPartition_partition hg).2⟩

end ContractAudit.ImportGraph
