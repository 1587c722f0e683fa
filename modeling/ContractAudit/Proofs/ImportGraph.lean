import ContractAudit.ImportGraph
import ContractAudit.Proofs.Table

/-!
# The two indices of an import graph

A graph keeps what each file imports (`forward`) and what imports it (`backward`).  `addEdge`
looks for repetitions in the first index only, so both stay right only because they are right
together: `WellFormed` says how, and every graph that is `Made` of nodes and edges has it.

    Made g → g.WellFormed                                   (Made.wellFormed)
    g is built from files → its nodes and its dependencies, in order
                                                            (lists_build)
    b ∈ g.dependencies a ↔ a and b are files, and the text of a imports b
                                                            (build_spec)
-/

namespace ContractAudit

namespace ImportGraph

/-! ## Tables of lists -/

theorem keys_withKey (key : Text) (pairs : List (Text × List Text)) :
    (withKey key pairs).map (·.1) =
      if key ∈ pairs.map (·.1) then pairs.map (·.1) else pairs.map (·.1) ++ [key] := by
  unfold withKey
  split
  · next h =>
    have hk := (lookup?_isSome_iff key pairs).1 (by rw [h]; rfl)
    rw [if_pos hk]
  · next h =>
    rw [if_neg ((lookup?_eq_none_iff key pairs).1 h)]
    simp

theorem getD_lookup?_withKey (key other : Text) (pairs : List (Text × List Text)) :
    (lookup? other (withKey key pairs)).getD [] = (lookup? other pairs).getD [] := by
  unfold withKey
  split
  · rfl
  · rw [lookup?_append]
    cases h : lookup? other pairs with
    | some a => rfl
    | none =>
      simp only [lookup?]
      split <;> rfl

theorem getD_lookup?_appendAt (key item other : Text) (pairs : List (Text × List Text)) :
    (lookup? other (appendAt key item pairs)).getD [] =
      if key = other then (lookup? other pairs).getD [] ++ [item]
      else (lookup? other pairs).getD [] := by
  unfold appendAt
  rw [lookup?_put]
  split
  · next h => subst h; rfl
  · rfl

theorem keys_appendAt_of_mem {key : Text} (item : Text) {pairs : List (Text × List Text)}
    (h : key ∈ pairs.map (·.1)) : (appendAt key item pairs).map (·.1) = pairs.map (·.1) := by
  unfold appendAt
  rw [keys_put, if_pos h]

/-! ## What the steps do to nodes and edges -/

@[simp] theorem dependencies_addNode (g : ImportGraph) (p x : Text) :
    (g.addNode p).dependencies x = g.dependencies x :=
  getD_lookup?_withKey p x g.forward

@[simp] theorem dependents_addNode (g : ImportGraph) (p x : Text) :
    (g.addNode p).dependents x = g.dependents x :=
  getD_lookup?_withKey p x g.backward

theorem nodes_addNode (g : ImportGraph) (p : Text) :
    (g.addNode p).nodes = if p ∈ g.nodes then g.nodes else g.nodes ++ [p] :=
  keys_withKey p g.forward

theorem mem_nodes_addNode (g : ImportGraph) (p x : Text) :
    x ∈ (g.addNode p).nodes ↔ x ∈ g.nodes ∨ x = p := by
  rw [nodes_addNode]
  split
  · next h =>
    constructor
    · exact Or.inl
    · rintro (hx | rfl)
      · exact hx
      · exact h
  · simp

/-- Both indices have the same files, no list repeats a file, both ends of an edge are nodes,
and an edge stands in one index if and only if it stands in the other. -/
structure WellFormed (g : ImportGraph) : Prop where
  keys_backward : g.backward.map (·.1) = g.nodes
  nodup_nodes : g.nodes.Nodup
  nodup_dependencies : ∀ p, (g.dependencies p).Nodup
  nodup_dependents : ∀ p, (g.dependents p).Nodup
  mem_nodes : ∀ {a b}, b ∈ g.dependencies a → a ∈ g.nodes ∧ b ∈ g.nodes
  transpose : ∀ {a b}, b ∈ g.dependencies a ↔ a ∈ g.dependents b

theorem wellFormed_empty : WellFormed {} where
  keys_backward := rfl
  nodup_nodes := List.nodup_nil
  nodup_dependencies _ := List.nodup_nil
  nodup_dependents _ := List.nodup_nil
  mem_nodes h := by cases h
  transpose := ⟨fun h => by (cases h), fun h => by (cases h)⟩

theorem WellFormed.addNode {g : ImportGraph} (h : g.WellFormed) (p : Text) :
    (g.addNode p).WellFormed where
  keys_backward := by
    rw [nodes_addNode]
    show (withKey p g.backward).map (·.1) = _
    rw [keys_withKey, h.keys_backward]
  nodup_nodes := by
    rw [nodes_addNode]
    split
    · exact h.nodup_nodes
    · next hp =>
      rw [List.nodup_append]
      exact ⟨h.nodup_nodes, List.nodup_singleton p, fun a ha b hb e => hp (by simp_all)⟩
  nodup_dependencies x := by rw [dependencies_addNode]; exact h.nodup_dependencies x
  nodup_dependents x := by rw [dependents_addNode]; exact h.nodup_dependents x
  mem_nodes {a b} hb := by
    rw [dependencies_addNode] at hb
    rw [mem_nodes_addNode, mem_nodes_addNode]
    exact ⟨Or.inl (h.mem_nodes hb).1, Or.inl (h.mem_nodes hb).2⟩
  transpose {a b} := by rw [dependencies_addNode, dependents_addNode]; exact h.transpose

section
variable (g : ImportGraph) (a b : Text)

theorem nodes_addEdge : (g.addEdge a b).nodes = ((g.addNode a).addNode b).nodes := by
  unfold addEdge
  simp only []
  split
  · rfl
  · apply keys_appendAt_of_mem
    show a ∈ ((g.addNode a).addNode b).nodes
    rw [mem_nodes_addNode, mem_nodes_addNode]
    exact Or.inl (Or.inr rfl)

theorem mem_nodes_addEdge (x : Text) :
    x ∈ (g.addEdge a b).nodes ↔ x ∈ g.nodes ∨ x = a ∨ x = b := by
  rw [nodes_addEdge, mem_nodes_addNode, mem_nodes_addNode, or_assoc]

theorem dependencies_addEdge (x : Text) :
    (g.addEdge a b).dependencies x =
      if a = x ∧ b ∉ g.dependencies a then g.dependencies x ++ [b] else g.dependencies x := by
  unfold addEdge
  simp only [dependencies_addNode, List.contains_iff_mem]
  split
  · next hb => rw [if_neg fun h => h.2 hb]; simp
  · next hb =>
    have hx := getD_lookup?_appendAt a b x ((g.addNode a).addNode b).forward
    rw [show (lookup? x ((g.addNode a).addNode b).forward).getD [] = g.dependencies x from
      (dependencies_addNode _ b x).trans (dependencies_addNode g a x)] at hx
    simp only [hb, not_false_iff, and_true]
    exact hx

theorem mem_dependencies_addEdge (x c : Text) :
    c ∈ (g.addEdge a b).dependencies x ↔ c ∈ g.dependencies x ∨ (x = a ∧ c = b) := by
  rw [dependencies_addEdge]
  split
  · next h =>
    obtain ⟨rfl, -⟩ := h
    simp
  · next h =>
    constructor
    · exact Or.inl
    · rintro (hc | ⟨rfl, rfl⟩)
      · exact hc
      · exact not_not.1 fun hc => h ⟨rfl, hc⟩

theorem dependents_addEdge (x : Text) :
    (g.addEdge a b).dependents x =
      if b = x ∧ b ∉ g.dependencies a then g.dependents x ++ [a] else g.dependents x := by
  unfold addEdge
  simp only [dependencies_addNode, List.contains_iff_mem]
  split
  · next hb => rw [if_neg fun h => h.2 hb]; simp
  · next hb =>
    have hx := getD_lookup?_appendAt b a x ((g.addNode a).addNode b).backward
    rw [show (lookup? x ((g.addNode a).addNode b).backward).getD [] = g.dependents x from
      (dependents_addNode _ b x).trans (dependents_addNode g a x)] at hx
    simp only [hb, not_false_iff, and_true]
    exact hx

end

theorem mem_dependents_addEdge {g : ImportGraph} (h : g.WellFormed) (a b x c : Text) :
    c ∈ (g.addEdge a b).dependents x ↔ c ∈ g.dependents x ∨ (x = b ∧ c = a) := by
  rw [dependents_addEdge]
  split
  · next hb =>
    obtain ⟨rfl, -⟩ := hb
    simp
  · next hb =>
    constructor
    · exact Or.inl
    · rintro (hc | ⟨rfl, rfl⟩)
      · exact hc
      · exact h.transpose.1 (not_not.1 fun hc => hb ⟨rfl, hc⟩)

/-- **An edge keeps the indices right.**  That `b` is new in the first index means that `a` is
new in the second. -/
theorem WellFormed.addEdge {g : ImportGraph} (h : g.WellFormed) (a b : Text) :
    (g.addEdge a b).WellFormed where
  keys_backward := by
    have hn := (h.addNode a).addNode b
    rw [nodes_addEdge]
    unfold ImportGraph.addEdge
    simp only []
    split
    · exact hn.keys_backward
    · rw [keys_appendAt_of_mem, hn.keys_backward]
      rw [hn.keys_backward, mem_nodes_addNode]
      exact Or.inr rfl
  nodup_nodes := by
    rw [nodes_addEdge]
    exact ((h.addNode a).addNode b).nodup_nodes
  nodup_dependencies x := by
    rw [dependencies_addEdge]
    split
    · next hb =>
      obtain ⟨rfl, hb⟩ := hb
      exact List.nodup_append_comm.1 (List.nodup_cons.2 ⟨hb, h.nodup_dependencies a⟩)
    · exact h.nodup_dependencies x
  nodup_dependents x := by
    rw [dependents_addEdge]
    split
    · next hb =>
      obtain ⟨rfl, hb⟩ := hb
      have ha : a ∉ g.dependents b := fun ha => hb (h.transpose.2 ha)
      exact List.nodup_append_comm.1 (List.nodup_cons.2 ⟨ha, h.nodup_dependents b⟩)
    · exact h.nodup_dependents x
  mem_nodes {x c} hc := by
    rw [mem_nodes_addEdge, mem_nodes_addEdge]
    rcases (mem_dependencies_addEdge g a b x c).1 hc with hc | ⟨rfl, rfl⟩
    · exact ⟨Or.inl (h.mem_nodes hc).1, Or.inl (h.mem_nodes hc).2⟩
    · exact ⟨Or.inr (Or.inl rfl), Or.inr (Or.inr rfl)⟩
  transpose {x c} := by
    rw [mem_dependencies_addEdge, mem_dependents_addEdge h, h.transpose, and_comm]

/-! ## Building -/

/-- A graph made of nodes and edges that were added one after the other. -/
inductive Made : ImportGraph → Prop
  | empty : Made {}
  | addNode {g : ImportGraph} (h : Made g) (p : Text) : Made (g.addNode p)
  | addEdge {g : ImportGraph} (h : Made g) (a b : Text) : Made (g.addEdge a b)

theorem Made.wellFormed {g : ImportGraph} (h : Made g) : g.WellFormed := by
  induction h with
  | empty => exact wellFormed_empty
  | addNode _ p ih => exact ih.addNode p
  | addEdge _ a b ih => exact ih.addEdge a b

theorem Made.addTargets {g : ImportGraph} (h : Made g) (a : Text) (targets : List Text) :
    Made (g.addTargets a targets) := by
  unfold ImportGraph.addTargets
  induction targets generalizing g with
  | nil => exact h
  | cons b rest ih =>
    rw [List.foldl_cons]
    split
    · exact ih (h.addEdge a b)
    · exact ih h

theorem made_ofNodes (files : List Text) : Made (ofNodes files) := by
  unfold ofNodes
  generalize hg : ({} : ImportGraph) = g
  have h : Made g := hg ▸ .empty
  clear hg
  induction files generalizing g with
  | nil => exact h
  | cons p rest ih => exact ih _ (h.addNode p)

theorem Made.readEdges {g : ImportGraph} (h : Made g)
    (read : Text → Except ReadFault Text) (resolve : Text → Text → Logged (List Text))
    (files : List Text) : Made (readEdges read resolve files g).value.1 := by
  induction files generalizing g with
  | nil => exact h
  | cons p rest ih =>
    unfold ImportGraph.readEdges
    split
    · exact ih (h.addTargets p _)
    · split
      · exact ih h
      · exact h

theorem value_build (files : List Text) (read : Text → Except ReadFault Text)
    (resolve : Text → Text → Logged (List Text)) :
    (build files read resolve).value =
      (readEdges read resolve (ofNodes files).nodes (ofNodes files)).value := by
  unfold build
  simp only [Logged.value_bind]
  split
  · next h => exact h.symm
  · next h => exact h.symm

/-- A graph is made step by step also where a fault ends the reading. -/
theorem made_build (files : List Text) (read : Text → Except ReadFault Text)
    (resolve : Text → Text → Logged (List Text)) : Made (build files read resolve).value.1 := by
  rw [value_build]
  exact (made_ofNodes files).readEdges read resolve _

/-! ## What is built -/

theorem nodes_ofNodes (files : List Text) : (ofNodes files).nodes = files.eraseDups := by
  unfold ofNodes
  induction files using List.reverseRecOn with
  | nil => rfl
  | append_singleton files p ih =>
    rw [List.foldl_concat, nodes_addNode, ih, eraseDups_concat]
    simp only [List.mem_eraseDups]

theorem dependencies_ofNodes (files : List Text) (p : Text) :
    (ofNodes files).dependencies p = [] := by
  unfold ofNodes
  induction files using List.reverseRecOn with
  | nil => rfl
  | append_singleton files q ih => rw [List.foldl_concat, dependencies_addNode, ih]

theorem nodes_addEdge_of_mem {g : ImportGraph} {a b : Text} (ha : a ∈ g.nodes)
    (hb : b ∈ g.nodes) : (g.addEdge a b).nodes = g.nodes := by
  rw [nodes_addEdge, nodes_addNode, nodes_addNode, if_pos ha, if_pos hb]

theorem addTargets_concat (g : ImportGraph) (a : Text) (targets : List Text) (b : Text) :
    g.addTargets a (targets ++ [b]) =
      if b ∈ (g.addTargets a targets).nodes then (g.addTargets a targets).addEdge a b
      else g.addTargets a targets := by
  unfold addTargets
  rw [List.foldl_concat]
  simp only [List.contains_iff_mem]

/-- Targets outside the graph count for nothing, and each of the others counts where it comes
first. -/
theorem addTargets_spec {g : ImportGraph} {a : Text} (ha : a ∈ g.nodes)
    (hnone : g.dependencies a = []) (targets : List Text) :
    (g.addTargets a targets).nodes = g.nodes ∧
    (g.addTargets a targets).dependencies a = (targets.filter (· ∈ g.nodes)).eraseDups ∧
    ∀ x, x ≠ a → (g.addTargets a targets).dependencies x = g.dependencies x := by
  induction targets using List.reverseRecOn with
  | nil => exact ⟨rfl, hnone, fun _ _ => rfl⟩
  | append_singleton targets b ih =>
    obtain ⟨hnodes, hself, hother⟩ := ih
    rw [addTargets_concat, hnodes, List.filter_append]
    by_cases hb : b ∈ g.nodes
    · have hfilter : [b].filter (· ∈ g.nodes) = [b] := by simp [hb]
      rw [if_pos hb, hfilter, eraseDups_concat]
      refine ⟨?_, ?_, fun x hx => ?_⟩
      · rw [nodes_addEdge_of_mem (hnodes ▸ ha) (hnodes ▸ hb), hnodes]
      · rw [dependencies_addEdge, hself]
        by_cases hmem : b ∈ targets.filter (· ∈ g.nodes)
        · rw [if_pos hmem, if_neg fun h => h.2 (List.mem_eraseDups.2 hmem)]
        · rw [if_neg hmem, if_pos ⟨rfl, fun h => hmem (List.mem_eraseDups.1 h)⟩]
      · rw [dependencies_addEdge, if_neg fun h => hx h.1.symm, hother x hx]
    · have hfilter : [b].filter (· ∈ g.nodes) = [] := by simp [hb]
      rw [if_neg hb, hfilter, List.append_nil]
      exact ⟨hnodes, hself, hother⟩

/-- The files that the text of a file imports, each where it is imported first; none if there is
no text. -/
def importsIn (files : List Text) (read : Text → Except ReadFault Text)
    (resolve : Text → Text → Logged (List Text)) (p : Text) : List Text :=
  match read p with
  | .ok text => ((resolve text p).value.filter (· ∈ files)).eraseDups
  | .error _ => []

section
variable {files : List Text} {read : Text → Except ReadFault Text}
  {resolve : Text → Text → Logged (List Text)}

theorem mem_importsIn {a b : Text} : b ∈ importsIn files read resolve a ↔
    b ∈ files ∧ ∃ t, read a = .ok t ∧ b ∈ (resolve t a).value := by
  unfold importsIn
  cases read a with
  | ok t => simp [and_comm]
  | error f => simp

/-- Files that are named in another order, or several times, import the same. -/
theorem importsIn_congr {others : List Text} (h : ∀ p, p ∈ files ↔ p ∈ others) (a : Text) :
    importsIn files read resolve a = importsIn others read resolve a := by
  unfold importsIn
  simp only [h]

theorem readEdges_spec {rest : List Text} {g g' : ImportGraph} (hrest : rest.Nodup)
    (hstart : ∀ p ∈ rest, p ∈ g.nodes ∧ g.dependencies p = [])
    (h : (readEdges read resolve rest g).value = (g', none)) :
    g'.nodes = g.nodes ∧ ∀ a, g'.dependencies a =
      if a ∈ rest then importsIn g.nodes read resolve a else g.dependencies a := by
  induction rest generalizing g with
  | nil =>
    obtain rfl : g = g' := (Prod.mk.inj h).1
    exact ⟨rfl, fun a => rfl⟩
  | cons p rest ih =>
    obtain ⟨hp, hrest⟩ := List.nodup_cons.1 hrest
    obtain ⟨hnode, hnone⟩ := hstart p List.mem_cons_self
    have hstart := fun q hq => hstart q (List.mem_cons_of_mem p hq)
    have hne : ∀ {q}, q ∈ rest → q ≠ p := fun hq e => hp (e ▸ hq)
    unfold readEdges at h
    cases hr : read p with
    | ok t =>
      simp only [hr, Logged.value_bind] at h
      obtain ⟨hn, hself, hother⟩ := addTargets_spec hnode hnone (resolve t p).value
      obtain ⟨hnodes, hdeps⟩ := ih hrest
        (fun q hq => ⟨hn ▸ (hstart q hq).1, (hother q (hne hq)).trans (hstart q hq).2⟩) h
      refine ⟨hnodes.trans hn, fun a => ?_⟩
      rw [hdeps, hn]
      by_cases ha : a = p
      · subst ha
        rw [if_neg hp, if_pos List.mem_cons_self, hself, importsIn, hr]
      · simp only [List.mem_cons, ha, false_or, hother a ha]
    | error f =>
      simp only [hr] at h
      split at h
      · rw [Logged.value_bind] at h
        obtain ⟨hnodes, hdeps⟩ := ih hrest hstart h
        refine ⟨hnodes, fun a => ?_⟩
        rw [hdeps]
        by_cases ha : a = p
        · subst ha
          rw [if_neg hp, if_pos List.mem_cons_self, hnone, importsIn, hr]
        · simp only [List.mem_cons, ha, false_or]
      · cases (Prod.mk.inj h).2

/-- The reading goes through if and only if it meets no fault but expected ones. -/
theorem readEdges_eq_none_iff (rest : List Text) (g : ImportGraph) :
    (readEdges read resolve rest g).value.2 = none ↔
      ∀ p ∈ rest, ∀ f, read p = .error f → f.isExpected = true := by
  induction rest generalizing g with
  | nil => simp [readEdges]
  | cons p rest ih =>
    unfold readEdges
    rw [List.forall_mem_cons]
    cases hr : read p with
    | ok t =>
      simp only [Logged.value_bind, ih, reduceCtorEq, false_implies, implies_true, true_and]
    | error f =>
      simp only [Except.error.injEq, forall_eq']
      cases f.isExpected with
      | true => simpa using ih g
      | false => simp

theorem build_eq_none_iff : (build files read resolve).value.2 = none ↔
    ∀ p ∈ files, ∀ f, read p = .error f → f.isExpected = true := by
  rw [value_build, readEdges_eq_none_iff, nodes_ofNodes]
  simp only [List.mem_eraseDups]

/-- A graph is built in full where all faults are expected. -/
theorem exists_build (files : List Text) (resolve : Text → Text → Logged (List Text))
    (h : ∀ p f, read p = .error f → f.isExpected = true) :
    ∃ g, (build files read resolve).value = (g, none) :=
  ⟨_, Prod.ext rfl (build_eq_none_iff.2 fun p _ => h p)⟩

/-- **The lists of the graph that is built.**  Its nodes are the files, each where it comes
first, and each has the imports that its text gives, as far as they lead to files. -/
theorem lists_build {g : ImportGraph} (h : (build files read resolve).value = (g, none)) :
    g.nodes = files.eraseDups ∧ ∀ a, g.dependencies a =
      if a ∈ files then importsIn files read resolve a else [] := by
  rw [value_build] at h
  obtain ⟨hnodes, hdeps⟩ := readEdges_spec (made_ofNodes files).wellFormed.nodup_nodes
    (fun p hp => ⟨hp, dependencies_ofNodes files p⟩) h
  rw [nodes_ofNodes] at hnodes hdeps
  refine ⟨hnodes, fun a => ?_⟩
  rw [hdeps, dependencies_ofNodes, importsIn_congr fun p => List.mem_eraseDups]
  simp only [List.mem_eraseDups]

/-- **The graph that is built.**  Its nodes are the files, and its edges are the imports that
the texts of the files give, as far as they lead to files. -/
theorem build_spec {g : ImportGraph} (h : (build files read resolve).value = (g, none)) :
    g.WellFormed ∧ (∀ p, p ∈ g.nodes ↔ p ∈ files) ∧
    ∀ a b, b ∈ g.dependencies a ↔
      a ∈ files ∧ b ∈ files ∧ ∃ t, read a = .ok t ∧ b ∈ (resolve t a).value := by
  obtain ⟨hnodes, hdeps⟩ := lists_build h
  have hmade := made_build files read resolve
  rw [h] at hmade
  refine ⟨hmade.wellFormed, fun p => ?_, fun a b => ?_⟩
  · rw [hnodes, List.mem_eraseDups]
  · rw [hdeps]
    split
    · next ha => simp only [mem_importsIn, ha, true_and]
    · next ha => simp [ha]

end

/-! ## Every graph there is -/

/-- A graph that was built, be it up to a fault only, and then got any number of edges. -/
inductive Reachable : ImportGraph → Prop
  | empty : Reachable {}
  | build (files : List Text) (read : Text → Except ReadFault Text)
      (resolve : Text → Text → Logged (List Text)) :
      Reachable (build files read resolve).value.1
  | addEdge {g : ImportGraph} (a b : Text) : Reachable g → Reachable (g.addEdge a b)

theorem Reachable.made {g : ImportGraph} (h : Reachable g) : Made g := by
  induction h with
  | empty => exact .empty
  | build files read resolve => exact made_build files read resolve
  | addEdge a b _ ih => exact ih.addEdge a b

/-- **Every graph that is built has its indices right.** -/
theorem wellFormed_of_reachable {g : ImportGraph} (h : Reachable g) : g.WellFormed :=
  h.made.wellFormed

end ImportGraph

end ContractAudit
