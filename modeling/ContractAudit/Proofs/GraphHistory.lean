import Mathlib.Algebra.GroupWithZero.Nat
import ContractAudit.Proofs.ImportGraph

/-!
# Graphs after any changes

A graph is built and gets edges any number of times and in any order.  A build starts afresh, and
one that a fault ends leaves what was built until then.  Whatever has been done, the two indices
say the same: `WellFormed` says so of their members, and one edge more in the first index is one
more in the second, so that both hold equally many (`Made.total_eq`).

    changes lead to g → g.IsConsistent                      (isConsistent_after)
    a build that goes through leads to g → g is the graph of its files, and of nothing before
                                                            (isBuilt_change)
-/

namespace ContractAudit.ImportGraph

/-! ## How many edges there are -/

/-- How many items the lists of a table hold. -/
def total (pairs : List (Text × List Text)) : Nat := (pairs.map fun e => e.2.length).sum

theorem total_cons (key : Text) (items : List Text) (pairs : List (Text × List Text)) :
    total ((key, items) :: pairs) = items.length + total pairs := by
  unfold total
  rw [List.map_cons, List.sum_cons]

theorem edgeCount_eq_total (g : ImportGraph) : g.edgeCount = total g.forward := by
  unfold edgeCount
  induction g.forward with
  | nil => rfl
  | cons e pairs ih => rw [List.foldr_cons, ih, ← total_cons e.1]

theorem total_withKey (key : Text) (pairs : List (Text × List Text)) :
    total (withKey key pairs) = total pairs := by
  unfold withKey
  split
  · rfl
  · simp [total]

theorem total_appendAt (key item : Text) (pairs : List (Text × List Text)) :
    total (appendAt key item pairs) = total pairs + 1 := by
  unfold appendAt
  induction pairs with
  | nil => rfl
  | cons e pairs ih =>
    simp only [lookup?, put]
    split
    · rw [total_cons, total_cons, Option.getD_some, List.length_append, List.length_singleton]
      omega
    · rw [total_cons, total_cons, ih]
      omega

/-- **Both indices hold equally many files.** -/
theorem Made.total_eq {g : ImportGraph} (h : Made g) : total g.forward = total g.backward := by
  induction h with
  | empty => rfl
  | addNode _ p ih =>
    show total (withKey p _) = total (withKey p _)
    rw [total_withKey, total_withKey, ih]
  | @addEdge g _ a b ih =>
    have hnodes : total ((g.addNode a).addNode b).forward =
        total ((g.addNode a).addNode b).backward := by
      show total (withKey b (withKey a _)) = total (withKey b (withKey a _))
      simp only [total_withKey, ih]
    unfold ImportGraph.addEdge
    simp only []
    split
    · exact hnodes
    · rw [total_appendAt, total_appendAt, hnodes]

/-- With keys apart the lists found under the keys are all lists of a table. -/
theorem sum_lookup? {pairs : List (Text × List Text)} (h : (pairs.map (·.1)).Nodup) :
    ((pairs.map (·.1)).map fun key => ((lookup? key pairs).getD []).length).sum =
      total pairs := by
  unfold total
  rw [List.map_map]
  congr 1
  refine List.map_congr_left fun e he => ?_
  rw [Function.comp_apply, (mem_iff_lookup? h).1 (show (e.1, e.2) ∈ pairs from he)]
  rfl

theorem Made.edgeCount_eq {g : ImportGraph} (h : Made g) :
    g.edgeCount = (g.nodes.map fun p => (g.dependents p).length).sum := by
  have hkeys := h.wellFormed.keys_backward
  have hnodup := h.wellFormed.nodup_nodes
  rw [edgeCount_eq_total, h.total_eq]
  rw [← hkeys] at hnodup ⊢
  exact (sum_lookup? hnodup).symm

/-! ## Changes -/

/-- What is done to a graph. -/
inductive Change
  | build (files : List Text) (read : Text → Except ReadFault Text)
      (resolve : Text → Text → Logged (List Text))
  | addEdge (a b : Text)

/-- The graph after a change.  A build starts afresh; one that a fault ends leaves what was built
until then. -/
def change (g : ImportGraph) : Change → ImportGraph
  | .build files read resolve => (ImportGraph.build files read resolve).value.1
  | .addEdge a b => g.addEdge a b

/-- The graph after some changes. -/
def after (g : ImportGraph) (changes : List Change) : ImportGraph := changes.foldl change g

theorem Made.change {g : ImportGraph} (h : Made g) (c : Change) : Made (g.change c) := by
  cases c with
  | build files read resolve => exact made_build files read resolve
  | addEdge a b => exact h.addEdge a b

theorem Made.after {g : ImportGraph} (h : Made g) (changes : List Change) :
    Made (g.after changes) := by
  unfold ImportGraph.after
  induction changes generalizing g with
  | nil => exact h
  | cons c rest ih => exact ih (h.change c)

/-- What holds of a graph after any changes. -/
structure IsConsistent (g : ImportGraph) : Prop extends WellFormed g where
  edgeCount_eq : g.edgeCount = (g.nodes.map fun p => (g.dependents p).length).sum

/-- The graph of some files: nodes and imports, each where it comes first. -/
structure IsBuilt (files : List Text) (read : Text → Except ReadFault Text)
    (resolve : Text → Text → Logged (List Text)) (g : ImportGraph) : Prop where
  nodes : g.nodes = files.eraseDups
  mem_nodes : ∀ p, p ∈ g.nodes ↔ p ∈ files
  dependencies : ∀ a ∈ files, g.dependencies a = importsIn files read resolve a
  mem_dependencies : ∀ a b, b ∈ g.dependencies a ↔
    a ∈ files ∧ b ∈ files ∧ ∃ t, read a = .ok t ∧ b ∈ (resolve t a).value

/-- A build that goes through leads to the graph of its files, whatever there was before. -/
theorem isBuilt_change {files : List Text} {read : Text → Except ReadFault Text}
    {resolve : Text → Text → Logged (List Text)}
    (h : (build files read resolve).value.2 = none) (g : ImportGraph) :
    IsBuilt files read resolve (g.change (.build files read resolve)) := by
  have hvalue : (build files read resolve).value =
      (g.change (.build files read resolve), none) := Prod.ext rfl h
  obtain ⟨hnodes, hdeps⟩ := lists_build hvalue
  obtain ⟨-, hmem, hedges⟩ := build_spec hvalue
  exact ⟨hnodes, hmem, fun a ha => by rw [hdeps, if_pos ha], hedges⟩

/-! ## Top theorem -/

/-- **After any changes the indices of a graph are consistent**, and a build leads to the graph
of its files, unless it meets a fault that is not expected. -/
theorem isConsistent_after (changes : List Change) :
    (after {} changes).IsConsistent ∧
    ∀ files read resolve,
      ((build files read resolve).value.2 = none ↔
        ∀ p ∈ files, ∀ f, read p = .error f → f.isExpected = true) ∧
      ((build files read resolve).value.2 = none →
        IsBuilt files read resolve (after {} (changes ++ [.build files read resolve]))) := by
  have hmade : Made (after {} changes) := Made.empty.after changes
  refine ⟨⟨hmade.wellFormed, hmade.edgeCount_eq⟩, fun files read resolve =>
    ⟨build_eq_none_iff, fun h => ?_⟩⟩
  unfold after
  rw [List.foldl_concat]
  exact isBuilt_change h _

/-- A fault ends a build after its first file, which imports itself and, twice, the file that
cannot be read.  The edge from before is gone. -/
example :
    let read : Text → Except ReadFault Text := fun p =>
      if p = "a" then .error (.other "broken") else .ok p
    after {} [.addEdge "c" "d", .build ["b", "a", "b"] read fun _ _ => pure ["a", "b", "a"]] =
      ⟨[("b", ["a", "b"]), ("a", [])], [("b", ["b"]), ("a", ["b"])]⟩ := by
  decide +kernel

end ContractAudit.ImportGraph
