import ContractAudit.FileTree
import ContractAudit.Proofs.Path
import ContractAudit.Proofs.Table

/-!
# Names in a tree of files

In a tree every entry of a directory has a name that leads down to it: it is not empty, holds no
slash, and is neither `.` nor `..`.  What is found in such a tree, through whatever links, is such
a tree again; so it is with every property that goes down from a directory to its entries.

    Hereditary P → P root → root.find p = .ok t → P t       (of_find)
-/

namespace ContractAudit.FileTree

mutual

/-- All entries below a node have names. -/
def Named : FileTree → Prop
  | directory entries => NamedAll entries
  | _ => True

/-- Some entries, and all below them, have names. -/
def NamedAll : List (Text × FileTree) → Prop
  | [] => True
  | (s, t) :: rest => Path.IsName s ∧ Named t ∧ NamedAll rest

end

mutual

def decidableNamed : (t : FileTree) → Decidable t.Named
  | file _ => .isTrue trivial
  | link _ => .isTrue trivial
  | directory entries => decidableNamedAll entries

def decidableNamedAll : (entries : List (Text × FileTree)) → Decidable (NamedAll entries)
  | [] => .isTrue trivial
  | (_, t) :: rest =>
    @instDecidableAnd _ _ inferInstance
      (@instDecidableAnd _ _ (decidableNamed t) (decidableNamedAll rest))

end

instance (t : FileTree) : Decidable t.Named := decidableNamed t

theorem namedAll_iff {entries : List (Text × FileTree)} :
    NamedAll entries ↔ ∀ e ∈ entries, Path.IsName e.1 ∧ e.2.Named := by
  induction entries with
  | nil => exact iff_of_true trivial (List.forall_mem_nil _)
  | cons e rest ih =>
    obtain ⟨s, t⟩ := e
    rw [List.forall_mem_cons, ← ih, and_assoc]
    exact Iff.rfl

/-! ## Along a way -/

/-- What holds of a directory holds of each of its entries. -/
def Hereditary (P : FileTree → Prop) : Prop :=
  ∀ entries, P (directory entries) → ∀ e ∈ entries, P e.2

theorem hereditary_named : Hereditary Named :=
  fun _ h e he => (namedAll_iff.1 h e he).2

/-- All nodes of the way to a stop have the property. -/
def Stop.All (P : FileTree → Prop) : Stop → Prop
  | node way => ∀ n ∈ way, P n.2
  | link place _ _ => ∀ n ∈ place, P n.2

section
variable {P : FileTree → Prop} (hP : Hereditary P)
include hP

theorem all_walk {way : Way} {segments : List Text} {stop : Stop} (hw : ∀ n ∈ way, P n.2)
    (h : walk way segments = .ok stop) : stop.All P := by
  induction segments generalizing way with
  | nil =>
    cases way with
    | nil => cases h
    | cons here above =>
      obtain rfl := Except.ok.inj h
      exact hw
  | cons s rest ih =>
    unfold walk at h
    split at h
    · cases h
    · next hnil => cases hnil
    · next name entries above s' rest' hcons =>
      obtain ⟨rfl, rfl⟩ := List.cons.inj hcons
      split at h
      · exact ih hw h
      · split at h
        · refine ih ?_ h
          split
          · intro n hn
            exact hw n (List.mem_singleton.1 hn ▸ List.mem_cons_self)
          · exact fun n hn => hw n (List.mem_cons_of_mem _ hn)
        · split at h
          · cases h
          · split at h
            · cases h
            · obtain rfl := Except.ok.inj h
              exact hw
            · next t hlink hfound =>
              refine ih (fun n hn => ?_) h
              rcases List.mem_cons.1 hn with rfl | hn
              · exact hP entries (hw _ List.mem_cons_self) _ (pair_mem_of_lookup? hfound)
              · exact hw n hn
    · cases h

theorem all_locateFrom {root : FileTree} (hr : P root) {hops : Nat} {way last : Way}
    {segments : List Text} (hw : ∀ n ∈ way, P n.2)
    (h : locateFrom root hops way segments = .ok last) : ∀ n ∈ last, P n.2 := by
  induction hops generalizing way segments with
  | zero =>
    unfold locateFrom at h
    split at h
    · cases h
    · next hwalk =>
      obtain rfl := Except.ok.inj h
      exact all_walk hP hw hwalk
    · cases h
  | succ hops ih =>
    unfold locateFrom at h
    split at h
    · cases h
    · next hwalk =>
      obtain rfl := Except.ok.inj h
      exact all_walk hP hw hwalk
    · next place target rest hwalk =>
      refine ih ?_ h
      split
      · intro n hn
        obtain rfl := List.mem_singleton.1 hn
        exact hr
      · exact all_walk hP hw hwalk

/-- What is found in a tree has every property that goes down from a directory to its entries. -/
theorem of_find {root t : FileTree} {p : Text} (hr : P root) (h : root.find p = .ok t) : P t := by
  unfold find at h
  split at h
  · cases h
  · cases h
  · next name t' above hl =>
    obtain rfl := Except.ok.inj h
    unfold locate at hl
    split at hl
    · cases hl
    · have hw : ∀ n ∈ ([([], root)] : Way), P n.2 := by
        intro n hn
        obtain rfl := List.mem_singleton.1 hn
        exact hr
      exact all_locateFrom hP hr hw hl _ List.mem_cons_self

end

theorem named_of_find {root t : FileTree} {p : Text} (hr : root.Named)
    (h : root.find p = .ok t) : t.Named :=
  of_find hereditary_named hr h

end ContractAudit.FileTree
