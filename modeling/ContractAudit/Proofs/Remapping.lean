import ContractAudit.Proofs.ImportTarget
import ContractAudit.Proofs.Table

/-!
# Remapped imports

A remapping fits an import that begins with its key.  Two keys of one length that begin one and the
same import are one key, so of the remappings that fit there is one with the longest key, in
whichever order the table lists them.  It decides what the import means; packages, and the file
that imports, count only where no remapping fits.

    rules.remapped? spec = none ↔ rules.IsUnmapped spec     (remapped?_eq_none_iff)
    rules.remapped? spec = some p → p is that of a remapping that fits
                                                            (fits_of_remapped?)
    (rules.target cwd root file spec).value = o ↔ rules.Means cwd root file spec o
                                                            (target_eq_iff_means)
-/

namespace ContractAudit.ProjectRules

variable {rules : ProjectRules} {cwd root file spec : Text}

/-! ## The remapping that is used -/

/-- A remapping whose key begins the import and is the longest one that does; `rest` is what
follows it. -/
structure Fits (rules : ProjectRules) (spec key value rest : Text) : Prop where
  mem : (key, value) ∈ rules.remappings
  spec_eq : spec = key ++ rest
  longest : ∀ r ∈ rules.remappings, r.1 <+: spec → r.1.length ≤ key.length

/-- No remapping fits the import. -/
def IsUnmapped (rules : ProjectRules) (spec : Text) : Prop :=
  ∀ r ∈ rules.remappings, ¬ r.1 <+: spec

instance (rules : ProjectRules) (spec : Text) : Decidable (rules.IsUnmapped spec) :=
  inferInstanceAs (Decidable (∀ r ∈ rules.remappings, _))

theorem pairwise_byLength (rules : ProjectRules) :
    rules.byLength.Pairwise fun a b => b.1.length ≤ a.1.length := by
  have h : rules.byLength.Pairwise fun a b => decide (b.1.length ≤ a.1.length) = true := by
    apply pairwise_sortBy
    · intro a b c hab hbc
      exact decide_eq_true (Nat.le_trans (of_decide_eq_true hbc) (of_decide_eq_true hab))
    · intro a b
      exact (Nat.le_total b.1.length a.1.length).imp decide_eq_true decide_eq_true
  exact h.imp of_decide_eq_true

/-- The first one that fits has a key at least as long as any other that does. -/
theorem longest_of_find? {r : Text × Text}
    (h : rules.byLength.find? (fun r => Text.startsWith r.1 spec) = some r) :
    ∀ s ∈ rules.remappings, s.1 <+: spec → s.1.length ≤ r.1.length := by
  obtain ⟨-, front, back, hsplit, hfront⟩ := List.find?_eq_some_iff_append.1 h
  have hsorted := rules.pairwise_byLength
  rw [hsplit] at hsorted
  intro s hs hfits
  have hmem : s ∈ front ++ r :: back := by
    rw [← hsplit]
    exact mem_sortBy.2 hs
  rcases List.mem_append.1 hmem with hs | hs
  · have hno := hfront s hs
    rw [(Text.startsWith_iff s.1 spec).2 hfits] at hno
    cases hno
  · rcases List.mem_cons.1 hs with rfl | hs
    · exact Nat.le_refl _
    · exact (List.pairwise_cons.1 (List.pairwise_append.1 hsorted).2.1).1 s hs

theorem fits_of_remapped? {p : Text} (h : rules.remapped? spec = some p) :
    ∃ key value rest, rules.Fits spec key value rest ∧ p = value ++ rest := by
  unfold remapped? at h
  obtain ⟨⟨key, value⟩, hfind, rfl⟩ := Option.map_eq_some_iff.1 h
  have hstarts : Text.startsWith key spec = true :=
    List.find?_some (p := fun r : Text × Text => Text.startsWith r.1 spec) hfind
  obtain ⟨rest, hrest⟩ := (Text.startsWith_iff key spec).1 hstarts
  refine ⟨key, value, rest, ⟨?_, hrest.symm, longest_of_find? hfind⟩, ?_⟩
  · exact mem_sortBy.1 (List.mem_of_find?_eq_some hfind)
  · rw [← hrest, List.drop_left]

theorem remapped?_eq_none_iff : rules.remapped? spec = none ↔ rules.IsUnmapped spec := by
  unfold remapped? IsUnmapped
  rw [Option.map_eq_none_iff, List.find?_eq_none]
  unfold byLength
  simp only [mem_sortBy, Text.startsWith_iff]

theorem not_isUnmapped_of_fits {key value rest : Text} (h : rules.Fits spec key value rest) :
    ¬ rules.IsUnmapped spec :=
  fun hno => hno (key, value) h.mem ⟨rest, h.spec_eq.symm⟩

/-- Beginnings of one text that are equally long are equal, so the longest key is one key. -/
theorem Fits.unique (hkeys : (rules.remappings.map (·.1)).Nodup)
    {key value rest key' value' rest' : Text} (h : rules.Fits spec key value rest)
    (h' : rules.Fits spec key' value' rest') : key = key' ∧ value = value' ∧ rest = rest' := by
  have hlen : key.length = key'.length :=
    Nat.le_antisymm (h'.longest _ h.mem ⟨rest, h.spec_eq.symm⟩)
      (h.longest _ h'.mem ⟨rest', h'.spec_eq.symm⟩)
  obtain ⟨rfl, rfl⟩ := List.append_inj (h.spec_eq.symm.trans h'.spec_eq) hlen
  have hvalue := ((mem_iff_lookup? hkeys).1 h.mem).symm.trans ((mem_iff_lookup? hkeys).1 h'.mem)
  exact ⟨rfl, Option.some.inj hvalue, rfl⟩

/-! ## What an import means -/

/-- No package begins the import. -/
def IsUnpackaged (rules : ProjectRules) (spec : Text) : Prop :=
  ∀ lead ∈ rules.packageLeads, ¬ lead <+: spec

instance (rules : ProjectRules) (spec : Text) : Decidable (rules.IsUnpackaged spec) :=
  inferInstanceAs (Decidable (∀ lead ∈ rules.packageLeads, _))

/-- The file that an import of a source means, if it means one. -/
inductive Means (rules : ProjectRules) (cwd root file spec : Text) : Option Text → Prop
  /-- The longest remapping that fits, seen from the root. -/
  | remapped {key value rest : Text} (h : rules.Fits spec key value rest) :
      Means rules cwd root file spec (some (Path.normalize (Path.join root (value ++ rest))))
  /-- A package, which no remapping fits. -/
  | package {lead : Text} (hr : rules.IsUnmapped spec) (hl : lead ∈ rules.packageLeads)
      (h : lead <+: spec) : Means rules cwd root file spec none
  /-- Anything else is seen from the directory of the file. -/
  | plain (hr : rules.IsUnmapped spec) (hp : rules.IsUnpackaged spec) :
      Means rules cwd root file spec
        (some (Path.normalize (Path.join (Path.directory (Path.absolute cwd file)) spec)))

theorem Means.unique (hkeys : (rules.remappings.map (·.1)).Nodup) {o o' : Option Text}
    (h : rules.Means cwd root file spec o) (h' : rules.Means cwd root file spec o') : o = o' := by
  cases h with
  | remapped hf =>
    cases h' with
    | remapped hf' =>
      obtain ⟨-, rfl, rfl⟩ := hf.unique hkeys hf'
      rfl
    | package hr => exact absurd hr (not_isUnmapped_of_fits hf)
    | plain hr => exact absurd hr (not_isUnmapped_of_fits hf)
  | package hr hl hlead =>
    cases h' with
    | remapped hf => exact absurd hr (not_isUnmapped_of_fits hf)
    | package => rfl
    | plain _ hp => exact absurd hlead (hp _ hl)
  | plain hr hp =>
    cases h' with
    | remapped hf => exact absurd hr (not_isUnmapped_of_fits hf)
    | package _ hl hlead => exact absurd hlead (hp _ hl)
    | plain => rfl

/-- What an import means is read off the entries of the table, not off their order. -/
theorem Means.of_perm {table : List (Text × Text)} (ht : table.Perm rules.remappings)
    {o : Option Text} (h : rules.Means cwd root file spec o) :
    Means { rules with remappings := table } cwd root file spec o := by
  have hunmapped : rules.IsUnmapped spec → IsUnmapped { rules with remappings := table } spec :=
    fun hr r hmem => hr r (ht.mem_iff.1 hmem)
  cases h with
  | remapped hf =>
    exact .remapped ⟨ht.mem_iff.2 hf.mem, hf.spec_eq, fun r hr => hf.longest r (ht.mem_iff.1 hr)⟩
  | package hr hl hlead => exact .package (hunmapped hr) hl hlead
  | plain hr hp => exact .plain (hunmapped hr) hp

theorem means_targetOf (hs : rules.isSource spec = true) :
    rules.Means cwd root file spec (rules.targetOf cwd root file spec) := by
  unfold targetOf
  rw [hs]
  simp only [Bool.not_true, Bool.false_eq_true, if_false]
  cases hr : rules.remapped? spec with
  | some p =>
    obtain ⟨key, value, rest, hf, rfl⟩ := fits_of_remapped? hr
    exact .remapped hf
  | none =>
    have hno := remapped?_eq_none_iff.1 hr
    simp only []
    split
    · next hany =>
      obtain ⟨lead, hl, hlead⟩ := List.any_eq_true.1 hany
      exact .package hno hl ((Text.startsWith_iff lead spec).1 hlead)
    · next hany =>
      refine .plain hno fun lead hl hlead => hany ?_
      exact List.any_eq_true.2 ⟨lead, hl, (Text.startsWith_iff lead spec).2 hlead⟩

theorem isMalformed_eq_false_iff : isMalformed spec = false ↔ spec ≠ [] ∧ '\x00' ∉ spec := by
  unfold isMalformed
  rw [Bool.or_eq_false_iff, List.isEmpty_eq_false_iff, List.contains_eq_mem,
    decide_eq_false_iff_not]

theorem means_target (hne : spec ≠ []) (hnul : '\x00' ∉ spec) (hs : rules.isSource spec = true) :
    rules.Means cwd root file spec (rules.target cwd root file spec).value := by
  rw [value_target, isMalformed_eq_false_iff.2 ⟨hne, hnul⟩]
  exact means_targetOf hs

/-! ## Top theorem -/

/-- **The longest remapping decides, in any order of the table.**  In a table with one entry for
each key, an import of a source means the longest remapping that fits, else no file if it is of a
package, else what is seen from the directory of the file; another order of the entries makes no
difference. -/
theorem target_eq_iff_means (hkeys : (rules.remappings.map (·.1)).Nodup) (hne : spec ≠ [])
    (hnul : '\x00' ∉ spec) (hs : rules.isSource spec = true) :
    (∀ o, (rules.target cwd root file spec).value = o ↔ rules.Means cwd root file spec o) ∧
    ∀ table, table.Perm rules.remappings →
      (target { rules with remappings := table } cwd root file spec).value =
        (rules.target cwd root file spec).value := by
  have hmeans : rules.Means cwd root file spec (rules.target cwd root file spec).value :=
    means_target hne hnul hs
  constructor
  · intro o
    constructor
    · rintro rfl
      exact hmeans
    · exact hmeans.unique hkeys
  · intro table ht
    have hkeys' : (table.map (·.1)).Nodup := (ht.map (·.1)).nodup_iff.2 hkeys
    have hturned : Means { rules with remappings := table } cwd root file spec
        (target { rules with remappings := table } cwd root file spec).value :=
      means_target hne hnul hs
    exact hturned.unique hkeys' (hmeans.of_perm ht)

/-- The empty key, a package and a directory of the package all begin an import of that package;
the table is read from both ends. -/
theorem target_eq_iff_means_nested :
    let table : List (Text × Text) := [([], "any/"), ("@a/", "lib/"), ("@a/b/", "../deep//")]
    let rules : ProjectRules := { remappings := table }
    let turned : ProjectRules := { remappings := table.reverse }
    let spec : Text := "@a/b/../X.sol"
    let p : Text := "/X.sol"
    rules.Fits spec "@a/b/" "../deep//" "../X.sol" ∧
    (rules.target "/" "/ws" "/ws/A.sol" spec).value = some p ∧
    (turned.target "/" "/ws" "/ws/A.sol" spec).value = some p := by
  intro table rules turned spec p
  have hfits : rules.Fits spec "@a/b/" "../deep//" "../X.sol" :=
    ⟨by decide, by decide, by decide⟩
  have hp : Path.normalize (Path.join "/ws" (("../deep//" : Text) ++ ("../X.sol" : Text))) = p := by
    decide +kernel
  obtain ⟨hmeans, hperm⟩ := @target_eq_iff_means rules "/" "/ws" "/ws/A.sol" spec
    (by decide) (by decide) (by decide) (by decide)
  have htarget : (rules.target "/" "/ws" "/ws/A.sol" spec).value = some p :=
    (hmeans (some p)).2 (hp ▸ .remapped hfits)
  exact ⟨hfits, htarget, (hperm table.reverse table.reverse_perm).trans htarget⟩

end ContractAudit.ProjectRules
