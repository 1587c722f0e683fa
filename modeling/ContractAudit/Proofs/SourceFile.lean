import ContractAudit.Proofs.Path
import ContractAudit.Proofs.Table
import ContractAudit.TextSource

/-!
# Loading files

A file is loaded if and only if its source reads it: the path relative to the root is there for
every path but the empty one.  A bundle that files are added to one by one has one text under each
relative path.
-/

namespace ContractAudit

/-- A source whose faults are all of files and their contents. -/
def TextSource.FaultsExpected (source : TextSource) : Prop :=
  ∀ p f, source.read p = .error f → f.isExpected = true

/-- A source reads a path. -/
def TextSource.Reads (source : TextSource) (p : Text) : Prop := ∃ t, source.read p = .ok t

theorem TextSource.faultsExpected_ofTexts {texts : List (Text × Text)} {fault : Text → ReadFault}
    (h : ∀ p, (fault p).isExpected = true) : (ofTexts texts fault).FaultsExpected := by
  intro p f hf
  unfold ofTexts at hf
  simp only [] at hf
  split at hf
  · cases hf
  · obtain rfl := Except.error.inj hf
    exact h p

namespace Path

theorem ne_nil_of_isAbsolute {p : Text} (h : isAbsolute p = true) : p ≠ [] := by
  rintro rfl
  cases h

theorem ne_nil_of_isCanonical {p : Text} (h : IsCanonical p) : p ≠ [] :=
  ne_nil_of_isAbsolute h.1

theorem exists_relative? (cwd root : Text) {p : Text} (h : p ≠ []) :
    ∃ r, relative? cwd root p = some r := by
  unfold relative?
  rw [if_neg (by simpa using h)]
  simp only []
  split
  · exact ⟨_, rfl⟩
  · exact ⟨_, rfl⟩

end Path

namespace SourceFile

variable {cwd root p : Text} {source : TextSource}

theorem load_eq_ok_iff {f : SourceFile} :
    load cwd root source p = .ok f ↔
      f.path = p ∧ Path.relative? cwd root p = some f.relative ∧ source.read p = .ok f.text := by
  unfold load
  cases hr : Path.relative? cwd root p with
  | none => simp
  | some r =>
    cases ht : source.read p with
    | error e => simp [Except.map]
    | ok t =>
      obtain ⟨path, relative, text⟩ := f
      simp only [Except.map, Except.ok.injEq, mk.injEq, Option.some.injEq]
      exact Iff.and eq_comm Iff.rfl

theorem exists_load_iff (hp : p ≠ []) :
    (∃ f, load cwd root source p = .ok f) ↔ source.Reads p := by
  constructor
  · rintro ⟨f, hf⟩
    exact ⟨f.text, (load_eq_ok_iff.1 hf).2.2⟩
  · rintro ⟨t, ht⟩
    obtain ⟨r, hr⟩ := Path.exists_relative? cwd root hp
    exact ⟨⟨p, r, t⟩, load_eq_ok_iff.2 ⟨rfl, hr, ht⟩⟩

theorem isExpected_of_load (hp : p ≠ []) (hs : source.FaultsExpected) {f : ReadFault}
    (h : load cwd root source p = .error f) : f.isExpected = true := by
  obtain ⟨r, hr⟩ := Path.exists_relative? cwd root hp
  unfold load at h
  rw [hr] at h
  cases ht : source.read p with
  | error e =>
    rw [ht] at h
    obtain rfl : e = f := by simpa [Except.map] using h
    exact hs p e ht
  | ok t => rw [ht] at h; cases h

end SourceFile

namespace Bundle

variable {b : Bundle} {f : SourceFile}

theorem mem_names_add (b : Bundle) (f : SourceFile) (n : Text) :
    n ∈ (b.add f).names ↔ n ∈ b.names ∨ n = f.relative := by
  unfold add names
  rw [keys_put]
  split
  · next h =>
    constructor
    · exact Or.inl
    · rintro (hn | rfl)
      · exact hn
      · exact h
  · rw [List.mem_append, List.mem_singleton]

theorem nodup_names_add (h : b.names.Nodup) : (b.add f).names.Nodup :=
  nodup_keys_put h f.relative f.text

theorem mem_of_mem_add {e : Text × Text} (h : e ∈ b.add f) : e = (f.relative, f.text) ∨ e ∈ b :=
  mem_of_mem_put h

end Bundle

end ContractAudit
