import ContractAudit.Proofs.ImportClosure
import ContractAudit.Proofs.Partition

/-!
# How a closure grows, and the group that holds it

Whatever the source and the seed are, a closure is made by steps of one kind: a file is added that
a file before it imports, that lies in the root and that is read (`Grown`).  Each such step
follows an edge of the import graph if the file is one of the files of the graph, so a closure
among these files never leaves the group of its seed.

    (ofSeed env seed).value = .ok c → c.files has grown from the seed
                                                            (grown_ofSeed)
    all files of a closure are files of the graph → they are in the group of the seed
                                                            (ofSeed_subset_group)
-/

namespace ContractAudit.ImportClosure

/-- Files that have grown from a seed, the one added last first. -/
inductive Grown (env : Setting) (seed : SourceFile) : List SourceFile → Prop
  | seed : Grown env seed [seed]
  | load {files : List SourceFile} {f g : SourceFile} (h : Grown env seed files) (hf : f ∈ files)
      (htarget : g.path ∈ env.targets f) (hw : Path.isWithin env.cwd env.root g.path = true)
      (hload : env.load g.path = .ok g) : Grown env seed (g :: files)

/-- What holds between two steps of any search. -/
structure Search.IsGrown (env : Setting) (seed : SourceFile) (s : Search) : Prop where
  grown : Grown env seed s.files
  stack_subset : ∀ f ∈ s.stack, f ∈ s.files

section
variable {env : Setting} {seed : SourceFile} {s s' : Search}

/-! ## Steps -/

theorem isGrown_reach {f : SourceFile} {q : Text} (h : s.IsGrown env seed) (hf : f ∈ s.files)
    (hq : q ∈ env.targets f) (he : (reach env s q).value = .ok s') :
    s'.IsGrown env seed ∧ ∀ x ∈ s.files, x ∈ s'.files := by
  unfold reach at he
  cases hv : s.visited.contains q with
  | true =>
    simp only [hv, if_true] at he
    cases he
    exact ⟨h, fun x hx => hx⟩
  | false =>
    cases hw : Path.isWithin env.cwd env.root q with
    | false =>
      simp only [hv, hw, Bool.false_eq_true, Bool.not_false, if_true, if_false] at he
      cases he
      exact ⟨⟨h.grown, h.stack_subset⟩, fun x hx => hx⟩
    | true =>
      simp only [hv, hw, Bool.false_eq_true, Bool.not_true, if_false] at he
      cases hl : SourceFile.load env.cwd env.root env.source q with
      | ok g =>
        simp only [hl] at he
        cases he
        obtain rfl := (SourceFile.load_eq_ok_iff.1 hl).1
        refine ⟨⟨.load h.grown hf hq hw hl, fun x hx => ?_⟩, fun x => List.mem_cons_of_mem g⟩
        rcases List.mem_cons.1 hx with rfl | hx
        · exact List.mem_cons_self
        · exact List.mem_cons_of_mem g (h.stack_subset x hx)
      | error e =>
        simp only [hl] at he
        split at he
        · cases he
          exact ⟨⟨h.grown, h.stack_subset⟩, fun x hx => hx⟩
        · cases he

theorem isGrown_reachAll {f : SourceFile} {targets : List Text} (h : s.IsGrown env seed)
    (hf : f ∈ s.files) (hq : ∀ q ∈ targets, q ∈ env.targets f)
    (he : (reachAll env targets s).value = .ok s') : s'.IsGrown env seed := by
  induction targets generalizing s with
  | nil =>
    cases he
    exact h
  | cons q rest ih =>
    unfold reachAll at he
    rw [Logged.value_bind] at he
    cases hreach : (reach env s q).value with
    | error e =>
      rw [hreach] at he
      cases he
    | ok t =>
      rw [hreach] at he
      obtain ⟨ht, hsub⟩ := isGrown_reach h hf (hq q List.mem_cons_self) hreach
      exact ih ht (hsub f hf) (fun x hx => hq x (List.mem_cons_of_mem q hx)) he

theorem isGrown_search {fuel : Nat} (h : s.IsGrown env seed)
    (he : (search env fuel s).value = .ok s') : s'.IsGrown env seed := by
  induction fuel generalizing s with
  | zero =>
    cases he
    exact h
  | succ fuel ih =>
    unfold search at he
    split at he
    · cases he
      exact h
    · next f rest hs =>
      have hstack := h.stack_subset
      rw [hs] at hstack
      have hrest : Search.IsGrown env seed { s with stack := rest } :=
        ⟨h.grown, fun x hx => hstack x (List.mem_cons_of_mem f hx)⟩
      rw [Logged.value_bind, Logged.value_bind] at he
      cases hall : (reachAll env (env.targets f) { s with stack := rest }).value with
      | error e =>
        unfold Setting.targets at hall
        rw [hall] at he
        cases he
      | ok t =>
        have ht := isGrown_reachAll hrest (hstack f List.mem_cons_self) (fun q hq => hq) hall
        unfold Setting.targets at hall
        rw [hall] at he
        exact ih ht he

/-- **A closure grows from its seed.** -/
theorem grown_ofSeed {c : ImportClosure} (h : (ofSeed env seed).value = .ok c) :
    Grown env seed c.files.reverse := by
  unfold ofSeed at h
  rw [Logged.value_bind] at h
  cases hs : (search env (env.source.support.length + 2)
      ⟨[seed], [Path.absolute env.cwd seed.path], [seed]⟩).value with
  | error e =>
    rw [hs] at h
    cases h
  | ok s =>
    rw [hs] at h
    cases h
    rw [List.reverse_reverse]
    exact (isGrown_search ⟨.seed, fun f hf => hf⟩ hs).grown

/-! ## Along the edges of a graph -/

/-- A closure among the files of a graph goes along its edges. -/
theorem Grown.joined {files : List Text} {grown : List SourceFile} {g : ImportGraph}
    (hbuild : (ImportGraph.build files env.source.read
      (env.rules.resolve env.cwd env.root)).value = (g, none))
    (hread : env.source.read seed.path = .ok seed.text) (h : Grown env seed grown)
    (hfiles : ∀ f ∈ grown, f.path ∈ files) :
    ∀ f ∈ grown, env.source.read f.path = .ok f.text ∧ g.Joined seed.path f.path := by
  obtain ⟨-, -, hedges⟩ := ImportGraph.build_spec hbuild
  induction h with
  | seed =>
    intro f hf
    obtain rfl := List.mem_singleton.1 hf
    exact ⟨hread, .refl⟩
  | @load grown f k _ hf htarget _ hload ih =>
    obtain ⟨hk, hfiles⟩ := List.forall_mem_cons.1 hfiles
    obtain ⟨htext, hjoined⟩ := ih hfiles f hf
    refine List.forall_mem_cons.2 ⟨⟨(SourceFile.load_eq_ok_iff.1 hload).2.2, ?_⟩, ih hfiles⟩
    exact hjoined.tail (Or.inl ((hedges _ _).2 ⟨hfiles f hf, hk, f.text, htext, htarget⟩))

end

/-! ## Top theorem -/

/-- **A closure lies in the group of its seed.**  Graph and closure come to an end where no fault
but those of files occurs; and whenever they do, all files of a closure among the files of the
graph are in the one group that holds the seed. -/
theorem ofSeed_subset_group (cwd root : Text) (rules : ProjectRules) (source : TextSource)
    (files : List Text) (p : Text) (seed : SourceFile) (hcwd : Path.isAbsolute cwd = true)
    (hfiles : ∀ q ∈ files, Path.IsCanonical q) (hp : p ∈ files)
    (hseed : SourceFile.load cwd (Path.absolute cwd root) source p = .ok seed) :
    let env : Setting := ⟨cwd, Path.absolute cwd root, rules, source⟩
    let built := (ImportGraph.build files source.read (rules.resolve cwd env.root)).value
    (source.FaultsExpected → built.2 = none ∧ ∃ c, (ofSeed env seed).value = .ok c) ∧
    ∀ c, built.2 = none → (ofSeed env seed).value = .ok c → (∀ f ∈ c.files, f.path ∈ files) →
      ∃ group ∈ built.1.partition.value, p ∈ group ∧
        (∀ other ∈ built.1.partition.value, p ∈ other → other = group) ∧
        ∀ f ∈ c.files, f.path ∈ group := by
  intro env built
  have hroot : Path.isAbsolute env.root = true := (Path.isCanonical_absolute hcwd root).1
  obtain ⟨hpath, -, hread⟩ := SourceFile.load_eq_ok_iff.1 hseed
  refine ⟨fun hexpected => ⟨?_, ?_⟩, fun c hnone hc hsub => ?_⟩
  · obtain ⟨g, hg⟩ := ImportGraph.exists_build files (rules.resolve cwd env.root) hexpected
    exact congrArg Prod.snd hg
  · obtain ⟨s, hs, -⟩ := exists_ofSeed rules hcwd hroot hexpected (hfiles p hp) hseed
    exact ⟨_, hs⟩
  · have hbuild : (ImportGraph.build files env.source.read
        (env.rules.resolve env.cwd env.root)).value = (built.1, none) :=
      Prod.ext rfl hnone
    obtain ⟨hg, hnodes, -⟩ := ImportGraph.build_spec hbuild
    have hpart := ImportGraph.isPartition_groups hg
    have hjoined := (grown_ofSeed hc).joined hbuild (by rw [hpath]; exact hread)
      fun f hf => hsub f (List.mem_reverse.1 hf)
    obtain ⟨group, hgroup, hpgroup⟩ :=
      List.mem_flatten.1 ((hpart.mem_flatten p).2 ((hnodes p).2 hp))
    refine ⟨group, hgroup, hpgroup, fun other ho hpo => hpart.eq_of_mem ho hgroup hpo hpgroup, ?_⟩
    intro f hf
    have hj := (hjoined f (List.mem_reverse.2 hf)).2
    rw [hpath] at hj
    exact (hpart.mem_iff_of_joined hgroup ((hnodes p).2 hp) ((hnodes _).2 (hsub f hf)) hj).1 hpgroup

/-- A circle of three files, one of which also imports a file outside the root and one that is not
there; a file that nobody in the circle imports belongs to their group, another one does not. -/
theorem ofSeed_subset_group_circle :
    let source : TextSource := .ofTexts
      [("/ws/A.sol", "import './lib/B.sol'; import '../X.sol'; import './No.sol';"),
        ("/ws/lib/B.sol", "import '../C.sol';"), ("/ws/C.sol", "import './A.sol';"),
        ("/ws/D.sol", "import './C.sol';"), ("/ws/E.sol", []), ("/X.sol", [])]
      (.system .missing)
    let files : List Text := ["/ws/A.sol", "/ws/C.sol", "/ws/D.sol", "/ws/E.sol", "/ws/lib/B.sol"]
    let env : Setting := ⟨"/", Path.absolute "/" "ws", {}, source⟩
    let graph := (ImportGraph.build files source.read (env.rules.resolve "/" env.root)).value.1
    let closure : List Text := ["/ws/C.sol", "/ws/A.sol", "/ws/lib/B.sol"]
    ∃ c, (ofSeed env ⟨"/ws/C.sol", "C.sol", "import './A.sol';"⟩).value = .ok c ∧
      c.files.map (·.path) = closure ∧
      ∃ group ∈ graph.partition.value, "/ws/C.sol".toList ∈ group ∧
        (∀ other ∈ graph.partition.value, "/ws/C.sol".toList ∈ other → other = group) ∧
        ∀ f ∈ c.files, f.path ∈ group := by
  intro source files env graph closure
  obtain ⟨hends, hgroup⟩ := ofSeed_subset_group "/" "ws" {} source files "/ws/C.sol"
    ⟨"/ws/C.sol", "C.sol", "import './A.sol';"⟩ (by decide) (by decide +kernel) (by decide)
    (by decide +kernel)
  obtain ⟨hnone, c, hc⟩ := hends (TextSource.faultsExpected_ofTexts fun _ => rfl)
  have hval : (ofSeed env ⟨"/ws/C.sol", "C.sol", "import './A.sol';"⟩).value.toOption.map
      (fun c => c.files.map (·.path)) = some closure := by decide +kernel
  have hfiles : c.files.map (·.path) = closure := by
    rw [show (ofSeed env ⟨"/ws/C.sol", "C.sol", "import './A.sol';"⟩).value = .ok c from hc] at hval
    exact Option.some.inj hval
  have hsub : ∀ q ∈ closure, q ∈ files := by decide
  refine ⟨c, hc, hfiles, hgroup c hnone hc fun f hf => hsub _ ?_⟩
  rw [← hfiles]
  exact List.mem_map_of_mem hf

end ContractAudit.ImportClosure
