import Mathlib.Data.List.Nodup
import Mathlib.Order.Bounds.Basic
import ContractAudit.ImportClosure
import ContractAudit.Proofs.ImportTarget
import ContractAudit.Proofs.SourceFile

/-!
# A file with all that it imports

The search marks a path before it looks whether it lies in the root and can be read, so a mark
does not mean a file.  `Search.Inv` says what it means: a marked path that lies in the root and
can be read has been loaded, and a mark comes from the seed or from an import of a file loaded.
Files are loaded once and from paths that the source lists, which bounds the steps.

The files loaded are the least set with the seed that is `Closed` under imports that lie in the
root and can be read                                        (ofSeed_isLeast)
-/

namespace ContractAudit.ImportClosure

namespace Setting

/-- The paths that a file imports. -/
def targets (env : Setting) (f : SourceFile) : List Text :=
  (env.rules.resolve env.cwd env.root f.text f.path).value

/-- Loads a file. -/
def load (env : Setting) (p : Text) : Except ReadFault SourceFile :=
  SourceFile.load env.cwd env.root env.source p

/-- With a file, all that it imports is there, as far as it lies in the root and can be read. -/
def Closed (env : Setting) (S : Set Text) : Prop :=
  ∀ p t q, p ∈ S → env.source.read p = .ok t →
    q ∈ (env.rules.resolve env.cwd env.root t p).value →
    Path.isWithin env.cwd env.root q = true → env.source.Reads q → q ∈ S

end Setting

/-! ## The invariant -/

/-- What holds between two steps of a search, the imports of the files in `busy` being looked
at. -/
structure Search.Inv (env : Setting) (seed : SourceFile) (busy : List SourceFile) (s : Search) :
    Prop where
  first : s.files.getLast? = some seed
  loaded : ∀ f ∈ s.files, env.load f.path = .ok f
  nodup : (s.files.map (·.path)).Nodup
  canonical : ∀ f ∈ s.files, Path.IsCanonical f.path
  stack_subset : ∀ f ∈ s.stack, f ∈ s.files
  path_visited : ∀ f ∈ s.files, f.path ∈ s.visited
  origin : ∀ q ∈ s.visited, q = seed.path ∨ ∃ f ∈ s.files, q ∈ env.targets f
  complete : ∀ q ∈ s.visited, Path.isWithin env.cwd env.root q = true → env.source.Reads q →
    q ∈ s.files.map (·.path)
  scanned : ∀ f ∈ s.files, f ∈ s.stack ∨ f ∈ busy ∨ ∀ q ∈ env.targets f, q ∈ s.visited
  least : ∀ S : Set Text, seed.path ∈ S → env.Closed S → ∀ f ∈ s.files, f.path ∈ S

section
variable {env : Setting} {seed : SourceFile} {busy : List SourceFile} {s : Search}

/-- A path that lies outside the root or cannot be read is only marked. -/
theorem Search.Inv.pass (h : Search.Inv env seed busy s) {f : SourceFile} {q : Text}
    (hf : f ∈ s.files) (hq : q ∈ env.targets f)
    (hno : Path.isWithin env.cwd env.root q = true → ¬ env.source.Reads q) :
    Search.Inv env seed busy { s with visited := q :: s.visited } where
  first := h.first
  loaded := h.loaded
  nodup := h.nodup
  canonical := h.canonical
  stack_subset := h.stack_subset
  path_visited g hg := List.mem_cons_of_mem q (h.path_visited g hg)
  origin x hx := by
    rcases List.mem_cons.1 hx with rfl | hx
    · exact Or.inr ⟨f, hf, hq⟩
    · exact h.origin x hx
  complete x hx hw hr := by
    rcases List.mem_cons.1 hx with rfl | hx
    · exact absurd hr (hno hw)
    · exact h.complete x hx hw hr
  scanned g hg := by
    rcases h.scanned g hg with hg | hg | hg
    · exact Or.inl hg
    · exact Or.inr (Or.inl hg)
    · exact Or.inr (Or.inr fun x hx => List.mem_cons_of_mem q (hg x hx))
  least := h.least

/-- A path that is new, lies in the root and can be read is loaded. -/
theorem Search.Inv.push (h : Search.Inv env seed busy s) {f g : SourceFile} {q : Text}
    (hf : f ∈ s.files) (hq : q ∈ env.targets f) (hc : Path.IsCanonical q)
    (hnew : q ∉ s.visited) (hw : Path.isWithin env.cwd env.root q = true)
    (hg : env.load q = .ok g) :
    Search.Inv env seed busy ⟨g :: s.files, q :: s.visited, g :: s.stack⟩ := by
  obtain ⟨hpath, -, hread⟩ := SourceFile.load_eq_ok_iff.1 hg
  refine ⟨?_, ?_, ?_, ?_, ?_, ?_, ?_, ?_, ?_, ?_⟩
  · rw [List.getLast?_cons, h.first]
    rfl
  · intro x hx
    rcases List.mem_cons.1 hx with rfl | hx
    · rw [hpath]; exact hg
    · exact h.loaded x hx
  · rw [List.map_cons, List.nodup_cons, hpath]
    refine ⟨fun hm => hnew ?_, h.nodup⟩
    obtain ⟨x, hx, hxq⟩ := List.mem_map.1 hm
    exact hxq ▸ h.path_visited x hx
  · intro x hx
    rcases List.mem_cons.1 hx with rfl | hx
    · rw [hpath]; exact hc
    · exact h.canonical x hx
  · intro x hx
    rcases List.mem_cons.1 hx with rfl | hx
    · exact List.mem_cons_self
    · exact List.mem_cons_of_mem g (h.stack_subset x hx)
  · intro x hx
    rcases List.mem_cons.1 hx with rfl | hx
    · rw [hpath]; exact List.mem_cons_self
    · exact List.mem_cons_of_mem q (h.path_visited x hx)
  · intro x hx
    rcases List.mem_cons.1 hx with rfl | hx
    · exact Or.inr ⟨f, List.mem_cons_of_mem g hf, hq⟩
    · rcases h.origin x hx with hx | ⟨y, hy, hx⟩
      · exact Or.inl hx
      · exact Or.inr ⟨y, List.mem_cons_of_mem g hy, hx⟩
  · intro x hx hxw hxr
    rw [List.map_cons, hpath]
    rcases List.mem_cons.1 hx with rfl | hx
    · exact List.mem_cons_self
    · exact List.mem_cons_of_mem q (h.complete x hx hxw hxr)
  · intro x hx
    rcases List.mem_cons.1 hx with rfl | hx
    · exact Or.inl List.mem_cons_self
    · rcases h.scanned x hx with hx | hx | hx
      · exact Or.inl (List.mem_cons_of_mem g hx)
      · exact Or.inr (Or.inl hx)
      · exact Or.inr (Or.inr fun y hy => List.mem_cons_of_mem q (hx y hy))
  · intro S hseed hS x hx
    rcases List.mem_cons.1 hx with rfl | hx
    · have hfS := h.least S hseed hS f hf
      have hft := (SourceFile.load_eq_ok_iff.1 (h.loaded f hf)).2.2
      rw [hpath]
      exact hS f.path f.text q hfS hft hq hw ⟨x.text, hread⟩
    · exact h.least S hseed hS x hx

/-! ## Steps -/

variable (hcwd : Path.isAbsolute env.cwd = true) (hroot : Path.isAbsolute env.root = true)
  (hread : env.source.FaultsExpected)
include hcwd hroot hread

/-- **One import.** -/
theorem reach_spec (h : Search.Inv env seed busy s) {f : SourceFile} {q : Text}
    (hf : f ∈ s.files) (hq : q ∈ env.targets f) :
    ∃ new s', (reach env s q).value = .ok s' ∧ Search.Inv env seed busy s' ∧ q ∈ s'.visited ∧
      (∀ x ∈ s.visited, x ∈ s'.visited) ∧ s'.files = new ++ s.files ∧
      s'.stack = new ++ s.stack := by
  have hc : Path.IsCanonical q := ProjectRules.isCanonical_of_mem_resolve hcwd hroot hq
  have hsub : ∀ x ∈ s.visited, x ∈ q :: s.visited := fun x hx => List.mem_cons_of_mem q hx
  unfold reach
  rw [List.contains_eq_mem]
  by_cases hv : q ∈ s.visited
  · rw [if_pos (decide_eq_true hv)]
    exact ⟨[], s, rfl, h, hv, fun x hx => hx, rfl, rfl⟩
  · rw [if_neg (by simpa using hv)]
    by_cases hw : Path.isWithin env.cwd env.root q = true
    · simp only [hw, Bool.not_true, Bool.false_eq_true, if_false]
      cases hl : SourceFile.load env.cwd env.root env.source q with
      | ok g => exact ⟨[g], _, rfl, h.push hf hq hc hv hw hl, List.mem_cons_self, hsub, rfl, rfl⟩
      | error e =>
        simp only [SourceFile.isExpected_of_load (Path.ne_nil_of_isCanonical hc) hread hl, if_true]
        refine ⟨[], _, rfl, h.pass hf hq fun _ hr => ?_, List.mem_cons_self, hsub, rfl, rfl⟩
        obtain ⟨g, hg⟩ := (SourceFile.exists_load_iff (Path.ne_nil_of_isCanonical hc)).2 hr
        rw [hl] at hg
        cases hg
    · have hwf : Path.isWithin env.cwd env.root q = false := by simpa using hw
      simp only [hwf, Bool.not_false, if_true]
      exact ⟨[], _, rfl, h.pass hf hq fun h' => absurd h' hw, List.mem_cons_self, hsub, rfl, rfl⟩

/-- **All imports of a file.** -/
theorem reachAll_spec {f : SourceFile} (targets : List Text) (h : Search.Inv env seed busy s)
    (hf : f ∈ s.files) (hq : ∀ q ∈ targets, q ∈ env.targets f) :
    ∃ new s', (reachAll env targets s).value = .ok s' ∧ Search.Inv env seed busy s' ∧
      (∀ q ∈ targets, q ∈ s'.visited) ∧ (∀ x ∈ s.visited, x ∈ s'.visited) ∧
      s'.files = new ++ s.files ∧ s'.stack = new ++ s.stack := by
  induction targets generalizing s with
  | nil => exact ⟨[], s, rfl, h, by simp, fun x hx => hx, rfl, rfl⟩
  | cons q rest ih =>
    obtain ⟨new1, s1, he1, h1, hq1, hsub1, hfiles1, hstack1⟩ :=
      reach_spec hcwd hroot hread h hf (hq q List.mem_cons_self)
    obtain ⟨new2, s2, he2, h2, hq2, hsub2, hfiles2, hstack2⟩ :=
      ih h1 (by rw [hfiles1]; exact List.mem_append_right _ hf)
        fun x hx => hq x (List.mem_cons_of_mem q hx)
    refine ⟨new2 ++ new1, s2, ?_, h2, ?_, fun x hx => hsub2 x (hsub1 x hx), ?_, ?_⟩
    · unfold reachAll
      rw [Logged.value_bind, he1]
      exact he2
    · intro x hx
      rcases List.mem_cons.1 hx with rfl | hx
      · exact hsub2 x hq1
      · exact hq2 x hx
    · rw [hfiles2, hfiles1, List.append_assoc]
    · rw [hstack2, hstack1, List.append_assoc]

/-- **One file.**  Its imports have been looked at when the next one is. -/
theorem scan_spec (h : Search.Inv env seed [] s) {f : SourceFile} {rest : List SourceFile}
    (hs : s.stack = f :: rest) :
    ∃ new s', (reachAll env (env.targets f) { s with stack := rest }).value = .ok s' ∧
      Search.Inv env seed [] s' ∧ s'.files = new ++ s.files ∧ s'.stack = new ++ rest := by
  have hf : f ∈ s.files := h.stack_subset f (by rw [hs]; exact List.mem_cons_self)
  have hbusy : Search.Inv env seed [f] { s with stack := rest } := by
    refine ⟨h.first, h.loaded, h.nodup, h.canonical, fun x hx => h.stack_subset x ?_,
      h.path_visited, h.origin, h.complete, fun x hx => ?_, h.least⟩
    · rw [hs]
      exact List.mem_cons_of_mem f hx
    · rcases h.scanned x hx with hx | hx | hx
      · rw [hs] at hx
        rcases List.mem_cons.1 hx with rfl | hx
        · exact Or.inr (Or.inl List.mem_cons_self)
        · exact Or.inl hx
      · cases hx
      · exact Or.inr (Or.inr hx)
  obtain ⟨new, s', he, h', hall, -, hfiles, hstack⟩ :=
    reachAll_spec hcwd hroot hread (env.targets f) hbusy hf fun q hq => hq
  refine ⟨new, s', he, ?_, hfiles, hstack⟩
  refine ⟨h'.first, h'.loaded, h'.nodup, h'.canonical, h'.stack_subset, h'.path_visited,
    h'.origin, h'.complete, fun x hx => ?_, h'.least⟩
  rcases h'.scanned x hx with hx | hx | hx
  · exact Or.inl hx
  · obtain rfl := List.mem_singleton.1 hx
    exact Or.inr (Or.inr hall)
  · exact Or.inr (Or.inr hx)

omit hcwd hroot hread in
/-- The files loaded have paths that the source lists. -/
theorem Search.Inv.length_files_le (h : Search.Inv env seed busy s) :
    s.files.length ≤ env.source.support.length := by
  rw [← List.length_map (f := (·.path))]
  refine h.nodup.length_le_of_subset fun p hp => ?_
  obtain ⟨f, hf, rfl⟩ := List.mem_map.1 hp
  exact env.source.mem_support (SourceFile.load_eq_ok_iff.1 (h.loaded f hf)).2.2 (h.canonical f hf)

/-- Every step takes one of the files loaded from the stack for good. -/
theorem search_spec (fuel : Nat) (h : Search.Inv env seed [] s)
    (hf : env.source.support.length + s.stack.length ≤ fuel + s.files.length) :
    ∃ s', (search env fuel s).value = .ok s' ∧ Search.Inv env seed [] s' ∧ s'.stack = [] := by
  induction fuel generalizing s with
  | zero =>
    have hle := h.length_files_le
    exact ⟨s, rfl, h, List.length_eq_zero_iff.1 (by omega)⟩
  | succ fuel ih =>
    unfold search
    split
    · next hs => exact ⟨s, rfl, h, hs⟩
    · next f rest hs =>
      obtain ⟨new, s', he, h', hfiles, hstack⟩ := scan_spec hcwd hroot hread h hs
      unfold Setting.targets at he
      simp only [Logged.value_bind, he]
      apply ih h'
      rw [hfiles, hstack, List.length_append, List.length_append]
      rw [hs, List.length_cons] at hf
      omega

end

/-- Nothing but the seed has been reached. -/
theorem Search.inv_start {env : Setting} {p : Text} {seed : SourceFile} (hp : Path.IsCanonical p)
    (hseed : env.load p = .ok seed) : Search.Inv env seed [] ⟨[seed], [p], [seed]⟩ := by
  have hpath : seed.path = p := (SourceFile.load_eq_ok_iff.1 hseed).1
  refine ⟨rfl, ?_, by simp, ?_, fun f hf => hf, ?_, ?_, ?_, fun f hf => Or.inl hf, ?_⟩
  · intro f hf
    rw [List.mem_singleton.1 hf, hpath]
    exact hseed
  · intro f hf
    rw [List.mem_singleton.1 hf, hpath]
    exact hp
  · intro f hf
    rw [List.mem_singleton.1 hf, hpath]
    exact List.mem_singleton_self p
  · intro q hq
    rw [List.mem_singleton.1 hq, hpath]
    exact Or.inl rfl
  · intro q hq _ _
    rw [List.mem_singleton.1 hq, ← hpath]
    exact List.mem_singleton_self _
  · intro S hS _ f hf
    rw [List.mem_singleton.1 hf]
    exact hS

/-- When the stack is empty, the files loaded are the least closed set with the seed. -/
theorem Search.Inv.isLeast {env : Setting} {seed : SourceFile} {s : Search}
    (h : Search.Inv env seed [] s) (hs : s.stack = []) :
    IsLeast {S : Set Text | seed.path ∈ S ∧ env.Closed S} {q | q ∈ s.files.map (·.path)} := by
  refine ⟨⟨?_, ?_⟩, ?_⟩
  · exact List.mem_map_of_mem (List.mem_of_getLast? h.first)
  · intro p t q hp ht hq hw hr
    obtain ⟨f, hf, rfl⟩ := List.mem_map.1 hp
    obtain rfl : f.text = t :=
      Except.ok.inj ((SourceFile.load_eq_ok_iff.1 (h.loaded f hf)).2.2.symm.trans ht)
    rcases h.scanned f hf with hx | hx | hx
    · rw [hs] at hx
      cases hx
    · cases hx
    · exact h.complete q (hx q hq) hw hr
  · rintro S ⟨hseed, hS⟩ q hq
    obtain ⟨f, hf, rfl⟩ := List.mem_map.1 hq
    exact h.least S hseed hS f hf

/-- When the stack is empty, a path is marked if it is the seed or imported by a file loaded. -/
theorem Search.Inv.mem_visited_iff {env : Setting} {seed : SourceFile} {s : Search}
    (h : Search.Inv env seed [] s) (hs : s.stack = []) (q : Text) :
    q ∈ s.visited ↔ q = seed.path ∨ ∃ f ∈ s.files, q ∈ env.targets f := by
  refine ⟨h.origin q, ?_⟩
  rintro (rfl | ⟨f, hf, hq⟩)
  · exact h.path_visited seed (List.mem_of_getLast? h.first)
  · rcases h.scanned f hf with hx | hx | hx
    · rw [hs] at hx
      cases hx
    · cases hx
    · exact hx q hq

/-- The search of a closure ends with an empty stack, with any fuel that is enough. -/
theorem search_start_spec (rules : ProjectRules) {cwd root p : Text} {source : TextSource}
    {seed : SourceFile} (hcwd : Path.isAbsolute cwd = true) (hroot : Path.isAbsolute root = true)
    (hread : source.FaultsExpected) (hp : Path.IsCanonical p)
    (hseed : SourceFile.load cwd root source p = .ok seed) {fuel : Nat}
    (hfuel : source.support.length ≤ fuel) :
    ∃ s, (search ⟨cwd, root, rules, source⟩ fuel ⟨[seed], [p], [seed]⟩).value = .ok s ∧
      Search.Inv ⟨cwd, root, rules, source⟩ seed [] s ∧ s.stack = [] :=
  search_spec hcwd hroot hread fuel (Search.inv_start hp hseed) (Nat.add_le_add_right hfuel 1)

theorem exists_ofSeed (rules : ProjectRules) {cwd root p : Text} {source : TextSource}
    {seed : SourceFile} (hcwd : Path.isAbsolute cwd = true) (hroot : Path.isAbsolute root = true)
    (hread : source.FaultsExpected) (hp : Path.IsCanonical p)
    (hseed : SourceFile.load cwd root source p = .ok seed) :
    ∃ s, (ofSeed ⟨cwd, root, rules, source⟩ seed).value = .ok ⟨s.files.reverse, s.visited⟩ ∧
      Search.Inv ⟨cwd, root, rules, source⟩ seed [] s ∧ s.stack = [] := by
  have hfuel : source.support.length ≤ source.support.length + 2 := by omega
  obtain ⟨s, he, h, hs⟩ := search_start_spec rules hcwd hroot hread hp hseed hfuel
  refine ⟨s, ?_, h, hs⟩
  unfold ofSeed
  rw [(SourceFile.load_eq_ok_iff.1 hseed).1, Path.absolute_of_isCanonical hp, Logged.value_bind, he]
  rfl

/-! ## Top theorem -/

/-- **The closure of a file is the least set closed under its imports.**  The search ends with an
empty stack as soon as it has taken as many steps as the source lists paths; the files stand with
the seed first, each once, with the texts of the source; the paths marked are the seed and all
that the files import. -/
theorem ofSeed_isLeast (cwd root : Text) (rules : ProjectRules) (source : TextSource)
    (p : Text) (seed : SourceFile) (hcwd : Path.isAbsolute cwd = true)
    (hread : source.FaultsExpected) (hp : Path.IsCanonical p)
    (hseed : SourceFile.load cwd (Path.absolute cwd root) source p = .ok seed) :
    let env : Setting := ⟨cwd, Path.absolute cwd root, rules, source⟩
    (∀ fuel, source.support.length ≤ fuel →
      ∃ s, (search env fuel ⟨[seed], [p], [seed]⟩).value = .ok s ∧ s.stack = []) ∧
    ∃ c, (ofSeed env seed).value = .ok c ∧ c.files.head? = some seed ∧
      (c.files.map (·.path)).Nodup ∧
      (∀ f ∈ c.files, source.read f.path = .ok f.text ∧
        Path.relative? cwd env.root f.path = some f.relative) ∧
      IsLeast {S : Set Text | p ∈ S ∧ env.Closed S} {q | q ∈ c.files.map (·.path)} ∧
      ∀ q, q ∈ c.visited ↔ q = p ∨ ∃ f ∈ c.files, q ∈ env.targets f := by
  intro env
  have hroot : Path.isAbsolute env.root = true := (Path.isCanonical_absolute hcwd root).1
  have hpath : seed.path = p := (SourceFile.load_eq_ok_iff.1 hseed).1
  refine ⟨fun fuel hf => ?_, ?_⟩
  · obtain ⟨s, he, -, hs⟩ := search_start_spec rules hcwd hroot hread hp hseed hf
    exact ⟨s, he, hs⟩
  · obtain ⟨s, hof, h, hs⟩ := exists_ofSeed rules hcwd hroot hread hp hseed
    refine ⟨⟨s.files.reverse, s.visited⟩, hof, ?_, ?_, ?_, ?_, ?_⟩
    · rw [List.head?_reverse]
      exact h.first
    · rw [List.map_reverse]
      exact List.nodup_reverse.2 h.nodup
    · intro f hf
      obtain ⟨-, hrel, ht⟩ := SourceFile.load_eq_ok_iff.1 (h.loaded f (List.mem_reverse.1 hf))
      exact ⟨ht, hrel⟩
    · have hset : {q | q ∈ s.files.reverse.map (·.path)} = {q | q ∈ s.files.map (·.path)} := by
        ext q
        simp
      rw [hset, ← hpath]
      exact h.isLeast hs
    · intro q
      rw [← hpath]
      simpa using h.mem_visited_iff hs q

/-- Two files that import each other and themselves, and one that nobody imports. -/
theorem ofSeed_isLeast_cycle :
    let a : Text := "import \"./B.sol\"; import \"./A.sol\"; import \"./No.sol\";"
    let source : TextSource := .ofTexts
      [("/ws/A.sol", a), ("/ws/B.sol", "import '../ws/A.sol'; import './B.sol';"),
        ("/ws/C.sol", "import './A.sol';")]
      (.system .missing)
    let env : Setting := ⟨"/", Path.absolute "/" "ws", {}, source⟩
    let files : List Text := ["/ws/A.sol", "/ws/B.sol"]
    ∃ c, (ofSeed env ⟨"/ws/A.sol", "A.sol", a⟩).value = .ok c ∧ c.files.map (·.path) = files ∧
      IsLeast {S : Set Text | "/ws/A.sol".toList ∈ S ∧ env.Closed S} {q | q ∈ files} := by
  intro a source env files
  obtain ⟨-, c, hc, -, -, -, hleast, -⟩ :=
    ofSeed_isLeast "/" "ws" {} source "/ws/A.sol" ⟨"/ws/A.sol", "A.sol", a⟩ (by decide)
      (TextSource.faultsExpected_ofTexts fun _ => rfl) (by decide) (by decide +kernel)
  have hval : (ofSeed env ⟨"/ws/A.sol", "A.sol", a⟩).value.toOption.map
      (fun c => c.files.map (·.path)) = some files := by decide +kernel
  have hfiles : c.files.map (·.path) = files := by
    rw [show (ofSeed env ⟨"/ws/A.sol", "A.sol", a⟩).value = .ok c from hc] at hval
    exact Option.some.inj hval
  rw [hfiles] at hleast
  exact ⟨c, hc, hfiles, hleast⟩

end ContractAudit.ImportClosure
