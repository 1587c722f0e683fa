import ContractAudit.Proofs.Exchanges

/-!
# What the requests of a run hold

The body of a request is read by its keys: the members of its `code` are the files that are
submitted, and the `content` of each is its text.  They are those of the bundle it was made of.

The files of a project are canonical paths below its root, so they are spelled like the targets of
imports, and no two of them have one relative path.  A file is therefore in the bundle of its own
group and in no other, and the text under its relative path is its own.

    r.codeNames = r.bundle.names                            (codeNames_eq)
    r.body.at? ["code", name, "content"] = the text in the bundle under the name
                                                            (at?_content)
    a run that goes through all its groups covers the files of the project
                                                            (sent_covers)
-/

namespace ContractAudit

/-! ## Bodies -/

namespace Json

/-- The value that some keys lead to, one object after the other. -/
def at? : List Text → Json → Option Json
  | [], v => some v
  | key :: keys, .obj members => (find? key members).bind (at? keys)
  | _ :: _, _ => none

/-- The keys of an object. -/
def keys : Json → List Text
  | .obj members => members.map (·.1)
  | _ => []

end Json

namespace Request

/-- The names of the files that the body of a request submits. -/
def codeNames (r : Request) : List Text := ((r.body.at? ["code"]).map Json.keys).getD []

theorem codeNames_eq (r : Request) : r.codeNames = r.bundle.names := by
  show (r.bundle.map fun f => (f.1, Json.obj [("content", .str f.2)])).map (·.1) = _
  rw [List.map_map]
  rfl

/-- The text that the body of a request submits for a file. -/
theorem at?_content (r : Request) (name : Text) :
    r.body.at? ["code", name, "content"] = (lookup? name r.bundle).map .str := by
  show (Json.find? name (r.bundle.map _)).bind (Json.at? ["content"]) = _
  unfold Json.find?
  induction r.bundle with
  | nil => rfl
  | cons f rest ih =>
    rw [List.map_cons, List.find?_cons, lookup?]
    by_cases h : f.1 = name
    · simp only [h, beq_self_eq_true, if_true]
      rfl
    · simp only [beq_eq_false_iff_ne.2 h, h, if_false]
      exact ih

end Request

namespace Workspace

/-- The requests hold the readable files among some: each is in the code of exactly one, under its
relative path and with its text, nothing else is in any, and what an import joins is not torn
apart. -/
structure Covers (ws : Workspace) (files : List Text) (sent : List Request) : Prop where
  once : ∀ p ∈ files, ∀ t, ws.source.read p = .ok t →
    ∃ name, ws.nameOf? p = some name ∧
      ∃ i : Fin sent.length, sent[i].body.at? ["code", name, "content"] = some (.str t) ∧
        ∀ j : Fin sent.length, name ∈ sent[j].codeNames → j = i
  only : ∀ r ∈ sent, r.codeNames.Nodup ∧ ∀ name ∈ r.codeNames,
    ∃ p ∈ files, ∃ t, ws.nameOf? p = some name ∧ ws.source.read p = .ok t ∧
      r.body.at? ["code", name, "content"] = some (.str t)
  together : ∀ p ∈ files, ∀ q ∈ files, ∀ t, ws.source.read p = .ok t → ws.source.Reads q →
    (∃ u ∈ (ws.resolve t p).value, Path.absolute ws.cwd u = Path.absolute ws.cwd q) →
    ∀ m n, ws.nameOf? p = some m → ws.nameOf? q = some n →
      ∀ r ∈ sent, m ∈ r.codeNames ↔ n ∈ r.codeNames

theorem exists_load {ws : Workspace} {source : TextSource} {p t : Text} (hne : p ≠ [])
    (h : source.read p = .ok t) :
    ∃ name, ws.nameOf? p = some name ∧
      SourceFile.load ws.cwd ws.root source p = .ok ⟨p, name, t⟩ := by
  obtain ⟨name, hname⟩ := Path.exists_relative? ws.cwd ws.root hne
  exact ⟨name, hname, SourceFile.load_eq_ok_iff.2 ⟨rfl, hname, h⟩⟩

section
variable {ws : Workspace} {files : List Text} {g : ImportGraph} {groups : List (List Text)}
  (hws : ws.WellFormed) (hscan : (Scan.run ws.rules ws.tree ws.root).value = .ok files)
  (hbuild : (ImportGraph.build files ws.source.read ws.resolve).value = (g, none))
  (hpart : g.IsPartition groups)

include hws hscan in
theorem ne_nil_of_mem_files {p : Text} (hp : p ∈ files) : p ≠ [] :=
  Path.ne_nil_of_isCanonical
    (Scan.isCanonical_of_run (isCanonical_root hws) hws.named hscan hp)

include hbuild hpart

theorem mem_flatten_iff (p : Text) : p ∈ groups.flatten ↔ p ∈ files :=
  (hpart.mem_flatten p).trans ((ImportGraph.build_spec hbuild).2.1 p)

theorem mem_files_of_mem_group {group : List Text} (hg : group ∈ groups) {p : Text}
    (hp : p ∈ group) : p ∈ files :=
  (mem_flatten_iff hbuild hpart p).1 (List.mem_flatten.2 ⟨group, hg, hp⟩)

include hws hscan

/-- What a group has under the relative path of a file comes from this file. -/
theorem read_of_mem_bundle {group : List Text} {b : Bundle} (hg : group ∈ groups)
    (hb : (ws.bundle group).value = .ok b) {p t name : Text} (hp : p ∈ files)
    (hname : ws.nameOf? p = some name) (hmem : (name, t) ∈ b) :
    p ∈ group ∧ ws.later.read p = .ok t := by
  obtain ⟨q, hq, hload⟩ := (bundle_spec hb).2.2 name t hmem
  obtain ⟨-, hqname, hqread⟩ := SourceFile.load_eq_ok_iff.1 hload
  have he : p = q := Scan.relative?_injective (isCanonical_root hws) hws.named hscan ws.cwd hp
    (mem_files_of_mem_group hbuild hpart hg hq) (hname.trans hqname.symm)
  exact he ▸ ⟨hq, hqread⟩

/-- A relative path is in the bundle of a group if and only if its file is in the group. -/
theorem mem_names_iff {group : List Text} {b : Bundle} (hg : group ∈ groups)
    (hb : (ws.bundle group).value = .ok b) {p t name : Text} (hp : p ∈ files)
    (hread : ws.later.read p = .ok t) (hname : ws.nameOf? p = some name) :
    name ∈ b.names ↔ p ∈ group := by
  constructor
  · intro hn
    obtain ⟨⟨n, u⟩, hmem, rfl⟩ := List.mem_map.1 hn
    exact (read_of_mem_bundle hws hscan hbuild hpart hg hb hp hname hmem).1
  · intro hpg
    exact (bundle_spec hb).2.1 p hpg ⟨p, name, t⟩
      (SourceFile.load_eq_ok_iff.2 ⟨rfl, hname, hread⟩)

/-- What a group has under the relative path of a file of its is the text of the file. -/
theorem lookup?_bundle {group : List Text} {b : Bundle} (hg : group ∈ groups)
    (hb : (ws.bundle group).value = .ok b) {p t name : Text} (hp : p ∈ group)
    (hread : ws.later.read p = .ok t) (hname : ws.nameOf? p = some name) :
    lookup? name b = some t := by
  have hpfile := mem_files_of_mem_group hbuild hpart hg hp
  have hn := (mem_names_iff hws hscan hbuild hpart hg hb hpfile hread hname).2 hp
  obtain ⟨⟨n, u⟩, hmem, rfl⟩ := List.mem_map.1 hn
  obtain ⟨-, hu⟩ := read_of_mem_bundle hws hscan hbuild hpart hg hb hpfile hname hmem
  obtain rfl := Except.ok.inj (hread.symm.trans hu)
  exact (mem_iff_lookup? (bundle_spec hb).1).1 hmem

/-- No two of the bundles that are sent hold one file. -/
theorem pairwise_sent {p t name : Text} (hp : p ∈ files) (hread : ws.later.read p = .ok t)
    (hname : ws.nameOf? p = some name) :
    (groups.filterMap ws.sentOf?).Pairwise fun b b' => name ∈ b.names → name ∉ b'.names := by
  rw [List.pairwise_filterMap]
  refine hpart.disjoint.imp_of_mem fun hg hg' hd b hb b' hb' hn hn' => ?_
  have hmem :=
    (mem_names_iff hws hscan hbuild hpart hg (sentOf?_eq_some.1 hb).1 hp hread hname).1 hn
  have hmem' :=
    (mem_names_iff hws hscan hbuild hpart hg' (sentOf?_eq_some.1 hb').1 hp hread hname).1 hn'
  exact hd p hmem hmem'

omit hpart in
/-- A file of the project that another one imports is joined to it, however it is spelled. -/
theorem joined_of_mem_resolve {p q t u : Text} (hp : p ∈ files) (hq : q ∈ files)
    (hread : ws.source.read p = .ok t) (hu : u ∈ (ws.resolve t p).value)
    (he : Path.absolute ws.cwd u = Path.absolute ws.cwd q) : g.Joined p q := by
  -- both are canonical, so the target is the file itself
  have hcq := Scan.isCanonical_of_run (isCanonical_root hws) hws.named hscan hq
  have hcu := ProjectRules.isCanonical_of_mem_resolve hws.cwd (isCanonical_root hws).1 hu
  rw [Path.absolute_of_isCanonical hcq, Path.absolute_of_isCanonical hcu] at he
  subst he
  obtain ⟨-, -, hdeps⟩ := ImportGraph.build_spec hbuild
  exact .single (Or.inl ((hdeps p u).2 ⟨hp, hq, t, hread, hu⟩))

section
variable {sent : List Request} (hsent : sent.map (·.bundle) = groups.filterMap ws.sentOf?)
include hsent

omit hws hscan hbuild hpart in
theorem exists_group_of_sent {r : Request} (hr : r ∈ sent) :
    ∃ group ∈ groups, (ws.bundle group).value = .ok r.bundle := by
  have hb : r.bundle ∈ groups.filterMap ws.sentOf? := hsent ▸ List.mem_map_of_mem hr
  obtain ⟨group, hg, hs⟩ := List.mem_filterMap.1 hb
  exact ⟨group, hg, (sentOf?_eq_some.1 hs).1⟩

/-- A file that can be read is sent with its text, and in one request. -/
theorem exists_sent_of_read (hbundled : ∀ group ∈ groups, ∃ b, (ws.bundle group).value = .ok b)
    {p t name : Text} (hp : p ∈ files) (hread : ws.later.read p = .ok t)
    (hname : ws.nameOf? p = some name) :
    ∃ i : Fin sent.length, lookup? name sent[i].bundle = some t ∧
      ∀ j : Fin sent.length, name ∈ sent[j].bundle.names → j = i := by
  obtain ⟨group, hg, hpg⟩ := List.mem_flatten.1 ((mem_flatten_iff hbuild hpart p).2 hp)
  obtain ⟨b, hb⟩ := hbundled group hg
  have hmem := (mem_names_iff hws hscan hbuild hpart hg hb hp hread hname).2 hpg
  have hne : b ≠ [] := by
    rintro rfl
    cases hmem
  have hb' : b ∈ sent.map (·.bundle) :=
    hsent ▸ List.mem_filterMap.2 ⟨group, hg, sentOf?_eq_some.2 ⟨hb, hne⟩⟩
  obtain ⟨r, hr, rfl⟩ := List.mem_map.1 hb'
  obtain ⟨i, hi, rfl⟩ := List.mem_iff_getElem.1 hr
  refine ⟨⟨i, hi⟩, lookup?_bundle hws hscan hbuild hpart hg hb hpg hread hname, ?_⟩
  -- another request with the name would stand before or after this one
  have hpair := pairwise_sent hws hscan hbuild hpart hp hread hname
  rw [← hsent, List.pairwise_map, List.pairwise_iff_getElem] at hpair
  rintro ⟨j, hj⟩ hjn
  rcases Nat.lt_trichotomy j i with hlt | rfl | hlt
  · exact absurd hmem (hpair j i hj hi hlt hjn)
  · rfl
  · exact absurd hjn (hpair i j hi hj hlt hmem)

/-- The bundles of the groups cover the files, if the texts are still what they were. -/
theorem covers_of_sent (hsame : ∀ p, ws.later.read p = ws.source.read p)
    (hbundled : ∀ group ∈ groups, ∃ b, (ws.bundle group).value = .ok b) :
    ws.Covers files sent := by
  constructor
  case once =>
    intro p hp t hread
    rw [← hsame] at hread
    obtain ⟨name, hname, -⟩ := exists_load (ne_nil_of_mem_files hws hscan hp) hread
    obtain ⟨i, hi, hone⟩ :=
      exists_sent_of_read hws hscan hbuild hpart hsent hbundled hp hread hname
    refine ⟨name, hname, i, ?_, fun j hj => hone j (Request.codeNames_eq _ ▸ hj)⟩
    rw [Request.at?_content, hi]
    rfl
  case only =>
    intro r hr
    obtain ⟨group, hg, hb⟩ := exists_group_of_sent hsent hr
    obtain ⟨hnd, -, honly⟩ := bundle_spec hb
    rw [Request.codeNames_eq]
    refine ⟨hnd, fun name hname => ?_⟩
    obtain ⟨⟨name, t⟩, ht, rfl⟩ := List.mem_map.1 hname
    obtain ⟨p, hp, hload⟩ := honly name t ht
    obtain ⟨-, hname, hread⟩ := SourceFile.load_eq_ok_iff.1 hload
    refine ⟨p, mem_files_of_mem_group hbuild hpart hg hp, t, hname, hsame p ▸ hread, ?_⟩
    rw [Request.at?_content, (mem_iff_lookup? hnd).1 ht]
    rfl
  case together =>
    intro p hp q hq t hread hreads htarget m n hm hn r hr
    obtain ⟨u, hu, he⟩ := htarget
    obtain ⟨v, hv⟩ := hreads
    obtain ⟨group, hg, hb⟩ := exists_group_of_sent hsent hr
    obtain ⟨-, hnodes, -⟩ := ImportGraph.build_spec hbuild
    rw [Request.codeNames_eq,
      mem_names_iff hws hscan hbuild hpart hg hb hp ((hsame p).trans hread) hm,
      mem_names_iff hws hscan hbuild hpart hg hb hq ((hsame q).trans hv) hn]
    exact hpart.mem_iff_of_joined hg ((hnodes p).2 hp) ((hnodes q).2 hq)
      (joined_of_mem_resolve hws hscan hbuild hp hq hread hu he)

end

end

/-! ## Top theorem -/

/-- **Nothing is lost, sent twice or torn apart.**  A run that goes through all its groups, while
the texts stay what they are, has sent every readable file of the project in the code of exactly
one request, under its relative path and with its text, and nothing else; files that an import
joins go together. -/
theorem sent_covers {σ : Type} (ws : Workspace) (hws : ws.WellFormed)
    (hsame : ∀ p, ws.later.read p = ws.source.read p) (answer : Service σ) (service : σ)
    (tally : Tally)
    (hend : WentThrough (ws.complete answer service (ws.beginAll tally).value).value.outcome) :
    ∃ files, (Scan.run ws.rules ws.tree ws.root).value = .ok files ∧
      ws.Covers files ((ws.exchanges answer service (ws.beginAll tally).value).map (·.1)) := by
  obtain ⟨groups, c, hgroups, hpass⟩ := exists_passage hend
  obtain ⟨files, g, hscan, -, hbuild, hpart⟩ := groups_eq_ok hgroups
  exact ⟨files, hscan, covers_of_sent hws hscan hbuild hpart hpass.requests hsame hpass.bundled⟩

/-- A file below a directory imports one above it, and another one imports a file that cannot be
read; the first reply is an error. -/
theorem sent_covers_importers :
    let tree : FileTree := .directory [("ws", .directory
      [("a", .directory [("A.sol", .file [])]), ("B.sol", .file []), ("C.sol", .file []),
        ("D.sol", .file [])])]
    let source : TextSource := .ofTexts
      [("/ws/a/A.sol", "import '../B.sol';"), ("/ws/B.sol", "contract B {}"),
        ("/ws/D.sol", "import './C.sol';")]
      (.system .missing)
    let ws : Workspace := { cwd := "/", settings := .ofWorkspace "ws", tree, source }
    let answer : Service Nat := fun n _ => (.answer (if n = 0 then 500 else 200) [123, 125], n + 1)
    let sent := (ws.exchanges answer 0 (ws.beginAll {}).value).map (·.1)
    let files : List Text := ["/ws/B.sol", "/ws/C.sol", "/ws/D.sol", "/ws/a/A.sol"]
    let names : List (List Text) := [["B.sol", "a/A.sol"], ["D.sol"]]
    ws.WellFormed ∧ (∀ p, ws.later.read p = ws.source.read p) ∧
      WentThrough (ws.complete answer 0 (ws.beginAll {}).value).value.outcome ∧
      sent.map (·.codeNames) = names ∧ ws.Covers files sent := by
  intro tree source ws answer sent files names
  have hws : ws.WellFormed := by decide +kernel
  have hend : WentThrough (ws.complete answer 0 (ws.beginAll {}).value).value.outcome :=
    Or.inl ⟨{}, by decide +kernel⟩
  have hnames : sent.map (·.codeNames) = names := by decide +kernel
  have hscan : (Scan.run ws.rules ws.tree ws.root).value = .ok files := by decide +kernel
  obtain ⟨found, hfound, hcovers⟩ := sent_covers ws hws (fun _ => rfl) answer 0 {} hend
  obtain rfl := Except.ok.inj (hscan.symm.trans hfound)
  exact ⟨hws, fun _ => rfl, hend, hnames, hcovers⟩

end Workspace

end ContractAudit
