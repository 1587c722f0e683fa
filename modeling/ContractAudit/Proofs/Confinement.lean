import ContractAudit.Proofs.Batching
import ContractAudit.Proofs.ClosureGrowth

/-!
# Imports do not lead out of the root

That a path lies within the root is decided on the names that it shares with the root, and its
relative path is counted on the same names.  So a path within the root goes down from it, its
relative path neither begins at `/` nor goes up, and this is so of everything that an import adds
to a closure.  A run over the whole project sends files that a search has found below the root,
whatever they import.

    isWithin cwd root p → relative? cwd root p = some name → IsInside cwd root p name
                                                            (isInside_of_isWithin)
    every file that a closure adds and every name that a run sends is inside the root
                                                            (isInside_imported_and_sent)
-/

namespace ContractAudit

namespace Path

/-! ## Inside a root -/

/-- The path is below the root or the root itself, and its relative path says so: it does not begin
at `/` and goes nowhere up. -/
structure IsInside (cwd root p name : Text) : Prop where
  not_absolute : isAbsolute name = false
  not_up : up ∉ Text.split '/' name
  root_first : segments (absolute cwd root) <+: segments (absolute cwd p)

theorem commonLead_prefix (as bs : List Text) :
    commonLead as bs <+: as ∧ commonLead as bs <+: bs := by
  induction as generalizing bs with
  | nil => exact ⟨List.nil_prefix, List.nil_prefix⟩
  | cons a as ih =>
    cases bs with
    | nil => exact ⟨List.nil_prefix, List.nil_prefix⟩
    | cons b bs =>
      unfold commonLead
      split
      · next h =>
        obtain rfl := h
        exact ⟨(List.prefix_cons_inj a).2 (ih bs).1, (List.prefix_cons_inj a).2 (ih bs).2⟩
      · exact ⟨List.nil_prefix, List.nil_prefix⟩

/-- The relative path of a path whose names begin with those of the directory. -/
theorem relative?_of_segments {cwd start p name : Text} {more : List Text}
    (hp : segments (absolute cwd p) = segments (absolute cwd start) ++ more)
    (h : relative? cwd start p = some name) :
    name = if more = [] then here else Text.join ['/'] more := by
  unfold relative? at h
  split at h
  · cases h
  · rw [hp] at h
    simp only [commonLead_append, Nat.sub_self, List.replicate_zero, List.nil_append,
      List.drop_left] at h
    cases more with
    | nil => exact (Option.some.inj h).symm
    | cons s more => exact (Option.some.inj h).symm

section
variable {cwd root p name : Text} (hcwd : isAbsolute cwd = true)
include hcwd

theorem isName_of_mem_segments_absolute {s : Text} (h : s ∈ segments (absolute cwd p)) :
    IsName s := by
  obtain ⟨l, names, hl, hn, he⟩ := isCanonical_iff.1 (isCanonical_absolute hcwd p)
  rw [he, segments_below hl hn] at h
  exact hn s h

theorem isInside_of_prefix (hroot : segments (absolute cwd root) <+: segments (absolute cwd p))
    (h : relative? cwd root p = some name) : IsInside cwd root p name := by
  obtain ⟨more, hmore⟩ := hroot
  have hn : ∀ s ∈ more, IsName s := fun s hs =>
    isName_of_mem_segments_absolute hcwd (hmore ▸ List.mem_append_right _ hs)
  rw [relative?_of_segments hmore.symm h]
  split
  · exact ⟨by decide, by decide, ⟨more, hmore⟩⟩
  · next hne =>
    have hsplit := Text.split_join '/' more (fun s hs => (hn s hs).2.1) hne
    refine ⟨?_, ?_, ⟨more, hmore⟩⟩
    · rw [Bool.eq_false_iff]
      intro ha
      unfold isAbsolute at ha
      rw [Text.startsWith_iff] at ha
      obtain ⟨t, ht⟩ := ha
      exact head?_join hn (by rw [← ht]; rfl)
    · rw [hsplit]
      exact fun hup => (hn up hup).2.2.2 rfl

/-- The names of a path within a root begin with those of the root.  Of a root with two slashes in
front there is no such path. -/
theorem prefix_of_isWithin (h : isWithin cwd root p = true) :
    segments (absolute cwd root) <+: segments (absolute cwd p) := by
  obtain ⟨l, names, hl, hn, he⟩ := isCanonical_iff.1 (isCanonical_absolute hcwd root)
  unfold isWithin at h
  simp only [beq_iff_eq] at h
  rw [he, segments_below hl hn] at h
  rw [he, segments_below hl hn]
  obtain ⟨hnames, hshared⟩ := commonLead_prefix names (segments (absolute cwd p))
  generalize commonLead names (segments (absolute cwd p)) = shared at h hnames hshared
  have hs : ∀ s ∈ shared, IsName s := fun s hs => hn s (hnames.subset hs)
  unfold below at h
  rcases hl with rfl | rfl
  · have hjoin : Text.join ['/'] shared = Text.join ['/'] names := List.cons.inj h |>.2
    rw [← join_injective hs hn hjoin]
    exact hshared
  · have hjoin : Text.join ['/'] shared = '/' :: Text.join ['/'] names := List.cons.inj h |>.2
    exact absurd (by rw [hjoin]; rfl) (head?_join hs)

/-- **Within a root.** -/
theorem isInside_of_isWithin (hw : isWithin cwd root p = true)
    (h : relative? cwd root p = some name) : IsInside cwd root p name :=
  isInside_of_prefix hcwd (prefix_of_isWithin hcwd hw) h

end

end Path

/-! ## Closures -/

namespace ImportClosure

/-- Every file but the seed has been added from within the root. -/
theorem Grown.isInside {env : Setting} {seed : SourceFile} {files : List SourceFile}
    (hcwd : Path.isAbsolute env.cwd = true) (h : Grown env seed files) :
    ∃ added, files = added ++ [seed] ∧
      ∀ f ∈ added, Path.IsInside env.cwd env.root f.path f.relative := by
  induction h with
  | seed => exact ⟨[], rfl, List.forall_mem_nil _⟩
  | @load files f g _ _ _ hw hload ih =>
    obtain ⟨added, rfl, hadded⟩ := ih
    have hrel := (SourceFile.load_eq_ok_iff.1 hload).2.1
    exact ⟨g :: added, rfl,
      List.forall_mem_cons.2 ⟨Path.isInside_of_isWithin hcwd hw hrel, hadded⟩⟩

theorem isInside_ofSeed {env : Setting} {seed : SourceFile} {c : ImportClosure}
    (hcwd : Path.isAbsolute env.cwd = true) (h : (ofSeed env seed).value = .ok c) :
    ∃ added, c.files = seed :: added ∧
      ∀ f ∈ added, Path.IsInside env.cwd env.root f.path f.relative := by
  obtain ⟨added, hfiles, hadded⟩ := (grown_ofSeed h).isInside hcwd
  refine ⟨added.reverse, ?_, fun f hf => hadded f (List.mem_reverse.1 hf)⟩
  rw [← List.reverse_reverse c.files, hfiles, List.reverse_append]
  rfl

end ImportClosure

/-! ## Requests -/

namespace Workspace

variable {σ : Type}

/-- The service after a run, also if the run has not gone through all groups. -/
def serviceAfter : Except (Ending σ) (Course σ) → σ
  | .error e => e.service
  | .ok c => c.service

theorem service_endOfRun (count : Nat) (r : Except (Ending σ) (Course σ)) :
    (endOfRun count r).service = serviceAfter r := by
  cases r <;> rfl

variable {ws : Workspace} {answer : Service σ}

theorem serviceAfter_submitGroup (c : Course σ) (r : Request) :
    serviceAfter (ws.submitGroup answer c r) = (answer c.service r).2 := by
  unfold submitGroup
  simp only []
  split
  · split
    · rfl
    · rfl
  · split
    · rfl
    · rfl

/-- What is sent at a group is its bundle. -/
theorem mem_exchanges_groupStep {c : Course (σ × List Exchange)} {group : List Text} {x : Exchange}
    (hx : x ∈ (serviceAfter (ws.groupStep answer.recording c group)).2) :
    x ∈ c.service.2 ∨ (ws.bundle group).value = .ok x.1.bundle := by
  unfold groupStep at hx
  split at hx
  · exact Or.inl hx
  · exact Or.inl hx
  · next b _ hb =>
    split at hx
    · exact Or.inl hx
    · next r hr =>
      rw [serviceAfter_submitGroup] at hx
      rcases List.mem_append.1 hx with hx | hx
      · exact Or.inl hx
      · obtain rfl := List.mem_singleton.1 hx
        rw [hb, ← bundle_of_request hr]
        exact Or.inr rfl

theorem mem_exchanges_runGroups {groups : List (List Text)} {c : Course (σ × List Exchange)}
    {x : Exchange} (hx : x ∈ (serviceAfter (ws.runGroups answer.recording groups c)).2) :
    x ∈ c.service.2 ∨ ∃ group ∈ groups, (ws.bundle group).value = .ok x.1.bundle := by
  induction groups generalizing c with
  | nil => exact Or.inl hx
  | cons group rest ih =>
    have hstep := @mem_exchanges_groupStep σ ws answer c group x
    unfold runGroups at hx
    cases hs : ws.groupStep answer.recording c group with
    | error e =>
      rw [hs] at hx hstep
      exact (hstep hx).imp id fun h => ⟨group, List.mem_cons_self, h⟩
    | ok c' =>
      rw [hs] at hx hstep
      rcases ih hx with hx | ⟨other, ho, h⟩
      · exact (hstep hx).imp id fun h => ⟨group, List.mem_cons_self, h⟩
      · exact Or.inr ⟨other, List.mem_cons_of_mem group ho, h⟩

/-- Every request of a run is the bundle of a group, however the run ends. -/
theorem exists_group_of_exchange {service : σ} {tally : Tally} {x : Exchange}
    (hx : x ∈ ws.exchanges answer service (ws.beginAll tally).value) :
    ∃ groups, ws.groups.value = .ok groups ∧
      ∃ group ∈ groups, (ws.bundle group).value = .ok x.1.bundle := by
  unfold exchanges at hx
  rw [value_complete_beginAll] at hx
  split at hx
  · split at hx
    · cases hx
    · next groups hg =>
      rw [service_endOfRun] at hx
      rcases mem_exchanges_runGroups hx with hx | hx
      · cases hx
      · exact ⟨groups, hg, hx⟩
  · cases hx

/-- The names that a run sends are the relative paths of files below the root. -/
theorem isInside_of_exchange {service : σ} {tally : Tally} {x : Exchange} {name : Text}
    (hws : ws.WellFormed) (hx : x ∈ ws.exchanges answer service (ws.beginAll tally).value)
    (hname : name ∈ x.1.codeNames) :
    ∃ p, ws.nameOf? p = some name ∧ Path.IsInside ws.cwd ws.root p name := by
  obtain ⟨groups, hgroups, group, hgroup, hb⟩ := exists_group_of_exchange hx
  obtain ⟨files, g, hscan, -, hbuild, hpart⟩ := groups_eq_ok hgroups
  rw [Request.codeNames_eq] at hname
  obtain ⟨⟨name, t⟩, ht, rfl⟩ := List.mem_map.1 hname
  obtain ⟨p, hp, hload⟩ := (bundle_spec hb).2.2 _ t ht
  have hrel := (SourceFile.load_eq_ok_iff.1 hload).2.1
  have hfile := mem_files_of_mem_group hbuild hpart hgroup hp
  obtain ⟨l, names, hl, hn, hroot, hbelow⟩ :=
    Scan.isBelow_of_run (isCanonical_root hws) hws.named hscan
  obtain ⟨more, -, hmore, rfl⟩ := hbelow p hfile
  have hall : ∀ s ∈ names ++ more, Path.IsName s := List.forall_mem_append.2 ⟨hn, hmore⟩
  refine ⟨_, hrel, Path.isInside_of_prefix hws.cwd ?_ hrel⟩
  rw [hroot, Path.absolute_of_isCanonical (Path.isCanonical_below hl hn),
    Path.absolute_of_isCanonical (Path.isCanonical_below hl hall), Path.segments_below hl hn,
    Path.segments_below hl hall]
  exact List.prefix_append names more

end Workspace

/-! ## Top theorem -/

/-- **Nothing outside the root is pulled in.**  Whatever the rules, the source and the seed are,
every file that a closure adds to its seed is inside the root; and so is every name in the code of
every request of a run over the whole project, however the run ends. -/
theorem isInside_imported_and_sent :
    (∀ (env : ImportClosure.Setting) (seed : SourceFile) (c : ImportClosure),
      Path.isAbsolute env.cwd = true → (ImportClosure.ofSeed env seed).value = .ok c →
      ∃ added, c.files = seed :: added ∧
        ∀ f ∈ added, Path.IsInside env.cwd env.root f.path f.relative) ∧
    ∀ (σ : Type) (ws : Workspace) (answer : Service σ) (service : σ) (tally : Tally),
      ws.WellFormed → ∀ x ∈ ws.exchanges answer service (ws.beginAll tally).value,
        ∀ name ∈ x.1.codeNames,
          ∃ p, ws.nameOf? p = some name ∧ Path.IsInside ws.cwd ws.root p name := by
  constructor
  · exact fun env seed c hcwd hc => ImportClosure.isInside_ofSeed hcwd hc
  · exact fun σ ws answer service tally hws x hx name hname =>
      Workspace.isInside_of_exchange hws hx hname

/-- Remappings to an absolute path and to the directory above, a directory whose name begins like
the root, a way up beyond `/` and down into the root again, and repeated slashes. -/
theorem isInside_imported_and_sent_climbing :
    let text : Text := "import '../ws2/X.sol'; import '/etc/E.sol'; import '@a/E.sol'; " ++
      "import '@b/X.sol'; import '../../../ws/B.sol'; import './/lib/../C.sol';"
    let source : TextSource := .ofTexts
      [("/ws/A.sol", text), ("/ws/B.sol", "import './A.sol';"), ("/ws/C.sol", []), ("/X.sol", []),
        ("/ws2/X.sol", []), ("/etc/E.sol", [])]
      (.system .missing)
    let rules : ProjectRules := { remappings := [("@a/", "/etc/"), ("@b/", "../")] }
    let env : ImportClosure.Setting := ⟨"/", "/ws", rules, source⟩
    let seed : SourceFile := ⟨"/ws/A.sol", "A.sol", text⟩
    let tree : FileTree := .directory [("ws", .directory
      [("A.sol", .file []), ("B.sol", .file []), ("C.sol", .file [])])]
    let ws : Workspace := { cwd := "/", settings := .ofWorkspace "ws", tree, source }
    let answer : Service Nat := fun n _ => (.answer 200 [123, 125], n + 1)
    let names : List Text := ["B.sol", "C.sol"]
    let sent : List (List Text) := [["A.sol", "C.sol", "B.sol"]]
    (∃ c added, (ImportClosure.ofSeed env seed).value = .ok c ∧ c.files = seed :: added ∧
      added.map (·.relative) = names ∧
      ∀ f ∈ added, Path.IsInside env.cwd env.root f.path f.relative) ∧
    (ws.exchanges answer 0 (ws.beginAll {}).value).map (·.1.codeNames) = sent ∧
    ∀ x ∈ ws.exchanges answer 0 (ws.beginAll {}).value, ∀ name ∈ x.1.codeNames,
      ∃ p, ws.nameOf? p = some name ∧ Path.IsInside ws.cwd ws.root p name := by
  intro text source rules env seed tree ws answer names sent
  refine ⟨?_, by decide +kernel,
    isInside_imported_and_sent.2 Nat ws answer 0 {} (by decide +kernel)⟩
  have hval : (ImportClosure.ofSeed env seed).value.toOption.map
      (fun c => c.files.map (·.relative)) = some (seed.relative :: names) := by decide +kernel
  cases hc : (ImportClosure.ofSeed env seed).value with
  | error f =>
    rw [hc] at hval
    cases hval
  | ok c =>
    obtain ⟨added, hfiles, hinside⟩ := isInside_imported_and_sent.1 env seed c (by decide) hc
    rw [hc] at hval
    refine ⟨c, added, rfl, hfiles, ?_, hinside⟩
    have hnames : c.files.map (·.relative) = seed.relative :: names := Option.some.inj hval
    rw [hfiles] at hnames
    exact (List.cons.inj hnames).2

end ContractAudit
