import Mathlib.Data.List.Induction
import ContractAudit.Proofs.Lines
import ContractAudit.Proofs.Walk

/-!
# Texts that are open

The texts that are open in an editor stand in front of a fallback as one store.  Where a path leads
to is read off its text, segment by segment (`LeadsTo`), and two paths with the same place have
the same absolute form.  Whatever was written, under whatever spellings, a path has the text that
was written last at its place; where nothing was written the fallback answers for the absolute form.

    LeadsTo cwd p l names → absolute cwd p = below l names  (absolute_of_leadsTo)
    SamePlace cwd p q ↔ absolute cwd p = absolute cwd q     (samePlace_iff)
    read (front ++ (q, t) :: behind) p = t    if only q and nothing behind has the place of p
                                                            (isOneStore_readAfter)
-/

namespace ContractAudit

namespace Path

open Text (StopsAt)

/-! ## Places, read off a path -/

/-- A segment ends where the text does, or in front of a slash. -/
def PieceEnds (p : Text) : Prop := StopsAt (fun c => ! (c == '/')) p

/-- From the beginning of a segment on, the path leads from one directory to another. -/
inductive Walks : List Text → Text → List Text → Prop
  | done {dir : List Text} : Walks dir [] dir
  | slash {dir names : List Text} {p : Text} : Walks dir p names → Walks dir ('/' :: p) names
  | stay {dir names : List Text} {p : Text} :
      PieceEnds p → Walks dir p names → Walks dir (here ++ p) names
  | back {dir names : List Text} {p : Text} :
      PieceEnds p → Walks dir.dropLast p names → Walks dir (up ++ p) names
  | down {dir names : List Text} {s p : Text} :
      IsName s → PieceEnds p → Walks (dir ++ [s]) p names → Walks dir (s ++ p) names

/-- The place of a path: the slashes in front of it that count, one or exactly two, and the names
below them.  A path without a slash in front is seen from the working directory. -/
inductive LeadsTo (cwd : Text) : Text → Text → List Text → Prop
  | one {p : Text} {names : List Text} :
      p.head? ≠ some '/' → Walks [] p names → LeadsTo cwd ('/' :: p) ['/'] names
  | two {p : Text} {names : List Text} :
      p.head? ≠ some '/' → Walks [] p names → LeadsTo cwd ('/' :: '/' :: p) ['/', '/'] names
  | many {p : Text} {names : List Text} :
      Walks [] p names → LeadsTo cwd ('/' :: '/' :: '/' :: p) ['/'] names
  | seen {p l : Text} {dir names : List Text} :
      p.head? ≠ some '/' → LeadsTo cwd cwd l dir → Walks dir p names → LeadsTo cwd p l names

/-- Two spellings of one path. -/
def SamePlace (cwd p q : Text) : Prop := ∃ l names, LeadsTo cwd p l names ∧ LeadsTo cwd q l names

/-! ## Places, computed -/

theorem pieceEnds_iff {p : Text} : PieceEnds p ↔ p = [] ∨ ∃ q, p = '/' :: q := by
  cases p with
  | nil => exact ⟨fun _ => Or.inl rfl, fun _ => Text.stopsAt_nil⟩
  | cons c q =>
    unfold PieceEnds
    rw [Text.stopsAt_cons]
    simp

/-- What stands in front of the end of a segment is walked along first. -/
theorem walk_segments_append {p : Text} (hp : PieceEnds p) (dir : List Text) (s : Text) :
    walk dir (segments (s ++ p)) = walk (walk dir (segments s)) (segments p) := by
  rcases pieceEnds_iff.1 hp with rfl | ⟨q, rfl⟩
  · rw [List.append_nil]
    rfl
  · rw [segments_append_slash, segments_slash, walk_append]

theorem Walks.walk_eq {dir names : List Text} {p : Text} (h : Walks dir p names) :
    walk dir (segments p) = names := by
  induction h with
  | done => rfl
  | slash _ ih => rw [segments_slash, ih]
  | stay hp _ ih =>
    rw [walk_segments_append hp]
    exact ih
  | back hp _ ih =>
    rw [walk_segments_append hp]
    exact ih
  | @down dir names s p hs hp _ ih =>
    have hstep : walk dir [s] = dir ++ [s] :=
      walk_of_isName (List.forall_mem_singleton.2 hs) dir
    rw [walk_segments_append hp, segments_eq_singleton hs.1 hs.2.1, hstep, ih]

theorem Walks.isName {dir names : List Text} {p : Text} (h : Walks dir p names)
    (hdir : ∀ s ∈ dir, IsName s) : ∀ s ∈ names, IsName s := by
  rw [← h.walk_eq]
  exact isName_of_mem_walk (fun s hs => (mem_segments hs).2) hdir

/-- A segment in front of a text that is read already, whatever kind it is of. -/
theorem Walks.segment {s p : Text} (hs : '/' ∉ s) (hp : PieceEnds p)
    (h : ∀ dir, ∃ names, Walks dir p names) (dir : List Text) :
    ∃ names, Walks dir (s ++ p) names := by
  by_cases hempty : s = []
  · subst hempty
    exact h dir
  by_cases hhere : s = here
  · subst hhere
    obtain ⟨names, hwalk⟩ := h dir
    exact ⟨names, .stay hp hwalk⟩
  by_cases hup : s = up
  · subst hup
    obtain ⟨names, hwalk⟩ := h dir.dropLast
    exact ⟨names, .back hp hwalk⟩
  · obtain ⟨names, hwalk⟩ := h (dir ++ [s])
    exact ⟨names, .down ⟨hempty, hs, hhere, hup⟩ hp hwalk⟩

theorem exists_walks (p : Text) (dir : List Text) : ∃ names, Walks dir p names := by
  -- the segment that a text begins with grows character by character, the rest is read already
  have hread : ∃ s r, p = s ++ r ∧ '/' ∉ s ∧ PieceEnds r ∧ ∀ dir, ∃ names, Walks dir r names := by
    induction p with
    | nil => exact ⟨[], [], rfl, List.not_mem_nil, Text.stopsAt_nil, fun dir => ⟨dir, .done⟩⟩
    | cons c p ih =>
      obtain ⟨s, r, rfl, hs, hr, hwalks⟩ := ih
      by_cases hc : c = '/'
      · subst hc
        refine ⟨[], '/' :: (s ++ r), rfl, List.not_mem_nil, pieceEnds_iff.2 (Or.inr ⟨_, rfl⟩), ?_⟩
        intro dir
        obtain ⟨names, hwalk⟩ := Walks.segment hs hr hwalks dir
        exact ⟨names, .slash hwalk⟩
      · refine ⟨c :: s, r, rfl, ?_, hr, hwalks⟩
        exact fun hmem => (List.mem_cons.1 hmem).elim (fun h => hc h.symm) hs
  obtain ⟨s, r, rfl, hs, hr, hwalks⟩ := hread
  exact Walks.segment hs hr hwalks dir

theorem isAbsolute_iff {p : Text} : isAbsolute p = true ↔ p.head? = some '/' := by
  unfold isAbsolute
  rw [Text.startsWith_iff]
  cases p with
  | nil => simp
  | cons c p => simp [eq_comm]

theorem absolute_of_isAbsolute {p : Text} (h : isAbsolute p = true) (cwd : Text) :
    absolute cwd p = below (lead p) (walk [] (segments p)) := by
  unfold absolute
  rw [if_pos h, normalize_of_isAbsolute h, resolved_eq_walk]

/-- What is put behind a working directory adds nothing to the slashes in front of it. -/
theorem lead_join {cwd p : Text} (hcwd : isAbsolute cwd = true) (hp : isAbsolute p = false) :
    lead (join cwd p) = lead cwd := by
  have hhead : p.head? ≠ some '/' := fun h => by
    rw [isAbsolute_iff.2 h] at hp
    cases hp
  obtain ⟨more, hjoin⟩ : ∃ more, join cwd p = cwd ++ more := by
    unfold join
    rw [hp]
    split
    · contradiction
    · split
      · exact ⟨p, rfl⟩
      · exact ⟨'/' :: p, rfl⟩
  obtain ⟨rest, rfl⟩ := List.head?_eq_some_iff.1 (isAbsolute_iff.1 hcwd)
  -- only a working directory of nothing but one or two slashes lets more of the text count
  cases rest with
  | nil =>
    have hroot : join ['/'] p = ['/'] ++ p := by
      unfold join
      rw [hp]
      rfl
    rw [hroot]
    exact lead_append (Or.inl rfl) hhead
  | cons c rest =>
    by_cases hc : c = '/'
    · subst hc
      cases rest with
      | nil =>
        have hroot : join ['/', '/'] p = ['/', '/'] ++ p := by
          unfold join
          rw [hp]
          rfl
        rw [hroot]
        exact lead_append (Or.inr rfl) hhead
      | cons d rest =>
        rw [hjoin]
        by_cases hd : d = '/'
        · subst hd
          rfl
        · simp [lead, hd]
    · rw [hjoin]
      simp [lead, hc]

theorem absolute_of_relative {cwd p : Text} (hcwd : isAbsolute cwd = true)
    (hp : isAbsolute p = false) :
    absolute cwd p = below (lead cwd) (walk (walk [] (segments cwd)) (segments p)) := by
  unfold absolute
  rw [hp, if_neg Bool.false_ne_true, normalize_of_isAbsolute (isAbsolute_join hcwd p),
    lead_join hcwd hp, resolved_eq_walk, segments_join_of_relative hp, walk_append]

theorem below_injective {l m : Text} (hl : IsLead l) (hm : IsLead m) {names other : List Text}
    (hn : ∀ s ∈ names, IsName s) (ho : ∀ s ∈ other, IsName s) (h : below l names = below m other) :
    l = m ∧ names = other := by
  constructor
  · rw [← lead_below hl hn, h, lead_below hm ho]
  · rw [← segments_below hl hn, h, segments_below hm ho]

section
variable {cwd : Text} (hcwd : isAbsolute cwd = true)
include hcwd

/-- **The absolute form of a path spells its place.** -/
theorem absolute_of_leadsTo {p l : Text} {names : List Text} (h : LeadsTo cwd p l names) :
    IsLead l ∧ (∀ s ∈ names, IsName s) ∧ absolute cwd p = below l names := by
  induction h with
  | one hp hwalk =>
    refine ⟨Or.inl rfl, hwalk.isName (List.forall_mem_nil _), ?_⟩
    rw [absolute_of_isAbsolute rfl, segments_slash, hwalk.walk_eq]
    exact congrArg (below · _) (lead_append (Or.inl rfl) hp)
  | two hp hwalk =>
    refine ⟨Or.inr rfl, hwalk.isName (List.forall_mem_nil _), ?_⟩
    rw [absolute_of_isAbsolute rfl, segments_slash, segments_slash, hwalk.walk_eq]
    exact congrArg (below · _) (lead_append (Or.inr rfl) hp)
  | many hwalk =>
    refine ⟨Or.inl rfl, hwalk.isName (List.forall_mem_nil _), ?_⟩
    rw [absolute_of_isAbsolute rfl, segments_slash, segments_slash, segments_slash, hwalk.walk_eq]
    rfl
  | @seen p l dir names hp _ hwalk ih =>
    obtain ⟨hl, hdir, habs⟩ := ih
    have hrel : isAbsolute p = false := Bool.eq_false_iff.2 fun h => hp (isAbsolute_iff.1 h)
    have hroot := absolute_of_isAbsolute hcwd cwd
    have hsegments : ∀ s ∈ walk [] (segments cwd), IsName s :=
      isName_of_mem_walk (fun s hs => (mem_segments hs).2) (List.forall_mem_nil _)
    obtain ⟨rfl, rfl⟩ :=
      below_injective hl (isLead_lead hcwd) hdir hsegments (habs.symm.trans hroot)
    refine ⟨hl, hwalk.isName hdir, ?_⟩
    rw [absolute_of_relative hcwd hrel, hwalk.walk_eq]

theorem exists_leadsTo (p : Text) : ∃ l names, LeadsTo cwd p l names := by
  have hrooted : ∀ q : Text, isAbsolute q = true → ∃ l names, LeadsTo cwd q l names := by
    intro q hq
    obtain ⟨rest, rfl⟩ := List.head?_eq_some_iff.1 (isAbsolute_iff.1 hq)
    by_cases hone : rest.head? = some '/'
    · obtain ⟨rest, rfl⟩ := List.head?_eq_some_iff.1 hone
      by_cases htwo : rest.head? = some '/'
      · obtain ⟨rest, rfl⟩ := List.head?_eq_some_iff.1 htwo
        obtain ⟨names, hwalk⟩ := exists_walks rest []
        exact ⟨_, names, .many hwalk⟩
      · obtain ⟨names, hwalk⟩ := exists_walks rest []
        exact ⟨_, names, .two htwo hwalk⟩
    · obtain ⟨names, hwalk⟩ := exists_walks rest []
      exact ⟨_, names, .one hone hwalk⟩
  by_cases hp : p.head? = some '/'
  · exact hrooted p (isAbsolute_iff.2 hp)
  · obtain ⟨l, dir, hplace⟩ := hrooted cwd hcwd
    obtain ⟨names, hwalk⟩ := exists_walks p dir
    exact ⟨l, names, .seen hp hplace hwalk⟩

/-- **Two paths have one place if and only if they have one absolute form.** -/
theorem samePlace_iff {p q : Text} : SamePlace cwd p q ↔ absolute cwd p = absolute cwd q := by
  constructor
  · rintro ⟨l, names, hp, hq⟩
    rw [(absolute_of_leadsTo hcwd hp).2.2, (absolute_of_leadsTo hcwd hq).2.2]
  · intro h
    obtain ⟨l, names, hp⟩ := exists_leadsTo hcwd p
    obtain ⟨m, other, hq⟩ := exists_leadsTo hcwd q
    obtain ⟨hl, hn, habs⟩ := absolute_of_leadsTo hcwd hp
    obtain ⟨hm, ho, habs'⟩ := absolute_of_leadsTo hcwd hq
    rw [habs, habs'] at h
    obtain ⟨rfl, rfl⟩ := below_injective hl hm hn ho h
    exact ⟨l, names, hp, hq⟩

end

end Path

namespace Buffers

open ContractAudit.Path (absolute SamePlace)

/-! ## Writing -/

/-- The buffers that an editor has after a start with some texts and some updates. -/
def after (cwd : Text) (initial updates : List (Text × Text)) : List (Text × Text) :=
  updates.foldl (fun buffers w => update cwd w.1 w.2 buffers) (ofPairs cwd initial)

/-- What is read then. -/
def readAfter {ε : Type} (cwd : Text) (fallback : Text → Except ε Text)
    (initial updates : List (Text × Text)) : Text → Except ε Text :=
  read cwd (after cwd initial updates) fallback

/-- The writes whose paths have an absolute form. -/
def writesTo (cwd key : Text) (writes : List (Text × Text)) : List (Text × Text) :=
  writes.filter fun w => absolute cwd w.1 = key

/-- A text that is there at the start counts as the first to be written. -/
theorem after_eq (cwd : Text) (initial updates : List (Text × Text)) :
    after cwd initial updates = ofPairs cwd (initial ++ updates) :=
  List.foldl_append.symm

theorem lookup?_update (cwd key p t : Text) (buffers : List (Text × Text)) :
    lookup? key (update cwd p t buffers) =
      if absolute cwd p = key then some t else lookup? key buffers :=
  lookup?_put _ _ _ _

/-- **After any writes an absolute form has the text of the last of them that is its own.** -/
theorem lookup?_ofPairs (cwd key : Text) (writes : List (Text × Text)) :
    lookup? key (ofPairs cwd writes) = (writesTo cwd key writes).getLast?.map (·.2) := by
  induction writes using List.reverseRecOn with
  | nil => rfl
  | append_singleton writes w ih =>
    have hstep : ofPairs cwd (writes ++ [w]) = update cwd w.1 w.2 (ofPairs cwd writes) :=
      List.foldl_append
    rw [hstep, lookup?_update, ih]
    unfold writesTo
    rw [List.filter_append]
    by_cases hw : absolute cwd w.1 = key
    · rw [if_pos hw, List.filter_cons_of_pos (by simpa using hw), List.filter_nil,
        List.getLast?_concat]
      rfl
    · rw [if_neg hw, List.filter_cons_of_neg (by simpa using hw), List.filter_nil,
        List.append_nil]

theorem readAfter_eq {ε : Type} (cwd : Text) (fallback : Text → Except ε Text)
    (initial updates : List (Text × Text)) (p : Text) :
    readAfter cwd fallback initial updates p =
      match (writesTo cwd (absolute cwd p) (initial ++ updates)).getLast? with
      | some w => .ok w.2
      | none => fallback (absolute cwd p) := by
  unfold readAfter read
  simp only [after_eq, lookup?_ofPairs]
  cases (writesTo cwd (absolute cwd p) (initial ++ updates)).getLast? with
  | none => rfl
  | some w => rfl

/-! ## Top theorem -/

/-- Reading, after a start and some updates, is reading from one store of texts with a fallback
behind it. -/
structure IsOneStore {ε : Type} (cwd : Text) (fallback : Text → Except ε Text)
    (read : List (Text × Text) → List (Text × Text) → Text → Except ε Text) : Prop where
  /-- The text that was written last at a place is read there. -/
  last : ∀ {initial updates front behind : List (Text × Text)} {p q t : Text},
    initial ++ updates = front ++ (q, t) :: behind → SamePlace cwd q p →
      (∀ w ∈ behind, ¬ SamePlace cwd w.1 p) → read initial updates p = .ok t
  /-- Where nothing was written, the fallback is asked for the absolute form. -/
  unwritten : ∀ {initial updates : List (Text × Text)} {p : Text},
    (∀ w ∈ initial ++ updates, ¬ SamePlace cwd w.1 p) →
      read initial updates p = fallback (absolute cwd p)
  /-- What is written elsewhere might as well not have been written. -/
  elsewhere : ∀ {initial updates initial' updates' front behind : List (Text × Text)}
    {p q t : Text},
    initial ++ updates = front ++ (q, t) :: behind → initial' ++ updates' = front ++ behind →
      ¬ SamePlace cwd q p → read initial updates p = read initial' updates' p
  /-- Two spellings of one path are read alike. -/
  spelling : ∀ {initial updates : List (Text × Text)} {p q : Text},
    SamePlace cwd p q → read initial updates p = read initial updates q

/-- **Buffers are one store under every spelling of a path.**  Whatever texts there were at the
start, clashing ones among them, and whatever was updated since, a path has the text of the last
write at its place, and without such a write what the fallback has for its absolute form; writes at
other places do not count.  Two paths have one place exactly if they have one absolute form, which
has no shorter spelling and is its own absolute form. -/
theorem isOneStore_readAfter {cwd : Text} (hcwd : Path.isAbsolute cwd = true) {ε : Type}
    (fallback : Text → Except ε Text) :
    IsOneStore cwd fallback (readAfter cwd fallback) ∧
    (∀ p q, SamePlace cwd p q ↔ absolute cwd p = absolute cwd q) ∧
    ∀ p, Path.IsCanonical (absolute cwd p) ∧ absolute cwd (absolute cwd p) = absolute cwd p := by
  have hplace : ∀ {p q}, SamePlace cwd p q ↔ absolute cwd p = absolute cwd q :=
    Path.samePlace_iff hcwd
  refine ⟨⟨?_, ?_, ?_, ?_⟩, fun p q => hplace, fun p => ?_⟩
  · intro initial updates front behind p q t hwrites hq hbehind
    have hlast : writesTo cwd (absolute cwd p) behind = [] :=
      List.filter_eq_nil_iff.2 fun w hw => by simpa using mt hplace.2 (hbehind w hw)
    have hown : absolute cwd q = absolute cwd p := hplace.1 hq
    have hto : writesTo cwd (absolute cwd p) (initial ++ updates) =
        writesTo cwd (absolute cwd p) front ++ [(q, t)] := by
      unfold writesTo at hlast ⊢
      rw [hwrites, List.filter_append, List.filter_cons_of_pos (by simpa using hown), hlast]
    rw [readAfter_eq, hto, List.getLast?_concat]
  · intro initial updates p hwrites
    have hto : writesTo cwd (absolute cwd p) (initial ++ updates) = [] :=
      List.filter_eq_nil_iff.2 fun w hw => by simpa using mt hplace.2 (hwrites w hw)
    rw [readAfter_eq, hto]
    rfl
  · intro initial updates initial' updates' front behind p q t hwrites hfewer hq
    have hto : writesTo cwd (absolute cwd p) (initial ++ updates) =
        writesTo cwd (absolute cwd p) (initial' ++ updates') := by
      unfold writesTo
      rw [hwrites, hfewer, List.filter_append, List.filter_append,
        List.filter_cons_of_neg (by simpa using mt hplace.2 hq)]
    rw [readAfter_eq, readAfter_eq, hto]
  · intro initial updates p q h
    rw [readAfter_eq, readAfter_eq, hplace.1 h]
  · have hcanonical := Path.isCanonical_absolute hcwd p
    exact ⟨hcanonical, Path.absolute_of_isCanonical hcanonical cwd⟩

/-- Clashing texts at the start, an update that climbs out of the working directory and back, a
second slash in front, which is another place, and a path that only the fallback knows. -/
theorem isOneStore_readAfter_clashing :
    let cwd : Text := "/w"
    let fallback : Text → Except ReadFault Text := fun p =>
      if p = "/w/d.sol" then .ok "on disk" else .error (.system .missing p)
    let second : Text × Text := ("//w/a.sol", "2")
    let third : Text × Text := ("/w/x/../a.sol", "3")
    let sixth : Text × Text := ("../w/c/../b.sol", "6")
    let initial : List (Text × Text) := [("./a.sol", "1"), second, third, ("b.sol", "4")]
    let updates : List (Text × Text) := [("/w/.//b.sol", "5"), sixth]
    Path.isAbsolute cwd = true ∧
    readAfter cwd fallback initial updates "///w/./a.sol" = .ok "3" ∧
    readAfter cwd fallback initial updates "//w/a.sol" = .ok "2" ∧
    readAfter cwd fallback initial updates "x/..//b.sol" = .ok "6" ∧
    readAfter cwd fallback initial updates "./d.sol" = .ok "on disk" ∧
    readAfter cwd fallback initial updates "../e.sol" = .error (.system .missing "/e.sol") ∧
    readAfter cwd fallback initial updates "a.sol" =
      readAfter cwd fallback (initial.eraseIdx 1) updates "a.sol" := by
  intro cwd fallback second third sixth initial updates
  have hcwd : Path.isAbsolute cwd = true := by decide
  obtain ⟨hstore, hplace, -⟩ := isOneStore_readAfter hcwd fallback
  have happart : ∀ {writes : List (Text × Text)} {p : Text},
      (∀ w ∈ writes, absolute cwd w.1 ≠ absolute cwd p) →
        ∀ w ∈ writes, ¬ SamePlace cwd w.1 p :=
    fun h w hw => mt (hplace w.1 _).1 (h w hw)
  have hsecond : initial ++ updates =
      initial.take 1 ++ second :: (initial.drop 2 ++ updates) := rfl
  have hthird : initial ++ updates =
      initial.take 2 ++ third :: (initial.drop 3 ++ updates) := rfl
  have hsixth : initial ++ updates = (initial ++ updates.take 1) ++ sixth :: [] := rfl
  refine ⟨hcwd, ?_, ?_, ?_, ?_, ?_, ?_⟩
  · exact hstore.last hthird ((hplace _ _).2 (by decide +kernel)) (happart (by decide +kernel))
  · exact hstore.last hsecond ((hplace _ _).2 (by decide +kernel)) (happart (by decide +kernel))
  · exact hstore.last hsixth ((hplace _ _).2 (by decide +kernel)) (happart (by decide +kernel))
  · exact hstore.unwritten (happart (by decide +kernel))
  · exact hstore.unwritten (happart (by decide +kernel))
  · exact hstore.elsewhere hsecond rfl (mt (hplace _ _).1 (by decide +kernel))

end Buffers

end ContractAudit
