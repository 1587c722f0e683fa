import ContractAudit.Highlight
import ContractAudit.Proofs.Confinement
import ContractAudit.Proofs.Lines

/-!
# Ends of paths

A service may name a file by its path from the root on, by its name alone or by its full path, so
that paths are compared from their ends.  What is compared are parts, and parts are read off a path
in one way (`IsParts`).  A normalized path ends in the names that its relative path is made of, and
so the relative path names it again.

    IsParts p ps ↔ parts p = ps                             (isParts_iff)
    sameEnd p (names between slashes) = true ↔ p ends in a slash with these names behind it
                                                            (sameEnd_join_iff)
    p is strictly inside the root → sameEnd p (its relative path) = true
                                                            (sameEnd_relative?)
-/

namespace ContractAudit.Path

open Text (StopsAt)

/-! ## Parts, read off a path -/

/-- The two characters that stand between segments. -/
def isSlash (c : Char) : Bool := c == '/' || c == '\\'

/-- A segment ends where the text does, or in front of a slash. -/
def SegmentEnds (p : Text) : Prop := StopsAt (fun c => ! isSlash c) p

/-- The segments of a path that count, from the beginning of a segment on: those between slashes,
but for empty ones and `.`. -/
inductive Spells : Text → List Text → Prop
  | done : Spells [] []
  | slash {c : Char} {p : Text} {ss : List Text} :
      isSlash c = true → Spells p ss → Spells (c :: p) ss
  | dot {p : Text} {ss : List Text} :
      SegmentEnds p → Spells p ss → Spells (here ++ p) ss
  | name {s p : Text} {ss : List Text} :
      s ≠ [] → s ≠ here → (∀ c ∈ s, isSlash c = false) → SegmentEnds p → Spells p ss →
        Spells (s ++ p) (s :: ss)

/-- What counts of the slashes at the beginning: one, or exactly two, which are a part of another
kind; three and more are one. -/
inductive HasRoot : Text → List Text → Prop
  | none {p : Text} : StopsAt isSlash p → HasRoot p []
  | one {c : Char} {p : Text} :
      isSlash c = true → StopsAt isSlash p → HasRoot (c :: p) [['/']]
  | two {c d : Char} {p : Text} :
      isSlash c = true → isSlash d = true → StopsAt isSlash p →
        HasRoot (c :: d :: p) [['/', '/']]
  | many {c d e : Char} {p : Text} :
      isSlash c = true → isSlash d = true → isSlash e = true → HasRoot (c :: d :: e :: p) [['/']]

/-- The slashes at the beginning that count, and after them the segments that count. -/
def IsParts (p : Text) (ps : List Text) : Prop :=
  ∃ root names, HasRoot p root ∧ Spells p names ∧ ps = root ++ names

/-! ## Parts, computed -/

/-- The path with its backslashes turned. -/
def turned (p : Text) : Text := p.map fun c => if c = '\\' then '/' else c

/-- The segments that count. -/
def counted (p : Text) : List Text := (segments (turned p)).filter (· ≠ here)

/-- The part that the slashes at the beginning are. -/
def rootPart (p : Text) : List Text :=
  if (lead (turned p)).isEmpty then [] else [lead (turned p)]

theorem parts_eq (p : Text) : parts p = rootPart p ++ counted p := rfl

theorem turned_cons {c : Char} (h : isSlash c = true) (p : Text) :
    turned (c :: p) = '/' :: turned p := by
  unfold isSlash at h
  rw [Bool.or_eq_true, beq_iff_eq, beq_iff_eq] at h
  rcases h with rfl | rfl
  · rfl
  · rfl

theorem turned_append (p q : Text) : turned (p ++ q) = turned p ++ turned q :=
  List.map_append

theorem turned_eq_self {p : Text} (h : '\\' ∉ p) : turned p = p := by
  refine (List.map_congr_left fun c hc => ?_).trans (List.map_id p)
  have hne : c ≠ '\\' := fun he => h (he ▸ hc)
  rw [if_neg hne]
  rfl

theorem not_mem_of_isSlash {s : Text} (h : ∀ c ∈ s, isSlash c = false) : '/' ∉ s ∧ '\\' ∉ s :=
  ⟨fun hc => absurd (h '/' hc) (by decide), fun hc => absurd (h '\\' hc) (by decide)⟩

theorem counted_cons {c : Char} (h : isSlash c = true) (p : Text) :
    counted (c :: p) = counted p := by
  unfold counted
  rw [turned_cons h, segments_slash]

/-- What counts is found segment by segment. -/
theorem counted_append (s : Text) {p : Text} (hp : SegmentEnds p) :
    counted (s ++ p) = counted s ++ counted p := by
  cases p with
  | nil =>
    show counted (s ++ []) = counted s ++ []
    rw [List.append_nil, List.append_nil]
  | cons c p =>
    have hc : isSlash c = true := by simpa using Text.stopsAt_cons.1 hp
    rw [counted_cons hc]
    unfold counted
    rw [turned_append, turned_cons hc, segments_append_slash, List.filter_append]

theorem counted_of_name {s : Text} (hne : s ≠ []) (hhere : s ≠ here)
    (hs : ∀ c ∈ s, isSlash c = false) : counted s = [s] := by
  obtain ⟨hslash, hback⟩ := not_mem_of_isSlash hs
  unfold counted
  rw [turned_eq_self hback, segments_eq_singleton hne hslash,
    List.filter_cons_of_pos (by simpa using hhere), List.filter_nil]

theorem Spells.eq_counted {p : Text} {ss : List Text} (h : Spells p ss) : ss = counted p := by
  induction h with
  | done => rfl
  | slash hc _ ih => rw [counted_cons hc, ih]
  | dot hp _ ih =>
    rw [counted_append here hp, ← ih]
    rfl
  | name hne hhere hs hp _ ih =>
    rw [counted_append _ hp, counted_of_name hne hhere hs, ← ih]
    rfl

/-- A segment in front of a text that is read already, whatever kind it is of. -/
theorem Spells.segment {s p : Text} {ss : List Text} (hs : ∀ c ∈ s, isSlash c = false)
    (hp : SegmentEnds p) (h : Spells p ss) : ∃ ts, Spells (s ++ p) ts := by
  by_cases hne : s = []
  · subst hne
    exact ⟨ss, h⟩
  · by_cases hhere : s = here
    · subst hhere
      exact ⟨ss, .dot hp h⟩
    · exact ⟨s :: ss, .name hne hhere hs hp h⟩

theorem exists_spells (p : Text) : ∃ ss, Spells p ss := by
  -- the segment that a text begins with grows character by character, the rest is read already
  have hread : ∃ s r ss, p = s ++ r ∧ (∀ c ∈ s, isSlash c = false) ∧ SegmentEnds r ∧
      Spells r ss := by
    induction p with
    | nil => exact ⟨[], [], [], rfl, List.forall_mem_nil _, Text.stopsAt_nil, .done⟩
    | cons c p ih =>
      obtain ⟨s, r, ss, rfl, hs, hr, hspells⟩ := ih
      by_cases hc : isSlash c = true
      · obtain ⟨ts, hts⟩ := hspells.segment hs hr
        refine ⟨[], c :: (s ++ r), ts, rfl, List.forall_mem_nil _, ?_, .slash hc hts⟩
        exact Text.stopsAt_cons.2 (by simpa using hc)
      · refine ⟨c :: s, r, ss, rfl, List.forall_mem_cons.2 ⟨?_, hs⟩, hr, hspells⟩
        exact Bool.eq_false_iff.2 hc
  obtain ⟨s, r, ss, rfl, hs, hr, hspells⟩ := hread
  exact hspells.segment hs hr

theorem head?_turned {p : Text} (h : StopsAt isSlash p) : (turned p).head? ≠ some '/' := by
  cases p with
  | nil => exact fun hh => by cases hh
  | cons c p =>
    have hc := Text.stopsAt_cons.1 h
    show some (if c = '\\' then '/' else c) ≠ some '/'
    split
    · next hback =>
      subst hback
      exact absurd hc (by decide)
    · intro hslash
      obtain rfl := Option.some.inj hslash
      exact absurd hc (by decide)

theorem lead_eq_nil {p : Text} (h : p.head? ≠ some '/') : lead p = [] := by
  unfold lead
  split
  · exact absurd rfl h
  · exact absurd rfl h
  · exact absurd rfl h
  · rfl

theorem HasRoot.eq_rootPart {p : Text} {root : List Text} (h : HasRoot p root) :
    root = rootPart p := by
  unfold rootPart
  cases h with
  | none hp => rw [lead_eq_nil (head?_turned hp)]; rfl
  | @one c p hc hp =>
    have hlead : lead (turned (c :: p)) = ['/'] := by
      rw [turned_cons hc]
      exact lead_append (Or.inl rfl) (head?_turned hp)
    rw [hlead]
    rfl
  | @two c d p hc hd hp =>
    have hlead : lead (turned (c :: d :: p)) = ['/', '/'] := by
      rw [turned_cons hc, turned_cons hd]
      exact lead_append (Or.inr rfl) (head?_turned hp)
    rw [hlead]
    rfl
  | many hc hd he =>
    rw [turned_cons hc, turned_cons hd, turned_cons he]
    rfl

theorem exists_of_not_stopsAt {p : Text} (h : ¬ StopsAt isSlash p) :
    ∃ c q, p = c :: q ∧ isSlash c = true := by
  cases p with
  | nil => exact absurd Text.stopsAt_nil h
  | cons c q =>
    rw [Text.stopsAt_cons, Bool.not_eq_false] at h
    exact ⟨c, q, rfl, h⟩

theorem exists_hasRoot (p : Text) : ∃ root, HasRoot p root := by
  by_cases hnone : StopsAt isSlash p
  · exact ⟨_, .none hnone⟩
  · obtain ⟨c, p, rfl, hc⟩ := exists_of_not_stopsAt hnone
    by_cases hone : StopsAt isSlash p
    · exact ⟨_, .one hc hone⟩
    · obtain ⟨d, p, rfl, hd⟩ := exists_of_not_stopsAt hone
      by_cases htwo : StopsAt isSlash p
      · exact ⟨_, .two hc hd htwo⟩
      · obtain ⟨e, p, rfl, he⟩ := exists_of_not_stopsAt htwo
        exact ⟨_, .many hc hd he⟩

/-- **The parts that are compared are those that can be read off the path.** -/
theorem isParts_iff {p : Text} {ps : List Text} : IsParts p ps ↔ parts p = ps := by
  constructor
  · rintro ⟨root, names, hroot, hnames, rfl⟩
    rw [parts_eq, ← hroot.eq_rootPart, ← hnames.eq_counted]
  · rintro rfl
    obtain ⟨root, hroot⟩ := exists_hasRoot p
    obtain ⟨names, hnames⟩ := exists_spells p
    refine ⟨root, names, hroot, hnames, ?_⟩
    rw [parts_eq, ← hroot.eq_rootPart, ← hnames.eq_counted]

/-! ## The same end -/

theorem sameEnd_iff {p q : Text} :
    sameEnd p q = true ↔
      parts p ≠ [] ∧ parts q ≠ [] ∧ (parts p <:+ parts q ∨ parts q <:+ parts p) := by
  unfold sameEnd
  simp only [Bool.and_eq_true, Bool.or_eq_true, Bool.not_eq_true', List.isEmpty_eq_false_iff,
    List.isSuffixOf_iff_suffix, and_assoc]

theorem sameEnd_comm (p q : Text) : sameEnd p q = sameEnd q p := by
  rw [Bool.eq_iff_iff, sameEnd_iff, sameEnd_iff, ← and_assoc, ← and_assoc,
    and_comm (a := parts p ≠ []), or_comm]

/-- Counted from the end, a list agrees with its end. -/
theorem getElem?_reverse_of_suffix {as bs : List Text} (h : as <:+ bs) {k : Nat}
    (hk : k < as.length) : as.reverse[k]? = bs.reverse[k]? := by
  obtain ⟨front, rfl⟩ := h
  rw [List.reverse_append, List.getElem?_append_left (by simpa using hk)]

/-- Two paths with the same end agree part by part from there on, until one of them is at its
beginning. -/
theorem getElem?_of_sameEnd {p q : Text} (h : sameEnd p q = true) {k : Nat}
    (hp : k < (parts p).length) (hq : k < (parts q).length) :
    (parts p).reverse[k]? = (parts q).reverse[k]? := by
  obtain ⟨-, -, hsuffix | hsuffix⟩ := sameEnd_iff.1 h
  · exact getElem?_reverse_of_suffix hsuffix hp
  · exact (getElem?_reverse_of_suffix hsuffix hq).symm

/-! ## Normalized paths -/

/-- The names of `p` begin with those of the root, and there are more of them. -/
def IsStrictlyInside (cwd root p : Text) : Prop :=
  segments (absolute cwd root) <+: segments (absolute cwd p) ∧
    segments (absolute cwd root) ≠ segments (absolute cwd p)

instance (cwd root p : Text) : Decidable (IsStrictlyInside cwd root p) :=
  inferInstanceAs (Decidable (_ ∧ _))

section
variable {names : List Text} (hn : ∀ s ∈ names, IsName s)
include hn

theorem filter_names : names.filter (· ≠ here) = names :=
  List.filter_eq_self.2 fun s hs => by simpa using (hn s hs).2.2.1

theorem parts_below {l : Text} (hl : IsLead l) (hback : '\\' ∉ below l names) :
    parts (below l names) = l :: names := by
  have hroot : rootPart (below l names) = [l] := by
    unfold rootPart
    rw [turned_eq_self hback, lead_below hl hn,
      if_neg (by rw [List.isEmpty_iff]; exact hl.ne_nil)]
  have hnames : counted (below l names) = names := by
    unfold counted
    rw [turned_eq_self hback, segments_below hl hn, filter_names hn]
  rw [parts_eq, hroot, hnames]
  rfl

theorem parts_join (hback : '\\' ∉ Text.join ['/'] names) :
    parts (Text.join ['/'] names) = names := by
  have hroot : rootPart (Text.join ['/'] names) = [] := by
    unfold rootPart
    rw [turned_eq_self hback, lead_eq_nil (head?_join hn)]
    rfl
  have hnames : counted (Text.join ['/'] names) = names := by
    unfold counted
    rw [turned_eq_self hback, segments_join fun s hs => ⟨(hn s hs).1, (hn s hs).2.1⟩,
      filter_names hn]
  rw [parts_eq, hroot, hnames]
  rfl

/-- The last names of a path stand at its end, behind a slash. -/
theorem join_suffix_iff {l : Text} {ns : List Text} (hl : IsLead l) (hns : ∀ s ∈ ns, IsName s)
    (hne : names ≠ []) :
    '/' :: Text.join ['/'] names <:+ below l ns ↔ names <:+ ns := by
  constructor
  · rintro ⟨u, hu⟩
    have hsegments := congrArg segments hu
    rw [segments_append_slash, segments_below hl hns,
      segments_join fun s hs => ⟨(hn s hs).1, (hn s hs).2.1⟩] at hsegments
    exact ⟨segments u, hsegments⟩
  · rintro ⟨front, rfl⟩
    unfold below
    cases front with
    | nil =>
      rw [List.nil_append]
      rcases hl with rfl | rfl
      · exact List.suffix_refl _
      · exact List.suffix_cons '/' _
    | cons a front =>
      rw [join_append (List.cons_ne_nil a front) hne, ← List.append_assoc]
      exact List.suffix_append _ _

/-- **A relative path names a normalized one that ends in it, behind a slash.** -/
theorem sameEnd_join_iff {p : Text} (hp : IsCanonical p) (hback : '\\' ∉ p) (hne : names ≠ [])
    (hback' : '\\' ∉ Text.join ['/'] names) :
    sameEnd p (Text.join ['/'] names) = true ↔ '/' :: Text.join ['/'] names <:+ p := by
  obtain ⟨l, ns, hl, hns, rfl⟩ := isCanonical_iff.1 hp
  rw [sameEnd_iff, parts_below hns hl hback, parts_join hn hback', join_suffix_iff hn hl hns hne]
  -- the root of the path is no name, so that only the names can be the end
  have hroot : l ∉ names := by
    intro hmem
    refine (hn l hmem).2.1 ?_
    rcases hl with rfl | rfl
    · exact List.mem_singleton_self '/'
    · exact List.mem_cons_self
  constructor
  · rintro ⟨-, -, hsuffix | hsuffix⟩
    · exact absurd (hsuffix.subset List.mem_cons_self) hroot
    · rcases List.suffix_cons_iff.1 hsuffix with rfl | hsuffix
      · exact absurd List.mem_cons_self hroot
      · exact hsuffix
  · intro hsuffix
    exact ⟨List.cons_ne_nil l ns, hne, Or.inr (hsuffix.trans (List.suffix_cons l ns))⟩

end

/-- **The relative path of a file names the file.** -/
theorem sameEnd_relative? {cwd root p : Text} (hcwd : isAbsolute cwd = true) (hp : IsCanonical p)
    (hback : '\\' ∉ p) (hin : IsStrictlyInside cwd root p) :
    ∃ name, relative? cwd root p = some name ∧ sameEnd p name = true := by
  obtain ⟨name, hname⟩ := exists_relative? cwd root (ne_nil_of_isCanonical hp)
  refine ⟨name, hname, ?_⟩
  obtain ⟨⟨more, hmore⟩, hother⟩ := hin
  have hne : more ≠ [] := by
    rintro rfl
    exact hother (by rw [← hmore, List.append_nil])
  have hns : ∀ s ∈ segments (absolute cwd p), IsName s := fun s hs =>
    isName_of_mem_segments_absolute hcwd hs
  have hn : ∀ s ∈ more, IsName s := fun s hs => hns s (hmore ▸ List.mem_append_right _ hs)
  rw [relative?_of_segments hmore.symm hname, if_neg hne]
  have hend : '/' :: Text.join ['/'] more <:+ p := by
    obtain ⟨l, ns, hl, hnames, rfl⟩ := isCanonical_iff.1 hp
    rw [absolute_of_isCanonical hp, segments_below hl hnames] at hmore
    exact (join_suffix_iff hn hl hnames hne).2 ⟨_, hmore⟩
  refine (sameEnd_join_iff hn hp hback hne fun hmem => hback ?_).2 hend
  exact hend.subset (List.mem_cons_of_mem '/' hmem)

/-! ## Top theorem -/

/-- **The key of a file names the file, and paths are compared part by part.**  A normalized path
strictly inside a root, however the root is spelled, has the same end as its relative path, so that
every location under that name but an unknown one is in the document.  A path has one list of
parts, and two paths have the same end if and only if neither list is empty and one is the end of
the other.  This is symmetric, and never ends within a part: counted from the end the parts agree as
far as both go, and a normalized path ends in the names of a relative one behind a slash. -/
theorem sameEnd_relative_and_parts :
    (∀ cwd root p, isAbsolute cwd = true → IsCanonical p → '\\' ∉ p →
      IsStrictlyInside cwd root p →
      ∃ name, relative? cwd root p = some name ∧ sameEnd p name = true ∧
        ∀ l : Location, l.file = name → Highlight.isIn p l = ! l.isUnknown) ∧
    (∀ p, ∃! ps, IsParts p ps) ∧
    (∀ p q ps qs, IsParts p ps → IsParts q qs →
      (sameEnd p q = true ↔ ps ≠ [] ∧ qs ≠ [] ∧ (ps <:+ qs ∨ qs <:+ ps)) ∧
      (sameEnd p q = true →
        ∀ k, k < ps.length → k < qs.length → ps.reverse[k]? = qs.reverse[k]?)) ∧
    (∀ p q, sameEnd p q = sameEnd q p) ∧
    ∀ p names, IsCanonical p → '\\' ∉ p → names ≠ [] → (∀ s ∈ names, IsName s) →
      '\\' ∉ Text.join ['/'] names →
      (sameEnd p (Text.join ['/'] names) = true ↔ '/' :: Text.join ['/'] names <:+ p) := by
  refine ⟨fun cwd root p hcwd hp hback hin => ?_, fun p => ?_, fun p q ps qs hps hqs => ?_,
    sameEnd_comm, fun p names hp hback hne hn hback' => sameEnd_join_iff hn hp hback hne hback'⟩
  · obtain ⟨name, hname, hsame⟩ := sameEnd_relative? hcwd hp hback hin
    refine ⟨name, hname, hsame, ?_⟩
    rintro l rfl
    unfold Highlight.isIn
    rw [hsame, Bool.and_true]
  · exact ⟨parts p, isParts_iff.2 rfl, fun ps hps => (isParts_iff.1 hps).symm⟩
  · obtain rfl := isParts_iff.1 hps
    obtain rfl := isParts_iff.1 hqs
    exact ⟨sameEnd_iff, fun h k hp hq => getElem?_of_sameEnd h hp hq⟩

/-- A root that is spelled from the working directory, a path with two slashes of both kinds in
front, and a name that is the end of a longer name. -/
theorem sameEnd_relative_and_parts_spellings :
    let root : Text := "../b//.././ws"
    let p : Text := "/ws/src/A.sol"
    let name : Text := "src/A.sol"
    let twice : Text := "\\/ws\\src/.//A.sol/"
    let other : Text := "/ws/src/BA.sol"
    let ps : List Text := ["//", "ws", "src", "A.sol"]
    let qs : List Text := ["src", "A.sol"]
    relative? "/w" root p = some name ∧ sameEnd p name = true ∧ sameEnd name p = true ∧
    (∀ l : Location, l.file = name → Highlight.isIn p l = ! l.isUnknown) ∧
    (∃! parts, IsParts twice parts) ∧ IsParts twice ps ∧
    sameEnd twice name = true ∧ sameEnd twice p = false ∧
    (∀ k, k < ps.length → k < qs.length → ps.reverse[k]? = qs.reverse[k]?) ∧
    sameEnd other "A.sol" = false := by
  intro root p name twice other ps qs
  obtain ⟨hkey, hone, hiff, hcomm, hjoin⟩ := sameEnd_relative_and_parts
  have hname : relative? "/w" root p = some name := by decide +kernel
  have htwice : IsParts twice ps := isParts_iff.2 (by decide +kernel)
  have hparts : IsParts p ["/", "ws", "src", "A.sol"] := isParts_iff.2 (by decide +kernel)
  have hrelative : IsParts name qs := isParts_iff.2 (by decide +kernel)
  obtain ⟨seen, hseen, hsame, hin⟩ := hkey "/w" root p (by decide) (by decide +kernel)
    (by decide +kernel) (by decide +kernel)
  obtain rfl := Option.some.inj (hname.symm.trans hseen)
  have hend : sameEnd twice name = true := (hiff _ _ _ _ htwice hrelative).1.2 (by decide +kernel)
  refine ⟨hname, hsame, (hcomm name p).trans hsame, hin, hone twice, htwice, hend, ?_,
    (hiff _ _ _ _ htwice hrelative).2 hend, ?_⟩
  · rw [Bool.eq_false_iff, Ne, (hiff _ _ _ _ htwice hparts).1]
    decide +kernel
  · rw [Bool.eq_false_iff, Ne]
    exact fun h => absurd ((hjoin other ["A.sol"] (by decide +kernel) (by decide +kernel)
      (by decide) (by decide +kernel) (by decide +kernel)).1 h) (by decide +kernel)

end ContractAudit.Path
