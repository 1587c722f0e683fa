import Mathlib.Data.List.TakeWhile
import ContractAudit.TextSource

/-!
# Canonical paths

A canonical path is one or two slashes with names between single slashes after them (`below`,
`isCanonical_iff`), and `normalize` makes one of every absolute path.  On that form the other
functions on paths are functions on lists of names:

    segments (below l ns) = ns                              (segments_below)
    join (below l ns) n = below l (ns ++ [n])               (join_below)
    relative? cwd (below l ns) (below l (ns ++ ms)) = ms between slashes
                                                            (relative?_below)
-/

namespace ContractAudit.Path

/-! ## Segments -/

theorem not_mem_of_mem_split (c : Char) (p : Text) : ∀ s ∈ Text.split c p, c ∉ s := by
  induction p with
  | nil => intro s hs; rw [Text.split, List.splitOn_nil, List.mem_singleton] at hs; simp [hs]
  | cons a p ih =>
    intro s hs
    rw [Text.split, List.splitOn_cons_eq_if_modifyHead] at hs
    split at hs
    · rcases List.mem_cons.1 hs with rfl | hs
      · exact List.not_mem_nil
      · exact ih s hs
    · next h =>
      have hne := Text.split_ne_nil c p
      rw [Text.split] at hne ih
      generalize List.splitOn c p = pieces at hs hne ih
      cases pieces with
      | nil => exact absurd rfl hne
      | cons t rest =>
        rcases List.mem_cons.1 hs with rfl | hs
        · intro hc
          rcases List.mem_cons.1 hc with rfl | hc
          · exact h (by simp)
          · exact ih t List.mem_cons_self hc
        · exact ih s (List.mem_cons_of_mem t hs)

theorem mem_segments {s p : Text} (h : s ∈ segments p) : s ≠ [] ∧ '/' ∉ s := by
  unfold segments at h
  rw [List.mem_filter] at h
  exact ⟨by simpa using h.2, not_mem_of_mem_split '/' p s h.1⟩

theorem segments_append_slash (p q : Text) :
    segments (p ++ '/' :: q) = segments p ++ segments q := by
  unfold segments Text.split
  rw [List.splitOn_append_cons_self, List.filter_append]

theorem segments_slash (p : Text) : segments ('/' :: p) = segments p :=
  segments_append_slash [] p

theorem segments_join {names : List Text} (h : ∀ s ∈ names, s ≠ [] ∧ '/' ∉ s) :
    segments (Text.join ['/'] names) = names := by
  cases names with
  | nil => rfl
  | cons s rest =>
    have hs := Text.split_join '/' (s :: rest) (fun t ht => (h t ht).2) (by simp)
    unfold segments
    rw [hs, List.filter_eq_self]
    intro t ht
    simpa using (h t ht).1

/-- A text without slashes is a single segment. -/
theorem segments_eq_singleton {s : Text} (hne : s ≠ []) (hslash : '/' ∉ s) : segments s = [s] := by
  have hjoin : segments (Text.join ['/'] [s]) = [s] :=
    segments_join (by simpa using ⟨hne, hslash⟩)
  rwa [Text.join, List.intercalate_singleton] at hjoin

/-- Empty segments count for nothing. -/
theorem resolved_split (rooted : Bool) (p : Text) :
    resolved rooted (Text.split '/' p) = resolved rooted (segments p) := by
  unfold resolved segments
  generalize Text.split '/' p = pieces
  congr 1
  generalize ([] : List Text) = stack
  induction pieces generalizing stack with
  | nil => rfl
  | cons s rest ih =>
    cases s with
    | nil =>
      simp only [List.foldl_cons, List.filter_cons, List.isEmpty_nil, Bool.not_true]
      exact ih stack
    | cons c s =>
      simp only [List.foldl_cons, List.filter_cons, List.isEmpty_cons, Bool.not_false, if_true]
      exact ih _

/-! ## Names -/

/-- A segment that leads down from a directory. -/
def IsName (s : Text) : Prop := s ≠ [] ∧ '/' ∉ s ∧ s ≠ here ∧ s ≠ up

instance (s : Text) : Decidable (IsName s) :=
  inferInstanceAs (Decidable (_ ∧ _))

theorem push_of_isName {s : Text} (h : IsName s) (rooted : Bool) (stack : List Text) :
    push rooted stack s = s :: stack := by
  obtain ⟨hne, -, hhere, hup⟩ := h
  unfold push
  rw [if_neg (by simp [hne, hhere]), if_neg (by simp [hup])]

theorem resolved_of_isName {names : List Text} (h : ∀ s ∈ names, IsName s) (rooted : Bool) :
    resolved rooted names = names := by
  have hfold : ∀ stack, names.foldl (push rooted) stack = names.reverse ++ stack := by
    induction names with
    | nil => intro stack; rfl
    | cons s rest ih =>
      intro stack
      rw [List.foldl_cons, push_of_isName (h s List.mem_cons_self),
        ih fun t ht => h t (List.mem_cons_of_mem s ht)]
      simp
  unfold resolved
  rw [hfold, List.append_nil, List.reverse_reverse]

/-- From a root on `..` takes a name away or does nothing, so only names are left. -/
theorem isName_of_mem_resolved {pieces : List Text} (h : ∀ s ∈ pieces, '/' ∉ s) :
    ∀ s ∈ resolved true pieces, IsName s := by
  have hfold : ∀ stack : List Text, (∀ s ∈ stack, IsName s) →
      ∀ s ∈ pieces.foldl (push true) stack, IsName s := by
    induction pieces with
    | nil => exact fun stack hstack => hstack
    | cons a rest ih =>
      intro stack hstack
      rw [List.foldl_cons]
      refine ih (fun s hs => h s (List.mem_cons_of_mem a hs)) _ ?_
      unfold push
      split
      · exact hstack
      · next ha =>
        simp only [Bool.or_eq_true, List.isEmpty_iff, beq_iff_eq, not_or] at ha
        split
        · cases stack with
          | nil => intro s hs; cases hs
          | cons top below =>
            have htop := hstack top List.mem_cons_self
            simp only [htop.2.2.2, beq_iff_eq, if_false]
            exact fun s hs => hstack s (List.mem_cons_of_mem top hs)
        · next hup =>
          intro s hs
          rcases List.mem_cons.1 hs with rfl | hs
          · exact ⟨ha.1, h s List.mem_cons_self, ha.2, by simpa using hup⟩
          · exact hstack s hs
  intro s hs
  exact hfold [] (by simp) s (List.mem_reverse.1 hs)

/-! ## Rooted paths -/

/-- The slashes with which an absolute path may begin. -/
def IsLead (l : Text) : Prop := l = ['/'] ∨ l = ['/', '/']

/-- The path from a root down some names. -/
def below (l : Text) (names : List Text) : Text := l ++ Text.join ['/'] names

theorem isLead_lead {p : Text} (h : isAbsolute p = true) : IsLead (lead p) := by
  unfold isAbsolute at h
  rw [Text.startsWith_iff] at h
  obtain ⟨q, rfl⟩ := h
  unfold IsLead
  simp only [List.singleton_append]
  unfold lead
  split <;> simp_all

theorem IsLead.ne_nil {l : Text} (h : IsLead l) : l ≠ [] := by
  rcases h with rfl | rfl <;> simp

section
variable {l : Text} (hl : IsLead l)
include hl

theorem isAbsolute_append (p : Text) : isAbsolute (l ++ p) = true := by
  unfold isAbsolute
  rw [Text.startsWith_iff]
  rcases hl with rfl | rfl <;> simp

theorem segments_append_lead (p : Text) : segments (l ++ p) = segments p := by
  rcases hl with rfl | rfl
  · exact segments_slash p
  · exact (segments_slash _).trans (segments_slash p)

theorem lead_append {p : Text} (hp : p.head? ≠ some '/') : lead (l ++ p) = l := by
  cases p with
  | nil => rcases hl with rfl | rfl <;> rfl
  | cons c p =>
    have hc : c ≠ '/' := by simpa using hp
    rcases hl with rfl | rfl <;> simp [lead, hc]

end

theorem head?_join {names : List Text} (h : ∀ s ∈ names, IsName s) :
    (Text.join ['/'] names).head? ≠ some '/' := by
  intro hh
  cases names with
  | nil => cases hh
  | cons s rest =>
    obtain ⟨hne, hslash, -, -⟩ := h s List.mem_cons_self
    obtain ⟨c, s, rfl⟩ := List.exists_cons_of_ne_nil hne
    have hc : (Text.join ['/'] ((c :: s) :: rest)).head? = some c := by
      unfold Text.join
      cases rest with
      | nil => rw [List.intercalate_singleton]; rfl
      | cons t rest => rw [List.intercalate_cons_cons]; rfl
    rw [hc] at hh
    obtain rfl := Option.some.inj hh
    exact hslash List.mem_cons_self

theorem normalize_of_isAbsolute {p : Text} (h : isAbsolute p = true) :
    normalize p = below (lead p) (resolved true (segments p)) := by
  unfold normalize below
  rw [h, resolved_split]
  split
  · next hn => exact absurd (List.append_eq_nil_iff.1 hn).1 (isLead_lead h).ne_nil
  · rfl

theorem isName_of_mem_resolved_segments {p s : Text} (h : s ∈ resolved true (segments p)) :
    IsName s :=
  isName_of_mem_resolved (fun _ hs => (mem_segments hs).2) s h

section
variable {l : Text} (hl : IsLead l) {names : List Text} (hn : ∀ s ∈ names, IsName s)
include hl

theorem isAbsolute_below (names : List Text) : isAbsolute (below l names) = true :=
  isAbsolute_append hl _

include hn

theorem segments_below : segments (below l names) = names := by
  unfold below
  rw [segments_append_lead hl, segments_join fun s hs => ⟨(hn s hs).1, (hn s hs).2.1⟩]

theorem lead_below : lead (below l names) = l :=
  lead_append hl (head?_join hn)

theorem isCanonical_below : IsCanonical (below l names) := by
  refine ⟨isAbsolute_below hl names, ?_⟩
  rw [normalize_of_isAbsolute (isAbsolute_below hl names), segments_below hl hn,
    resolved_of_isName hn, lead_below hl hn]

end

/-- **The shortest spelling of an absolute path.** -/
theorem isCanonical_normalize {p : Text} (h : isAbsolute p = true) : IsCanonical (normalize p) := by
  rw [normalize_of_isAbsolute h]
  exact isCanonical_below (isLead_lead h) fun _ => isName_of_mem_resolved_segments

theorem isCanonical_iff {p : Text} :
    IsCanonical p ↔ ∃ l names, IsLead l ∧ (∀ s ∈ names, IsName s) ∧ p = below l names := by
  constructor
  · rintro ⟨ha, hp⟩
    exact ⟨lead p, resolved true (segments p), isLead_lead ha,
      fun _ => isName_of_mem_resolved_segments, hp.symm.trans (normalize_of_isAbsolute ha)⟩
  · rintro ⟨l, names, hl, hn, rfl⟩
    exact isCanonical_below hl hn

theorem isAbsolute_join {base : Text} (h : isAbsolute base = true) (p : Text) :
    isAbsolute (join base p) = true := by
  unfold join
  split
  · assumption
  · unfold isAbsolute at h ⊢
    rw [Text.startsWith_iff] at h ⊢
    split <;> exact h.trans (List.prefix_append _ _)

theorem isCanonical_absolute {cwd : Text} (h : isAbsolute cwd = true) (p : Text) :
    IsCanonical (absolute cwd p) := by
  unfold absolute
  apply isCanonical_normalize
  split
  · assumption
  · exact isAbsolute_join h p

theorem isAbsolute_directory {p : Text} (h : isAbsolute p = true) :
    isAbsolute (directory p) = true := by
  obtain ⟨q, rfl⟩ : ∃ q, p = '/' :: q := by
    unfold isAbsolute at h
    rw [Text.startsWith_iff] at h
    obtain ⟨q, rfl⟩ := h
    exact ⟨q, rfl⟩
  -- whatever is cut off at the end, the slash in front stays
  have hcut : ∀ (f : Char → Bool) (t : Text), ¬ (∀ c ∈ '/' :: t, f c = true) →
      ∃ u, (('/' :: t).reverse.dropWhile f).reverse = '/' :: u := by
    intro f t hf
    have hp := (List.dropWhile_suffix (p := f) (l := ('/' :: t).reverse)).reverse
    rw [List.reverse_reverse] at hp
    cases hc : (('/' :: t).reverse.dropWhile f).reverse with
    | nil =>
      rw [List.reverse_eq_nil_iff, List.dropWhile_eq_nil_iff] at hc
      exact absurd (fun c hcm => hc c (List.mem_reverse.2 hcm)) hf
    | cons c u =>
      rw [hc] at hp
      obtain ⟨v, hv⟩ := hp
      exact ⟨u, by rw [(List.cons.inj hv).1]⟩
  obtain ⟨u, hu⟩ := hcut (fun c => decide (c ≠ '/')) q fun hall => by
    simpa using hall '/' List.mem_cons_self
  unfold isAbsolute directory
  rw [Text.startsWith_iff]
  simp only [hu]
  split
  · exact List.prefix_append ['/'] u
  · next hall =>
    obtain ⟨v, hv⟩ := hcut (· == '/') u fun h => hall (List.all_eq_true.2 h)
    rw [hv]
    exact List.prefix_append ['/'] v

/-! ## Seen from a root -/

theorem join_injective {names other : List Text} (hn : ∀ s ∈ names, IsName s)
    (ho : ∀ s ∈ other, IsName s) (h : Text.join ['/'] names = Text.join ['/'] other) :
    names = other := by
  rw [← segments_join fun s hs => ⟨(hn s hs).1, (hn s hs).2.1⟩, h,
    segments_join fun s hs => ⟨(ho s hs).1, (ho s hs).2.1⟩]

theorem join_append {names more : List Text} (hn : names ≠ []) (hm : more ≠ []) :
    Text.join ['/'] (names ++ more) =
      Text.join ['/'] names ++ '/' :: Text.join ['/'] more := by
  unfold Text.join
  induction names with
  | nil => exact absurd rfl hn
  | cons s rest ih =>
    cases rest with
    | nil =>
      rw [List.singleton_append, List.intercalate_cons_of_ne_nil hm, List.intercalate_singleton]
      simp
    | cons t rest =>
      rw [List.cons_append, List.intercalate_cons_of_ne_nil (by simp), ih (by simp),
        List.intercalate_cons_cons]
      simp

theorem not_isAbsolute_of_isName {s : Text} (h : IsName s) : isAbsolute s = false := by
  rw [Bool.eq_false_iff]
  intro ha
  unfold isAbsolute at ha
  rw [Text.startsWith_iff] at ha
  obtain ⟨t, rfl⟩ := ha
  exact h.2.1 (by simp)

theorem commonLead_append (base more : List Text) : commonLead base (base ++ more) = base := by
  induction base with
  | nil => rfl
  | cons s rest ih =>
    unfold commonLead
    rw [List.cons_append]
    simp only [if_true, ih]

/-- A path ends with a slash only where it has no name. -/
theorem endsWith_below {l : Text} {names : List Text} (hn : ∀ s ∈ names, IsName s)
    (hne : names ≠ []) : Text.endsWith ['/'] (below l names) = false := by
  obtain ⟨front, t, rfl⟩ : ∃ front t, names = front ++ [t] :=
    ⟨_, _, (List.dropLast_concat_getLast hne).symm⟩
  obtain ⟨htne, hslash, -, -⟩ := hn t (by simp)
  obtain ⟨v, hv⟩ : ∃ v, below l (front ++ [t]) = v ++ t := by
    unfold below
    cases front with
    | nil => exact ⟨l, by simp [Text.join]⟩
    | cons a front =>
      rw [join_append (by simp) (by simp)]
      exact ⟨l ++ (Text.join ['/'] (a :: front) ++ ['/']), by simp [Text.join]⟩
  rw [Bool.eq_false_iff]
  intro he
  rw [Text.endsWith_iff] at he
  obtain ⟨u, hu⟩ := he
  rw [hv] at hu
  obtain ⟨init, c, rfl⟩ : ∃ init c, t = init ++ [c] :=
    ⟨_, _, (List.dropLast_concat_getLast htne).symm⟩
  rw [← List.append_assoc] at hu
  have hc : '/' = c := by simpa using (List.append_inj' hu rfl).2
  exact hslash (List.mem_append_right init (List.mem_singleton.2 hc))

section
variable {l : Text} (hl : IsLead l) {names more : List Text} (hn : ∀ s ∈ names, IsName s)
include hl

theorem below_ne_nil (names : List Text) : below l names ≠ [] := by
  unfold below
  exact fun h => hl.ne_nil (List.append_eq_nil_iff.1 h).1

include hn

theorem join_below {s : Text} (hs : IsName s) :
    join (below l names) s = below l (names ++ [s]) := by
  have hne : (below l names).isEmpty = false := by
    rw [List.isEmpty_eq_false_iff]
    exact below_ne_nil hl names
  unfold join
  rw [not_isAbsolute_of_isName hs, hne, Bool.false_or]
  simp only [Bool.false_eq_true, if_false]
  by_cases hnil : names = []
  · subst hnil
    have hend : Text.endsWith ['/'] (below l []) = true := by
      rcases hl with rfl | rfl <;> rfl
    rw [hend, if_pos rfl]
    unfold below
    simp [Text.join]
  · rw [endsWith_below hn hnil]
    simp only [Bool.false_eq_true, if_false]
    unfold below
    rw [join_append hnil (by simp), List.append_assoc]
    simp [Text.join]

/-- Below a root the relative path is made of the names that come after those of the root. -/
theorem relative?_below (cwd : Text) (hm : ∀ s ∈ more, IsName s) (hne : more ≠ []) :
    relative? cwd (below l names) (below l (names ++ more)) = some (Text.join ['/'] more) := by
  have hnm : ∀ s ∈ names ++ more, IsName s := by
    intro s hs
    rcases List.mem_append.1 hs with hs | hs
    · exact hn s hs
    · exact hm s hs
  have hc := isCanonical_below hl hnm
  have hempty : (below l (names ++ more)).isEmpty = false := by
    rw [List.isEmpty_eq_false_iff]
    exact below_ne_nil hl _
  unfold relative?
  rw [hempty, absolute_of_isCanonical (isCanonical_below hl hn), absolute_of_isCanonical hc,
    segments_below hl hn, segments_below hl hnm]
  simp only [Bool.false_eq_true, if_false]
  rw [commonLead_append, Nat.sub_self, List.replicate_zero, List.nil_append, List.drop_left]
  obtain ⟨s, rest, rfl⟩ := List.exists_cons_of_ne_nil hne
  rfl

end

end ContractAudit.Path
