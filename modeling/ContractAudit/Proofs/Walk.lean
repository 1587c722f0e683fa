import ContractAudit.Proofs.Path

/-!
# Walking along segments

To carry out the segments of a path from a directory is to walk along them: the empty segment and
`.` stay, a name goes down, and `..` goes up, but not beyond the root.  What `normalize` leaves of
an absolute path is where the walk from the root ends, so a path that is seen from a directory
leads where the walk from the directory does.

    resolved true pieces = walk [] pieces                   (resolved_eq_walk)
    normalize (join (below l ns) p) = below l (walk ns (split '/' p))
                                                            (normalize_join_below)
    directory (below l ns) = below l ns.dropLast            (directory_below)
-/

namespace ContractAudit.Path

/-! ## Walks -/

/-- The directory that one segment leads to. -/
def step (dir : List Text) (segment : Text) : List Text :=
  if segment = [] ∨ segment = here then dir
  else if segment = up then dir.dropLast
  else dir ++ [segment]

/-- The directory that segments lead to, one after the other. -/
def walk (dir segments : List Text) : List Text := segments.foldl step dir

theorem walk_append (dir segments more : List Text) :
    walk dir (segments ++ more) = walk (walk dir segments) more :=
  List.foldl_append

theorem up_not_mem_step {dir : List Text} (h : up ∉ dir) (segment : Text) :
    up ∉ step dir segment := by
  unfold step
  split
  · exact h
  · split
    · exact fun hmem => h (List.dropLast_subset dir hmem)
    · next hup =>
      rw [List.mem_append, List.mem_singleton, not_or]
      exact ⟨h, Ne.symm hup⟩

/-- From the root on no `..` is left on the stack, so it is the directory, the last name first. -/
theorem push_eq_step {stack : List Text} (h : up ∉ stack) (segment : Text) :
    push true stack segment = (step stack.reverse segment).reverse := by
  unfold push step
  by_cases hstay : segment = [] ∨ segment = here
  · rw [if_pos (by simpa using hstay), if_pos hstay, List.reverse_reverse]
  · rw [if_neg (by simpa using hstay), if_neg hstay]
    by_cases hup : segment = up
    · rw [if_pos (by simpa using hup), if_pos hup]
      cases stack with
      | nil => rfl
      | cons top below =>
        have htop : top ≠ up := fun he => h (by rw [he]; exact List.mem_cons_self)
        simp [htop]
    · rw [if_neg (by simpa using hup), if_neg hup]
      simp

theorem foldl_push {stack : List Text} (h : up ∉ stack) (pieces : List Text) :
    pieces.foldl (push true) stack = (walk stack.reverse pieces).reverse := by
  induction pieces generalizing stack with
  | nil => exact (List.reverse_reverse stack).symm
  | cons segment rest ih =>
    have hstep := up_not_mem_step (fun hmem => h (List.mem_reverse.1 hmem)) segment
    rw [List.foldl_cons, push_eq_step h, ih (fun hmem => hstep (List.mem_reverse.1 hmem)),
      List.reverse_reverse]
    rfl

/-- **Carrying out segments is walking along them.** -/
theorem resolved_eq_walk (pieces : List Text) : resolved true pieces = walk [] pieces := by
  unfold resolved
  rw [foldl_push List.not_mem_nil, List.reverse_reverse, List.reverse_nil]

/-- Empty segments count for nothing. -/
theorem walk_split (dir : List Text) (p : Text) :
    walk dir (Text.split '/' p) = walk dir (segments p) := by
  unfold walk segments
  rw [List.foldl_filter]
  congr 1
  funext dir segment
  cases segment with
  | nil => rfl
  | cons c rest => rfl

theorem walk_of_isName {names : List Text} (h : ∀ s ∈ names, IsName s) (dir : List Text) :
    walk dir names = dir ++ names := by
  induction names generalizing dir with
  | nil => exact (List.append_nil dir).symm
  | cons s rest ih =>
    obtain ⟨hne, -, hhere, hup⟩ := h s List.mem_cons_self
    have hstep : step dir s = dir ++ [s] := by
      unfold step
      rw [if_neg (not_or.2 ⟨hne, hhere⟩), if_neg hup]
    unfold walk at ih ⊢
    rw [List.foldl_cons, hstep, ih fun t ht => h t (List.mem_cons_of_mem s ht),
      List.append_assoc, List.singleton_append]

theorem isName_of_mem_step {segment : Text} (hslash : '/' ∉ segment) {dir : List Text}
    (h : ∀ s ∈ dir, IsName s) : ∀ s ∈ step dir segment, IsName s := by
  unfold step
  split
  · exact h
  · next hstay =>
    split
    · exact fun s hs => h s (List.dropLast_subset dir hs)
    · next hup =>
      obtain ⟨hne, hhere⟩ := not_or.1 hstay
      refine List.forall_mem_append.2 ⟨h, List.forall_mem_singleton.2 ?_⟩
      exact ⟨hne, hslash, hhere, hup⟩

/-- A walk from names leads to names. -/
theorem isName_of_mem_walk {pieces : List Text} (hp : ∀ s ∈ pieces, '/' ∉ s) {dir : List Text}
    (h : ∀ s ∈ dir, IsName s) : ∀ s ∈ walk dir pieces, IsName s := by
  induction pieces generalizing dir with
  | nil => exact h
  | cons segment rest ih =>
    obtain ⟨hslash, hrest⟩ := List.forall_mem_cons.1 hp
    exact ih hrest (isName_of_mem_step hslash h)

/-! ## Paths seen from a directory -/

section
variable {p : Text} (hp : isAbsolute p = false)
include hp

theorem segments_join_of_relative (base : Text) :
    segments (join base p) = segments base ++ segments p := by
  unfold join
  rw [hp]
  simp only [Bool.false_eq_true, if_false]
  split
  · next h =>
    rcases Bool.or_eq_true_iff.1 h with hempty | hend
    · rw [List.isEmpty_iff.1 hempty]
      rfl
    · obtain ⟨front, rfl⟩ := (Text.endsWith_iff ['/'] base).1 hend
      rw [List.append_assoc, List.singleton_append, segments_append_slash, segments_append_slash]
      exact congrArg (· ++ segments p) (List.append_nil (segments front)).symm
  · exact segments_append_slash base p

theorem isAbsolute_join_of_relative (base : Text) :
    isAbsolute (join base p) = isAbsolute base := by
  cases base with
  | nil =>
    unfold join
    rw [hp]
    exact hp
  | cons c rest =>
    unfold join
    rw [hp]
    simp only [Bool.false_eq_true, if_false]
    split <;> rfl

end

theorem segments_normalize {p : Text} (h : isAbsolute p = true) :
    segments (normalize p) = walk [] (segments p) := by
  rw [normalize_of_isAbsolute h,
    segments_below (isLead_lead h) fun _ => isName_of_mem_resolved_segments, resolved_eq_walk]

/-- A path seen from a directory leads from where the directory is. -/
theorem segments_absolute_join {cwd p : Text} (hcwd : isAbsolute cwd = true)
    (hp : isAbsolute p = false) (base : Text) :
    segments (absolute cwd (join base p)) =
      walk (segments (absolute cwd base)) (Text.split '/' p) := by
  unfold absolute
  rw [isAbsolute_join_of_relative hp, walk_split]
  split
  · next hbase =>
    rw [segments_normalize ((isAbsolute_join_of_relative hp base).trans hbase),
      segments_normalize hbase, segments_join_of_relative hp, walk_append]
  · next hbase =>
    have hbase : isAbsolute base = false := Bool.eq_false_iff.2 hbase
    have hjoin : isAbsolute (join base p) = false :=
      (isAbsolute_join_of_relative hp base).trans hbase
    rw [segments_normalize (isAbsolute_join hcwd _), segments_normalize (isAbsolute_join hcwd _),
      segments_join_of_relative hjoin, segments_join_of_relative hp,
      segments_join_of_relative hbase, ← List.append_assoc, walk_append]

section
variable {l : Text} (hl : IsLead l) {names : List Text} (hn : ∀ s ∈ names, IsName s)
include hl hn

theorem lead_join_below {p : Text} (hp : isAbsolute p = false) :
    lead (join (below l names) p) = l := by
  have hhead : p.head? ≠ some '/' := by
    intro h
    obtain ⟨q, rfl⟩ := List.head?_eq_some_iff.1 h
    cases hp
  have hempty : (below l names).isEmpty = false :=
    List.isEmpty_eq_false_iff.2 (below_ne_nil hl names)
  unfold join
  rw [hp, hempty, Bool.false_or]
  simp only [Bool.false_eq_true, if_false]
  by_cases hnil : names = []
  · subst hnil
    have hend : Text.endsWith ['/'] (below l []) = true := by
      rcases hl with rfl | rfl <;> rfl
    rw [if_pos hend]
    unfold below Text.join
    rw [List.intercalate_nil, List.append_nil]
    exact lead_append hl hhead
  · rw [endsWith_below hn hnil]
    simp only [Bool.false_eq_true, if_false]
    unfold below
    rw [List.append_assoc]
    apply lead_append hl
    rw [List.head?_append]
    intro h
    cases hj : (Text.join ['/'] names).head? with
    | none =>
      rw [List.head?_eq_none_iff] at hj
      have hsegments := segments_below hl hn
      unfold below at hsegments
      rw [hj, segments_append_lead hl] at hsegments
      exact hnil hsegments.symm
    | some c =>
      rw [hj] at h
      exact head?_join hn (hj.trans h)

/-- **A path seen from a directory.** -/
theorem normalize_join_below {p : Text} (hp : isAbsolute p = false) :
    normalize (join (below l names) p) = below l (walk names (Text.split '/' p)) := by
  have habs := isAbsolute_join (isAbsolute_below hl names) p
  rw [normalize_of_isAbsolute habs, lead_join_below hl hn hp, resolved_eq_walk,
    segments_join_of_relative hp, segments_below hl hn, walk_append, walk_of_isName hn,
    List.nil_append, walk_split]

end

/-! ## The directory of a path -/

/-- What stands before the last slash, without slashes at its end unless it has nothing else. -/
theorem directory_append_slash {t : Text} (ht : '/' ∉ t) (u : Text) :
    directory (u ++ '/' :: t) =
      if (u ++ ['/']).all (· == '/') then u ++ ['/']
      else ((u ++ ['/']).reverse.dropWhile (· == '/')).reverse := by
  have hall : ∀ c ∈ t.reverse, decide (c ≠ '/') = true := fun c hc =>
    decide_eq_true fun he => ht (he ▸ List.mem_reverse.1 hc)
  have hhead : ((u ++ '/' :: t).reverse.dropWhile (· ≠ '/')).reverse = u ++ ['/'] := by
    rw [List.reverse_append, List.reverse_cons, List.append_assoc,
      List.dropWhile_append_of_pos hall]
    simp
  unfold directory
  rw [hhead]

section
variable {l : Text} (hl : IsLead l) {names : List Text} (hn : ∀ s ∈ names, IsName s)
include hl hn

/-- The directory of a path has all its names but the last. -/
theorem directory_below : directory (below l names) = below l names.dropLast := by
  rcases List.eq_nil_or_concat names with rfl | ⟨front, t, rfl⟩
  · rcases hl with rfl | rfl <;> rfl
  · rw [List.concat_eq_append] at hn ⊢
    rw [List.dropLast_concat]
    have hslash : '/' ∉ t := (hn t (by simp)).2.1
    by_cases hnil : front = []
    · subst hnil
      rcases hl with rfl | rfl
      · have hpath : below ['/'] ([] ++ [t]) = [] ++ '/' :: t := by simp [below, Text.join]
        rw [hpath, directory_append_slash hslash]
        rfl
      · have hpath : below ['/', '/'] ([] ++ [t]) = ['/'] ++ '/' :: t := by
          simp [below, Text.join]
        rw [hpath, directory_append_slash hslash]
        rfl
    · have hfront : ∀ s ∈ front, IsName s := fun s hs => hn s (List.mem_append_left _ hs)
      have hpath : below l (front ++ [t]) = below l front ++ '/' :: t := by
        unfold below
        rw [join_append hnil (by simp), List.append_assoc]
        simp [Text.join]
      obtain ⟨u, c, hu⟩ : ∃ u c, below l front = u ++ [c] :=
        ⟨_, _, (List.dropLast_concat_getLast (below_ne_nil hl front)).symm⟩
      have hc : c ≠ '/' := by
        rintro rfl
        have hend := endsWith_below (l := l) hfront hnil
        rw [hu, Bool.eq_false_iff, Ne, Text.endsWith_iff] at hend
        exact hend (List.suffix_append u ['/'])
      rw [hpath, directory_append_slash hslash, hu, if_neg (by simp [hc])]
      simp [hc]

end

end ContractAudit.Path
