import ContractAudit.Proofs.CanonicalRanges
import ContractAudit.Proofs.Locations

/-!
# Reading back the references of a description

Someone who describes a vulnerability writes references into prose.  A file may have any name
that no blank or parenthesis ends, so that a name may look like a reference itself.  Prose without
`#` that keeps off from the references by blanks and parentheses adds no reference, hides none and
lengthens none.

    ofText (before ++ t) = ofText t                         (ofText_append_of_opens)
    ofText (r.written ++ t) = r :: ofText t                 (ofText_written_append)
    ofDescription t = .ok ls, the locations of the mentions written in t
                                                            (ofDescription_isWriting)
-/

namespace ContractAudit

/-- A file with a line of it, or with a first and a last one. -/
structure Mention where
  file : Text
  first : Nat
  last : Option Nat
  solid : ∀ c ∈ file, FileRef.endsWord c = false
  source : FileRef.ending <:+ file
  named : FileRef.ending.length < file.length
  first_short : (Decimal.digits first).length ≤ Decimal.limit
  last_short : ∀ n ∈ last, (Decimal.digits n).length ≤ Decimal.limit

namespace Mention

open FileRef (Opens Closes)

/-- The reference by which a place is mentioned. -/
def ref (m : Mention) : FileRef :=
  ⟨m.file, Decimal.digits m.first, m.last.map Decimal.digits⟩

/-- The bounds of the lines that are meant. -/
def span (m : Mention) : Int × Int := (m.first, m.last.getD m.first)

/-- The locations are those of the mentions: one for each file, in the order in which the files
are first mentioned, with the canonical ranges of all mentions of the file. -/
structure Locates (ms : List Mention) (ls : List Location) : Prop where
  files : ls.map (·.file) = (ms.map (·.file)).eraseDups
  ranges : ∀ l ∈ ls,
    LineRange.IsCanonical ((ms.filter (·.file = l.file)).map span) l.ranges

/-! ## Prose -/

/-- The text goes on behind a mention with prose and further mentions. -/
inductive IsBehind : List Mention → Text → Prop
  | prose {t : Text} (hash : '#' ∉ t) (closes : Closes t) : IsBehind [] t
  | mention {m : Mention} {ms : List Mention} {between rest : Text} (hash : '#' ∉ between)
      (ne_nil : between ≠ []) (closes : Closes between) (opens : Opens between)
      (h : IsBehind ms rest) : IsBehind (m :: ms) (between ++ (m.ref.written ++ rest))

/-- The text is prose into which the mentions are written one after the other. -/
inductive IsWriting : List Mention → Text → Prop
  | prose {t : Text} (hash : '#' ∉ t) : IsWriting [] t
  | mention {m : Mention} {ms : List Mention} {before rest : Text} (hash : '#' ∉ before)
      (opens : Opens before) (h : IsBehind ms rest) :
      IsWriting (m :: ms) (before ++ (m.ref.written ++ rest))

end Mention

namespace FileRef

/-! ## References apart from each other -/

/-- Where a word ends, the references before and behind are found apart from each other. -/
theorem ofText_append_cons {c : Char} (hc : endsWord c = true) (s t : Text) :
    ofText (s ++ c :: t) = ofText s ++ ofText t := by
  unfold ofText words
  rw [List.splitOnP_append_cons s t hc, List.filterMap_append]

theorem ofText_cons {c : Char} (hc : endsWord c = true) (t : Text) : ofText (c :: t) = ofText t :=
  ofText_append_cons hc [] t

theorem ofText_eq_nil {t : Text} (h : '#' ∉ t) : ofText t = [] := by
  refine (isFound_iff.1 (.nil ?_)).symm
  rintro ⟨front, r, rest, hat⟩
  refine h ?_
  rw [hat.text, written]
  simp

/-- Prose in front of a word adds nothing to it. -/
theorem ofText_append_of_opens {before : Text} (hash : '#' ∉ before) (hopens : Opens before)
    (t : Text) : ofText (before ++ t) = ofText t := by
  rcases List.eq_nil_or_concat before with rfl | ⟨before, c, rfl⟩
  · rfl
  · have hc : endsWord c = true := hopens c (by simp)
    rw [List.concat_eq_append, List.append_assoc, List.singleton_append, ofText_append_cons hc,
      ofText_eq_nil, List.nil_append]
    exact fun hmem => hash (by simp [hmem])

/-! ## The word of a reference -/

/-- A mark with no `#` behind it is the last one. -/
theorem IsMark.eq_of_le {w name name' tail tail' : Text} (h : IsMark w name tail)
    (htail : '#' ∉ tail) (h' : IsMark w name' tail') (hle : name.length ≤ name'.length) :
    name' = name ∧ tail' = tail := by
  have htext : (name ++ ending) ++ '#' :: tail = (name' ++ ending) ++ '#' :: tail' := by
    rw [List.append_assoc, List.append_assoc]
    exact h.text.symm.trans h'.text
  -- a longer name would have the `#` of its mark in what stands behind the first mark
  obtain ⟨more, hmore⟩ : name ++ ending <+: name' ++ ending :=
    List.prefix_of_prefix_length_le (List.prefix_append _ _) ⟨_, htext.symm⟩ (by simpa using hle)
  rw [← hmore, List.append_assoc (name ++ ending), List.append_cancel_left_eq] at htext
  cases more with
  | nil =>
    rw [List.append_nil, List.append_cancel_right_eq] at hmore
    exact ⟨hmore.symm, (List.cons.inj htext).2.symm⟩
  | cons c more => exact absurd (by rw [(List.cons.inj htext).2]; simp) htail

/-- The file of a reference ends at the last mark, also if a mark stands in the file. -/
theorem lastMark?_of_isMark {w name tail : Text} (h : IsMark w name tail) (htail : '#' ∉ tail) :
    lastMark? w = some (name ++ ending, tail) := by
  cases hlast : lastMark? w with
  | none => exact absurd h (lastMark?_eq_none.1 hlast name tail)
  | some m =>
    obtain ⟨file, tail'⟩ := m
    obtain ⟨name', rfl, h', hmax⟩ := lastMark?_eq_some hlast
    obtain ⟨rfl, rfl⟩ := h.eq_of_le htail h' (hmax h)
    rfl

theorem secondLine?_elim {last : Option Text} (h : ∀ ds, last = some ds → IsNumber ds) :
    secondLine? (last.elim [] ('-' :: ·)) = last := by
  cases last with
  | none => rfl
  | some ds =>
    obtain ⟨hne, hdigits⟩ := h ds rfl
    rw [Option.elim_some, secondLine?_dash, List.takeWhile_eq_self_iff.2 hdigits, if_neg hne]

/-- The numbers of a reference hold no `#`. -/
theorem IsReference.hash {r : FileRef} (h : r.IsReference) :
    '#' ∉ r.first ++ r.last.elim [] ('-' :: ·) := by
  have hnumber : ∀ {ds : Text}, IsNumber ds → '#' ∉ ds :=
    fun hds hmem => absurd (hds.2 _ hmem) (by decide)
  rw [List.mem_append]
  rintro (hmem | hmem)
  · exact hnumber h.first hmem
  · cases hlast : r.last with
    | none =>
      rw [hlast] at hmem
      cases hmem
    | some ds =>
      rw [hlast] at hmem
      exact hnumber (h.last ds hlast) ((List.mem_cons.1 hmem).resolve_left (by decide))

/-- **A reference is read back from the word it is written as.** -/
theorem ofWord?_written {r : FileRef} (h : r.IsReference) : ofWord? r.written = some r := by
  have hat : IsAt r.written [] r [] := ⟨h, by simp⟩
  obtain ⟨name, hfile, hmark⟩ := hat.isMark
  rw [List.nil_append, List.append_nil] at hmark
  have hstop : Text.StopsAt Text.isDecimal (r.last.elim [] ('-' :: ·)) := by
    cases r.last with
    | none => exact Text.stopsAt_nil
    | some ds => exact Text.stopsAt_cons.2 (by decide)
  unfold ofWord?
  rw [lastMark?_of_isMark hmark h.hash, Option.map_some]
  simp only [Text.takeWhile_run h.first.2 hstop, Text.dropWhile_run h.first.2 hstop,
    secondLine?_elim h.last, ← hfile]

theorem ofText_written {r : FileRef} (h : r.IsReference) : ofText r.written = [r] := by
  unfold ofText words
  rw [List.splitOnP_eq_singleton h.not_endsWord, List.filterMap_cons, ofWord?_written h,
    List.filterMap_nil]

/-- A reference is read back in front of a text that keeps off from it. -/
theorem ofText_written_append {r : FileRef} (h : r.IsReference) {t : Text} (ht : Closes t) :
    ofText (r.written ++ t) = r :: ofText t := by
  cases t with
  | nil => rw [List.append_nil, ofText_written h]; rfl
  | cons c t =>
    have hc : endsWord c = true := ht c rfl
    rw [ofText_append_cons hc, ofText_written h, ofText_cons hc, List.singleton_append]

end FileRef

/-! ## Mentions -/

namespace Mention

open FileRef (Closes)

theorem isReference_ref (m : Mention) : m.ref.IsReference where
  file := by
    obtain ⟨name, hname⟩ := m.source
    refine ⟨name, ?_, fun c hc => m.solid c ?_, hname.symm⟩
    · rintro rfl
      have hlong := m.named
      rw [← hname] at hlong
      exact absurd hlong (by simp)
    · rw [← hname]
      exact List.mem_append_left _ hc
  first := FileRef.isNumber_digits m.first
  last := by
    intro ds hds
    obtain ⟨n, -, rfl⟩ := Option.map_eq_some_iff.1 hds
    exact FileRef.isNumber_digits n

theorem span_ref (m : Mention) : m.ref.span = .ok (m.file, [m.span]) := by
  have hread : ∀ {n : Nat}, (Decimal.digits n).length ≤ Decimal.limit →
      Decimal.readDigits (Decimal.digits n) = .ok n :=
    fun h => Decimal.readDigits_eq_ok_iff.2 ⟨h, Decimal.value_digits _⟩
  unfold FileRef.span FileRef.bounds ref span
  rw [hread m.first_short]
  cases hlast : m.last with
  | none => rfl
  | some n =>
    simp only [Option.map_some, hread (m.last_short n hlast)]
    rfl

theorem mapM_span (ms : List Mention) :
    (ms.map ref).mapM FileRef.span = .ok (ms.map fun m => (m.file, [m.span])) := by
  induction ms with
  | nil => rfl
  | cons m ms ih =>
    rw [List.map_cons, List.mapM_cons, span_ref, ih]
    rfl

theorem itemsOf_map (ms : List Mention) (file : Text) :
    itemsOf (ms.map fun m => (m.file, [m.span])) file =
      (ms.filter (·.file = file)).map span := by
  unfold itemsOf
  rw [List.filter_map, List.flatMap_map]
  exact List.flatMap_pure_eq_map _ _

theorem ofSpans_map (ms : List Mention) :
    Location.ofSpans (ms.map fun m => (m.file, [m.span])) =
      (ms.map (·.file)).eraseDups.map fun file =>
        ⟨file, LineRange.coalesce ((ms.filter (·.file = file)).map span)⟩ := by
  unfold Location.ofSpans
  rw [gather_eq, List.map_map, List.map_map]
  refine List.map_congr_left fun file _ => ?_
  simp only [Function.comp_apply, itemsOf_map]

/-- The locations of mentions are told by the mentions. -/
theorem locates_iff {ms : List Mention} {ls : List Location} :
    Locates ms ls ↔ ls = Location.ofSpans (ms.map fun m => (m.file, [m.span])) := by
  rw [ofSpans_map]
  constructor
  · rintro ⟨hfiles, hranges⟩
    rw [← hfiles, List.map_map]
    refine (List.map_id ls).symm.trans (List.map_congr_left fun l hl => ?_)
    rw [Function.comp_apply, ← (hranges l hl).eq, id]
  · rintro rfl
    constructor
    case files => simp [Function.comp_def]
    case ranges => exact List.forall_mem_map.2 fun file _ => LineRange.isCanonical_coalesce _

/-! ## Top theorem -/

theorem IsBehind.closes {ms : List Mention} {t : Text} (h : IsBehind ms t) : Closes t := by
  cases h with
  | prose _ hcloses => exact hcloses
  | @mention _ _ between rest _ hne hcloses =>
    obtain ⟨c, between, rfl⟩ := List.exists_cons_of_ne_nil hne
    exact hcloses

/-- Behind a mention its word ends, so that the next ones are found apart from it. -/
theorem IsBehind.ofText_eq {ms : List Mention} {t : Text} (h : IsBehind ms t) :
    FileRef.ofText t = ms.map ref := by
  induction h with
  | prose hash => exact FileRef.ofText_eq_nil hash
  | @mention m ms _ _ hash _ _ hopens hrest ih =>
    rw [FileRef.ofText_append_of_opens hash hopens,
      FileRef.ofText_written_append m.isReference_ref hrest.closes, ih, List.map_cons]

theorem IsWriting.ofText_eq {ms : List Mention} {t : Text} (h : IsWriting ms t) :
    FileRef.ofText t = ms.map ref := by
  cases h with
  | prose hash => exact FileRef.ofText_eq_nil hash
  | @mention m ms _ _ hash hopens hrest =>
    rw [FileRef.ofText_append_of_opens hash hopens,
      FileRef.ofText_written_append m.isReference_ref hrest.closes, hrest.ofText_eq, List.map_cons]

/-- **Mentions are read back from the prose they are written into**, all of them and no others. -/
theorem ofDescription_isWriting {ms : List Mention} {t : Text} (h : IsWriting ms t) :
    ∃ ls, Location.ofDescription t = .ok ls ∧ ∀ other, Locates ms other ↔ other = ls := by
  refine ⟨_, ?_, fun other => locates_iff⟩
  unfold Location.ofDescription
  rw [h.ofText_eq, mapM_span]
  rfl

/-- A file with marks, dashes and digits in its name, line 0, lines in reverse, prose that looks
like a reference, and a file that is mentioned again behind another one. -/
theorem ofDescription_isWriting_lookalike :
    let a : Mention := ⟨"a-1.sol#2-3,.sol", 9, some 7,
      Text.eq_false_of_any rfl, by decide, by decide, by decide, by decide⟩
    let b : Mention := ⟨"B.sol", 0, none,
      Text.eq_false_of_any rfl, by decide, by decide, by decide, by decide⟩
    let c : Mention := ⟨a.file, 6, none, a.solid, a.source, a.named, by decide, by decide⟩
    let t : Text := "In .sol (a-1.sol#2-3,.sol#9-7),\tB.sol#0\na-1.sol#2-3,.sol#6 -5 C.sol"
    IsWriting [a, b, c] t ∧ ∃ ls, Location.ofDescription t = .ok ls ∧
      (∀ other, Locates [a, b, c] other ↔ other = ls) ∧
      (ls.map fun l => (l.file, l.ranges.map fun r => (r.first, r.last))) =
        ([("a-1.sol#2-3,.sol", [(6, 9)]), ("B.sol", [])] : List (Text × List (Int × Int))) := by
  intro a b c t
  have ht : t = "In .sol (" ++ (a.ref.written ++ ("),\t" ++ (b.ref.written ++ ("\n" ++
      (c.ref.written ++ " -5 C.sol"))))) := by decide +kernel
  have hwriting : IsWriting [a, b, c] t := by
    rw [ht]
    refine .mention (by decide) (by decide) (.mention ?_ ?_ ?_ ?_ (.mention ?_ ?_ ?_ ?_
      (.prose ?_ ?_))) <;> decide
  obtain ⟨ls, hls, hlocates⟩ := ofDescription_isWriting hwriting
  refine ⟨hwriting, ls, hls, hlocates, ?_⟩
  obtain rfl := Except.ok.inj (hls.symm.trans (show Location.ofDescription t = .ok _ from rfl))
  decide +kernel

end Mention

end ContractAudit
