import Mathlib.Data.List.Basic
import ContractAudit.Proofs.Workspace
import ContractAudit.Session

/-!
# One call at a time

Calls may be started at any moment, and replies come at any moment.  The project may change from
one moment to the next, so a `Moment` is an event together with the project as it is then.

A call that is refused, because another one waits or because there is nothing to look at, leaves
the analyzer as it was and sends nothing.  `withoutRefused` takes the refused calls out of a
history; the replies keep their calls, whose places are counted anew.

    an analyzer is busy ↔ a call of its waits, and then just one
                                                            (countP_isWaiting_after)
    a history without its refused calls leads to the same calls, the same requests and the same
    analyzer                                                (after_withoutRefused)
-/

namespace ContractAudit

/-- The call has been turned away before it has looked at any file. -/
def AnalysisFault.isRefusal : AnalysisFault → Bool
  | busy => true
  | noWorkspace => true
  | noActiveFile => true
  | notSource => true
  | unreadable .. => true
  | _ => false

/-- The call has been turned away. -/
def Progress.isRefused : Progress → Bool
  | done (.error f) => f.isRefusal
  | _ => false

theorem Progress.isRefused_iff {p : Progress} :
    p.isRefused = true ↔ ∃ f, p = .done (.error f) ∧ f.isRefusal = true := by
  constructor
  · intro h
    rcases p with p | ⟨f⟩ | ⟨found⟩
    · cases h
    · exact ⟨f, rfl, h⟩
    · cases h
  · rintro ⟨f, rfl, h⟩
    exact h

/-! ## Calls that are turned away -/

namespace Workspace

variable (ws : Workspace)

theorem isRefused_closeRun (count : Nat) (found : Findings) (tally : Tally) :
    (closeRun count found tally).progress.isRefused = false := by
  unfold closeRun Stage.done
  cases tally.succeeded <;> rfl

/-- A run over groups is never turned away. -/
theorem isRefused_nextGroup (count next : Nat) (found : Findings) (index : Nat)
    (groups : List (List Text)) (tally : Tally) :
    (ws.nextGroup count next found index groups tally).value.progress.isRefused = false := by
  induction groups generalizing index tally with
  | nil => exact isRefused_closeRun count found tally
  | cons group rest ih =>
    simp only [nextGroup, Logged.value_bind]
    split
    · rfl
    · exact ih _ _
    · simp only [Logged.value_bind]
      split <;> rfl

theorem isRefused_afterFault (tally : Tally) (f : SubmissionFault) (plan : Plan) :
    (ws.afterFault tally f plan).value.progress.isRefused = false := by
  cases plan with
  | last => rfl
  | groups run =>
    simp only [afterFault]
    split
    · exact isRefused_nextGroup ..
    · rfl

/-- Neither is a call that has waited. -/
theorem isRefused_resume (tally : Tally) (p : Pending) (reply : Reply) :
    (ws.resume tally p reply).value.progress.isRefused = false := by
  simp only [resume, Logged.value_bind]
  split
  · exact isRefused_afterFault ..
  · simp only [Logged.value_bind]
    split
    · rfl
    · simp only [Logged.value_bind]
      cases p.plan with
      | last => rfl
      | groups run => exact isRefused_nextGroup ..

theorem isRefused_sendClosure (seed : SourceFile) :
    (ws.sendClosure seed).value.progress.isRefused = false := by
  simp only [sendClosure, Logged.value_bind]
  split
  · rfl
  · simp only [Logged.value_bind]
    split <;> rfl

/-- How a call begins, whatever the tally is that it finds. -/
inductive Begins (c : Call) : Prop
  /-- It is turned away and leaves the tally as it is. -/
  | turnedAway (f : AnalysisFault) (hf : f.isRefusal = true) (hbusy : f ≠ .busy)
      (h : ∀ tally, (ws.begin tally c).value = .done tally (.error f))
  /-- Reading its file has failed in an unexpected way, and the tally is left as it is. -/
  | unread (f : ReadFault) (h : ∀ tally, (ws.begin tally c).value = .done tally (.error (.read f)))
  /-- It has a tally of its own. -/
  | afresh (s : Stage) (hs : s.progress.isRefused = false)
      (h : ∀ tally, (ws.begin tally c).value = s)

theorem begins_all : Begins ws .all := by
  cases hopen : ws.tree.isDirectory ws.root with
  | false =>
    refine .turnedAway .noWorkspace rfl AnalysisFault.noConfusion fun tally => ?_
    simp only [begin, beginAll, isOpen, hopen]
    rfl
  | true =>
    refine .afresh (ws.begin {} .all).value ?_ fun tally => ?_
    · simp only [begin, beginAll, isOpen, hopen, if_true, Logged.value_bind, Logged.value_pure,
        Bool.not_true, Bool.false_eq_true, if_false]
      cases hg : ws.groups.value with
      | error f => rcases groups_eq_error hg with ⟨g, rfl⟩ | rfl | ⟨g, rfl⟩ <;> rfl
      | ok groups => exact isRefused_nextGroup ..
    · simp only [begin, beginAll, isOpen, hopen]
      rfl

theorem begins_current (file : Option Text) : Begins ws (.current file) := by
  cases hnamed : ws.activePath? file with
  | none =>
    refine .turnedAway .noActiveFile rfl AnalysisFault.noConfusion fun tally => ?_
    simp only [begin, beginCurrent, hnamed]
    rfl
  | some named =>
    cases hopen : ws.tree.isDirectory ws.root with
    | false =>
      refine .turnedAway .noWorkspace rfl AnalysisFault.noConfusion fun tally => ?_
      simp only [begin, beginCurrent, isOpen, hnamed, hopen]
      rfl
    | true =>
      cases hsource : ws.rules.isSource named with
      | false =>
        refine .turnedAway .notSource rfl AnalysisFault.noConfusion fun tally => ?_
        simp only [begin, beginCurrent, isOpen, hnamed, hopen, hsource]
        rfl
      | true =>
        cases hload : ws.load (Path.absolute ws.cwd named) with
        | ok seed =>
          refine .afresh (ws.sendClosure seed).value (isRefused_sendClosure ws seed) fun tally => ?_
          simp only [begin, beginCurrent, isOpen, hnamed, hopen, hsource, hload]
          rfl
        | error f =>
          have hbegin : ∀ tally, (ws.begin tally (.current file)).value = .done tally
              (.error (if f.isExpected then .unreadable (Path.absolute ws.cwd named) f
                else .read f)) := by
            intro tally
            simp only [begin, beginCurrent, isOpen, hnamed, hopen, hsource, hload]
            rfl
          cases hf : f.isExpected with
          | false => exact .unread f fun tally => by rw [hbegin, hf]; rfl
          | true =>
            exact .turnedAway (.unreadable _ f) rfl AnalysisFault.noConfusion
              fun tally => by rw [hbegin, hf]; rfl

theorem begins (c : Call) : Begins ws c := by
  cases c with
  | all => exact begins_all ws
  | current file => exact begins_current ws file

/-- A call is turned away before anything has changed. -/
def IsTurnedAway (tally : Tally) (s : Stage) : Prop :=
  ∃ f, s = .done tally (.error f) ∧ f.isRefusal = true ∧ f ≠ .busy

theorem begin_spec (tally : Tally) (c : Call) :
    (ws.begin tally c).value.progress.isRefused = false ∨
      IsTurnedAway tally (ws.begin tally c).value := by
  cases begins ws c with
  | turnedAway f hf hbusy h => exact Or.inr ⟨f, h tally, hf, hbusy⟩
  | unread f h =>
    rw [h]
    exact Or.inl rfl
  | afresh s hs h =>
    rw [h]
    exact Or.inl hs

end Workspace

/-! ## The analyzer -/

namespace Analyzer

variable (ws : Workspace) (a : Analyzer) (c : Call)

theorem value_start_of_busy (h : a.busy = true) :
    (a.start ws c).value = (a, .done (.error .busy)) := by
  unfold start
  rw [if_pos h]
  rfl

theorem value_start_of_not_busy (h : a.busy = false) :
    (a.start ws c).value =
      (ofStage (ws.begin a.tally c).value, (ws.begin a.tally c).value.progress) := by
  unfold start
  simp only [h, Bool.false_eq_true, if_false]
  rfl

/-- A call that is turned away leaves the analyzer as it was. -/
theorem start_of_isRefused (h : (a.start ws c).value.2.isRefused = true) :
    (a.start ws c).value.1 = a := by
  cases hb : a.busy with
  | true => rw [value_start_of_busy ws a c hb]
  | false =>
    rw [value_start_of_not_busy ws a c hb] at h ⊢
    rcases ws.begin_spec a.tally c with hn | ⟨f, hs, -⟩
    · rw [hn] at h
      cases h
    · rw [hs]
      obtain ⟨busy, tally⟩ := a
      obtain rfl : busy = false := hb
      rfl

/-- An analyzer tells that it is busy if and only if it is. -/
theorem start_eq_busy_iff :
    (a.start ws c).value.2 = .done (.error .busy) ↔ a.busy = true := by
  constructor
  · intro h
    by_contra hb
    have hb : a.busy = false := by simpa using hb
    rw [value_start_of_not_busy ws a c hb] at h
    rcases ws.begin_spec a.tally c with hn | ⟨f, hs, -, hf⟩
    · rw [show (ws.begin a.tally c).value.progress = _ from h] at hn
      cases hn
    · rw [hs] at h
      simp only [Stage.done, Progress.done.injEq, Except.error.injEq] at h
      exact hf h
  · intro h
    rw [value_start_of_busy ws a c h]

/-- After a start the analyzer is busy if it was before, or if the call waits. -/
theorem busy_start :
    (a.start ws c).value.1.busy = (a.busy || (a.start ws c).value.2.isWaiting) := by
  cases hb : a.busy with
  | true =>
    rw [value_start_of_busy ws a c hb]
    exact hb
  | false =>
    rw [value_start_of_not_busy ws a c hb]
    rfl

/-- A call that is started while the analyzer is busy does not wait. -/
theorem isWaiting_start_of_busy (h : a.busy = true) :
    (a.start ws c).value.2.isWaiting = false := by
  rw [value_start_of_busy ws a c h]
  rfl

theorem isRefused_resume (p : Pending) (r : Reply) :
    (a.resume ws p r).value.2.isRefused = false := Workspace.isRefused_resume ws a.tally p r

end Analyzer

/-! ## Lists without some of their items -/

section
variable {α : Type} {q : α → Bool} {l : List α} {k : Nat} {a : α}

/-- An item that is kept stands behind the kept ones of those before it. -/
theorem filter_eq_append (ha : l[k]? = some a) (hq : q a = true) :
    l.filter q = (l.take k).filter q ++ a :: (l.drop (k + 1)).filter q := by
  obtain ⟨hk, rfl⟩ := List.getElem?_eq_some_iff.1 ha
  conv_lhs => rw [← List.take_append_drop k l, List.drop_eq_getElem_cons hk]
  rw [List.filter_append, List.filter_cons_of_pos hq]

theorem getElem?_filter (ha : l[k]? = some a) (hq : q a = true) :
    (l.filter q)[(l.take k).countP q]? = some a := by
  rw [filter_eq_append ha hq, List.countP_eq_length_filter,
    List.getElem?_append_right (Nat.le_refl _), Nat.sub_self]
  rfl

theorem filter_set {b : α} (ha : l[k]? = some a) (hqa : q a = true) (hqb : q b = true) :
    (l.set k b).filter q = (l.filter q).set ((l.take k).countP q) b := by
  have hk : k < l.length := (List.getElem?_eq_some_iff.1 ha).1
  have hb : (l.set k b)[k]? = some b := List.getElem?_set_self hk
  rw [filter_eq_append hb hqb, filter_eq_append ha hqa, List.countP_eq_length_filter,
    List.set_append_right _ _ (Nat.le_refl _), Nat.sub_self, List.set_cons_zero,
    List.take_set_of_le (Nat.le_refl k), List.drop_set_of_lt (Nat.lt_succ_self k)]

end

/-! ## From moment to moment -/

namespace Session

/-- Something that happens to an analyzer, and the project as it is then. -/
abbrev Moment := Workspace × Event

/-- The session after a moment. -/
def next (s : Session) (m : Moment) : Session := (s.step m.1 m.2).value

/-- The session after some moments. -/
def after (s : Session) (ms : List Moment) : Session := ms.foldl next s

/-- Events that find the same project are moments. -/
theorem value_run (ws : Workspace) (events : List Event) (s : Session) :
    (run ws events s).value = s.after (events.map fun e => (ws, e)) := by
  induction events generalizing s with
  | nil => rfl
  | cons e rest ih => exact ih _

variable {s : Session} {ws : Workspace} {k : Nat} {r : Reply}

theorem next_start (s : Session) (ws : Workspace) (c : Call) :
    s.next (ws, .start c) =
      ⟨(s.analyzer.start ws c).value.1, s.calls ++ [(s.analyzer.start ws c).value.2]⟩ := rfl

theorem next_reply {p : Pending} (h : s.calls[k]? = some (.waiting p)) :
    s.next (ws, .reply k r) = ⟨(s.analyzer.resume ws p r).value.1,
      s.calls.set k (s.analyzer.resume ws p r).value.2⟩ := by
  unfold next step reply
  simp only [h]
  rfl

/-- A reply to a call that does not wait changes nothing. -/
theorem next_reply_of_not_waiting (h : ∀ p, s.calls[k]? ≠ some (.waiting p)) :
    s.next (ws, .reply k r) = s := by
  unfold next step reply
  cases hk : s.calls[k]? with
  | none => simp only [hk]; rfl
  | some c =>
    cases c with
    | waiting p => exact absurd hk (h p)
    | done outcome => simp only [hk]; rfl

/-- **A busy analyzer has one call that waits, and any other one has none.** -/
theorem countP_isWaiting_next (m : Moment)
    (h : s.calls.countP Progress.isWaiting = s.analyzer.busy.toNat) :
    (s.next m).calls.countP Progress.isWaiting = (s.next m).analyzer.busy.toNat := by
  obtain ⟨ws, e⟩ := m
  cases e with
  | start c =>
    rw [next_start, List.countP_append, List.countP_singleton, h]
    simp only [Analyzer.busy_start]
    cases hb : s.analyzer.busy with
    | true =>
      rw [Analyzer.isWaiting_start_of_busy ws s.analyzer c hb]
      rfl
    | false => cases (s.analyzer.start ws c).value.2.isWaiting <;> rfl
  | reply k r =>
    by_cases hk : ∃ p, s.calls[k]? = some (.waiting p)
    · obtain ⟨p, hk⟩ := hk
      obtain ⟨hlt, hget⟩ := List.getElem?_eq_some_iff.1 hk
      have hpos : 0 < s.calls.countP Progress.isWaiting :=
        List.countP_pos_iff.2 ⟨.waiting p, List.mem_of_getElem? hk, rfl⟩
      have hone : s.calls.countP Progress.isWaiting = 1 := by
        rw [h] at hpos ⊢
        cases hb : s.analyzer.busy with
        | true => rfl
        | false => rw [hb] at hpos; cases hpos
      rw [next_reply hk, List.countP_set hlt, hone, hget]
      show 1 - 1 + _ = (s.analyzer.resume ws p r).value.2.isWaiting.toNat
      cases (s.analyzer.resume ws p r).value.2.isWaiting <;> rfl
    · rw [next_reply_of_not_waiting fun p hp => hk ⟨p, hp⟩]
      exact h

theorem countP_isWaiting_after (ms : List Moment) (s : Session)
    (h : s.calls.countP Progress.isWaiting = s.analyzer.busy.toNat) :
    (s.after ms).calls.countP Progress.isWaiting = (s.after ms).analyzer.busy.toNat := by
  induction ms generalizing s with
  | nil => exact h
  | cons m rest ih => exact ih _ (countP_isWaiting_next m h)

/-! ## Refused calls stay refused -/

/-- Which of the calls have been turned away. -/
def marks (s : Session) : List Bool := s.calls.map Progress.isRefused

/-- A call is turned away when it is started or never. -/
theorem marks_prefix_next (s : Session) (m : Moment) : s.marks <+: (s.next m).marks := by
  obtain ⟨ws, e⟩ := m
  cases e with
  | start c =>
    rw [next_start]
    unfold marks
    rw [List.map_append]
    exact List.prefix_append _ _
  | reply k r =>
    suffices hsame : (s.next (ws, .reply k r)).marks = s.marks from hsame ▸ List.prefix_rfl
    by_cases hk : ∃ p, s.calls[k]? = some (.waiting p)
    · obtain ⟨p, hk⟩ := hk
      have hmark : (s.calls.map Progress.isRefused)[k]? = some false := by
        rw [List.getElem?_map, hk]
        rfl
      obtain ⟨hlt, hmark⟩ := List.getElem?_eq_some_iff.1 hmark
      rw [next_reply hk]
      unfold marks
      rw [List.map_set, Analyzer.isRefused_resume, ← hmark, List.set_getElem_self]
    · rw [next_reply_of_not_waiting fun p hp => hk ⟨p, hp⟩]

theorem marks_prefix_after (s : Session) (ms : List Moment) : s.marks <+: (s.after ms).marks := by
  induction ms generalizing s with
  | nil => exact List.prefix_rfl
  | cons m rest ih => exact (marks_prefix_next s m).trans (ih _)

/-- The place of a call among those that have not been turned away. -/
def place (s : Session) (k : Nat) : Nat := (s.calls.take k).countP (! ·.isRefused)

theorem place_eq (s : Session) (k : Nat) : s.place k = (s.marks.take k).countP (! ·) := by
  unfold place marks
  rw [← List.map_take, List.countP_map]
  rfl

/-- The place of a call stays the same. -/
theorem place_after (s : Session) (ms : List Moment) {k : Nat} (hk : k ≤ s.calls.length) :
    (s.after ms).place k = s.place k := by
  have hlength : k ≤ s.marks.length := by
    unfold marks
    rwa [List.length_map]
  obtain ⟨more, hmore⟩ := marks_prefix_after s ms
  rw [place_eq, place_eq, ← hmore, List.take_append_of_le_length hlength]

/-! ## What is sent -/

/-- The place of the call that an event is about. -/
def placeOf (s : Session) : Event → Nat
  | .start _ => s.calls.length
  | .reply k _ => k

/-- The request that is sent at a moment, with the place of its call. -/
def sends? (s : Session) (m : Moment) : Option (Nat × Request) :=
  match (s.next m).calls[s.placeOf m.2]? with
  | some (.waiting p) => some (s.placeOf m.2, p.request)
  | _ => none

/-- The requests that are sent, in order, each with the place of its call. -/
def sent (s : Session) : List Moment → List (Nat × Request)
  | [] => []
  | m :: rest => (s.sends? m).toList ++ (s.next m).sent rest

theorem sent_cons (s : Session) (m : Moment) (rest : List Moment) :
    s.sent (m :: rest) = (s.sends? m).toList ++ (s.next m).sent rest := rfl

theorem getElem?_of_sends? {m : Moment} {x : Nat × Request} (h : s.sends? m = some x) :
    ∃ p, (s.next m).calls[x.1]? = some (.waiting p) := by
  unfold sends? at h
  split at h
  · next p hp =>
    obtain rfl := Option.some.inj h
    exact ⟨p, hp⟩
  · cases h

/-- Whoever has sent a request has not been turned away. -/
theorem isRefused_of_mem_sent {ms : List Moment} {x : Nat × Request} (hx : x ∈ s.sent ms)
    {p : Progress} (hp : (s.after ms).calls[x.1]? = some p) : p.isRefused = false := by
  induction ms generalizing s with
  | nil => cases hx
  | cons m rest ih =>
    rcases List.mem_append.1 hx with hx | hx
    · obtain ⟨q, hq⟩ := getElem?_of_sends? (Option.mem_toList.1 hx)
      obtain ⟨more, hmore⟩ := marks_prefix_after (s.next m) rest
      have hmark : (s.next m).marks[x.1]? = some false := by
        unfold marks
        rw [List.getElem?_map, hq]
        rfl
      have hlast : ((s.next m).after rest).marks[x.1]? = some false := by
        rw [← hmore, List.getElem?_append_left (List.getElem?_eq_some_iff.1 hmark).1, hmark]
      unfold marks at hlast
      rw [List.getElem?_map, show ((s.next m).after rest).calls[x.1]? = some p from hp] at hlast
      exact Option.some.inj hlast
    · exact ih hx hp

/-! ## Without the refused calls -/

/-- The session with the calls that have not been turned away. -/
def admitted (s : Session) : Session := ⟨s.analyzer, s.calls.filter (! ·.isRefused)⟩

/-- A moment among those that are left when the calls that are turned away are never made. -/
def admit? (s : Session) : Moment → Option Moment
  | (ws, .start c) =>
    if (s.analyzer.start ws c).value.2.isRefused then none else some (ws, .start c)
  | (ws, .reply k r) =>
    if s.calls[k]?.any Progress.isRefused then none else some (ws, .reply (s.place k) r)

/-- Some moments without the calls that are turned away, and replies to them. -/
def withoutRefused (s : Session) : List Moment → List Moment
  | [] => []
  | m :: rest => (s.admit? m).toList ++ (s.next m).withoutRefused rest

theorem admitted_start_of_isRefused {c : Call}
    (h : (s.analyzer.start ws c).value.2.isRefused = true) :
    (s.next (ws, .start c)).admitted = s.admitted ∧ s.sends? (ws, .start c) = none := by
  constructor
  · rw [next_start, Analyzer.start_of_isRefused ws s.analyzer c h]
    unfold admitted
    rw [List.filter_append, List.filter_singleton, h]
    simp
  · unfold sends?
    simp only [next_start, placeOf, List.getElem?_concat_length]
    cases hp : (s.analyzer.start ws c).value.2 with
    | waiting p => rw [hp] at h; cases h
    | done outcome => rfl

theorem admitted_start {c : Call} (h : (s.analyzer.start ws c).value.2.isRefused = false) :
    s.admitted.next (ws, .start c) = (s.next (ws, .start c)).admitted ∧
    s.admitted.sends? (ws, .start c) =
      (s.sends? (ws, .start c)).map fun x => ((s.next (ws, .start c)).place x.1, x.2) := by
  have hplace : (s.next (ws, .start c)).place s.calls.length = s.admitted.calls.length := by
    rw [next_start]
    unfold place admitted
    rw [List.take_left, List.countP_eq_length_filter]
  constructor
  · rw [next_start, next_start]
    unfold admitted
    rw [List.filter_append, List.filter_singleton, h]
    rfl
  · unfold sends?
    simp only [next_start, placeOf, List.getElem?_concat_length, admitted]
    cases hp : (s.analyzer.start ws c).value.2 with
    | waiting p =>
      rw [next_start, hp] at hplace
      simp only [Option.map_some, hplace, admitted]
    | done outcome => rfl

/-- A reply to a call that does not wait sends nothing. -/
theorem sends?_of_not_waiting (h : ∀ p, s.calls[k]? ≠ some (.waiting p)) :
    s.sends? (ws, .reply k r) = none := by
  unfold sends?
  rw [next_reply_of_not_waiting h]
  split
  · next p hp => exact absurd hp (h p)
  · rfl

theorem admitted_reply_of_waiting {p : Pending} (h : s.calls[k]? = some (.waiting p)) :
    s.admitted.next (ws, .reply (s.place k) r) = (s.next (ws, .reply k r)).admitted ∧
    s.admitted.sends? (ws, .reply (s.place k) r) =
      (s.sends? (ws, .reply k r)).map fun x => ((s.next (ws, .reply k r)).place x.1, x.2) := by
  have hk : k < s.calls.length := (List.getElem?_eq_some_iff.1 h).1
  have hadmitted : s.admitted.calls[s.place k]? = some (.waiting p) := getElem?_filter h rfl
  have hlt : s.place k < s.admitted.calls.length := (List.getElem?_eq_some_iff.1 hadmitted).1
  have hset : (s.calls.set k (s.analyzer.resume ws p r).value.2).filter (! ·.isRefused) =
      s.admitted.calls.set (s.place k) (s.analyzer.resume ws p r).value.2 :=
    filter_set h rfl (by rw [Analyzer.isRefused_resume]; rfl)
  constructor
  · rw [next_reply h, next_reply hadmitted]
    unfold admitted
    rw [hset]
    rfl
  · have hplace : (s.next (ws, .reply k r)).place k = s.place k := place_after s [_] hk.le
    unfold sends?
    simp only [placeOf]
    rw [next_reply h] at hplace ⊢
    rw [next_reply hadmitted, show s.admitted.analyzer = s.analyzer from rfl]
    simp only [List.getElem?_set_self hk, List.getElem?_set_self hlt]
    cases hq : (s.analyzer.resume ws p r).value.2 with
    | waiting q =>
      rw [hq] at hplace
      simp only [Option.map_some, hplace]
    | done outcome => rfl

theorem admitted_reply (h : s.calls[k]?.any Progress.isRefused = false) :
    s.admitted.next (ws, .reply (s.place k) r) = (s.next (ws, .reply k r)).admitted ∧
    s.admitted.sends? (ws, .reply (s.place k) r) =
      (s.sends? (ws, .reply k r)).map fun x => ((s.next (ws, .reply k r)).place x.1, x.2) := by
  by_cases hk : ∃ p, s.calls[k]? = some (.waiting p)
  · obtain ⟨p, hk⟩ := hk
    exact admitted_reply_of_waiting hk
  · have hnot : ∀ p, s.calls[k]? ≠ some (.waiting p) := fun p hp => hk ⟨p, hp⟩
    -- the call has come to its end, or there is none at this place
    have hadmitted : s.admitted.calls[s.place k]? = s.calls[k]? := by
      cases hc : s.calls[k]? with
      | none =>
        have hlength : s.calls.length ≤ k := List.getElem?_eq_none_iff.1 hc
        unfold admitted place
        rw [List.take_of_length_le hlength, List.countP_eq_length_filter]
        exact List.getElem?_eq_none (Nat.le_refl _)
      | some c =>
        rw [hc] at h
        exact getElem?_filter hc (by rw [show c.isRefused = false from h]; rfl)
    have hnot' : ∀ p, s.admitted.calls[s.place k]? ≠ some (.waiting p) := hadmitted ▸ hnot
    rw [next_reply_of_not_waiting hnot, next_reply_of_not_waiting hnot',
      sends?_of_not_waiting hnot, sends?_of_not_waiting hnot']
    exact ⟨rfl, rfl⟩

theorem admitted_reply_of_isRefused (h : s.calls[k]?.any Progress.isRefused = true) :
    (s.next (ws, .reply k r)).admitted = s.admitted ∧ s.sends? (ws, .reply k r) = none := by
  have hnot : ∀ p, s.calls[k]? ≠ some (.waiting p) := by
    intro p hp
    rw [hp] at h
    cases h
  rw [next_reply_of_not_waiting hnot]
  exact ⟨rfl, sends?_of_not_waiting hnot⟩

/-- **A moment that is left out changes nothing, and any other one does the same** to the calls
that have not been turned away. -/
theorem admit?_spec (s : Session) (m : Moment) :
    match s.admit? m with
    | none => (s.next m).admitted = s.admitted ∧ s.sends? m = none
    | some m' => s.admitted.next m' = (s.next m).admitted ∧
        s.admitted.sends? m' = (s.sends? m).map fun x => ((s.next m).place x.1, x.2) := by
  obtain ⟨ws, e⟩ := m
  cases e with
  | start c =>
    simp only [admit?]
    cases h : (s.analyzer.start ws c).value.2.isRefused with
    | true => exact admitted_start_of_isRefused h
    | false => exact admitted_start h
  | reply k r =>
    simp only [admit?]
    cases h : s.calls[k]?.any Progress.isRefused with
    | true => exact admitted_reply_of_isRefused h
    | false => exact admitted_reply h

/-- **Without the refused calls the others go the same way.** -/
theorem after_withoutRefused (s : Session) (ms : List Moment) :
    s.admitted.after (s.withoutRefused ms) = (s.after ms).admitted := by
  induction ms generalizing s with
  | nil => rfl
  | cons m rest ih =>
    have hm := admit?_spec s m
    unfold withoutRefused
    cases ha : s.admit? m with
    | none =>
      rw [ha] at hm
      show s.admitted.after ((s.next m).withoutRefused rest) = _
      rw [← hm.1, ih]
      rfl
    | some m' =>
      rw [ha] at hm
      show (s.admitted.next m').after ((s.next m).withoutRefused rest) = _
      rw [hm.1, ih]
      rfl

/-- **Without the refused calls the others send the same.** -/
theorem sent_withoutRefused (s : Session) (ms : List Moment) :
    s.admitted.sent (s.withoutRefused ms) =
      (s.sent ms).map fun x => ((s.after ms).place x.1, x.2) := by
  induction ms generalizing s with
  | nil => rfl
  | cons m rest ih =>
    have hm := admit?_spec s m
    have hfirst : (s.sends? m).map (fun x => ((s.next m).place x.1, x.2)) =
        (s.sends? m).map fun x => ((s.after (m :: rest)).place x.1, x.2) := by
      cases hx : s.sends? m with
      | none => rfl
      | some x =>
        obtain ⟨p, hp⟩ := getElem?_of_sends? hx
        have hlt := (List.getElem?_eq_some_iff.1 hp).1
        simp only [Option.map_some, ← place_after (s.next m) rest hlt.le]
        rfl
    unfold withoutRefused
    cases ha : s.admit? m with
    | none =>
      rw [ha] at hm
      show s.admitted.sent ((s.next m).withoutRefused rest) = _
      rw [← hm.1, ih, sent_cons, hm.2]
      rfl
    | some m' =>
      rw [ha] at hm
      show s.admitted.sent (m' :: (s.next m).withoutRefused rest) = _
      rw [sent_cons, hm.1, hm.2, ih, hfirst, sent_cons, List.map_append]
      cases s.sends? m <;> rfl

/-! ## Top theorem -/

/-- One call at a time: what holds of a session that some moments have led to. -/
structure IsExclusive (ms : List Moment) (s : Session) : Prop where
  atMostOne : s.calls.countP Progress.isWaiting ≤ 1
  busy_iff : s.analyzer.busy = true ↔ ∃ p ∈ s.calls, p.isWaiting = true
  /-- A call that finds another one waiting is told so, and changes nothing else. -/
  contended : ∀ ws c, s.analyzer.busy = true →
    s.next (ws, .start c) = ⟨s.analyzer, s.calls ++ [.done (.error .busy)]⟩
  /-- No other call is told so. -/
  free : ∀ ws c, (s.next (ws, .start c)).calls = s.calls ++ [.done (.error .busy)] →
    s.analyzer.busy = true
  /-- A call that is turned away leaves the analyzer as it was, and sends nothing. -/
  refused : ∀ ws c f, (s.next (ws, .start c)).calls = s.calls ++ [.done (.error f)] →
    f.isRefusal = true →
    (s.next (ws, .start c)).analyzer = s.analyzer ∧ s.sends? (ws, .start c) = none
  /-- Whoever has been turned away has never sent a request. -/
  silent : ∀ x ∈ sent {} ms, ∀ p, s.calls[x.1]? = some p → p.isRefused = false
  /-- The other calls stand where they would without those turned away. -/
  unaffected : after {} (withoutRefused {} ms) = s.admitted
  /-- They have sent what they would have sent. -/
  sameRequests : sent {} (withoutRefused {} ms) = (sent {} ms).map fun x => (s.place x.1, x.2)

/-- **At any moment at most one call waits, and those turned away do not touch it.** -/
theorem isExclusive_after (ms : List Moment) : IsExclusive ms (after {} ms) := by
  have hcount := countP_isWaiting_after ms {} rfl
  have hlast : ∀ {s : Session} {ws : Workspace} {c : Call} {p : Progress},
      (s.next (ws, .start c)).calls = s.calls ++ [p] → (s.analyzer.start ws c).value.2 = p := by
    intro s ws c p h
    rw [next_start] at h
    exact List.singleton_inj.1 (List.append_cancel_left h)
  exact {
    atMostOne := by
      rw [hcount]
      exact Bool.toNat_le _
    busy_iff := by
      rw [← List.countP_pos_iff, hcount]
      cases (after {} ms).analyzer.busy <;> simp
    contended := by
      intro ws c hb
      rw [next_start, Analyzer.value_start_of_busy ws _ c hb]
    free := by
      intro ws c h
      exact (Analyzer.start_eq_busy_iff ws _ c).1 (hlast h)
    refused := by
      intro ws c f h hf
      have hr : ((after {} ms).analyzer.start ws c).value.2.isRefused = true := by
        rw [hlast h]
        exact hf
      exact ⟨Analyzer.start_of_isRefused ws _ c hr, (admitted_start_of_isRefused hr).2⟩
    silent := fun x hx p hp => isRefused_of_mem_sent hx hp
    unaffected := after_withoutRefused {} ms
    sameRequests := sent_withoutRefused {} ms }

/-- While the first call waits for its second reply, another one has been turned away and a reply
to it dropped; once it has come to its end, a call for a file that is no source is turned away. -/
theorem isExclusive_after_contended :
    let tree : FileTree := .directory [("ws", .directory
      [("A.sol", .file []), ("B.sol", .file [])])]
    let source : TextSource := .ofTexts
      [("/ws/A.sol", "contract A {}"), ("/ws/B.sol", "contract B {}")]
      (.system .missing)
    let ws : Workspace := { cwd := "/", settings := .ofWorkspace "ws", tree, source }
    let r : Reply := .answer 200 [123, 125]
    let ms : List Moment := [(ws, .start .all), (ws, .start (.current (some "ws/A.sol"))),
      (ws, .reply 1 r), (ws, .reply 0 r)]
    let s := after {} ms
    let last := after {} (ms ++ [(ws, .reply 0 r)])
    let notes : Call := .current (some "ws/notes.txt")
    let names : List (Nat × List Text) := [(0, ["A.sol"]), (0, ["B.sol"])]
    s.analyzer.busy = true ∧ (sent {} ms).map (fun x => (x.1, x.2.bundle.names)) = names ∧
      s.marks = [false, true] ∧ IsExclusive ms s ∧
      s.next (ws, .start .all) = ⟨s.analyzer, s.calls ++ [.done (.error .busy)]⟩ ∧
      last.analyzer = ⟨false, ⟨2, 0, 0, 2, 26⟩⟩ ∧
      (last.next (ws, .start notes)).analyzer = last.analyzer := by
  intro tree source ws r ms s last notes names
  have hbusy : s.analyzer.busy = true := by decide +kernel
  have hs : IsExclusive ms s := isExclusive_after ms
  have hlast : IsExclusive (ms ++ [(ws, .reply 0 r)]) last := isExclusive_after _
  have hrefused : (last.analyzer.start ws notes).value.2.isRefused = true := by decide +kernel
  obtain ⟨f, hnotes, hf⟩ := Progress.isRefused_iff.1 hrefused
  have hcalls : (last.next (ws, .start notes)).calls = last.calls ++ [.done (.error f)] := by
    rw [next_start, hnotes]
  exact ⟨hbusy, by decide +kernel, by decide +kernel, hs, hs.contended ws .all hbusy,
    by decide +kernel, (hlast.refused ws notes f hcalls hf).1⟩

end Session

end ContractAudit
