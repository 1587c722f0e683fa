import ContractAudit.Proofs.Exclusion

/-!
# Calls leave nothing behind

An analyzer keeps a flag and a tally from call to call.  The flag is down whenever no call waits,
however the calls have ended, and a call does not look at the tally that it finds: either it is
over at once and leaves that tally as it is, or it has one of its own (`Workspace.begins`).  So an
analyzer with any history goes on as a new one does.  `Follows` relates the two from moment to
moment: they are the same but for the calls of the past, or nothing has been submitted yet and
their tallies may differ.

    (s.behind old).next (m.behind old.length) = (s.next m).behind old
                                                            (next_behind)
    s follows new → s.next m follows new.next m             (Follows.next)
    no call waits → the analyzer goes on as a new one       (goesOnAsNew_after)
-/

namespace ContractAudit

/-- The call has got as far as a submission: it waits for the reply, or handing in has failed. -/
def Progress.hasSubmitted : Progress → Bool
  | waiting _ => true
  | done (.error (.submission _)) => true
  | _ => false

/-- Two analyzers that are not busy start a call in the same way, whatever their tallies.  Either
they are the same then, or they are left as they were, and nothing has been submitted. -/
theorem Analyzer.start_of_not_busy (ws : Workspace) (c : Call) {a b : Analyzer}
    (ha : a.busy = false) (hb : b.busy = false) :
    (a.start ws c).value.2 = (b.start ws c).value.2 ∧
    ((a.start ws c).value.1 = (b.start ws c).value.1 ∨
      ((a.start ws c).value.1 = a ∧ (b.start ws c).value.1 = b ∧
        (b.start ws c).value.2.hasSubmitted = false)) := by
  have kept : ∀ (a : Analyzer) (f : AnalysisFault), a.busy = false →
      ofStage (.done a.tally (.error f)) = a := by
    rintro ⟨busy, tally⟩ f rfl
    rfl
  rw [value_start_of_not_busy ws a c ha, value_start_of_not_busy ws b c hb]
  cases ws.begins c with
  | turnedAway f hf _ hbegin =>
    rw [hbegin, hbegin, kept a f ha, kept b f hb]
    refine ⟨rfl, Or.inr ⟨rfl, rfl, ?_⟩⟩
    cases f with
    | submission g => cases hf
    | _ => rfl
  | unread f hbegin =>
    rw [hbegin, hbegin, kept a _ ha, kept b _ hb]
    exact ⟨rfl, Or.inr ⟨rfl, rfl, rfl⟩⟩
  | afresh s _ hbegin =>
    rw [hbegin, hbegin]
    exact ⟨rfl, Or.inl rfl⟩

/-- An event, with the place of its call counted behind `k` other calls. -/
def Event.behind (k : Nat) : Event → Event
  | start c => start c
  | reply j r => reply (k + j) r

namespace Session

/-- A moment, with the place of its call counted behind `k` other calls. -/
def Moment.behind (k : Nat) (m : Moment) : Moment := (m.1, m.2.behind k)

/-! ## Behind other calls -/

/-- The session with other calls before its own. -/
def behind (old : List Progress) (s : Session) : Session := ⟨s.analyzer, old ++ s.calls⟩

section
variable (old : List Progress) (s : Session)

theorem getElem?_behind (k : Nat) : (s.behind old).calls[old.length + k]? = s.calls[k]? := by
  unfold behind
  rw [List.getElem?_append_right (Nat.le_add_right _ _), Nat.add_sub_cancel_left]

/-- Calls that stand before the others do not touch them. -/
theorem next_behind (m : Moment) :
    (s.behind old).next (m.behind old.length) = (s.next m).behind old := by
  obtain ⟨ws, e⟩ := m
  cases e with
  | start c =>
    show (s.behind old).next (ws, .start c) = _
    rw [next_start, next_start]
    unfold behind
    rw [List.append_assoc]
  | reply k r =>
    show (s.behind old).next (ws, .reply (old.length + k) r) = _
    by_cases hk : ∃ p, s.calls[k]? = some (.waiting p)
    · obtain ⟨p, hk⟩ := hk
      rw [next_reply hk, next_reply ((getElem?_behind old s k).trans hk)]
      unfold behind
      rw [List.set_append_right _ _ (Nat.le_add_right _ _), Nat.add_sub_cancel_left]
    · have hnot : ∀ p, s.calls[k]? ≠ some (.waiting p) := fun p hp => hk ⟨p, hp⟩
      rw [next_reply_of_not_waiting hnot,
        next_reply_of_not_waiting (getElem?_behind old s k ▸ hnot)]

theorem after_behind (ms : List Moment) :
    (s.behind old).after (ms.map (Moment.behind old.length)) = (s.after ms).behind old := by
  induction ms generalizing s with
  | nil => rfl
  | cons m rest ih =>
    show ((s.behind old).next (m.behind old.length)).after _ = _
    rw [next_behind, ih]
    rfl

end

/-! ## From moment to moment -/

/-- A session goes on after some old calls as another session does. -/
inductive Follows (old : List Progress) : Session → Session → Prop
  /-- The analyzers are the same. -/
  | same (new : Session) : Follows old (new.behind old) new
  /-- The analyzers are not busy, and nothing has been submitted in the other session. -/
  | idle {s new : Session} (hcalls : s.calls = old ++ new.calls) (hs : s.analyzer.busy = false)
      (hn : new.analyzer.busy = false) (hnone : ∀ p ∈ new.calls, p.hasSubmitted = false) :
      Follows old s new

namespace Follows

variable {old : List Progress} {s new : Session}

theorem calls_eq (h : Follows old s new) : s.calls = old ++ new.calls := by
  cases h with
  | same => rfl
  | idle hcalls => exact hcalls

theorem busy_eq (h : Follows old s new) : s.analyzer.busy = new.analyzer.busy := by
  cases h with
  | same => rfl
  | idle _ hs hn => rw [hs, hn]

/-- A call that has got as far as a submission makes the analyzers the same. -/
theorem eq_behind (h : Follows old s new) (hp : ∃ p ∈ new.calls, p.hasSubmitted = true) :
    s = new.behind old := by
  cases h with
  | same => rfl
  | idle _ _ _ hnone =>
    obtain ⟨p, hmem, hp⟩ := hp
    rw [hnone p hmem] at hp
    cases hp

/-- A call is started by analyzers that are not busy. -/
theorem start_of_idle (ws : Workspace) (c : Call) (hcalls : s.calls = old ++ new.calls)
    (hs : s.analyzer.busy = false) (hn : new.analyzer.busy = false)
    (hnone : ∀ p ∈ new.calls, p.hasSubmitted = false) :
    Follows old (s.next (ws, .start c)) (new.next (ws, .start c)) := by
  rw [next_start, next_start]
  obtain ⟨hprogress, hanalyzer⟩ := Analyzer.start_of_not_busy ws c hs hn
  have hcalls' : s.calls ++ [(s.analyzer.start ws c).value.2] =
      old ++ (new.calls ++ [(new.analyzer.start ws c).value.2]) := by
    rw [hcalls, hprogress, List.append_assoc]
  rcases hanalyzer with hsame | ⟨hkept, hkept', hsubmitted⟩
  · rw [hsame, hcalls']
    exact .same ⟨_, _⟩
  · rw [hkept, hkept']
    refine .idle hcalls' hs hn fun p hp => ?_
    rcases List.mem_append.1 hp with hp | hp
    · exact hnone p hp
    · rw [List.mem_singleton.1 hp]
      exact hsubmitted

/-- **One moment.**  Where nothing has been submitted no call waits, so that replies are
dropped. -/
theorem next (h : Follows old s new) (m : Moment) :
    Follows old (s.next (m.behind old.length)) (new.next m) := by
  cases h with
  | same =>
    rw [next_behind]
    exact .same _
  | idle hcalls hs hn hnone =>
    obtain ⟨ws, e⟩ := m
    cases e with
    | start c => exact start_of_idle ws c hcalls hs hn hnone
    | reply k r =>
      have hnot : ∀ p, new.calls[k]? ≠ some (.waiting p) := by
        intro p hp
        have hsubmitted := hnone _ (List.mem_of_getElem? hp)
        cases hsubmitted
      have hget : s.calls[old.length + k]? = new.calls[k]? := by
        rw [hcalls]
        exact getElem?_behind old new k
      show Follows old (s.next (ws, .reply (old.length + k) r)) (new.next (ws, .reply k r))
      rw [next_reply_of_not_waiting hnot, next_reply_of_not_waiting (hget ▸ hnot)]
      exact .idle hcalls hs hn hnone

theorem after (h : Follows old s new) (ms : List Moment) :
    Follows old (s.after (ms.map (Moment.behind old.length))) (new.after ms) := by
  induction ms generalizing s new with
  | nil => exact h
  | cons m rest ih => exact ih (h.next m)

/-! ## What is sent -/

/-- At each moment the same is sent. -/
theorem sends? (h : Follows old s new) (m : Moment) :
    s.sends? (m.behind old.length) =
      (new.sends? m).map fun x => (old.length + x.1, x.2) := by
  have hplace : s.placeOf (m.behind old.length).2 = old.length + new.placeOf m.2 := by
    obtain ⟨ws, e⟩ := m
    cases e with
    | start c =>
      show s.calls.length = old.length + new.calls.length
      rw [h.calls_eq, List.length_append]
    | reply k r => rfl
  have hget : (s.next (m.behind old.length)).calls[old.length + new.placeOf m.2]? =
      (new.next m).calls[new.placeOf m.2]? := by
    rw [(h.next m).calls_eq]
    exact getElem?_behind old (new.next m) _
  unfold Session.sends?
  rw [hplace, hget]
  split <;> rfl

theorem sent (h : Follows old s new) (ms : List Moment) :
    s.sent (ms.map (Moment.behind old.length)) =
      (new.sent ms).map fun x => (old.length + x.1, x.2) := by
  induction ms generalizing s new with
  | nil => rfl
  | cons m rest ih =>
    rw [List.map_cons, sent_cons, sent_cons, h.sends? m, ih (h.next m), List.map_append]
    cases new.sends? m <;> rfl

/-- Once a request has been sent the analyzers are the same, and stay so. -/
theorem eq_behind_of_sent (h : Follows old s new) {ms : List Moment} (hms : new.sent ms ≠ []) :
    s.after (ms.map (Moment.behind old.length)) = (new.after ms).behind old := by
  induction ms generalizing s new with
  | nil => exact absurd rfl hms
  | cons m rest ih =>
    cases hm : new.sends? m with
    | none =>
      refine ih (h.next m) fun hrest => hms ?_
      rw [sent_cons, hm, hrest]
      rfl
    | some x =>
      obtain ⟨p, hp⟩ := getElem?_of_sends? hm
      have hnext : s.next (m.behind old.length) = (new.next m).behind old :=
        (h.next m).eq_behind ⟨_, List.mem_of_getElem? hp, rfl⟩
      show (s.next (m.behind old.length)).after _ = _
      rw [hnext, after_behind]
      rfl

end Follows

/-! ## With a service -/

theorem waitingFrom?_add (j k : Nat) (calls : List Progress) :
    waitingFrom? (j + k) calls = (waitingFrom? k calls).map fun x => (j + x.1, x.2) := by
  induction calls generalizing k with
  | nil => rfl
  | cons p rest ih =>
    cases p with
    | waiting p => rfl
    | done outcome => exact ih (k + 1)

section
variable {old : List Progress} {s new : Session} (hold : ∀ p ∈ old, p.isWaiting = false)
include hold

/-- Calls that have come to their end are passed over. -/
theorem waitingFrom?_append (k : Nat) (calls : List Progress) :
    waitingFrom? k (old ++ calls) = waitingFrom? (old.length + k) calls := by
  induction old generalizing k with
  | nil => rw [List.nil_append, List.length_nil, Nat.zero_add]
  | cons p old ih =>
    obtain ⟨hp, hrest⟩ := List.forall_mem_cons.1 hold
    cases p with
    | waiting p => cases hp
    | done outcome =>
      rw [List.cons_append, waitingFrom?, ih hrest, List.length_cons]
      congr 1
      omega

/-- They wait for no replies. -/
theorem foldr_work_append (calls : List Progress) :
    (old ++ calls).foldr (fun c n => c.work + n) 0 =
      calls.foldr (fun c n => c.work + n) 0 := by
  induction old with
  | nil => rfl
  | cons p old ih =>
    obtain ⟨hp, hrest⟩ := List.forall_mem_cons.1 hold
    cases p with
    | waiting p => cases hp
    | done outcome =>
      rw [List.cons_append, List.foldr_cons, ih hrest]
      exact Nat.zero_add _

theorem Follows.waiting? (h : Follows old s new) :
    s.waiting? = new.waiting?.map fun x => (old.length + x.1, x.2) := by
  unfold Session.waiting?
  rw [h.calls_eq, waitingFrom?_append hold, waitingFrom?_add]

theorem Follows.work (h : Follows old s new) : s.work = new.work := by
  unfold Session.work
  rw [h.calls_eq, foldr_work_append hold]

/-- A service leads both sessions through the same moments. -/
theorem Follows.settleWith {σ : Type} (ws : Workspace) (answer : Service σ)
    (h : Follows old s new) (fuel : Nat) (state : σ) :
    ∃ ms state', (settleWith ws answer fuel state new).value = (new.after ms, state') ∧
      (settleWith ws answer fuel state s).value =
        (s.after (ms.map (Moment.behind old.length)), state') := by
  induction fuel generalizing s new state with
  | zero => exact ⟨[], state, rfl, rfl⟩
  | succ fuel ih =>
    unfold Session.settleWith
    rw [h.waiting? hold]
    cases hw : new.waiting? with
    | none => exact ⟨[], state, rfl, rfl⟩
    | some x =>
      obtain ⟨k, p⟩ := x
      let m : Moment := (ws, .reply k (answer state p.request).1)
      obtain ⟨ms, state', hnew, hs⟩ := ih (h.next m) (answer state p.request).2
      exact ⟨m :: ms, state', hnew, hs⟩

end

/-! ## Top theorem -/

/-- Some call has got as far as a submission: a request was sent, or handing in has failed. -/
def Submits (s : Session) (ms : List Moment) : Prop :=
  s.sent ms ≠ [] ∨ ∃ f, .done (.error (.submission f)) ∈ (s.after ms).calls

/-- An analyzer goes on as a new one, whatever the moments are that come; a call and its replies
are such moments. -/
structure GoesOnAsNew (s : Session) : Prop where
  /-- Calls come as far, to the same findings or the same fault. -/
  calls : ∀ ms, (s.after (ms.map (Moment.behind s.calls.length))).calls =
    s.calls ++ (after {} ms).calls
  /-- The same requests are sent, in the same order. -/
  sent : ∀ ms, s.sent (ms.map (Moment.behind s.calls.length)) =
    (sent {} ms).map fun x => (s.calls.length + x.1, x.2)
  busy : ∀ ms, (s.after (ms.map (Moment.behind s.calls.length))).analyzer.busy =
    (after {} ms).analyzer.busy
  /-- After a submission the tally is the same too. -/
  analyzer : ∀ ms, Submits {} ms →
    (s.after (ms.map (Moment.behind s.calls.length))).analyzer = (after {} ms).analyzer
  /-- A service that answers a call leads through the same moments to the same state of its. -/
  settled : ∀ {σ : Type} (ws : Workspace) (answer : Service σ) (state : σ) (c : Call),
    ∃ ms state',
      (settle ws answer state (start ws {} c).value).value =
        (after {} ((ws, .start c) :: ms), state') ∧
      (settle ws answer state (s.start ws c).value).value =
        (s.after (((ws, .start c) :: ms).map (Moment.behind s.calls.length)), state')

/-- **A further call goes as it would on a new analyzer**, whatever calls there were before and
however they have ended. -/
theorem goesOnAsNew_after (ms : List Moment)
    (h : ∀ p ∈ (after {} ms).calls, p.isWaiting = false) : GoesOnAsNew (after {} ms) := by
  have hcount := countP_isWaiting_after ms {} rfl
  generalize after {} ms = s at h hcount
  have hidle : s.analyzer.busy = false := by
    rw [List.countP_eq_zero.2 fun p hp => by rw [h p hp]; exact Bool.false_ne_true] at hcount
    cases hb : s.analyzer.busy with
    | false => rfl
    | true => rw [hb] at hcount; cases hcount
  have hfollows : Follows s.calls s {} :=
    .idle (List.append_nil _).symm hidle rfl fun p hp => by cases hp
  exact {
    calls := fun ms => (hfollows.after ms).calls_eq
    sent := fun ms => hfollows.sent ms
    busy := fun ms => (hfollows.after ms).busy_eq
    analyzer := by
      intro ms hsubmits
      have hsame : s.after (ms.map (Moment.behind s.calls.length)) =
          (after {} ms).behind s.calls := by
        rcases hsubmits with hsent | ⟨f, hf⟩
        · exact hfollows.eq_behind_of_sent hsent
        · exact (hfollows.after ms).eq_behind ⟨_, hf, rfl⟩
      rw [hsame]
      rfl
    settled := by
      intro σ ws answer state c
      have hstart : Follows s.calls (s.start ws c).value (start ws {} c).value :=
        hfollows.next (ws, .start c)
      unfold settle
      rw [hstart.work h]
      exact hstart.settleWith h ws answer _ state }

/-- A run has been broken off by its second reply, and another call refused meanwhile; the next
run numbers and counts from the beginning. -/
theorem goesOnAsNew_after_brokenOff :
    let tree : FileTree := .directory [("ws", .directory
      [("A.sol", .file []), ("B.sol", .file [])])]
    let source : TextSource := .ofTexts
      [("/ws/A.sol", "contract A {}"), ("/ws/B.sol", "contract B {}")]
      (.system .missing)
    let ws : Workspace := { cwd := "/", settings := .ofWorkspace "ws", tree, source }
    let ms : List Moment := [(ws, .start .all), (ws, .reply 0 (.broken "timed out")),
      (ws, .start .all), (ws, .reply 0 (.untried "CancelledError" ""))]
    let s := after {} ms
    let r : Reply := .answer 200 [123, 125]
    let more : List Moment := [(ws, .start .all), (ws, .reply 0 r), (ws, .reply 0 r)]
    let names : List (Nat × List Text) := [(2, ["A.sol"]), (2, ["B.sol"])]
    s.analyzer = ⟨false, ⟨0, 1, 0, 0, 0⟩⟩ ∧ (∀ p ∈ s.calls, p.isWaiting = false) ∧
      GoesOnAsNew s ∧
      (s.after (more.map (Moment.behind 2))).calls = s.calls ++ (after {} more).calls ∧
      (s.sent (more.map (Moment.behind 2))).map (fun x => (x.1, x.2.bundle.names)) = names ∧
      (s.after (more.map (Moment.behind 2))).analyzer = ⟨false, ⟨2, 0, 0, 2, 26⟩⟩ := by
  intro tree source ws ms s r more names
  have hended : s.calls.all (! ·.isWaiting) = true := by decide +kernel
  have hs : ∀ p ∈ s.calls, p.isWaiting = false := by simpa using hended
  have hnew : GoesOnAsNew s := goesOnAsNew_after ms hs
  have hcount : s.calls.length = 2 := by decide +kernel
  have hcalls := hnew.calls more
  have hsent := hnew.sent more
  have hanalyzer := hnew.analyzer more (Or.inl (by decide +kernel))
  rw [hcount] at hcalls hsent hanalyzer
  refine ⟨by decide +kernel, hs, hnew, hcalls, ?_, ?_⟩
  · rw [hsent]
    decide +kernel
  · rw [hanalyzer]
    decide +kernel

end Session

end ContractAudit
