import Mathlib.Algebra.GroupWithZero.Nat
import ContractAudit.Proofs.Containment

/-!
# What a run counts and finds

A run over groups is the fold of its groups in order.  Each group is submitted, fails or is
skipped, and the tally says how many of each there were and how much was sent in those submitted.
The findings are those of the accepted replies one after the other, and the number of the next
finding goes on from reply to reply (`InTurn`).  `Account` says this of any stretch of a run, so
that one group and what has become of the groups before it are put together by `Account.append`.

    ws.runGroups answer.recording groups c = .ok c' → Account of all groups
                                                            (account_runGroups)
    the end of a run is the fold of its groups ↔
      no reply escapes, and requests can be sent or no file can be read
                                                            (run_isFold_iff)
-/

namespace ContractAudit

open Record (Response)

/-! ## Sizes -/

theorem Bytes.charSize_eq (c : Char) : charSize c = c.utf8Size := by
  have e : c.toNat = c.val.toNat := rfl
  unfold charSize Char.utf8Size
  simp only [e, UInt32.le_iff_toNat_le, UInt32.toNat_ofNatLT]
  split_ifs <;> first | rfl | omega

theorem Bytes.length_ofText (t : Text) : (ofText t).length = utf8Size t := by
  induction t with
  | nil => rfl
  | cons c t ih =>
    unfold ofText at ih ⊢
    rw [List.flatMap_cons, List.length_append, ih, String.length_utf8EncodeChar, ← charSize_eq]
    rfl

theorem Bundle.size_eq (b : Bundle) :
    b.size = (b.map fun f => (Bytes.ofText f.2).length).sum := by
  induction b with
  | nil => rfl
  | cons f b ih =>
    rw [List.map_cons, List.sum_cons, ← ih, Bytes.length_ofText]
    rfl

/-! ## Findings one after the other -/

/-- The findings of some replies, one reply after the other. -/
def Findings.concat (parts : List Findings) : Findings :=
  ⟨parts.flatMap (·.vulnerabilities), parts.flatMap (·.lint)⟩

theorem Findings.concat_append (parts more : List Findings) :
    concat (parts ++ more) = concat parts ++ concat more := by
  unfold concat
  rw [List.flatMap_append, List.flatMap_append]
  rfl

@[simp] theorem Findings.concat_singleton (found : Findings) : concat [found] = found := by
  unfold concat
  simp

theorem Findings.append_assoc (a b c : Findings) : a ++ b ++ c = a ++ (b ++ c) := by
  show Findings.mk (a.vulnerabilities ++ b.vulnerabilities ++ c.vulnerabilities)
    (a.lint ++ b.lint ++ c.lint) = _
  rw [List.append_assoc, List.append_assoc]
  rfl

theorem Findings.append_empty (a : Findings) : a ++ ({} : Findings) = a := by
  show Findings.mk (a.vulnerabilities ++ []) (a.lint ++ []) = a
  rw [List.append_nil, List.append_nil]

theorem Findings.empty_append (a : Findings) : ({} : Findings) ++ a = a := rfl

namespace Normalization

/-- Some responses are turned into findings one after the other: each part is what becomes of its
response where the next number of a finding is that after the responses before it. -/
inductive InTurn (depth : Nat) (linting : Bool) :
    Nat → List Response → List Findings → Nat → Prop
  | nil (next : Nat) : InTurn depth linting next [] [] next
  | cons {next last : Nat} {r : Response} {rest : List Response} {found : Findings}
      {parts : List Findings} (h : (ofResponse next linting r depth).value.outcome = .ok found)
      (hrest : InTurn depth linting (ofResponse next linting r depth).value.next rest parts last) :
      InTurn depth linting next (r :: rest) (found :: parts) last

theorem InTurn.append {depth : Nat} {linting : Bool} {next mid last : Nat}
    {rs rs' : List Response} {parts parts' : List Findings}
    (h : InTurn depth linting next rs parts mid) (h' : InTurn depth linting mid rs' parts' last) :
    InTurn depth linting next (rs ++ rs') (parts ++ parts') last := by
  induction h with
  | nil next => exact h'
  | cons hfound hrest ih => exact .cons hfound (ih h')

end Normalization

namespace Workspace

variable {σ : Type} {ws : Workspace} {answer : Service σ}

/-! ## Replies that are accepted -/

variable (ws) in
/-- The response in the reply, if it is accepted. -/
def response? (x : Exchange) : Option Response := (ws.response x.1 x.2).value.toOption

section
variable {x : Exchange} {r : Response} {f : SubmissionFault}

theorem response?_of_ok (h : (ws.response x.1 x.2).value = .ok r) : ws.response? x = some r := by
  unfold response?
  rw [h]
  rfl

theorem response?_of_error (h : (ws.response x.1 x.2).value = .error f) :
    ws.response? x = none := by
  unfold response?
  rw [h]
  rfl

theorem accepts_of_ok (h : (ws.response x.1 x.2).value = .ok r) : ws.Accepts x :=
  (accepts_iff ws x).2 ⟨r, h⟩

theorem not_accepts_of_error (h : (ws.response x.1 x.2).value = .error f) : ¬ ws.Accepts x := by
  rw [accepts_iff]
  rintro ⟨r, hr⟩
  cases h.symm.trans hr

end

variable (ws) in
/-- The exchanges whose reply was accepted. -/
def accepted (xs : List Exchange) : List Exchange := xs.filter (ws.Accepts ·)

theorem accepted_append (xs ys : List Exchange) :
    ws.accepted (xs ++ ys) = ws.accepted xs ++ ws.accepted ys := List.filter_append ..

/-! ## From group to group -/

variable (ws) in
/-- What a run has counted and found on its way from `c` to `c'` through some groups, with these
exchanges. -/
structure Account (groups : List (List Text)) (c c' : Course (σ × List Exchange))
    (xs : List Exchange) : Prop where
  service : c'.service.2 = c.service.2 ++ xs
  sent : xs.map (·.1.bundle) = groups.filterMap ws.sentOf?
  submitted : c'.tally.submitted = c.tally.submitted + (ws.accepted xs).length
  failed : c'.tally.failed = c.tally.failed + xs.countP (! ws.Accepts ·)
  skipped : c'.tally.skipped = c.tally.skipped + groups.countP (ws.sentOf? · |>.isNone)
  files : c'.tally.files = c.tally.files + ((ws.accepted xs).map (·.1.bundle.length)).sum
  bytes : c'.tally.bytes = c.tally.bytes + ((ws.accepted xs).map (·.1.bundle.size)).sum
  found : ∃ parts, c'.found = c.found ++ .concat parts ∧
    Normalization.InTurn ws.depths.lint ws.settings.linting c.next (xs.filterMap ws.response?)
      parts c'.next

theorem Account.nil (c : Course (σ × List Exchange)) : ws.Account [] c c [] where
  service := (List.append_nil _).symm
  sent := rfl
  submitted := rfl
  failed := rfl
  skipped := rfl
  files := rfl
  bytes := rfl
  found := ⟨[], (Findings.append_empty _).symm, .nil _⟩

theorem Account.append {groups more : List (List Text)} {c c' c'' : Course (σ × List Exchange)}
    {xs ys : List Exchange} (h : ws.Account groups c c' xs) (h' : ws.Account more c' c'' ys) :
    ws.Account (groups ++ more) c c'' (xs ++ ys) where
  service := by rw [h'.service, h.service, List.append_assoc]
  sent := by rw [List.map_append, h.sent, h'.sent, List.filterMap_append]
  submitted := by
    rw [h'.submitted, h.submitted, accepted_append, List.length_append, Nat.add_assoc]
  failed := by rw [h'.failed, h.failed, List.countP_append, Nat.add_assoc]
  skipped := by rw [h'.skipped, h.skipped, List.countP_append, Nat.add_assoc]
  files := by
    rw [h'.files, h.files, accepted_append, List.map_append, List.sum_append, Nat.add_assoc]
  bytes := by
    rw [h'.bytes, h.bytes, accepted_append, List.map_append, List.sum_append, Nat.add_assoc]
  found := by
    obtain ⟨parts, hfound, hturn⟩ := h.found
    obtain ⟨more, hmore, hturn'⟩ := h'.found
    refine ⟨parts ++ more, ?_, ?_⟩
    · rw [hmore, hfound, Findings.concat_append, Findings.append_assoc]
    · rw [List.filterMap_append]
      exact hturn.append hturn'

/-- A group of which there is nothing to send is skipped. -/
theorem account_skip {group : List Text} (c : Course (σ × List Exchange))
    (hb : (ws.bundle group).value = .ok []) :
    ws.Account [group] c { c with tally := c.tally.skip } [] := by
  have hsent : ws.sentOf? group = none := by
    unfold sentOf?
    rw [hb]
  exact {
    service := (List.append_nil _).symm
    sent := by simp [hsent]
    submitted := rfl
    failed := rfl
    skipped := by simp [hsent, Tally.skip]
    files := rfl
    bytes := rfl
    found := ⟨[], (Findings.append_empty _).symm, .nil _⟩ }

/-- A group without a response has failed. -/
theorem account_fail {group : List Text} {r : Request} {reply : Reply} {service : σ}
    {f : SubmissionFault} (c : Course (σ × List Exchange))
    (hsent : ws.sentOf? group = some r.bundle)
    (hf : (ws.response r reply).value = .error f) :
    ws.Account [group] c
      { c with tally := c.tally.fail, service := (service, c.service.2 ++ [(r, reply)]) }
      [(r, reply)] := by
  have hnot := @not_accepts_of_error ws (r, reply) f hf
  have hnone := @response?_of_error ws (r, reply) f hf
  have haccepted : ws.accepted [(r, reply)] = [] := by simp [accepted, hnot]
  exact {
    service := rfl
    sent := by simp [hsent]
    submitted := by simp [haccepted, Tally.fail]
    failed := by simp [hnot, Tally.fail]
    skipped := by simp [hsent, Tally.fail]
    files := by simp [haccepted, Tally.fail]
    bytes := by simp [haccepted, Tally.fail]
    found := ⟨[], (Findings.append_empty _).symm, by simpa [hnone] using .nil _⟩ }

/-- A group with a response that gives findings is submitted. -/
theorem account_submit {group : List Text} {r : Request} {reply : Reply} {service : σ}
    {response : Response} {found : Findings} (c : Course (σ × List Exchange))
    (hsent : ws.sentOf? group = some r.bundle)
    (hr : (ws.response r reply).value = .ok response)
    (hfound : (ws.findings c.next response).value.outcome =
      .ok found) :
    ws.Account [group] c
      ⟨c.tally.submit r.bundle,
        (ws.findings c.next response).value.next,
        c.found ++ found, (service, c.service.2 ++ [(r, reply)])⟩
      [(r, reply)] := by
  have hacc := @accepts_of_ok ws (r, reply) response hr
  have hsome := @response?_of_ok ws (r, reply) response hr
  have haccepted : ws.accepted [(r, reply)] = [(r, reply)] := by simp [accepted, hacc]
  exact {
    service := rfl
    sent := by simp [hsent]
    submitted := by simp [haccepted, Tally.submit]
    failed := by simp [hacc, Tally.submit]
    skipped := by simp [hsent, Tally.submit]
    files := by simp [haccepted, Tally.submit]
    bytes := by simp [haccepted, Tally.submit]
    found := ⟨[found], by rw [Findings.concat_singleton],
      by simpa [hsome] using .cons hfound (.nil _)⟩ }

theorem account_groupStep {group : List Text} {c c' : Course (σ × List Exchange)}
    (h : ws.groupStep answer.recording c group = .ok c') :
    ∃ xs, ws.Account [group] c c' xs := by
  rcases groupStep_eq_ok h with ⟨hb, rfl⟩ | ⟨r, hb, hne, -, hsubmit⟩
  · exact ⟨[], account_skip c hb⟩
  · have hsent : ws.sentOf? group = some r.bundle := sentOf?_eq_some.2 ⟨hb, hne⟩
    rcases submitGroup_eq_ok hsubmit with ⟨f, hf, -, rfl⟩ | ⟨response, found, hr, hfound, rfl⟩
    · exact ⟨_, account_fail c hsent hf⟩
    · exact ⟨_, account_submit c hsent hr hfound⟩

/-- **The account of a run through all its groups.** -/
theorem account_runGroups {groups : List (List Text)} {c c' : Course (σ × List Exchange)}
    (h : ws.runGroups answer.recording groups c = .ok c') :
    ∃ xs, ws.Account groups c c' xs := by
  induction groups generalizing c with
  | nil =>
    obtain rfl := Except.ok.inj h
    exact ⟨[], .nil c⟩
  | cons group rest ih =>
    unfold runGroups at h
    split at h
    · cases h
    · next c₁ hstep =>
      obtain ⟨xs, hxs⟩ := account_groupStep hstep
      obtain ⟨ys, hys⟩ := ih h
      exact ⟨xs ++ ys, hxs.append hys⟩

/-! ## Groups that are skipped -/

variable (ws) in
/-- No file of a group can be read. -/
def isUnreadable (group : List Text) : Bool := group.all fun p => ! (ws.later.read p).isOk

theorem isUnreadable_iff {group : List Text} :
    ws.isUnreadable group = true ↔ ∀ p ∈ group, ¬ ws.later.Reads p := by
  unfold isUnreadable TextSource.Reads
  simp only [List.all_eq_true, Bool.not_eq_true', ← Bool.not_eq_true, isOk_iff]

/-- What is sent of a group are the files that can be read. -/
theorem isNone_sentOf? (hs : ws.later.FaultsExpected) {group : List Text}
    (hne : ∀ p ∈ group, p ≠ []) : (ws.sentOf? group).isNone = ws.isUnreadable group := by
  obtain ⟨b, hb⟩ := exists_bundle hs hne
  obtain ⟨-, hall, honly⟩ := bundle_spec hb
  rw [Bool.eq_iff_iff, isUnreadable_iff]
  cases b with
  | nil =>
    have hsent : ws.sentOf? group = none := by
      unfold sentOf?
      rw [hb]
    simp only [hsent, Option.isNone_none, true_iff]
    rintro p hp ⟨t, ht⟩
    obtain ⟨name, -, hload⟩ := exists_load (hne p hp) ht
    cases hall p hp _ hload
  | cons f rest =>
    rw [sentOf?_eq_some.2 ⟨hb, List.cons_ne_nil f rest⟩]
    obtain ⟨p, hp, hload⟩ := honly f.1 f.2 List.mem_cons_self
    simp only [Option.isNone_some, Bool.false_eq_true, false_iff, not_forall, not_not]
    exact ⟨p, hp, f.2, (SourceFile.load_eq_ok_iff.1 hload).2.2⟩

/-! ## A run over the whole project -/

variable (ws) in
/-- The end of a run is the fold of its groups, in their order: what was sent of each, what the
tally counts, and the findings of the accepted replies one after the other, their ids counted
from 1 on. -/
structure IsFold (groups : List (List Text)) (xs : List Exchange) (e : Ending σ) : Prop where
  total : e.tally.submitted + e.tally.failed + e.tally.skipped = groups.length
  requests : xs.length = e.tally.submitted + e.tally.failed
  sent : xs.map (·.1.bundle) = groups.filterMap ws.sentOf?
  submitted : e.tally.submitted = (ws.accepted xs).length
  skipped : e.tally.skipped = groups.countP ws.isUnreadable
  files : e.tally.files = ((ws.accepted xs).map (·.1.bundle.length)).sum
  bytes : e.tally.bytes =
    ((ws.accepted xs).map fun x => (x.1.bundle.map fun f => (Bytes.ofText f.2).length).sum).sum
  allFailed : e.outcome = .error (.allFailed groups.length) ↔ e.tally.submitted = 0
  found : e.tally.submitted ≠ 0 → ∃ parts last,
    Normalization.InTurn ws.depths.lint ws.settings.linting 1 (xs.filterMap ws.response?)
      parts last ∧
    e.outcome = .ok (.concat parts)

/-- Every exchange is of a group that was submitted or of one that has failed. -/
theorem length_exchanges (xs : List Exchange) :
    xs.length = (ws.accepted xs).length + xs.countP (! ws.Accepts ·) := by
  unfold accepted
  rw [← List.countP_eq_length_filter,
    List.length_eq_countP_add_countP (fun x => decide (ws.Accepts x))]
  simp

/-- What a run from the beginning has counted is the fold of its groups. -/
theorem Account.isFold {groups : List (List Text)} {service : σ}
    {c : Course (σ × List Exchange)} {xs : List Exchange}
    (h : ws.Account groups ⟨{}, 1, {}, (service, [])⟩ c xs) (hs : ws.later.FaultsExpected)
    (hne : ∀ group ∈ groups, ∀ p ∈ group, p ≠ []) {e : Ending σ} (htally : e.tally = c.tally)
    (hout : e.outcome = (endOfRun groups.length (.ok c)).outcome) :
    ws.IsFold groups xs e := by
  have hsubmitted : e.tally.submitted = (ws.accepted xs).length :=
    htally ▸ h.submitted.trans (Nat.zero_add _)
  have hfailed : e.tally.failed = xs.countP (! ws.Accepts ·) :=
    htally ▸ h.failed.trans (Nat.zero_add _)
  have hskipped : e.tally.skipped = groups.countP (ws.sentOf? · |>.isNone) :=
    htally ▸ h.skipped.trans (Nat.zero_add _)
  have hrequests : xs.length = e.tally.submitted + e.tally.failed := by
    rw [hsubmitted, hfailed, length_exchanges]
  have hsent : groups.length = xs.length + groups.countP (ws.sentOf? · |>.isNone) := by
    have hlength := congrArg List.length h.sent
    have hnot : ∀ group, decide (¬ (ws.sentOf? group).isSome = true) =
        (ws.sentOf? group).isNone := fun group => by cases ws.sentOf? group <;> rfl
    rw [List.length_map, List.length_filterMap_eq_countP] at hlength
    rw [hlength, List.length_eq_countP_add_countP (fun group => (ws.sentOf? group).isSome)]
    simp only [hnot]
  have hsucceeded : c.tally.succeeded = true ↔ e.tally.submitted ≠ 0 := by
    rw [htally]
    exact bne_iff_ne
  obtain ⟨parts, hfound, hturn⟩ := h.found
  exact {
    total := by rw [← hrequests, hskipped, hsent]
    requests := hrequests
    sent := h.sent
    submitted := hsubmitted
    skipped := by
      rw [hskipped]
      refine List.countP_congr fun group hg => ?_
      rw [isNone_sentOf? hs (hne group hg)]
    files := htally ▸ h.files.trans (Nat.zero_add _)
    bytes := by
      simp only [← Bundle.size_eq]
      exact htally ▸ h.bytes.trans (Nat.zero_add _)
    allFailed := by
      rw [hout, ← not_iff_not, ← ne_eq (e.tally.submitted), ← hsucceeded]
      simp only [endOfRun]
      cases c.tally.succeeded <;> simp
    found := by
      intro hne
      refine ⟨parts, c.next, hturn, ?_⟩
      rw [hout]
      simp only [endOfRun, hsucceeded.2 hne, if_true, hfound, Findings.empty_append] }

theorem IsFold.wentThrough {groups : List (List Text)} {xs : List Exchange} {e : Ending σ}
    (h : ws.IsFold groups xs e) : WentThrough e.outcome := by
  by_cases hnone : e.tally.submitted = 0
  · exact Or.inr ⟨_, h.allFailed.2 hnone⟩
  · obtain ⟨parts, -, -, hout⟩ := h.found hnone
    exact Or.inl ⟨_, hout⟩

section
variable {groups : List (List Text)} {service : σ} {tally : Tally} (hs : ws.later.FaultsExpected)
  (hne : ∀ group ∈ groups, ∀ p ∈ group, p ≠ [])
include hs hne

/-- A run that has gone through all groups has made a request, or there was nothing to send. -/
theorem canSend_or_unreadable (hgroups : ws.groups.value = .ok groups)
    (h : WentThrough (ws.complete answer service (ws.beginAll tally).value).value.outcome) :
    ws.CanSend ∨ ∀ group ∈ groups, ws.isUnreadable group = true := by
  obtain ⟨found, c, hfound, hpass⟩ := exists_passage h
  obtain rfl := Except.ok.inj (hgroups.symm.trans hfound)
  cases hxs : ws.exchanges answer service (ws.beginAll tally).value with
  | cons x xs =>
    have hx : x ∈ ws.exchanges answer service (ws.beginAll tally).value :=
      hxs ▸ List.mem_cons_self
    exact Or.inl ((request_eq_ok_iff ws _).1 ⟨x.1, hpass.requested x hx⟩)
  | nil =>
    right
    intro group hg
    have hsent := hpass.sent
    rw [hxs, List.map_nil, eq_comm, List.filterMap_eq_nil_iff] at hsent
    rw [← isNone_sentOf? hs (hne group hg), hsent group hg]
    rfl

/-- Where requests can be sent or there is nothing to send, a run goes through all its groups
unless a reply escapes. -/
theorem not_halt {xs : List Exchange} (hreplies : ∀ x ∈ xs, ¬ ws.Escapes x)
    (hsend : ws.CanSend ∨ ∀ group ∈ groups, ws.isUnreadable group = true) :
    ¬ ws.Halt groups xs := by
  intro hhalt
  cases hhalt with
  | read hg hb =>
    obtain ⟨b, hb'⟩ := exists_bundle hs (hne _ hg)
    cases hb.symm.trans hb'
  | @request group b _ hg hb hnil hr =>
    rcases hsend with hsend | hsend
    · obtain ⟨r, hr'⟩ := (request_eq_ok_iff ws b).2 hsend
      cases hr.symm.trans hr'
    · have hnone := isNone_sentOf? hs (hne _ hg)
      rw [hsend _ hg, sentOf?_eq_some.2 ⟨hb, hnil⟩] at hnone
      cases hnone
  | reply hx he => exact hreplies _ hx he

end

/-- **A run is the ordered fold of its groups** if and only if none of its replies escapes, and
requests can be sent or no file can be read. -/
theorem run_isFold_iff (ws : Workspace) (hws : ws.WellFormed) (hs : ws.FaultsExpected)
    (hopen : ws.tree.isDirectory ws.root = true) {groups : List (List Text)}
    (hgroups : ws.groups.value = .ok groups) (answer : Service σ) (service : σ) (tally : Tally) :
    ws.IsFold groups (ws.exchanges answer service (ws.beginAll tally).value)
        (ws.complete answer service (ws.beginAll tally).value).value ↔
      (∀ x ∈ ws.exchanges answer service (ws.beginAll tally).value, ¬ ws.Escapes x) ∧
        (ws.CanSend ∨ ∀ group ∈ groups, ws.isUnreadable group = true) := by
  obtain ⟨files, g, hscan, -, hbuild, hpart⟩ := groups_eq_ok hgroups
  have hne : ∀ group ∈ groups, ∀ p ∈ group, p ≠ [] := fun group hg p hp =>
    ne_nil_of_mem_files hws hscan (mem_files_of_mem_group hbuild hpart hg hp)
  constructor
  · intro h
    obtain ⟨_, _, -, hpass⟩ := exists_passage h.wentThrough
    exact ⟨hpass.contained, canSend_or_unreadable hs.later hne hgroups h.wentThrough⟩
  · rintro ⟨hreplies, hsend⟩
    have hend := value_complete_beginAll ws answer.recording (service, []) tally
    rw [if_pos hopen, hgroups] at hend
    simp only [] at hend
    have htally := tally_recording ws answer service (ws.beginAll tally).value
    have hout := outcome_recording ws answer service (ws.beginAll tally).value
    unfold exchanges at hreplies ⊢
    cases hrun : ws.runGroups answer.recording groups ⟨{}, 1, {}, (service, [])⟩ with
    | error e =>
      rw [hrun] at hend
      rw [hend] at hreplies
      exact absurd (halt_runGroups hrun).1 (not_halt hs.later hne hreplies hsend)
    | ok c =>
      rw [hrun] at hend
      obtain ⟨xs, hxs⟩ := account_runGroups hrun
      rw [hend] at htally hout ⊢
      have hservice : c.service.2 = xs := hxs.service.trans (List.nil_append xs)
      simp only [endOfRun, hservice]
      exact hxs.isFold hs.later hne htally.symm hout.symm

/-- Of four groups the first and the last have a finding each, the second can no longer be read
when its turn comes, and the third is answered by an error; the numbers of the findings go on. -/
theorem run_isFold_iff_mixed :
    let tree : FileTree := .directory [("ws", .directory
      [("A.sol", .file []), ("B.sol", .file []), ("C.sol", .file []), ("D.sol", .file [])])]
    let source : TextSource := .ofTexts
      [("/ws/A.sol", "contract A {}"), ("/ws/B.sol", "contract B {}"),
        ("/ws/C.sol", "contract C {}"), ("/ws/D.sol", "contract D {}")]
      (.system .missing)
    let later : TextSource := .ofTexts
      [("/ws/A.sol", "contract A {}"), ("/ws/C.sol", "contract C {}"), ("/ws/D.sol", "// é")]
      (.system .missing)
    let ws : Workspace := { cwd := "/", settings := .ofWorkspace "ws", tree, source, later }
    let body : Bytes := Bytes.ofText "\x7b\"result\":[\x7b\"check\":\"x\"\x7d]\x7d"
    let answer : Service Nat := fun n _ => (.answer (if n = 1 then 500 else 200) body, n + 1)
    let groups : List (List Text) := [["/ws/A.sol"], ["/ws/B.sol"], ["/ws/C.sol"], ["/ws/D.sol"]]
    let xs := ws.exchanges answer 0 (ws.beginAll {}).value
    let e := (ws.complete answer 0 (ws.beginAll {}).value).value
    let ids : List Text := ["vuln-1", "vuln-2"]
    ws.WellFormed ∧ ws.FaultsExpected ∧ ws.tree.isDirectory ws.root = true ∧
      ws.groups.value = .ok groups ∧ (∀ x ∈ xs, ¬ ws.Escapes x) ∧ ws.CanSend ∧
      ws.IsFold groups xs e ∧ e.tally = ⟨2, 1, 1, 2, 18⟩ ∧
      (e.outcome.toOption.map fun found => found.vulnerabilities.map (·.id)) = some ids := by
  intro tree source later ws body answer groups xs e ids
  have hws : ws.WellFormed := by decide +kernel
  have hs : ws.FaultsExpected := ⟨TextSource.faultsExpected_ofTexts fun _ => rfl,
    TextSource.faultsExpected_ofTexts fun _ => rfl⟩
  have hopen : ws.tree.isDirectory ws.root = true := by decide +kernel
  have hgroups : ws.groups.value = .ok groups := by decide +kernel
  have hscan : (Scan.run ws.rules ws.tree ws.root).value =
      .ok ["/ws/A.sol", "/ws/B.sol", "/ws/C.sol", "/ws/D.sol"] := by decide +kernel
  have hwell : ws.EndsWell e.outcome xs :=
    Or.inl ⟨isOk_iff.1 (by decide +kernel), by decide +kernel⟩
  have hreplies := ((endsWell_iff hws hopen hs hscan (List.cons_ne_nil _ _)).1 hwell).1
  have hsend : ws.CanSend := ⟨isOk_iff.1 (by decide +kernel), by decide +kernel⟩
  have hfold := (run_isFold_iff ws hws hs hopen hgroups answer 0 {}).2 ⟨hreplies, Or.inl hsend⟩
  exact ⟨hws, hs, hopen, hgroups, hreplies, hsend, hfold, by decide +kernel, by decide +kernel⟩

/-- With a key that fits into no header a run ends at its first group, which no tally counts. -/
theorem not_isFold_of_unsendable_key :
    let tree : FileTree := .directory [("ws", .directory
      [("A.sol", .file []), ("B.sol", .file [])])]
    let source : TextSource := .ofTexts
      [("/ws/A.sol", "contract A {}"), ("/ws/B.sol", "contract B {}")]
      (.system .missing)
    let settings : Settings := { Settings.ofWorkspace "ws" with apiKey := "é" }
    let ws : Workspace := { cwd := "/", settings, tree, source }
    let answer : Service Nat := fun n _ => (.answer 200 [123, 125], n + 1)
    let groups : List (List Text) := [["/ws/A.sol"], ["/ws/B.sol"]]
    let xs := ws.exchanges answer 0 (ws.beginAll {}).value
    let e := (ws.complete answer 0 (ws.beginAll {}).value).value
    ws.WellFormed ∧ ws.FaultsExpected ∧ ws.tree.isDirectory ws.root = true ∧
      ws.groups.value = .ok groups ∧ (∀ x ∈ xs, ¬ ws.Escapes x) ∧ e.tally = {} ∧
      e.outcome.toOption.isNone = true ∧ e.outcome ≠ .error (.allFailed groups.length) ∧
      ¬ ws.IsFold groups xs e := by
  intro tree source settings ws answer groups xs e
  have hsource : ws.source.FaultsExpected := TextSource.faultsExpected_ofTexts fun _ => rfl
  have hnone : xs = [] := List.isEmpty_iff.1 (by decide +kernel)
  have htally : e.tally = {} := by decide +kernel
  refine ⟨by decide +kernel, ⟨hsource, hsource⟩, by decide +kernel, by decide +kernel, ?_, htally,
    by decide +kernel, by decide +kernel, fun h => ?_⟩
  · rw [hnone]
    exact nofun
  · have htotal := h.total
    rw [htally] at htotal
    cases htotal

end Workspace

end ContractAudit
