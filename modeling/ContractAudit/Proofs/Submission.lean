import ContractAudit.Proofs.Normalization
import ContractAudit.Submission

/-!
# Replies that end a run, and replies that do not

A fault that is expected costs a run one group, any other one ends it.  `Escapes` lists the
replies that end a run: those that are none, those from a relative address, bodies nested too
deep, and responses that cannot be turned into findings.

    there is a request ↔ e.IsUsable address                 (request_eq_ok_iff)
    the reply has a response ↔ x.Accepted depths.body       (accepted_iff)
    the fault of the reply is expected ↔ ¬ x.Escapes linting depths
                                                            (isExpected_iff)
    the response of the reply gives findings ↔ ¬ x.Escapes linting depths
                                                            (isOk_iff)
-/

namespace ContractAudit

open Record (Response)

/-- A request with its reply. -/
abbrev Exchange := Request × Reply

namespace Endpoint

/-- There is an address to send to, and a key that fits into a header. -/
def IsUsable (address : Text → Except Text Address) (e : Endpoint) : Prop :=
  (∃ url, address e.url = .ok url) ∧ e.key.all isHeaderChar = true

end Endpoint

section
variable {e : Endpoint} {b : Bundle} {address : Text → Except Text Address}

theorem Submission.request_eq_ok_iff (e : Endpoint) (b : Bundle)
    (address : Text → Except Text Address) :
    (∃ r, (Submission.request e b address).value = .ok r) ↔ e.IsUsable address := by
  unfold Submission.request Endpoint.IsUsable
  simp only [Logged.value_bind]
  cases address e.url with
  | error f => simp
  | ok url =>
    simp only []
    by_cases hk : e.key.all isHeaderChar = true
    · rw [dif_pos hk]
      simp [hk]
    · rw [dif_neg hk]
      simp [hk]

theorem Submission.isExpected_of_request {f : SubmissionFault}
    (h : (Submission.request e b address).value = .error f) : f.isExpected = false := by
  unfold Submission.request at h
  simp only [Logged.value_bind] at h
  cases hu : address e.url with
  | error g =>
    rw [hu] at h
    obtain rfl := Except.error.inj h
    rfl
  | ok url =>
    rw [hu] at h
    simp only [] at h
    split at h
    · cases h
    · obtain rfl := Except.error.inj h
      rfl

end

namespace Exchange

/-- The reply is one of success, and its body holds a response. -/
def Accepted (depth : Nat) (x : Exchange) : Prop :=
  ∃ code body response, x.2 = .answer code body ∧ x.1.url.isAbsolute = true ∧
    Submission.isSuccess code = true ∧ Submission.bodyResponse depth body = .ok response

/-- Why a reply ends the whole run. -/
inductive Escapes (linting : Bool) (depths : Json.Depths) (x : Exchange) : Prop
  /-- The request could not be tried. -/
  | untried {kind message : Text} (hx : x.2 = .untried kind message)
  /-- The reply comes from a relative address. -/
  | relative {code : Nat} {body : Bytes} (hx : x.2 = .answer code body)
      (hu : x.1.url.isAbsolute = false)
  /-- The body is nested too deep. -/
  | nesting {code : Nat} {body : Bytes} {t : Text} {object : Bool} (hx : x.2 = .answer code body)
      (hs : Submission.isSuccess code = true) (ht : Bytes.toText body = .ok t)
      (hd : Json.readBody depths.body t = .error (.tooDeep object))
  /-- The response cannot be turned into findings. -/
  | findings {code : Nat} {body : Bytes} {response : Response} (hx : x.2 = .answer code body)
      (hs : Submission.isSuccess code = true)
      (hb : Submission.bodyResponse depths.body body = .ok response)
      (hr : Normalization.Unreadable depths.lint linting response)

end Exchange

namespace Submission

/-- The response without the entries. -/
theorem value_response (depth : Nat) (r : Request) (code : Nat) (body : Bytes) :
    (response r (.answer code body) depth).value =
      if r.url.isAbsolute = false then .error (.relative r.url.text)
      else if isSuccess code = false then .error (.status code)
      else bodyResponse depth body := by
  simp only [response]
  cases r.url.isAbsolute with
  | false => rfl
  | true =>
    cases isSuccess code with
    | false => rfl
    | true =>
      simp only [Bool.not_true, Bool.false_eq_true, if_false, Bool.true_eq_false]
      cases bodyResponse depth body with
      | error f => rfl
      | ok response => cases h : reportedError? response <;> simp [h]

theorem response_eq_ok_iff {depth : Nat} {x : Exchange} {response : Response} :
    (Submission.response x.1 x.2 depth).value = .ok response ↔
      ∃ code body, x.2 = .answer code body ∧ x.1.url.isAbsolute = true ∧
        isSuccess code = true ∧ bodyResponse depth body = .ok response := by
  obtain ⟨r, reply⟩ := x
  cases reply with
  | broken message => simp [Submission.response]
  | untried kind message => simp [Submission.response]
  | answer code body =>
    simp only [value_response, Reply.answer.injEq]
    constructor
    · intro h
      split at h
      · cases h
      · next hu =>
        split at h
        · cases h
        · next hs => exact ⟨code, body, ⟨rfl, rfl⟩, by simpa using hu, by simpa using hs, h⟩
    · rintro ⟨code, body, ⟨rfl, rfl⟩, hu, hs, hb⟩
      rw [hu, hs, hb]
      rfl

theorem accepted_iff (depth : Nat) (x : Exchange) :
    x.Accepted depth ↔ ∃ response, (Submission.response x.1 x.2 depth).value = .ok response := by
  simp only [response_eq_ok_iff]
  constructor
  · rintro ⟨code, body, response, h⟩
    exact ⟨response, code, body, h⟩
  · rintro ⟨response, code, body, h⟩
    exact ⟨code, body, response, h⟩

instance (depth : Nat) (x : Exchange) : Decidable (x.Accepted depth) :=
  decidable_of_iff ((Submission.response x.1 x.2 depth).value.isOk = true)
    (isOk_iff.trans (accepted_iff depth x).symm)

/-- Of the faults of a body only nesting is not expected. -/
theorem isExpected_of_bodyResponse {depth : Nat} {body : Bytes} {f : SubmissionFault}
    (h : bodyResponse depth body = .error f) :
    f.isExpected = true ↔
      ¬ ∃ t object, Bytes.toText body = .ok t ∧
        Json.readBody depth t = .error (.tooDeep object) := by
  unfold bodyResponse bodyJson at h
  cases ht : Bytes.toText body with
  | error g =>
    rw [ht] at h
    obtain rfl := Except.error.inj h
    simp [SubmissionFault.isExpected]
  | ok t =>
    rw [ht] at h
    simp only [] at h
    simp only [Except.ok.injEq, exists_and_left, exists_eq_left']
    cases hj : Json.readBody depth t with
    | error g =>
      rw [hj] at h
      obtain rfl := Except.error.inj h
      cases g <;> simp [SubmissionFault.isExpected]
    | ok v =>
      rw [hj] at h
      simp only [Except.mapError] at h
      split at h
      · cases h
      · obtain rfl := Except.error.inj h
        simp [SubmissionFault.isExpected]

end Submission

namespace Exchange

variable {linting : Bool} {depths : Json.Depths} {x : Exchange}

/-- A reply without a response costs a run one group, unless it escapes. -/
theorem isExpected_iff {f : SubmissionFault}
    (h : (Submission.response x.1 x.2 depths.body).value = .error f) :
    f.isExpected = true ↔ ¬ x.Escapes linting depths := by
  obtain ⟨r, reply⟩ := x
  cases reply with
  | broken message =>
    obtain rfl := Except.error.inj h
    refine ⟨fun _ hx => ?_, fun _ => rfl⟩
    rcases hx with hx | ⟨hx, -⟩ | ⟨hx, -, -, -⟩ | ⟨hx, -, -, -⟩ <;> cases hx
  | untried kind message =>
    obtain rfl := Except.error.inj h
    exact ⟨fun he => (by cases he), fun hx => absurd (.untried rfl) hx⟩
  | answer code body =>
    rw [Submission.value_response] at h
    split at h
    · next hu =>
      obtain rfl := Except.error.inj h
      exact ⟨fun he => (by cases he), fun hx => absurd (.relative rfl hu) hx⟩
    · next hu =>
      split at h
      · next hs =>
        obtain rfl := Except.error.inj h
        refine ⟨fun _ hx => ?_, fun _ => rfl⟩
        rcases hx with hx | ⟨hx, hu'⟩ | ⟨hx, hs', -, -⟩ | ⟨hx, hs', -, -⟩ <;> cases hx
        · exact hu hu'
        · exact Bool.false_ne_true (hs.symm.trans hs')
        · exact Bool.false_ne_true (hs.symm.trans hs')
      · next hs =>
        rw [Submission.isExpected_of_bodyResponse h, not_iff_not]
        constructor
        · rintro ⟨t, object, ht, hd⟩
          exact .nesting rfl (by simpa using hs) ht hd
        · rintro (hx | ⟨hx, hu'⟩ | ⟨hx, -, ht, hd⟩ | ⟨hx, -, hb, -⟩) <;> cases hx
          · exact absurd hu' hu
          · exact ⟨_, _, ht, hd⟩
          · cases h.symm.trans hb

/-- A response gives findings, unless the reply escapes. -/
theorem isOk_iff {response : Response} (next : Nat)
    (h : (Submission.response x.1 x.2 depths.body).value = .ok response) :
    (Normalization.ofResponse next linting response depths.lint).value.outcome.isOk = true ↔
      ¬ x.Escapes linting depths := by
  obtain ⟨code, body, hx, hu, hs, hb⟩ := Submission.response_eq_ok_iff.1 h
  rw [Normalization.isOk_ofResponse, not_iff_not]
  constructor
  · exact .findings hx hs hb
  · rintro (hx' | ⟨hx', hu'⟩ | ⟨hx', -, ht, hd⟩ | ⟨hx', -, hb', hr⟩)
    · cases hx.symm.trans hx'
    · exact absurd (hu.symm.trans hu') (by simp)
    · obtain ⟨rfl, rfl⟩ := Reply.answer.inj (hx.symm.trans hx')
      unfold Submission.bodyResponse Submission.bodyJson at hb
      rw [ht] at hb
      simp only [hd] at hb
      cases hb
    · obtain ⟨rfl, rfl⟩ := Reply.answer.inj (hx.symm.trans hx')
      obtain rfl := Except.ok.inj (hb.symm.trans hb')
      exact hr

end Exchange

end ContractAudit
