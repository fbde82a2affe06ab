import FlipperApps.Tesla.Session

/-!
# Noninterference of the APDU layer

Two applets run on the same requests. While no session is open the reader sees
the same bytes whatever the public keys and callbacks are; with one public key
it sees the same bytes as long as the callbacks report the same, whatever a
failing callback left in its output buffer.
-/

namespace FlipperApps.Tesla
open Calls
variable {κ χ κ' χ' σ σ' : Type}

namespace SessionEvent

def input : SessionEvent κ χ → Option (List UInt8 × ℕ)
  | .process request response .. => some (request, response.length)
  | .resetSession => none

def sent : SessionEvent κ χ → Option (TeslaApduResult × List UInt8)
  | .process _ _ _ result written => some (result, written.take result.responseSize)
  | .resetSession => none

def callbacks : SessionEvent κ χ → List (Event (ApduInterface κ χ))
  | .process _ _ callbacks .. => callbacks
  | .resetSession => []

end SessionEvent

/-- Before each request, no SELECT has opened a session since the last reset. -/
def ClosedAtRequests (events : List (SessionEvent κ χ)) : Prop :=
  ∀ before e after, events = before ++ e :: after → e ≠ .resetSession → ¬ SessionOpen before

/-- The invocations with the same number succeed or fail alike, and give the same
bytes where they succeed. -/
def CallbacksAgree (events : List (SessionEvent κ χ)) (events' : List (SessionEvent κ' χ')) :
    Prop :=
  ∀ (n : ℕ) e e', (events.flatMap SessionEvent.callbacks)[n]? = some e →
    (events'.flatMap SessionEvent.callbacks)[n]? = some e' →
    callbackOutcome e = callbackOutcome e'

section
variable {request response response' : List UInt8}

def sentBytes (a : TeslaApduResult × List UInt8) : TeslaApduResult × List UInt8 :=
  (a.1, a.2.take a.1.responseSize)

theorem frame_sent (command : TeslaApduCommand) (statusWord : UInt16) (data : List UInt8)
    (h : response.length = response'.length) :
    sentBytes (frame command statusWord data response) =
      sentBytes (frame command statusWord data response') := by
  unfold frame
  rw [h]
  split_ifs
  · simp [sentBytes]
  · simp [sentBytes]
  · simp [sentBytes, List.take_append]

theorem authenticateAnswer_sent (authenticated : Option (Bytes 16))
    (h : response.length = response'.length) :
    sentBytes (authenticateAnswer authenticated request response) =
      sentBytes (authenticateAnswer authenticated request response') := by
  unfold authenticateAnswer
  cases authenticated
  all_goals
    split_ifs
    · exact frame_sent _ _ _ h
    · exact frame_sent _ _ _ h

theorem answer_sent (selected : Bool) (publicKey : Bytes 65) (authenticated : Option (Bytes 16))
    (h : response.length = response'.length) :
    sentBytes (answer selected publicKey authenticated request response) =
      sentBytes (answer selected publicKey authenticated request response') := by
  unfold answer
  split_ifs
  all_goals first
    | exact frame_sent _ _ _ h
    | exact authenticateAnswer_sent _ h

theorem answer_closed (publicKey publicKey' : Bytes 65)
    (authenticated authenticated' : Option (Bytes 16)) :
    answer false publicKey authenticated request response =
      answer false publicKey' authenticated' request response := by
  simp [answer]

end

section
variable {E : Environment (ApduInterface κ χ) σ} {apdu apdu' : TeslaApdu κ χ} {s s' : σ}
  {e : SessionEvent κ χ}

inductive Reads (apdu : TeslaApdu κ χ) : SessionEvent κ χ → TeslaApdu κ χ → Prop
  | process {request response written : List UInt8} {result : TeslaApduResult}
      {callbacks : List (Event (ApduInterface κ χ))} (hinvoked : InvokedBy apdu request callbacks)
      (hanswer : (result, written) =
        answer apdu.selected apdu.publicKey (reported callbacks) request response) :
      Reads apdu (.process request response callbacks result written) (afterRequest apdu request)
  | resetSession : Reads apdu .resetSession (teslaApduResetSession apdu)

theorem SessionStep.reads (h : SessionStep E (apdu, s) e (apdu', s')) : Reads apdu e apdu' := by
  cases h with
  | process hx =>
    obtain ⟨ha, hinvoked⟩ := always_iff.mp (process_outcome E ..) _ _ _ hx
    obtain ⟨rfl, hanswer⟩ := Prod.mk.inj ha
    exact .process hinvoked hanswer
  | resetSession => exact .resetSession

theorem Reads.keeps (h : Reads apdu e apdu') : apdu'.publicKey = apdu.publicKey ∧
    apdu'.authenticateCallback = apdu.authenticateCallback := by
  cases h with
  | process =>
    unfold afterRequest
    split_ifs
    · exact ⟨rfl, rfl⟩
    · exact ⟨rfl, rfl⟩
  | resetSession => exact ⟨rfl, rfl⟩

end

section
variable {apdu₁ apdu₁' : TeslaApdu κ χ} {apdu₂ apdu₂' : TeslaApdu κ' χ'}
  {e₁ : SessionEvent κ χ} {e₂ : SessionEvent κ' χ'}

theorem Reads.selected (h₁ : Reads apdu₁ e₁ apdu₁') (h₂ : Reads apdu₂ e₂ apdu₂')
    (hin : e₁.input = e₂.input) (hsel : apdu₁.selected = apdu₂.selected) :
    apdu₁'.selected = apdu₂'.selected := by
  cases h₁ with
  | process =>
    cases h₂ with
    | process =>
      obtain ⟨rfl, -⟩ := Prod.mk.inj (Option.some.inj hin)
      unfold afterRequest
      split_ifs
      · rfl
      · exact hsel
    | resetSession => cases hin
  | resetSession =>
    cases h₂ with
    | process => cases hin
    | resetSession => rfl

theorem Reads.sent_eq (h₁ : Reads apdu₁ e₁ apdu₁') (h₂ : Reads apdu₂ e₂ apdu₂')
    (hin : e₁.input = e₂.input)
    (hsame : e₁ ≠ .resetSession → ∀ request response,
      answer apdu₁.selected apdu₁.publicKey (reported e₁.callbacks) request response =
        answer apdu₂.selected apdu₂.publicKey (reported e₂.callbacks) request response) :
    e₁.sent = e₂.sent := by
  cases h₁ with
  | process _ ha₁ =>
    cases h₂ with
    | process _ ha₂ =>
      obtain ⟨rfl, hlen⟩ := Prod.mk.inj (Option.some.inj hin)
      exact congrArg some (calc
        sentBytes (_, _) = _ := congrArg sentBytes ha₁
        _ = _ := congrArg sentBytes (hsame (by simp) _ _)
        _ = _ := answer_sent _ _ _ hlen
        _ = _ := congrArg sentBytes ha₂.symm)
    | resetSession => cases hin
  | resetSession =>
    cases h₂ with
    | process => cases hin
    | resetSession => rfl

structure Alike (apdu₁ : TeslaApdu κ χ) (apdu₂ : TeslaApdu κ' χ') : Prop where
  selected : apdu₁.selected = apdu₂.selected
  publicKey : apdu₁.publicKey = apdu₂.publicKey
  callback : apdu₁.authenticateCallback.isSome = apdu₂.authenticateCallback.isSome

theorem Alike.reads (h : Alike apdu₁ apdu₂) (h₁ : Reads apdu₁ e₁ apdu₁')
    (h₂ : Reads apdu₂ e₂ apdu₂') (hin : e₁.input = e₂.input) : Alike apdu₁' apdu₂' := by
  refine ⟨h₁.selected h₂ hin h.selected, ?_, ?_⟩
  · rw [h₁.keeps.1, h₂.keeps.1, h.publicKey]
  · rw [h₁.keeps.2, h₂.keeps.2, h.callback]

theorem Reads.callbacks_length (h₁ : Reads apdu₁ e₁ apdu₁') (h₂ : Reads apdu₂ e₂ apdu₂')
    (hin : e₁.input = e₂.input) (h : Alike apdu₁ apdu₂) :
    e₁.callbacks.length = e₂.callbacks.length := by
  cases h₁ with
  | process hinvoked₁ =>
    cases h₂ with
    | process hinvoked₂ =>
      obtain ⟨rfl, -⟩ := Prod.mk.inj (Option.some.inj hin)
      unfold InvokedBy at hinvoked₁ hinvoked₂
      rw [← h.selected, ← h.callback] at hinvoked₂
      split_ifs at hinvoked₁ hinvoked₂
      · exact hinvoked₁.trans hinvoked₂.symm
      · simp [SessionEvent.callbacks, hinvoked₁, hinvoked₂]
    | resetSession => cases hin
  | resetSession =>
    cases h₂ with
    | process => cases hin
    | resetSession => simp [SessionEvent.callbacks]

end

section
variable {events₁ : List (SessionEvent κ χ)} {events₂ : List (SessionEvent κ' χ')}
  {e₁ : SessionEvent κ χ} {e₂ : SessionEvent κ' χ'}

theorem ClosedAtRequests.init (h : ClosedAtRequests (events₁ ++ [e₁])) :
    ClosedAtRequests events₁ := by
  intro before e after h
  subst h
  exact h before e (after ++ [e₁]) (by simp)

theorem ClosedAtRequests.last (h : ClosedAtRequests (events₁ ++ [e₁]))
    (he : e₁ ≠ .resetSession) : ¬ SessionOpen events₁ := h events₁ e₁ [] rfl he

theorem CallbacksAgree.init (h : CallbacksAgree (events₁ ++ [e₁]) (events₂ ++ [e₂])) :
    CallbacksAgree events₁ events₂ := by
  intro n e e' he he'
  rw [CallbacksAgree, List.flatMap_append, List.flatMap_append] at h
  apply h n e e'
  · exact (List.getElem?_append_left (List.getElem?_eq_some_iff.mp he).1).trans he
  · exact (List.getElem?_append_left (List.getElem?_eq_some_iff.mp he').1).trans he'

theorem CallbacksAgree.last (h : CallbacksAgree (events₁ ++ [e₁]) (events₂ ++ [e₂]))
    (hlen : (events₁.flatMap SessionEvent.callbacks).length =
      (events₂.flatMap SessionEvent.callbacks).length)
    (hsame : e₁.callbacks.length = e₂.callbacks.length) :
    reported e₁.callbacks = reported e₂.callbacks := by
  rw [CallbacksAgree, List.flatMap_append, List.flatMap_append] at h
  cases hc₁ : e₁.callbacks with
  | nil =>
    have hc₂ : e₂.callbacks = [] := by simpa [hc₁] using hsame.symm
    rw [hc₂]
    rfl
  | cons c₁ rest₁ =>
    cases hc₂ : e₂.callbacks with
    | nil => simp [hc₁, hc₂] at hsame
    | cons c₂ rest₂ =>
      refine h (events₁.flatMap SessionEvent.callbacks).length c₁ c₂ ?_ ?_
      · simp [hc₁]
      · simp [hlen, hc₂]

end

section
variable {E₁ : Environment (ApduInterface κ χ) σ} {E₂ : Environment (ApduInterface κ' χ') σ'}
  {a₁ b₁ : TeslaApdu κ χ × σ} {a₂ b₂ : TeslaApdu κ' χ' × σ'}
  {events₁ : List (SessionEvent κ χ)} {events₂ : List (SessionEvent κ' χ')}

theorem closed_noninterference (h₁ : Run (SessionStep E₁) a₁ events₁ b₁)
    (h₂ : Run (SessionStep E₂) a₂ events₂ b₂)
    (hin : events₁.map SessionEvent.input = events₂.map SessionEvent.input)
    (hstart₁ : a₁.1.selected = false) (hstart₂ : a₂.1.selected = false)
    (hclosed : ClosedAtRequests events₁) :
    events₁.map SessionEvent.sent = events₂.map SessionEvent.sent ∧
      b₁.1.selected = b₂.1.selected := by
  revert hclosed
  suffices h : (b₁.1.selected = true ↔ SessionOpen events₁) ∧ b₁.1.selected = b₂.1.selected ∧
      (ClosedAtRequests events₁ →
        events₁.map SessionEvent.sent = events₂.map SessionEvent.sent) from
    fun hclosed => ⟨h.2.2 hclosed, h.2.1⟩
  apply Run.related (P := fun events₁ events₂ b₁ b₂ =>
    (b₁.1.selected = true ↔ SessionOpen events₁) ∧ b₁.1.selected = b₂.1.selected ∧
      (ClosedAtRequests events₁ →
        events₁.map SessionEvent.sent = events₂.map SessionEvent.sent)) h₁ h₂ hin
  · exact ⟨by simp [hstart₁, not_sessionOpen_nil], hstart₁.trans hstart₂.symm, fun _ => rfl⟩
  · intro events₁ events₂ b₁ b₂ e₁ e₂ c₁ c₂ h hstep₁ hstep₂ hinput
    obtain ⟨apdu₁, s₁⟩ := b₁
    obtain ⟨apdu₂, s₂⟩ := b₂
    obtain ⟨apdu₁', s₁'⟩ := c₁
    obtain ⟨apdu₂', s₂'⟩ := c₂
    obtain ⟨hopen, hsel, hsent⟩ := h
    refine ⟨?_, hstep₁.reads.selected hstep₂.reads hinput hsel, fun hclosed => ?_⟩
    · rw [hstep₁.selected_iff, sessionOpen_snoc, hopen]
    · rw [List.map_append, List.map_append, hsent hclosed.init, List.map_singleton,
        List.map_singleton, hstep₁.reads.sent_eq hstep₂.reads hinput]
      intro he request response
      have hfalse : apdu₁.selected = false := by
        simpa using mt hopen.mp (hclosed.last he)
      rw [← show apdu₁.selected = apdu₂.selected from hsel, hfalse]
      exact answer_closed _ _ _ _

theorem agreeing_noninterference (h₁ : Run (SessionStep E₁) a₁ events₁ b₁)
    (h₂ : Run (SessionStep E₂) a₂ events₂ b₂)
    (hin : events₁.map SessionEvent.input = events₂.map SessionEvent.input)
    (hstart : Alike a₁.1 a₂.1) (hagree : CallbacksAgree events₁ events₂) :
    events₁.map SessionEvent.sent = events₂.map SessionEvent.sent ∧
      b₁.1.selected = b₂.1.selected := by
  let invocations₁ (events : List (SessionEvent κ χ)) := events.flatMap SessionEvent.callbacks
  let invocations₂ (events : List (SessionEvent κ' χ')) := events.flatMap SessionEvent.callbacks
  revert hagree
  suffices h : Alike b₁.1 b₂.1 ∧
      (invocations₁ events₁).length = (invocations₂ events₂).length ∧
      (CallbacksAgree events₁ events₂ →
        events₁.map SessionEvent.sent = events₂.map SessionEvent.sent) from
    fun hagree => ⟨h.2.2 hagree, h.1.selected⟩
  apply Run.related (P := fun events₁ events₂ b₁ b₂ => Alike b₁.1 b₂.1 ∧
      (invocations₁ events₁).length = (invocations₂ events₂).length ∧
      (CallbacksAgree events₁ events₂ →
        events₁.map SessionEvent.sent = events₂.map SessionEvent.sent)) h₁ h₂ hin
  · exact ⟨hstart, rfl, fun _ => rfl⟩
  · intro events₁ events₂ b₁ b₂ e₁ e₂ c₁ c₂ h hstep₁ hstep₂ hinput
    obtain ⟨apdu₁, s₁⟩ := b₁
    obtain ⟨apdu₂, s₂⟩ := b₂
    obtain ⟨apdu₁', s₁'⟩ := c₁
    obtain ⟨apdu₂', s₂'⟩ := c₂
    obtain ⟨halike, hlen, hsent⟩ := h
    have hcallbacks := hstep₁.reads.callbacks_length hstep₂.reads hinput halike
    refine ⟨halike.reads hstep₁.reads hstep₂.reads hinput, ?_, fun hagree => ?_⟩
    · simpa [invocations₁, invocations₂, hcallbacks] using hlen
    · rw [List.map_append, List.map_append, hsent hagree.init, List.map_singleton,
        List.map_singleton, hstep₁.reads.sent_eq hstep₂.reads hinput]
      intro _ request response
      rw [halike.selected, halike.publicKey, hagree.last hlen hcallbacks]

/-- Two applets on the same requests. Where no SELECT has succeeded since the last
reset before any of them, keys and callbacks make no difference to the answers;
and where the keys are the same, only what the callbacks report does. -/
theorem apdu_noninterference {publicKey₁ publicKey₂ : Bytes 65} {callback₁ : Option κ}
    {callback₂ : Option κ'} {context₁ : χ} {context₂ : χ'} {s₁ : σ} {s₂ : σ'}
    (h₁ : Run (SessionStep E₁) (teslaApduInit publicKey₁ callback₁ context₁, s₁) events₁ b₁)
    (h₂ : Run (SessionStep E₂) (teslaApduInit publicKey₂ callback₂ context₂, s₂) events₂ b₂)
    (hin : events₁.map SessionEvent.input = events₂.map SessionEvent.input) :
    (ClosedAtRequests events₁ →
      events₁.map SessionEvent.sent = events₂.map SessionEvent.sent ∧
        b₁.1.selected = b₂.1.selected) ∧
    (publicKey₁ = publicKey₂ → callback₁.isSome = callback₂.isSome →
      CallbacksAgree events₁ events₂ →
      events₁.map SessionEvent.sent = events₂.map SessionEvent.sent ∧
        b₁.1.selected = b₂.1.selected) :=
  ⟨closed_noninterference h₁ h₂ hin rfl rfl, fun hkey hset =>
    agreeing_noninterference h₁ h₂ hin ⟨rfl, hkey, hset⟩⟩

end

def authenticateZero : List UInt8 := [0x80, 0x11, 0x00, 0x00, 0x51] ++ List.replicate 81 0

def failedAuthenticate (left : Bytes 16) : SessionEvent Unit Unit :=
  .process authenticateZero (List.replicate 67 0)
    [⟨.authenticate () () (Bytes.zero 65) (Bytes.zero 16), (false, left)⟩]
    ⟨.authenticate, swUnknown, 2⟩ (0x6F :: 0x00 :: List.replicate 65 0)

/-- Two different outputs of a failing callback, and the same answers. -/
theorem apdu_noninterference_failedAuthenticate :
    let events (left : Bytes 16) := [selectTeslaEvent, failedAuthenticate left]
    (events (Bytes.zero 16)).map SessionEvent.sent =
      (events ⟨List.replicate 16 0xFF, rfl⟩).map SessionEvent.sent := by
  have hrun (left : Bytes 16) : Run (SessionStep fun s _ _ s' => s' = s)
      (teslaApduInit (Bytes.zero 65) (some ()) (), ()) [selectTeslaEvent, failedAuthenticate left]
      (⟨true, Bytes.zero 65, some (), ()⟩, ()) := by
    refine .snoc (.snoc (.nil _) (.process (.done _ ()))) (.process ?_)
    exact .call rfl (.done _ ())
  refine ((apdu_noninterference (hrun _) (hrun _) rfl).2 rfl rfl ?_).1
  intro n e e' he he'
  rcases n with _ | n
  · obtain rfl := Option.some.inj he
    obtain rfl := Option.some.inj he'
    rfl
  · simp [selectTeslaEvent, failedAuthenticate, SessionEvent.callbacks] at he

end FlipperApps.Tesla
