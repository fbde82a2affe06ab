import FlipperApps.Tesla.ApduAnswers
import FlipperApps.Tesla.Listener

/-!
# One answer and one notification for each listener event

The response buffer holds every answer of the APDU layer, so each request is
answered by its status word; and the APDU layer never reports success for a
command without a notification of its own, so the chain of conditions after the
answer always ends in exactly one notification.
-/

namespace FlipperApps.Tesla
open Calls

def ComputeCall : NfcCall → Prop
  | .fault _ => False
  | .sendBlock _ => False
  | .notify .. => False
  | _ => True

def Completes : NfcCall → Prop
  | .fault _ => False
  | _ => True

theorem ComputeCall.completes {c : NfcCall} (h : ComputeCall c) : Completes c := by
  cases c with
  | fault => exact h
  | _ => trivial

def insEvent (ins : UInt8) : Option TeslaNfcEvent :=
  if ins = 0x04 then some .getPublicKey
  else if ins = 0x11 then some .authenticate
  else if ins = 0x14 then some .getCardInfo
  else none

def requestEvent (request : List UInt8) : Option TeslaNfcEvent :=
  if SelectRequest request then some .select else insEvent (request.getD 1 0)

def WrongLength (request : List UInt8) : Prop :=
  request.length < 4 ∨ request.getD 1 0 = 0x11 ∧ ¬ WellFormedAuthenticate request

section
variable {selected : Bool} {request data : List UInt8} {command : TeslaApduCommand}
  {statusWord : UInt16}

theorem Answers.length_le (h : Answers selected request command statusWord data) :
    data.length ≤ 65 := by
  cases h with
  | publicKey _ _ _ hlen => exact hlen
  | authenticated _ _ _ hlen => omega
  | cardInfo _ _ _ hlen => omega
  | _ => simp

theorem Answers.closed (h : Answers false request command statusWord data) : data = [] := by
  cases h with
  | publicKey hselected => cases hselected
  | authenticated hselected => cases hselected
  | cardInfo hselected => cases hselected
  | _ => rfl

theorem Answers.wrongLength (h : Answers selected request command statusWord data)
    (hsw : statusWord = swWrongLength) : WrongLength request := by
  cases h with
  | tooShort h => exact Or.inl h
  | authenticateLength _ hins hlen => exact Or.inr ⟨hins, hlen⟩
  | refused _ _ hlength => exact absurd hsw hlength
  | _ => exact absurd hsw (by decide)

theorem Answers.of_select (h : Answers selected request command statusWord data)
    (hsel : SelectRequest request) (hopens : OpensSession request) :
    statusWord = swSuccess ∧ data = [] := by
  cases h with
  | tooShort hlen => exact absurd hsel.1 (by omega)
  | select => exact ⟨rfl, rfl⟩
  | notFound _ hnot => exact absurd hopens hnot
  | refused hnot => exact absurd hsel hnot
  | publicKey _ hnot => exact absurd hsel hnot
  | authenticated _ hnot => exact absurd hsel hnot
  | authenticateFailed hnot => exact absurd hsel hnot
  | authenticateLength hnot => exact absurd hsel hnot
  | cardInfo _ hnot => exact absurd hsel hnot

theorem requestEvent_ins {ins : UInt8} {event : TeslaNfcEvent} (hsel : ¬ SelectRequest request)
    (hins : request.getD 1 0 = ins) (h : insEvent ins = some event) :
    requestEvent request = some event := by
  rw [requestEvent, if_neg hsel, hins, h]

theorem Answers.event (h : Answers selected request command statusWord data)
    (sendError : Iso14443Error) (size : ℕ) :
    ∃ event, teslaNfcAnswerEvent sendError ⟨command, statusWord, size⟩ = some event ∧
      (sendError ≠ .none → event = .transmitError) ∧
      (sendError = .none → (event = .protocolError ↔ statusWord ≠ swSuccess)) ∧
      (sendError = .none → statusWord = swSuccess → requestEvent request = some event) := by
  by_cases herror : sendError = .none
  · subst herror
    cases h with
    | select h => exact ⟨.select, rfl, by simp, by simp, fun _ _ => if_pos h⟩
    | publicKey _ hsel hins =>
      exact ⟨.getPublicKey, rfl, by simp, by simp, fun _ _ => requestEvent_ins hsel hins rfl⟩
    | authenticated _ hsel hins =>
      exact ⟨.authenticate, rfl, by simp, by simp, fun _ _ => requestEvent_ins hsel hins rfl⟩
    | cardInfo _ hsel hins =>
      exact ⟨.getCardInfo, rfl, by simp, by simp, fun _ _ => requestEvent_ins hsel hins rfl⟩
    | refused _ hsuccess =>
      have hsuccess' : statusWord ≠ 0x9000 := hsuccess
      refine ⟨.protocolError, by simp [teslaNfcAnswerEvent, hsuccess'], by simp, by simp [hsuccess],
        fun _ h => absurd h hsuccess⟩
    | _ => exact ⟨.protocolError, rfl, by simp, by simp; decide, fun _ h => absurd h (by decide)⟩
  · exact ⟨.transmitError, if_pos herror, fun _ => rfl, fun h => absurd h herror,
      fun h => absurd h herror⟩

theorem frame_fits (hlen : data.length ≤ 65) :
    frame command statusWord data (List.replicate 67 0) =
      (⟨command, statusWord, data.length + 2⟩, data ++ highByte statusWord ::
        lowByte statusWord :: List.replicate (65 - data.length) 0) := by
  have hdrop : 67 - (data.length + 2) = 65 - data.length := by omega
  rw [frame_whole _ _ (by simp; omega), List.drop_replicate, hdrop, List.append_assoc]
  rfl

theorem appendBytes_answer {rest : List UInt8} (hlen : data.length ≤ 65) (hi lo : UInt8) :
    bitBufferAppendBytes 96 [] (data ++ hi :: lo :: rest) (data.length + 2) =
      .done (data ++ [hi, lo]) := by
  have htake : (data ++ hi :: lo :: rest).take (data.length + 2) = data ++ [hi, lo] := by
    rw [List.take_append]
    simp
  rw [bitBufferAppendBytes, if_neg (by simp), if_neg (by simp; omega), htake]
  rfl

end

section
variable {crypto : TeslaCrypto} {nfc nfc' : TeslaNfc}

theorem sharedX_uses {peer : Bytes 65} : (teslaCryptoSharedX crypto peer).Uses ComputeCall := by
  unfold teslaCryptoSharedX
  simp only [nfcCall_eq, Program.call_bind, Program.done_bind, Program.pure_eq]
  split_ifs
  · trivial
  · refine ⟨trivial, fun point => ?_⟩
    dsimp only
    split_ifs
    · trivial
    · refine ⟨trivial, fun checked => ?_⟩
      dsimp only
      split_ifs
      · trivial
      · refine ⟨trivial, fun shared => ?_⟩
        dsimp only
        split_ifs
        · trivial
        · refine ⟨trivial, fun encoded => ?_⟩
          dsimp only
          split_ifs
          · trivial
          · trivial

theorem encryptBlock_uses {sharedX : Bytes 32} {plaintext : Bytes 16} :
    (teslaCryptoEncryptBlock sharedX plaintext).Uses ComputeCall := by
  simp only [teslaCryptoEncryptBlock, nfcCall_eq, Program.call_bind, Program.done_bind,
    Program.pure_eq]
  refine ⟨trivial, fun digest => ?_⟩
  dsimp only
  split_ifs
  · trivial
  · refine ⟨trivial, fun aes => ?_⟩
    dsimp only
    split_ifs
    · trivial
    · refine ⟨trivial, fun response => ?_⟩
      dsimp only
      split_ifs
      · trivial
      · trivial

theorem authenticateWithSalt_uses {peer : Bytes 65} {challenge : Bytes 16} {salt : Bytes 4} :
    (teslaCryptoAuthenticateWithSalt crypto peer challenge salt).Uses ComputeCall := by
  have failed (error : ℤ) : (teslaCryptoAuthenticationFailed error).Uses ComputeCall :=
    ⟨trivial, fun _ => trivial⟩
  apply Program.uses_bind sharedX_uses
  intro shared
  cases shared with
  | error error => exact failed error
  | ok sharedX =>
    apply Program.uses_bind encryptBlock_uses
    intro response
    cases response with
    | error error => exact failed error
    | ok response => trivial

theorem nfcAuthenticate_uses {peer : Bytes 65} {challenge : Bytes 16} :
    (teslaNfcAuthenticate crypto peer challenge).Uses ComputeCall := by
  have perform (c : NfcCall) (hc : ComputeCall c) : (nfcCall c).Uses ComputeCall :=
    ⟨hc, fun _ => trivial⟩
  apply Program.uses_bind (perform .furiGetTick trivial)
  intro start
  apply Program.uses_bind
  · apply Program.uses_bind (perform (.furiHalRandomFillBuf 4) trivial)
    intro salt
    exact authenticateWithSalt_uses
  · intro r
    apply Program.uses_bind (perform .furiGetTick trivial)
    intro stop
    apply Program.uses_bind (perform .furiKernelGetTickFrequency trivial)
    intro tickFrequency
    trivial

theorem nfcProcess_uses {request response : List UInt8} :
    (teslaNfcProcess crypto nfc request response).Uses ComputeCall := by
  apply Program.uses_interpret (process_noFault ..)
  intro c time hc
  cases c with
  | authenticate => exact nfcAuthenticate_uses
  | fault f => exact absurd hc id

theorem nfcProcess_spec {σ : Type} (E : Environment NfcInterface σ) (crypto : TeslaCrypto)
    (nfc : TeslaNfc) (request : List UInt8) (u : σ) :
    Always E (teslaNfcProcess crypto nfc request (List.replicate 67 0)) u fun t a _ =>
      (∀ e ∈ t, ComputeCall e.1) ∧ (nfc.apdu.selected = false → t = []) ∧
        ∃ command statusWord data, Answers nfc.apdu.selected request command statusWord data ∧
          a.1 = (afterRequest nfc.apdu request, ⟨command, statusWord, data.length + 2⟩,
            data ++ highByte statusWord :: lowByte statusWord ::
              List.replicate (65 - data.length) 0) := by
  apply ((always_uses nfcProcess_uses).and
    (always_interpret (process_outcome (anyReply _) ..))).mono
  intro t a u' h
  obtain ⟨huses, calls, rfl, ha, hinvoked⟩ := h
  refine ⟨huses, fun hclosed => ?_, ?_⟩
  · rw [InvokedBy, if_neg (by simp [AsksToAuthenticate, hclosed]), List.map_eq_nil_iff] at hinvoked
    rw [hinvoked]
    rfl
  · obtain ⟨command, statusWord, data, hanswer, _, heq⟩ := answer_cases nfc.apdu.selected
      nfc.apdu.publicKey (reported (calls.map Prod.fst)) request
    rw [heq, frame_fits hanswer.length_le] at ha
    exact ⟨command, statusWord, data, hanswer, ha⟩

structure Received (selected : Bool) (request : List UInt8) (t : List NfcCallEvent) where
  computing : List NfcCallEvent
  command : TeslaApduCommand
  statusWord : UInt16
  data : List UInt8
  sendError : Iso14443Error
  event : TeslaNfcEvent
  time : UInt16
  answers : Answers selected request command statusWord data
  computes : ∀ e ∈ computing, ComputeCall e.1
  closed : selected = false → computing = []
  notified : teslaNfcAnswerEvent sendError ⟨command, statusWord, data.length + 2⟩ = some event
  trace_eq : t = computing ++ [⟨.sendBlock (data ++ [highByte statusWord, lowByte statusWord]),
    sendError⟩, ⟨.notify event time, ()⟩]

theorem receivedData_spec {σ : Type} (E : Environment NfcInterface σ) (crypto : TeslaCrypto)
    (nfc : TeslaNfc) (request : List UInt8) (u : σ) :
    Always E (teslaNfcReceivedData crypto true nfc request) u fun t nfc' _ =>
      Nonempty (Received nfc.apdu.selected request t) ∧ ∃ time,
        nfc' = { nfc with apdu := afterRequest nfc.apdu request, cryptoTimeMs := time } := by
  apply (nfcProcess_spec E crypto nfc request u).bind
  intro computing a v h
  obtain ⟨a, time⟩ := a
  obtain ⟨hcomputes, hclosed, command, statusWord, data, hanswer, rfl⟩ := h
  dsimp only
  rw [appendBytes_answer hanswer.length_le, Program.done_bind, nfcCall_eq, Program.call_bind]
  intro sendError v' _
  obtain ⟨event, hevent, -⟩ := hanswer.event sendError (data.length + 2)
  simp only [Program.done_bind, hevent, teslaNfcNotify, nfcCall_eq, if_true, Program.call_bind,
    Program.pure_eq]
  intro _ v'' _
  exact ⟨⟨computing, command, statusWord, data, sendError, event, _, hanswer, hcomputes, hclosed,
    hevent, rfl⟩, time, rfl⟩

theorem endSession_spec {σ : Type} (E : Environment NfcInterface σ) (nfc : TeslaNfc)
    (event : TeslaNfcEvent) (u : σ) :
    Always E (teslaNfcEndSession true nfc event) u fun t nfc' _ =>
      nfc' = { nfc with apdu := teslaApduResetSession nfc.apdu } ∧
        t = [⟨.notify event nfc.cryptoTimeMs.toUInt16, ()⟩] := by
  intro _ u' _
  exact ⟨rfl, rfl⟩

end

end FlipperApps.Tesla
