import FlipperApps.Tesla.ApduAnswers

/-!
# The grammar of AUTHENTICATE

A session hands its callback the peer key and the challenge exactly when the
request is an AUTHENTICATE whose data is long enough and complete. The answer is
the block of the callback, cut to the one length byte that may follow the data.
-/

namespace FlipperApps.Tesla
open Calls
variable {κ χ σ : Type} {request response : List UInt8} {selected : Bool}

def AuthenticateHeader (request : List UInt8) : Prop :=
  4 ≤ request.length ∧ request.getD 0 0 &&& 0x80 ≠ 0 ∧ request.getD 1 0 = 0x11

def AcceptedAuthenticate (selected : Bool) (request : List UInt8) : Prop :=
  selected = true ∧ 5 ≤ request.length ∧ request.getD 0 0 &&& 0x80 ≠ 0 ∧
    request.getD 1 0 = 0x11 ∧ 81 ≤ lcOf request ∧ 5 + lcOf request ≤ request.length

theorem asksToAuthenticate_iff :
    AsksToAuthenticate selected request ↔ AcceptedAuthenticate selected request := by
  constructor
  · intro h
    obtain ⟨-, -, hselected, hcla, hins, hlen, hlc, hend⟩ := h
    exact ⟨hselected, hlen, hcla, hins, hlc, hend⟩
  · intro h
    obtain ⟨hselected, hlen, hcla, hins, hlc, hend⟩ := h
    exact ⟨by omega, not_select_of_cla hcla, hselected, hcla, hins, hlen, hlc, hend⟩

theorem answer_authenticate {publicKey : Bytes 65} {authenticated : Option (Bytes 16)}
    (hselected : selected = true) (h : AuthenticateHeader request) :
    answer selected publicKey authenticated request response =
      authenticateAnswer authenticated request response := by
  obtain ⟨hlen, hcla, hins⟩ := h
  have hshort : ¬ request.length < 4 := Nat.not_lt.mpr hlen
  have hkey : ¬ request.getD 1 0 = 0x04 := by
    rw [hins]
    decide
  simp only [answer, hshort, not_select_of_cla hcla, hselected, hcla, hins, Bool.true_eq_false,
    if_false, if_true]
  exact if_neg (by decide)

theorem authenticateAnswer_succeeded (h : WellFormedAuthenticate request) (bytes : Bytes 16) :
    authenticateAnswer (some bytes) request response = frame .authenticate swSuccess
      (bytes.toList.take (case4Size request (5 + lcOf request) 16)) response :=
  if_pos h

theorem authenticateAnswer_failed (h : WellFormedAuthenticate request) :
    authenticateAnswer none request response = frame .authenticate swUnknown [] response :=
  if_pos h

theorem authenticateAnswer_wrongLength {authenticated : Option (Bytes 16)}
    (h : ¬ WellFormedAuthenticate request) :
    authenticateAnswer authenticated request response =
      frame .authenticate swWrongLength [] response :=
  if_neg h

theorem leSize_mono {le le' : UInt8} (hle : le ≠ 0) (h : le' = 0 ∨ le ≤ le') (size : ℕ) :
    leSize le size ≤ leSize le' size := by
  unfold leSize
  split_ifs with hcut hcut'
  · rcases h with rfl | h
    · exact absurd rfl hcut'.1
    · exact h
  · exact hcut.2.le
  · rename_i hcut'
    rcases h with rfl | h
    · exact absurd rfl hcut'.1
    · have hlt : le.toNat < size := lt_of_le_of_lt h hcut'.2
      exact absurd ⟨hle, hlt⟩ hcut
  · exact Nat.le_refl size

section
variable {E : Environment (ApduInterface κ χ) σ} {apdu : TeslaApdu κ χ} {callback : κ}
  {callbacks : List (Event (ApduInterface κ χ))} {sent : List UInt8}

/-- The applet answers the request with these bytes, in a buffer that holds the
block of a callback and the status word. -/
def Responds (E : Environment (ApduInterface κ χ) σ) (apdu : TeslaApdu κ χ)
    (request : List UInt8) (callbacks : List (Event (ApduInterface κ χ)))
    (sent : List UInt8) : Prop :=
  ∃ response s apdu' result written s', 18 ≤ response.length ∧
    Executes E (teslaApduProcess apdu request response) s callbacks
      (apdu', result, written) s' ∧ sent = written.take result.responseSize

structure AuthenticateHandled (apdu : TeslaApdu κ χ) (callback : κ) (request : List UInt8)
    (callbacks : List (Event (ApduInterface κ χ))) (sent : List UInt8) : Prop where
  invoked_iff : callbacks ≠ [] ↔ AcceptedAuthenticate apdu.selected request
  once : callbacks.length ≤ 1
  fields : ∀ e ∈ callbacks, ∃ peer challenge r,
    e = ⟨.authenticate callback apdu.authenticateContext peer challenge, r⟩ ∧
      peer.toList = (request.drop 5).take 65 ∧ challenge.toList = (request.drop 70).take 16
  succeeded : ∀ bytes, reported callbacks = some bytes → sent =
    bytes.toList.take (case4Size request (5 + lcOf request) 16) ++ [0x90, 0x00]
  failed : callbacks ≠ [] → reported callbacks = none → sent = [0x6F, 0x00]
  wrongLength : apdu.selected = true → AuthenticateHeader request →
    ¬ AcceptedAuthenticate apdu.selected request → callbacks = [] ∧ sent = [0x67, 0x00]

theorem Responds.outcome (h : Responds E apdu request callbacks sent) :
    InvokedBy apdu request callbacks ∧ (∀ e ∈ callbacks, HandsFields apdu request e.1) ∧
      ∃ response, 18 ≤ response.length ∧ sent =
        (answer apdu.selected apdu.publicKey (reported callbacks) request response).2.take
          (answer apdu.selected apdu.publicKey (reported callbacks) request
            response).1.responseSize := by
  obtain ⟨response, s, apdu', result, written, s', hcapacity, hx, rfl⟩ := h
  obtain ⟨ha, hinvoked⟩ := always_iff.mp (process_outcome E apdu request response s) _ _ _ hx
  have hcalls := always_iff.mp (always_uses (process_calls apdu request response)) _ _ _ hx
  obtain ⟨-, hanswer⟩ := Prod.mk.inj ha
  exact ⟨hinvoked, hcalls, response, hcapacity, by rw [← hanswer]⟩

theorem InvokedBy.ne_nil_iff (h : InvokedBy apdu request callbacks)
    (hcallback : apdu.authenticateCallback = some callback) :
    callbacks ≠ [] ↔ AcceptedAuthenticate apdu.selected request := by
  rw [← asksToAuthenticate_iff]
  have hsome : apdu.authenticateCallback.isSome = true := by rw [hcallback, Option.isSome_some]
  unfold InvokedBy at h
  split_ifs at h with hasks
  · exact iff_of_true (List.ne_nil_of_length_pos (by omega)) hasks.1
  · exact iff_of_false (not_not.mpr h) fun hok => hasks ⟨hok, hsome⟩

theorem InvokedBy.length_le (h : InvokedBy apdu request callbacks) : callbacks.length ≤ 1 := by
  unfold InvokedBy at h
  split_ifs at h
  · exact h.le
  · simp [h]

theorem AcceptedAuthenticate.header (h : AcceptedAuthenticate selected request) :
    AuthenticateHeader request ∧ WellFormedAuthenticate request := by
  obtain ⟨-, hlen, hcla, hins, hlc, hend⟩ := h
  exact ⟨⟨by omega, hcla, hins⟩, hlen, hlc, hend⟩

theorem reported_ne_nil {bytes : Bytes 16} (h : reported callbacks = some bytes) :
    callbacks ≠ [] := by
  intro hnil
  rw [hnil] at h
  cases h

theorem Responds.handled (h : Responds E apdu request callbacks sent)
    (hcallback : apdu.authenticateCallback = some callback) :
    AuthenticateHandled apdu callback request callbacks sent := by
  obtain ⟨hinvoked, hcalls, response, hcapacity, rfl⟩ := h.outcome
  have hiff := hinvoked.ne_nil_iff hcallback
  exact {
    invoked_iff := hiff
    once := hinvoked.length_le
    fields := by
      intro e he
      have hfields := hcalls e he
      obtain ⟨c, r⟩ := e
      cases c with
      | fault f => exact absurd hfields id
      | authenticate callback' context peer challenge =>
        obtain ⟨hsome, rfl, -, hpeer, hchallenge⟩ := hfields
        obtain rfl := Option.some.inj (hcallback.symm.trans hsome)
        exact ⟨peer, challenge, r, rfl, hpeer, hchallenge⟩
    succeeded := by
      intro bytes hbytes
      have hsize := case4Size_le request (5 + lcOf request) 16
      have haccepted := hiff.mp (reported_ne_nil hbytes)
      rw [answer_authenticate haccepted.1 haccepted.header.1, hbytes,
        authenticateAnswer_succeeded haccepted.header.2]
      apply frame_sends
      rw [List.length_take, bytes.length_eq]
      omega
    failed := by
      intro hne hnone
      have haccepted := hiff.mp hne
      rw [answer_authenticate haccepted.1 haccepted.header.1, hnone,
        authenticateAnswer_failed haccepted.header.2]
      exact frame_sends _ _ (by simp; omega)
    wrongLength := by
      intro hselected hheader hrejected
      have hnil : callbacks = [] := not_not.mp fun hne => hrejected (hiff.mp hne)
      have hwell : ¬ WellFormedAuthenticate request := fun hok =>
        hrejected ⟨hselected, hok.1, hheader.2.1, hheader.2.2, hok.2⟩
      refine ⟨hnil, ?_⟩
      rw [answer_authenticate hselected hheader, authenticateAnswer_wrongLength hwell]
      exact frame_sends _ _ (by simp; omega) }

theorem lcOf_append {head rest : List UInt8} (h : 5 ≤ head.length) :
    lcOf (head ++ rest) = lcOf head := by
  rw [lcOf, lcOf, List.getD_eq_getElem?_getD, List.getD_eq_getElem?_getD,
    List.getElem?_append_left (by omega)]

theorem case4Size_append {head : List UInt8} (h : head.length = 5 + lcOf head) (le : UInt8) :
    case4Size (head ++ [le]) (5 + lcOf (head ++ [le])) 16 = leSize le 16 := by
  rw [lcOf_append (by omega), ← h, case4Size, if_pos (by simp), List.getD_eq_getElem?_getD,
    List.getElem?_concat_length]
  rfl

/-- A request is answered where its callback returns; what an AUTHENTICATE is answered in a
buffer of at least 18 bytes; and that the shorter of two length bytes gives a prefix of
the longer answer. -/
theorem authenticate_grammar (E : Environment (ApduInterface κ χ) σ) (request : List UInt8)
    (hcallback : apdu.authenticateCallback = some callback) :
    ((∀ s c, NoFault c → ∃ r s', E s c r s') → ∀ response s, ∃ callbacks r s',
      Executes E (teslaApduProcess apdu request response) s callbacks r s') ∧
    ∀ callbacks sent, Responds E apdu request callbacks sent →
      AuthenticateHandled apdu callback request callbacks sent ∧
        ∀ head le le' bytes callbacks' sent', request = head ++ [le] →
          head.length = 5 + lcOf head → le ≠ 0 → le' = 0 ∨ le ≤ le' →
          Responds E apdu (head ++ [le']) callbacks' sent' →
          reported callbacks = some bytes → reported callbacks' = some bytes →
          ∃ data data', sent = data ++ [0x90, 0x00] ∧ sent' = data' ++ [0x90, 0x00] ∧
            data <+: data' := by
  refine ⟨fun hreturns response s => process_completes hreturns apdu request response s, ?_⟩
  intro callbacks sent h
  have hhandled := h.handled hcallback
  refine ⟨hhandled, ?_⟩
  intro head le le' bytes callbacks' sent' hrequest hlen hle hsmaller h' hbytes hbytes'
  subst hrequest
  refine ⟨_, _, hhandled.succeeded bytes hbytes, (h'.handled hcallback).succeeded bytes hbytes', ?_⟩
  rw [case4Size_append hlen, case4Size_append hlen]
  exact List.take_prefix_take_left (leSize_mono hle hsmaller 16)

end

def openApplet : TeslaApdu Unit Unit := ⟨true, Bytes.zero 65, some (), ()⟩

def authenticateFour : List UInt8 :=
  [0x80, 0x11, 0x00, 0x00, 0x51] ++ List.replicate 81 0 ++ [0x04]

def authenticatedZero : List (Event (ApduInterface Unit Unit)) :=
  [⟨.authenticate () () (Bytes.zero 65) (Bytes.zero 16), (true, Bytes.zero 16)⟩]

theorem authenticate_grammar_four :
    let sent : List UInt8 := List.replicate 4 0 ++ [0x90, 0x00]
    (∀ response, ∃ callbacks r s', Executes (anyReply (ApduInterface Unit Unit))
      (teslaApduProcess openApplet authenticateFour response) () callbacks r s') ∧
    AuthenticateHandled openApplet () authenticateFour authenticatedZero sent ∧
      ∀ head le le' bytes callbacks' sent', authenticateFour = head ++ [le] →
        head.length = 5 + lcOf head → le ≠ 0 → le' = 0 ∨ le ≤ le' →
        Responds (anyReply _) openApplet (head ++ [le']) callbacks' sent' →
        reported authenticatedZero = some bytes → reported callbacks' = some bytes →
        ∃ data data', sent = data ++ [0x90, 0x00] ∧ sent' = data' ++ [0x90, 0x00] ∧
          data <+: data' := by
  have hx : Executes (anyReply (ApduInterface Unit Unit))
      (teslaApduProcess openApplet authenticateFour (List.replicate 18 0)) () authenticatedZero
      (openApplet, ⟨.authenticate, swSuccess, 6⟩,
        List.replicate 4 0 ++ [0x90, 0x00] ++ List.replicate 12 0) () :=
    .call trivial (.done _ ())
  have hcallback : openApplet.authenticateCallback = some () := rfl
  obtain ⟨hcompletes, hhandled⟩ := authenticate_grammar (anyReply (ApduInterface Unit Unit))
    authenticateFour hcallback
  exact ⟨fun response => hcompletes anyReply_returns response (),
    hhandled _ _ ⟨_, _, _, _, _, _, by decide, hx, rfl⟩⟩

end FlipperApps.Tesla
