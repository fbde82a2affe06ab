import FlipperApps.Tesla.ApduAnswers

/-!
# The buffers of the command processor

What a response buffer of any capacity holds after a request, and which part of
the request the authenticate callback is handed. A buffer that is too small for
the answer gets a bare 6700, and one too small for that gets nothing.
-/

namespace FlipperApps.Tesla
open Calls
variable {κ χ σ : Type} {request response : List UInt8} {publicKey : Bytes 65}
  {authenticated : Option (Bytes 16)}

structure Framed (publicKey : Bytes 65) (authenticated : Option (Bytes 16))
    (request response : List UInt8) (result : TeslaApduResult) (written : List UInt8) :
    Prop where
  empty_iff : result.responseSize = 0 ↔ response.length < 2
  bounds : 2 ≤ response.length →
    2 ≤ result.responseSize ∧ result.responseSize ≤ response.length
  status : result.responseSize ≠ 0 → ∃ data, written.take result.responseSize =
      data ++ [highByte result.statusWord, lowByte result.statusWord] ∧
    (data ≠ [] → result.statusWord = swSuccess ∧
      ∃ source, dataSource publicKey authenticated result.command = some source ∧ data <+: source)
  fits : (requestedData publicKey authenticated request result.command).length + 2 ≤
      response.length →
    written.take result.responseSize =
      requestedData publicKey authenticated request result.command ++
        [highByte result.statusWord, lowByte result.statusWord]
  short : 2 ≤ response.length → response.length <
      (requestedData publicKey authenticated request result.command).length + 2 →
    result.statusWord = swWrongLength ∧ written.take result.responseSize = [0x67, 0x00]
  length_eq : written.length = response.length
  untouched : written.drop result.responseSize = response.drop result.responseSize

theorem dataSource_of_ne_nil {command : TeslaApduCommand}
    (h : requestedData publicKey authenticated request command ≠ []) :
    ∃ source, dataSource publicKey authenticated command = some source ∧
      requestedData publicKey authenticated request command <+: source := by
  unfold requestedData at h ⊢
  cases hsource : dataSource publicKey authenticated command with
  | none => simp [hsource] at h
  | some source => exact ⟨source, rfl, List.take_prefix _ _⟩

theorem frame_framed (command : TeslaApduCommand) {statusWord : UInt16}
    (hsuccess : requestedData publicKey authenticated request command ≠ [] →
      statusWord = swSuccess) :
    Framed publicKey authenticated request response
      (frame command statusWord (requestedData publicKey authenticated request command) response).1
      (frame command statusWord
        (requestedData publicKey authenticated request command) response).2 := by
  have hsource := @dataSource_of_ne_nil request publicKey authenticated command
  by_cases htwo : response.length < 2
  · rw [frame, if_pos htwo]
    exact {
      empty_iff := by simp [htwo]
      bounds := fun h => absurd h (by omega)
      status := fun h => absurd rfl h
      fits := fun h => absurd h (by dsimp only; omega)
      short := fun h => absurd h (by omega)
      length_eq := rfl
      untouched := rfl }
  by_cases hshort : response.length <
      (requestedData publicKey authenticated request command).length + 2
  · rw [frame, if_neg htwo, if_pos hshort]
    exact {
      empty_iff := by simp; omega
      bounds := fun h => ⟨Nat.le_refl 2, h⟩
      status := fun _ => ⟨[], rfl, fun h => absurd rfl h⟩
      fits := fun h => absurd h (by dsimp only; omega)
      short := fun _ _ => ⟨rfl, rfl⟩
      length_eq := by simp; omega
      untouched := rfl }
  · have hfits := Nat.le_of_not_lt hshort
    rw [frame_whole command statusWord hfits]
    have hlen : (requestedData publicKey authenticated request command ++
        [highByte statusWord, lowByte statusWord]).length =
          (requestedData publicKey authenticated request command).length + 2 :=
      List.length_append
    exact {
      empty_iff := by simp; omega
      bounds := fun _ => ⟨Nat.le_add_left _ _, hfits⟩
      status := fun _ => ⟨_, List.take_left' hlen, fun h => ⟨hsuccess h, hsource h⟩⟩
      fits := fun _ => List.take_left' hlen
      short := fun _ h => absurd h hshort
      length_eq := by simp; omega
      untouched := List.drop_left' hlen }

section
variable {E : Environment (ApduInterface κ χ) σ} {apdu apdu' : TeslaApdu κ χ} {s s' : σ}
  {callbacks : List (Event (ApduInterface κ χ))} {result : TeslaApduResult}
  {written : List UInt8}

theorem InvokedBy.reported_none (h : InvokedBy apdu request callbacks)
    (hasks : ¬ AsksToAuthenticate apdu.selected request) : reported callbacks = none := by
  rw [InvokedBy, if_neg fun hboth => hasks hboth.1] at h
  rw [h]
  rfl

theorem process_framed (E : Environment (ApduInterface κ χ) σ) (apdu : TeslaApdu κ χ)
    (request response : List UInt8) (s : σ) :
    Always E (teslaApduProcess apdu request response) s fun t a _ =>
      Framed apdu.publicKey (reported t) request response a.2.1 a.2.2 := by
  apply (process_outcome E apdu request response s).mono
  intro t a s' h
  obtain ⟨rfl, hinvoked⟩ := h
  obtain ⟨command, statusWord, data, hanswer, hrequested, hframe⟩ :=
    answer_cases apdu.selected apdu.publicKey (reported t) request
  obtain rfl := hrequested hinvoked.reported_none
  rw [hframe response]
  exact frame_framed command hanswer.success

/-- Every request is answered where its callback returns, and every response is framed as
its status word says, in a buffer of any capacity. -/
theorem response_framing (E : Environment (ApduInterface κ χ) σ) (apdu : TeslaApdu κ χ)
    (request response : List UInt8) (s : σ) :
    ((∀ s c, NoFault c → ∃ r s', E s c r s') → ∃ callbacks r s',
      Executes E (teslaApduProcess apdu request response) s callbacks r s') ∧
    ∀ callbacks apdu' result written s',
      Executes E (teslaApduProcess apdu request response) s callbacks
        (apdu', result, written) s' →
      Framed apdu.publicKey (reported callbacks) request response result written :=
  ⟨fun hreturns => process_completes hreturns apdu request response s,
    fun _ _ _ _ _ hx => always_iff.mp (process_framed E apdu request response s) _ _ _ hx⟩

theorem response_framing_shortBuffer :
    (∃ callbacks r s', Executes (anyReply (ApduInterface Unit Unit))
      (teslaApduProcess ⟨true, Bytes.zero 65, none, ()⟩ [0x80, 0x04, 0x00, 0x00]
        (List.replicate 10 0)) () callbacks r s') ∧
    Framed (Bytes.zero 65) none [0x80, 0x04, 0x00, 0x00] (List.replicate 10 0)
      ⟨.getPublicKey, swWrongLength, 2⟩ (0x67 :: 0x00 :: List.replicate 8 0) := by
  let apdu : TeslaApdu Unit Unit := ⟨true, Bytes.zero 65, none, ()⟩
  have hx : Executes (anyReply (ApduInterface Unit Unit))
      (teslaApduProcess apdu [0x80, 0x04, 0x00, 0x00] (List.replicate 10 0)) () []
      (apdu, ⟨.getPublicKey, swWrongLength, 2⟩, 0x67 :: 0x00 :: List.replicate 8 0) () :=
    .done _ ()
  obtain ⟨hcompletes, hframed⟩ := response_framing (anyReply _) apdu [0x80, 0x04, 0x00, 0x00]
    (List.replicate 10 0) ()
  exact ⟨hcompletes anyReply_returns, hframed _ _ _ _ _ hx⟩

/-- The ranges handed to the callback lie inside the request. A fault is an access
outside its buffer, or a size that wraps. -/
def InRange (request : List UInt8) : ApduCall κ χ → Prop
  | .authenticate _ _ peer challenge =>
    5 + 65 ≤ request.length ∧ peer.toList = (request.drop 5).take 65 ∧
      70 + 16 ≤ request.length ∧ challenge.toList = (request.drop 70).take 16
  | .fault _ => False

theorem HandsFields.inRange {c : ApduCall κ χ} (h : HandsFields apdu request c) :
    InRange request c := by
  cases c with
  | authenticate =>
    obtain ⟨-, -, hlen, hpeer, hchallenge⟩ := h
    exact ⟨by omega, hpeer, hlen, hchallenge⟩
  | fault f => exact h

/-- Whatever the request and the capacity, and whatever the callback replies, the
command processor makes no access outside its buffers and computes no size that
wraps; the response buffer keeps its size. -/
theorem accesses_in_range (apdu : TeslaApdu κ χ) (request response : List UInt8) :
    (teslaApduProcess apdu request response).Uses (InRange request) ∧
      (teslaApduProcess apdu request response).Returns
        fun a => a.2.2.length = response.length := by
  constructor
  · exact (process_calls apdu request response).mono fun _ h => h.inRange
  · apply returns_of_always
    exact (process_framed _ apdu request response ()).mono fun _ _ _ h => h.length_eq

end

end FlipperApps.Tesla
