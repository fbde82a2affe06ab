import FlipperApps.Tesla.KeyCard
import FlipperApps.Tesla.Vehicle

/-!
# Agreement with an honest vehicle

The vehicle opens a session, reads the public key and has its challenge
encrypted. What it decrypts under the key it derives is its own challenge with
the card's salt over the first four bytes.
-/

namespace FlipperApps.Tesla
open Calls

def exchange (crypto : TeslaCrypto) (nfc : TeslaNfc) (request buffer : List UInt8) :
    NfcProgram (TeslaNfc × List UInt8) := do
  let ((apdu, result, response), cryptoTimeMs) ← teslaNfcProcess crypto nfc request buffer
  return ({ nfc with apdu, cryptoTimeMs }, response.take result.responseSize)

def exchanges (crypto : TeslaCrypto) :
    TeslaNfc → List (List UInt8 × List UInt8) → NfcProgram (List (List UInt8))
  | _, [] => return []
  | nfc, (request, buffer) :: rest => do
    let (nfc, answer) ← exchange crypto nfc request buffer
    let answers ← exchanges crypto nfc rest
    return answer :: answers

def RequestsPublicKey (request : List UInt8) : Prop :=
  4 ≤ request.length ∧ request.getD 0 0 &&& 0x80 ≠ 0 ∧ request.getD 1 0 = 0x04 ∧
    (request.length = 5 → request.getD 4 0 = 0)

/-- An AUTHENTICATE that carries a public key and a challenge, with no Le, a zero
one or one that is long enough. -/
def RequestsAuthentication (peer : Bytes 65) (challenge : Bytes 16) (request : List UInt8) :
    Prop :=
  request.getD 0 0 &&& 0x80 ≠ 0 ∧ request.getD 1 0 = 0x11 ∧ WellFormedAuthenticate request ∧
    (request.drop 5).take 65 = peer.toList ∧ (request.drop 70).take 16 = challenge.toList ∧
    (request.length = 5 + lcOf request + 1 →
      request.getD (5 + lcOf request) 0 = 0 ∨ 16 ≤ (request.getD (5 + lcOf request) 0).toNat)

structure TeslaNfc.AnswersFor (nfc : TeslaNfc) (crypto : TeslaCrypto) : Prop where
  publicKey : teslaCryptoGetPublicKey crypto = some nfc.apdu.publicKey
  callback : nfc.apdu.authenticateCallback = some ()

section
variable {request buffer data : List UInt8} {command : TeslaApduCommand} {statusWord : UInt16}
  {crypto : TeslaCrypto} {nfc : TeslaNfc}

theorem leSize_full {le : UInt8} {size : ℕ} (h : le = 0 ∨ size ≤ le.toNat) :
    leSize le size = size := by
  rw [leSize, if_neg]
  intro hshort
  rcases h with hzero | hlong
  · exact hshort.1 hzero
  · exact absurd hshort.2 (Nat.not_lt.mpr hlong)

theorem frame_answer (hlen : data.length ≤ 65) (hbuffer : buffer.length = 67) :
    (frame command statusWord data buffer).2.take
        (frame command statusWord data buffer).1.responseSize =
      data ++ [highByte statusWord, lowByte statusWord] :=
  frame_sends command statusWord (by omega)

theorem process_select {apdu : TeslaApdu Unit ℕ} (hsel : SelectRequest request)
    (hopens : OpensSession request) :
    teslaApduProcess apdu request buffer =
      .done ({ apdu with selected := true }, frame .select swSuccess [] buffer) := by
  have hlen := hsel.1
  rw [process_eq, if_neg (by omega), if_pos hsel, if_pos hopens, decide_eq_true hopens]

theorem process_publicKey {apdu : TeslaApdu Unit ℕ} (hopen : apdu.selected = true)
    (h : RequestsPublicKey request) :
    teslaApduProcess apdu request buffer =
      .done (apdu, frame .getPublicKey swSuccess apdu.publicKey.toList buffer) := by
  obtain ⟨hlen, hcla, hins, hle⟩ := h
  have hsize : case2Size request 65 = 65 := by
    unfold case2Size
    split_ifs with hfive
    · exact leSize_full (Or.inl (hle hfive))
    · rfl
  rw [process_eq, if_neg (by omega), if_neg (not_select_of_cla hcla), if_neg (by simp [hopen]),
    if_neg hcla, dispatch_eq, if_pos hins, hsize, List.take_of_length_le (by simp)]
  rfl

theorem process_authenticate {apdu : TeslaApdu Unit ℕ} {peer : Bytes 65} {challenge : Bytes 16}
    (hopen : apdu.selected = true) (hcallback : apdu.authenticateCallback = some ())
    (h : RequestsAuthentication peer challenge request) :
    teslaApduProcess apdu request buffer =
      .call (.authenticate () apdu.authenticateContext peer challenge) fun r => .done (apdu,
        if r.1 then frame .authenticate swSuccess r.2.toList buffer
        else frame .authenticate swUnknown [] buffer) := by
  obtain ⟨hcla, hins, hok, hpeer, hchallenge, hle⟩ := h
  have hlen : 86 ≤ request.length := by
    obtain ⟨_, hlc, hend⟩ := hok
    omega
  have hsize : case4Size request (5 + lcOf request) 16 = 16 := by
    unfold case4Size
    split_ifs with hlast
    · exact leSize_full (hle hlast)
    · rfl
  have hpeer' : Bytes.within request 5 65 (by omega) = peer := Bytes.ext hpeer
  have hchallenge' : Bytes.within request 70 16 hlen = challenge := Bytes.ext hchallenge
  rw [process_eq, if_neg (by omega), if_neg (not_select_of_cla hcla), if_neg (by simp [hopen]),
    if_neg hcla, dispatch_eq, if_neg (by rw [hins]; decide), if_pos hins, authenticate_eq,
    if_pos hok, runCallback_some hlen hcallback, hpeer', hchallenge', hsize]
  simp only [Program.call_bind, Program.done_bind, Bytes.length_eq, List.take_of_length_le,
    Nat.le_refl]

theorem exchange_done {apdu : TeslaApdu Unit ℕ} (hlen : data.length ≤ 65)
    (hbuffer : buffer.length = 67)
    (h : teslaApduProcess nfc.apdu request buffer =
      .done (apdu, frame command statusWord data buffer)) :
    exchange crypto nfc request buffer =
      .done ({ nfc with apdu }, data ++ [highByte statusWord, lowByte statusWord]) := by
  rw [exchange, teslaNfcProcess, h, ← frame_answer hlen hbuffer]
  rfl

end

section
variable {D : Device} {P : Primitives D} {salt : Bytes 4} {crypto : TeslaCrypto} {nfc : TeslaNfc}
  {d v : ℕ} {u : Unit} {request buffer : List UInt8}

theorem exchange_authenticate (hready : crypto.keyReady = true) (hd : crypto.privateKey = d)
    (hvalid : ValidScalar D.group d) (hv : ValidScalar D.group v) {challenge : Bytes 16}
    (hopen : nfc.apdu.selected = true) (hcallback : nfc.apdu.authenticateCallback = some ())
    (h : RequestsAuthentication (D.mul v D.group.g).uncompressed challenge request)
    (hbuffer : buffer.length = 67) :
    Always (mbedtlsEnv P salt) (exchange crypto nfc request buffer) u fun _ r _ =>
      ∃ response : Bytes 16, r.2 = response.toList ++ [0x90, 0x00] ∧
        vehicleDecrypts P v (D.mul d D.group.g).uncompressed response =
          overlaySalt challenge salt := by
  rw [exchange, teslaNfcProcess, process_authenticate hopen hcallback h]
  apply always_bind.mpr
  apply (nfcAuthenticate_spec hready hd hvalid hv challenge).bind
  intro t r u' hr
  obtain ⟨⟨authenticated, bytes⟩, time⟩ := r
  obtain ⟨response, heq, hdecrypts⟩ := hr
  obtain ⟨rfl, rfl⟩ := Prod.mk.inj heq
  exact ⟨bytes, frame_answer (by simp) hbuffer, hdecrypts⟩

theorem exchanges_uses {requests : List (List UInt8 × List UInt8)} :
    (exchanges crypto nfc requests).Uses ComputeCall := by
  induction requests generalizing nfc with
  | nil => trivial
  | cons command rest ih =>
    have hexchange : (exchange crypto nfc command.1 command.2).Uses ComputeCall :=
      Program.uses_bind nfcProcess_uses fun _ => trivial
    apply Program.uses_bind hexchange
    intro r
    exact Program.uses_bind ih fun _ => trivial

theorem salt_within : 0 + 4 ≤ 16 := by decide

theorem challenge_within : 4 + 12 ≤ 16 := by decide

theorem overlaySalt_slices (challenge : Bytes 16) (salt : Bytes 4) :
    (overlaySalt challenge salt).slice 0 4 salt_within = salt ∧
      (overlaySalt challenge salt).slice 4 12 challenge_within =
        challenge.slice 4 12 challenge_within := by
  constructor
  · ext1
    simp [overlaySalt]
  · ext1
    simp [overlaySalt]

/-- The whole session: each request is answered by 9000, and what the vehicle
decrypts under its own shared key is its challenge under the card's salt. -/
theorem vehicle_agrees {mayFail : HalCall → Prop} {w w' : World} {t : List HalEvent}
    {fresh : TeslaCrypto} {key : Bytes 32} (hload : fresh.Loaded D)
    (hset : Executes (faultyEnv D mayFail) (teslaCryptoSetPrivateKey fresh key) w t
      (true, crypto) w')
    (hnfc : nfc.AnswersFor crypto) (hv : ValidScalar D.group v) (challenge : Bytes 16)
    {select getPublicKey authenticate b₁ b₂ b₃ : List UInt8}
    (hselect : SelectRequest select ∧ OpensSession select)
    (hget : RequestsPublicKey getPublicKey)
    (hauth : RequestsAuthentication (D.mul v D.group.g).uncompressed challenge authenticate)
    (hbuffers : b₁.length = 67 ∧ b₂.length = 67 ∧ b₃.length = 67) :
    let session := exchanges crypto nfc [(select, b₁), (getPublicKey, b₂), (authenticate, b₃)]
    (∃ t answers, Executes (mbedtlsEnv P salt) session () t answers ()) ∧
    Always (mbedtlsEnv P salt) session () fun _ answers _ =>
      ∃ (publicKey : Bytes 65) (response : Bytes 16),
        answers = [[0x90, 0x00], publicKey.toList ++ [0x90, 0x00],
          response.toList ++ [0x90, 0x00]] ∧
        (vehicleDecrypts P v publicKey response).slice 0 4 salt_within = salt ∧
        (vehicleDecrypts P v publicKey response).slice 4 12 challenge_within =
          challenge.slice 4 12 challenge_within := by
  intro session
  obtain ⟨-, ⟨hkey, heq⟩ | ⟨hfalse, -⟩⟩ := always_iff.mp (setPrivateKey_spec hload key) _ _ _ hset
  swap
  · cases hfalse
  obtain rfl := (Prod.mk.inj heq).2
  have hpublic : nfc.apdu.publicKey = (D.mul key.beValue D.group.g).uncompressed :=
    (Option.some.inj hnfc.publicKey).symm
  let opened : TeslaNfc := { nfc with apdu := { nfc.apdu with selected := true } }
  have hthird := @exchange_authenticate D P salt (fresh.withKey D key.beValue) opened key.beValue v
    () authenticate b₃ rfl rfl hkey hv challenge rfl hnfc.callback hauth hbuffers.2.2
  constructor
  · obtain ⟨t, answers, _, hx⟩ := exists_executes_of_uses
      (fun u c hc => mbedtlsEnv_total P salt hc u)
      (exchanges_uses.mono fun _ => ComputeCall.completes : session.Uses Completes) ()
    exact ⟨t, answers, hx⟩
  · simp only [session, exchanges]
    rw [exchange_done (by simp) hbuffers.1 (process_select hselect.1 hselect.2), Program.done_bind]
    dsimp only
    rw [exchange_done (by simp) hbuffers.2.1 (process_publicKey rfl hget), Program.done_bind]
    apply always_bind.mpr
    apply always_bind.mpr
    apply always_bind.mpr
    apply hthird.mono
    intro t r u' h
    obtain ⟨response, hanswer, hdecrypts⟩ := h
    obtain ⟨hsalt, hchallenge⟩ := overlaySalt_slices challenge salt
    refine ⟨_, response, ?_, hdecrypts ▸ hsalt, hdecrypts ▸ hchallenge⟩
    rw [hanswer, hpublic]
    rfl

end

def authenticateRequest (peer : Bytes 65) (challenge : Bytes 16) : List UInt8 :=
  [0x80, 0x11, 0x00, 0x00, 0x51] ++ (peer.toList ++ challenge.toList)

theorem requestsAuthentication_plain (peer : Bytes 65) (challenge : Bytes 16) :
    RequestsAuthentication peer challenge (authenticateRequest peer challenge) := by
  have hlen : (authenticateRequest peer challenge).length = 86 := by simp [authenticateRequest]
  have hlc : lcOf (authenticateRequest peer challenge) = 81 := rfl
  have hdrop : (authenticateRequest peer challenge).drop 5 = peer.toList ++ challenge.toList := rfl
  have hcla : (0x80 : UInt8) &&& 0x80 ≠ 0 := by decide
  refine ⟨hcla, rfl, ⟨by omega, by omega, by omega⟩, ?_, ?_, fun hlast => by omega⟩
  · rw [hdrop, List.take_left' peer.length_eq]
  · rw [show 70 = 5 + 65 from rfl, ← List.drop_drop, hdrop, List.drop_left' peer.length_eq,
      List.take_of_length_le (by simp)]

def secp256r1Double : EcpPoint where
  x := 0x7CF27B188D034F7E8A52380304B51AC3C08969E277F21B35A60B48FC47669978
  y := 0x07775510DB8ED040293D9AC69F7430DBBA7DADE63CE982299E04B79D227873D1
  z := 1

/-- The curve for the scalars 1 and 2, those of the test vector. -/
def vectorDevice : Device :=
  { plainDevice with
    mul := fun d point => if d = 2 then secp256r1Double else point
    mul_ne_zero := by
      intro d _ _
      split_ifs
      · decide
      · decide }

def vectorPlaintext : Bytes 16 :=
  ⟨[0xDE, 0xAD, 0xBE, 0xEF, 0x44, 0x55, 0x66, 0x77, 0x88, 0x99, 0xAA, 0xBB, 0xCC, 0xDD, 0xEE,
    0xFF], rfl⟩

def vectorResponse : Bytes 16 :=
  ⟨[0x43, 0x7C, 0xC3, 0xCD, 0x96, 0xD4, 0x88, 0x27, 0x15, 0x2E, 0x34, 0x00, 0x4F, 0x62, 0x95,
    0xCA], rfl⟩

def vectorPrimitives : Primitives vectorDevice where
  readPoint data := ⟨(data.slice 1 32 x_within).beValue, (data.slice 33 32 y_within).beValue, 1⟩
  sha1 _ := ⟨[0xB5, 0x9D, 0x61, 0xFE, 0xDC, 0x3B, 0x7A, 0x1E, 0xE2, 0x2F, 0xDE, 0x17, 0x80, 0xA5,
    0x95, 0x22, 0x5E, 0x1D, 0x98, 0x43], rfl⟩
  setkeyEnc _ := ⟨[0xFE619DB5, 0x1E7A3BDC, 0x17DE2FE2, 0x2295A580, 0x33F2B7B2, 0x2D888C6E,
    0x3A56A38C, 0x18C3060C, 0xCD5F99DF, 0xE0D715B1, 0xDA81B63D, 0xC242B031, 0x0A7AB53C, 0xEAADA08D,
    0x302C16B0, 0xF26EA681, 0x06F32A10, 0xEC5E8A9D, 0xDC729C2D, 0x2E1C3AAC, 0x97C2B680, 0x7B9C3C1D,
    0xA7EEA030, 0x89F29A9C, 0x49653F18, 0x32F90305, 0x9517A335, 0x1CE539A9, 0x9AF9E64A, 0xA800E54F,
    0x3D17467A, 0x21F27FD3, 0xFC046F18, 0x54048A57, 0x6913CC2D, 0x48E1B3FE, 0x4756976E, 0x13521D39,
    0x7A41D114, 0x32A062EA, 0xC07577F2, 0xD3276ACB, 0xA966BBDF, 0x9BC6D935]⟩
  cryptEcb _ := Equiv.swap vectorPlaintext vectorResponse
  decryptEcb _ := (Equiv.swap vectorPlaintext vectorResponse).symm
  read_uncompressed v _ := by
    have hread (point : EcpPoint) (hx : point.x < 256 ^ 32) (hy : point.y < 256 ^ 32)
        (hz : point.z = 1) : EcpPoint.mk (point.uncompressed.slice 1 32 x_within).beValue
          (point.uncompressed.slice 33 32 y_within).beValue 1 = point := by
      rw [uncompressed_x, uncompressed_y, Bytes.beValue_beBytes hx, Bytes.beValue_beBytes hy, ← hz]
    by_cases hv : v = 2
    · rw [show vectorDevice.mul v vectorDevice.group.g = secp256r1Double from if_pos hv]
      exact hread secp256r1Double (by decide) (by decide) rfl
    · rw [show vectorDevice.mul v vectorDevice.group.g = secp256r1.g from if_neg hv]
      exact hread secp256r1.g (by decide) (by decide) rfl
  mul_comm d v _ _ := by
    dsimp only [vectorDevice]
    split_ifs <;> rfl
  shared_ne_zero d v _ _ := by
    dsimp only [vectorDevice]
    split_ifs <;> decide
  decrypt_crypt _ x := Equiv.symm_apply_apply _ x

def vectorKey : Bytes 32 := Bytes.beBytes 32 1

def vectorFresh : TeslaCrypto :=
  { TeslaCrypto.zeroed 0 with group := secp256r1, groupReady := true }

def vectorCard : TeslaCrypto := vectorFresh.withKey vectorDevice 1

def vectorNfc : TeslaNfc :=
  ⟨1, 0, Bytes.zero 4, true, ⟨false, secp256r1.g.uncompressed, some (), 1⟩, 0⟩

def vectorChallenge : Bytes 16 :=
  ⟨[0x00, 0x11, 0x22, 0x33, 0x44, 0x55, 0x66, 0x77, 0x88, 0x99, 0xAA, 0xBB, 0xCC, 0xDD, 0xEE,
    0xFF], rfl⟩

def selectPhoneKey : List UInt8 := [0x00, 0xA4, 0x04, 0x00, 0x0A] ++ teslaPhoneKeyAid

theorem vehicle_agrees_vector :
    let session := exchanges vectorCard vectorNfc [(selectPhoneKey, List.replicate 67 0),
      ([0x80, 0x04, 0x00, 0x00, 0x00], List.replicate 67 0),
      (authenticateRequest secp256r1Double.uncompressed vectorChallenge, List.replicate 67 0)]
    let E := mbedtlsEnv vectorPrimitives ⟨[0xDE, 0xAD, 0xBE, 0xEF], rfl⟩
    (∃ t answers, Executes E session () t answers ()) ∧
    Always E session () fun _ answers _ => ∃ (publicKey : Bytes 65) (response : Bytes 16),
      answers = [[0x90, 0x00], publicKey.toList ++ [0x90, 0x00],
        response.toList ++ [0x90, 0x00]] ∧
      (vehicleDecrypts vectorPrimitives 2 publicKey response).slice 0 4 salt_within =
        ⟨[0xDE, 0xAD, 0xBE, 0xEF], rfl⟩ ∧
      (vehicleDecrypts vectorPrimitives 2 publicKey response).slice 4 12 challenge_within =
        vectorChallenge.slice 4 12 challenge_within := by
  have hload : vectorFresh.Loaded vectorDevice := ⟨rfl, rfl⟩
  have hvalue : vectorKey.beValue = 1 := Bytes.beValue_beBytes (by decide)
  have hkey : Accepts vectorDevice vectorKey := by
    rw [Accepts, hvalue]
    decide
  obtain ⟨t, hx⟩ := exists_setPrivateKey hload hkey (World.idle Disk.empty [])
  rw [hvalue] at hx
  exact vehicle_agrees hload hx ⟨rfl, rfl⟩ (by decide) vectorChallenge ⟨by decide, by decide⟩
    ⟨by decide, by decide, rfl, fun _ => rfl⟩ (requestsAuthentication_plain _ _) ⟨rfl, rfl, rfl⟩

end FlipperApps.Tesla
