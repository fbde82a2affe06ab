import FlipperApps.Tesla.KeyPair
import FlipperApps.Tesla.ListenerAnswers

/-!
# The primitives of an authentication and the vehicle's side of it

The curve, hash and cipher behind the mbedTLS calls, with the laws that key
agreement rests on; and the computation of a vehicle that follows the protocol.
-/

namespace FlipperApps.Tesla
open Calls

/-- Multiplication of a generator multiple commutes, an encoded public key is
read back, and decryption undoes encryption. -/
structure Primitives (D : Device) where
  readPoint : Bytes 65 → EcpPoint
  sha1 : Bytes 32 → Bytes 20
  setkeyEnc : Bytes 16 → AesContext
  cryptEcb : AesContext → Bytes 16 → Bytes 16
  decryptEcb : Bytes 16 → Bytes 16 → Bytes 16
  read_uncompressed : ∀ v, ValidScalar D.group v →
    readPoint (D.mul v D.group.g).uncompressed = D.mul v D.group.g
  mul_comm : ∀ d v, ValidScalar D.group d → ValidScalar D.group v →
    D.mul d (D.mul v D.group.g) = D.mul v (D.mul d D.group.g)
  shared_ne_zero : ∀ d v, ValidScalar D.group d → ValidScalar D.group v →
    (D.mul d (D.mul v D.group.g)).z ≠ 0
  decrypt_crypt : ∀ key x, decryptEcb key (cryptEcb (setkeyEnc key) x) = x

def PublicPoint (D : Device) (point : EcpPoint) : Prop :=
  ∃ v, ValidScalar D.group v ∧ point = D.mul v D.group.g

section
variable {D : Device} (P : Primitives D) (salt : Bytes 4)

/-- Every primitive succeeds and is correct. The ticks are arbitrary; the random
source gives this salt. -/
def mbedtlsEnv : Environment NfcInterface Unit := fun _ c => match c with
  | .fault _ => fun _ _ => False
  | .furiHalRandomFillBuf size => fun r _ => size = 4 → r.toList = salt.toList
  | .ecpPointReadBinary _ data => fun r _ =>
    (∃ point, PublicPoint D point ∧ data = point.uncompressed) → r = (0, P.readPoint data)
  | .ecpCheckPubkey _ point => fun r _ => r = 0 ↔ PublicPoint D point
  | .ecpMul _ key point => fun r _ => r = (0, D.mul key point)
  | .ecpPointWriteBinary _ point => fun r _ =>
    if point.z = 0 then r.1 = 0 ∧ r.2.1 = 1 else r = (0, 65, point.uncompressed)
  | .sha1 input => fun r _ => r = (0, P.sha1 input)
  | .aesSetkeyEnc key => fun r _ => r = (0, P.setkeyEnc key)
  | .aesCryptEcb aes input => fun r _ => r = (0, P.cryptEcb aes input)
  | _ => fun _ _ => True

theorem mbedtlsEnv_total {c : NfcCall} (hc : Completes c) (u : Unit) :
    ∃ r u', mbedtlsEnv P salt u c r u' := by
  cases c with
  | fault => exact absurd hc id
  | furiHalRandomFillBuf size =>
    by_cases hsize : size = 4
    · subst hsize
      exact ⟨salt, (), fun _ => rfl⟩
    · exact ⟨Bytes.zero size, (), fun h => absurd h hsize⟩
  | ecpPointReadBinary _ data => exact ⟨_, (), fun _ => rfl⟩
  | ecpCheckPubkey _ point =>
    by_cases hpoint : PublicPoint D point
    · exact ⟨(0 : ℤ), (), by simp [mbedtlsEnv, hpoint]⟩
    · exact ⟨(1 : ℤ), (), by simp [mbedtlsEnv, hpoint]⟩
  | ecpPointWriteBinary _ point =>
    by_cases hpoint : point.z = 0
    · exact ⟨(0, 1, Bytes.zero 65), (), by simp [mbedtlsEnv, hpoint]⟩
    · exact ⟨(0, 65, point.uncompressed), (), by simp [mbedtlsEnv, hpoint]⟩
  | ecpMul => exact ⟨_, (), rfl⟩
  | sha1 => exact ⟨_, (), rfl⟩
  | aesSetkeyEnc => exact ⟨_, (), rfl⟩
  | aesCryptEcb => exact ⟨_, (), rfl⟩
  | furiGetTick => exact ⟨(0 : UInt32), (), trivial⟩
  | furiKernelGetTickFrequency => exact ⟨(0 : UInt32), (), trivial⟩
  | furiLog => exact ⟨(), (), trivial⟩
  | sendBlock => exact ⟨Iso14443Error.none, (), trivial⟩
  | notify => exact ⟨(), (), trivial⟩

def sessionKey (shared : EcpPoint) : Bytes 16 :=
  (P.sha1 (Bytes.beBytes 32 shared.x)).slice 0 16 key_within

/-- The vehicle with the scalar `v` decrypts a response under the key it shares
with the card of this public key. -/
def vehicleDecrypts (v : ℕ) (publicKey : Bytes 65) (response : Bytes 16) : Bytes 16 :=
  P.decryptEcb (sessionKey P (D.mul v (P.readPoint publicKey))) response

theorem uncompressed_x (point : EcpPoint) :
    point.uncompressed.slice 1 32 x_within = Bytes.beBytes 32 point.x := by
  ext1
  simp [EcpPoint.uncompressed]

theorem uncompressed_y (point : EcpPoint) :
    point.uncompressed.slice 33 32 y_within = Bytes.beBytes 32 point.y := by
  ext1
  simp [EcpPoint.uncompressed]

theorem uncompressed_first (point : EcpPoint) : point.uncompressed.get 0 first_within = 0x04 := rfl

variable {P salt} {crypto : TeslaCrypto} {d v : ℕ} {u : Unit}

theorem sharedX_spec (hready : crypto.keyReady = true) (hd : crypto.privateKey = d)
    (hvalid : ValidScalar D.group d) (hv : ValidScalar D.group v) :
    Always (mbedtlsEnv P salt)
      (teslaCryptoSharedX crypto (D.mul v D.group.g).uncompressed) u fun _ r _ =>
        r = .ok (Bytes.beBytes 32 (D.mul d (D.mul v D.group.g)).x) := by
  have hpublic : PublicPoint D (D.mul v D.group.g) := ⟨v, hv, rfl⟩
  obtain rfl := hd
  unfold teslaCryptoSharedX
  rw [if_neg (by rw [hready, uncompressed_first]; decide)]
  simp only [nfcCall_eq, Program.call_bind, Program.done_bind, Program.pure_eq]
  intro r u₁ hr
  obtain rfl := hr ⟨_, hpublic, rfl⟩
  rw [P.read_uncompressed v hv]
  dsimp only
  rw [if_neg (by simp)]
  intro error u₂ hcheck
  obtain rfl := hcheck.mpr hpublic
  dsimp only
  rw [if_neg (by simp)]
  intro r u₃ hr
  obtain rfl : r = (0, D.mul crypto.privateKey (D.mul v D.group.g)) := hr
  dsimp only
  rw [if_neg (by simp)]
  intro r u₄ hr
  obtain rfl : r = (0, 65, (D.mul crypto.privateKey (D.mul v D.group.g)).uncompressed) := by
    simpa [mbedtlsEnv, P.shared_ne_zero _ v hvalid hv] using hr
  dsimp only
  rw [if_neg (by simp), uncompressed_x]
  rfl

theorem encryptBlock_spec (sharedX : Bytes 32) (plaintext : Bytes 16) :
    Always (mbedtlsEnv P salt) (teslaCryptoEncryptBlock sharedX plaintext) u fun _ r _ =>
      r = .ok (P.cryptEcb (P.setkeyEnc ((P.sha1 sharedX).slice 0 16 key_within)) plaintext) := by
  simp only [teslaCryptoEncryptBlock, nfcCall_eq, Program.call_bind, Program.done_bind,
    Program.pure_eq]
  intro r u₁ hr
  obtain rfl : r = (0, P.sha1 sharedX) := hr
  dsimp only
  rw [if_neg (by simp)]
  intro r u₂ hr
  obtain rfl : r = (0, P.setkeyEnc ((P.sha1 sharedX).slice 0 16 key_within)) := hr
  dsimp only
  rw [if_neg (by simp)]
  intro r u₃ hr
  obtain rfl : r = (0, P.cryptEcb (P.setkeyEnc ((P.sha1 sharedX).slice 0 16 key_within))
    plaintext) := hr
  dsimp only
  rw [if_neg (by simp)]
  rfl

theorem nfcAuthenticate_spec (hready : crypto.keyReady = true) (hd : crypto.privateKey = d)
    (hvalid : ValidScalar D.group d) (hv : ValidScalar D.group v) (challenge : Bytes 16) :
    Always (mbedtlsEnv P salt)
      (teslaNfcAuthenticate crypto (D.mul v D.group.g).uncompressed challenge) u fun _ r _ =>
        ∃ response, r.1 = (true, response) ∧
          vehicleDecrypts P v (D.mul d D.group.g).uncompressed response =
            overlaySalt challenge salt := by
  simp only [teslaNfcAuthenticate, teslaCryptoAuthenticate, teslaCryptoAuthenticateWithSalt,
    nfcCall_eq, Program.call_bind, Program.done_bind]
  intro start u₁ _ drawn u₂ hdrawn
  obtain rfl : drawn = salt := Bytes.ext (hdrawn rfl)
  apply Always.bind (Q := fun _ r _ => r = (true, P.cryptEcb (P.setkeyEnc
    (sessionKey P (D.mul d (D.mul v D.group.g)))) (overlaySalt challenge drawn)))
  · apply (sharedX_spec hready hd hvalid hv).bind
    intro t r u₃ hr
    obtain rfl := hr
    dsimp only
    apply Always.bind (encryptBlock_spec _ _)
    intro t' r u₄ hr
    obtain rfl := hr
    rfl
  · intro t r u₃ hr
    obtain rfl := hr
    intro stop u₄ _ tickFrequency u₅ _
    refine ⟨_, rfl, ?_⟩
    rw [vehicleDecrypts, P.read_uncompressed d hvalid, ← P.mul_comm d v hvalid hv,
      P.decrypt_crypt]

end

end FlipperApps.Tesla
