import FlipperApps.Tesla.Crypto
import FlipperApps.Tesla.IdentityLoad

/-!
# The key pair of a crypto context

A key is installed exactly when mbedTLS accepts it, unless a call fails; a
generated key is always accepted. No crypto call touches the storage.
-/

namespace FlipperApps.Tesla
open Calls

structure TeslaCrypto.Loaded (D : Device) (crypto : TeslaCrypto) : Prop where
  group : crypto.group = D.group
  ready : crypto.groupReady = true

def TeslaCrypto.withKey (D : Device) (crypto : TeslaCrypto) (d : ℕ) : TeslaCrypto :=
  { crypto with
    privateKey := d
    publicKeyPoint := D.mul d D.group.g
    publicKey := (D.mul d D.group.g).uncompressed
    keyReady := true }

def Accepts (D : Device) (key : Bytes 32) : Prop := ValidScalar D.group key.beValue

instance (D : Device) (key : Bytes 32) : Decidable (Accepts D key) :=
  inferInstanceAs (Decidable (ValidScalar _ _))

theorem ValidScalar.lt_pow {D : Device} {d : ℕ} (h : ValidScalar D.group d) : d < 256 ^ 32 :=
  h.2.trans_le D.order_le

theorem accepts_beBytes {D : Device} {d : ℕ} (h : ValidScalar D.group d) :
    Accepts D (Bytes.beBytes 32 d) := by
  rwa [Accepts, Bytes.beValue_beBytes h.lt_pow]

section
variable {D : Device} {mayFail : HalCall → Prop} {w : World} {crypto : TeslaCrypto}

theorem ecpInvalidKey_ne : ecpInvalidKey ≠ 0 := by decide

theorem loadScalar_spec (hgroup : crypto.group = D.group) (key : Bytes 32) :
    Always (faultyEnv D mayFail) (teslaCryptoLoadScalar crypto key) w fun _ r w' => w' = w ∧
      (Accepts D key ∧ r = (0, { crypto with
          privateKey := key.beValue, publicKeyPoint := D.mul key.beValue D.group.g }) ∨
        r.1 ≠ 0 ∧ (Faulty mayFail ∨ ¬ Accepts D key) ∧
          ∃ d Q, r.2 = { crypto with privateKey := d, publicKeyPoint := Q }) := by
  obtain ⟨address, group, privateKey, point, publicKey, groupReady, keyReady⟩ := crypto
  obtain rfl : group = D.group := hgroup
  simp only [teslaCryptoLoadScalar, hal_eq, Program.call_bind, Program.done_bind,
    Program.pure_eq]
  intro r w₁ h
  obtain ⟨error, d⟩ := r
  rcases h with ⟨rfl, ⟨⟩⟩ | ⟨hm, hr, rfl⟩
  · simp only [ne_eq, not_true, if_false]
    intro error w₂ h
    rcases h with ⟨rfl, rfl⟩ | ⟨hm, hr, rfl⟩
    · by_cases hkey : Accepts D key
      · have hvalid : ValidScalar D.group key.beValue := hkey
        simp only [hvalid, if_true, not_true, if_false]
        intro r w₃ h
        obtain ⟨error, Q⟩ := r
        rcases h with ⟨rfl, ⟨⟩⟩ | ⟨hm, hr, rfl⟩
        · exact ⟨rfl, .inl ⟨hkey, rfl⟩⟩
        · exact ⟨rfl, .inr ⟨hr, .inl ⟨_, hm⟩, _, _, rfl⟩⟩
      · have hvalid : ¬ ValidScalar D.group key.beValue := hkey
        simp only [hvalid, if_false, ecpInvalidKey_ne, not_false_iff, if_true]
        exact ⟨rfl, .inr ⟨ecpInvalidKey_ne, .inr hkey, _, _, rfl⟩⟩
    · have hr : error ≠ 0 := hr
      simp only [hr, not_false_iff, if_true]
      exact ⟨rfl, .inr ⟨hr, .inl ⟨_, hm⟩, _, _, rfl⟩⟩
  · have hr : error ≠ 0 := hr
    simp only [ne_eq, hr, not_false_iff, if_true]
    exact ⟨rfl, .inr ⟨hr, .inl ⟨_, hm⟩, _, _, rfl⟩⟩

structure TeslaCrypto.SameObject (a b : TeslaCrypto) : Prop where
  address : a.address = b.address
  group : a.group = b.group
  ready : a.groupReady = b.groupReady

theorem TeslaCrypto.SameObject.loaded {a b : TeslaCrypto} (h : a.SameObject b)
    (hb : b.Loaded D) : a.Loaded D :=
  ⟨h.group.trans hb.group, h.ready.trans hb.ready⟩

theorem setPrivateKey_spec (hload : crypto.Loaded D) (key : Bytes 32) :
    Always (faultyEnv D mayFail) (teslaCryptoSetPrivateKey crypto key) w fun _ r w' =>
      w' = w ∧ (Accepts D key ∧ r = (true, crypto.withKey D key.beValue) ∨
        r.1 = false ∧ r.2.SameObject crypto ∧ r.2.keyReady = false ∧
          (Faulty mayFail ∨ ¬ Accepts D key)) := by
  unfold teslaCryptoSetPrivateKey
  simp only [hload.ready, Bool.not_true, Bool.false_eq_true, if_false]
  have hgroup : crypto.forget.group = D.group := hload.group
  apply (loadScalar_spec hgroup key).bind
  intro _ r w₁ h
  obtain ⟨error, c⟩ := r
  rcases h with ⟨rfl, ⟨hkey, ⟨⟩⟩ | ⟨herror, hwhy, d, Q, rfl⟩⟩
  · simp only [teslaCryptoEncodePoint, ne_eq, not_true, if_false, hal_eq, Program.call_bind,
      Program.done_bind, Program.pure_eq]
    intro r w₂ h
    obtain ⟨error, size, publicKey⟩ := r
    rcases h with ⟨rfl, hr⟩ | ⟨hm, hr, rfl⟩
    · have hpoint : (D.mul key.beValue D.group.g).z ≠ 0 := D.mul_ne_zero _ hkey.1 hkey.2
      obtain ⟨rfl, rfl, rfl⟩ : error = 0 ∧ size = 65 ∧
          publicKey = (D.mul key.beValue D.group.g).uncompressed := by
        simpa [hpoint] using hr
      simp only [not_true, or_self, if_false]
      refine ⟨rfl, .inl ⟨hkey, ?_⟩⟩
      simp [TeslaCrypto.withKey, TeslaCrypto.forget]
    · have hr : error ≠ 0 := hr
      simp only [hr, not_false_iff, true_or, if_true]
      intro _ w₃ h
      rcases h with rfl | ⟨-, ⟨⟩, -⟩
      exact ⟨rfl, .inr ⟨rfl, ⟨rfl, rfl, rfl⟩, rfl, .inl ⟨_, hm⟩⟩⟩
  · have herror : error ≠ 0 := herror
    simp only [teslaCryptoEncodePoint, ne_eq, herror, not_false_iff, if_true, true_or, hal_eq,
      Program.call_bind, Program.done_bind, Program.pure_eq]
    intro _ w₃ h
    rcases h with rfl | ⟨-, ⟨⟩, -⟩
    exact ⟨rfl, .inr ⟨rfl, ⟨rfl, rfl, rfl⟩, rfl, hwhy⟩⟩

theorem exists_setPrivateKey (hload : crypto.Loaded D) {key : Bytes 32} (hkey : Accepts D key)
    (w : World) : ∃ t, Executes (faultyEnv D noFailure) (teslaCryptoSetPrivateKey crypto key) w t
      (true, crypto.withKey D key.beValue) w := by
  obtain ⟨t, r, w', hx⟩ := exists_works (D := D) (teslaCryptoSetPrivateKey crypto key) w
  obtain ⟨rfl, ⟨-, rfl⟩ | ⟨-, -, -, hfaulty | hnot⟩⟩ :=
    always_iff.mp (setPrivateKey_spec hload key) _ _ _ hx
  · exact ⟨t, hx⟩
  · exact absurd hfaulty (fun h => h.elim fun _ h => h)
  · exact absurd hkey hnot

def KeyGenerated (t : List HalEvent) (key : Bytes 32) : Prop :=
  ∃ group d, (⟨.ecpGenPrivkey group, (0, d)⟩ : HalEvent) ∈ t ∧ key = Bytes.beBytes 32 d

theorem KeyGenerated.mono {t u : List HalEvent} {key : Bytes 32} (h : KeyGenerated t key)
    (htu : t ⊆ u) : KeyGenerated u key := by
  obtain ⟨group, d, hmem, rfl⟩ := h
  exact ⟨group, d, htu hmem, rfl⟩

theorem generatePrivateKey_spec (hload : crypto.Loaded D) (key : Bytes 32) :
    Always (faultyEnv D mayFail) (teslaCryptoGeneratePrivateKey crypto key) w fun t r w' =>
      w' = w ∧ ((r.1 = true ∧ r.2.1 = crypto.withKey D r.2.2.beValue ∧ Accepts D r.2.2 ∧
          KeyGenerated t r.2.2) ∨
        r.1 = false ∧ r.2.1.SameObject crypto ∧ r.2.2 = Bytes.zero 32 ∧ Faulty mayFail) := by
  simp only [teslaCryptoGeneratePrivateKey, hal_eq, Program.call_bind, Program.done_bind,
    Program.pure_eq]
  intro r w₁ h
  obtain ⟨error, d⟩ := r
  rcases h with ⟨rfl, hr⟩ | ⟨hm, hr, rfl⟩
  · obtain ⟨rfl, hd⟩ : error = 0 ∧ ValidScalar D.group d := by
      simpa [hload.group, D.order_gt] using hr
    simp only [if_true]
    intro r w₂ h
    obtain ⟨error, bytes⟩ := r
    rcases h with ⟨rfl, hr⟩ | ⟨hm, hr, rfl⟩
    · obtain ⟨rfl, rfl⟩ : error = 0 ∧ bytes = Bytes.beBytes 32 d := by
        simpa only [if_pos hd.lt_pow, Prod.mk.injEq] using hr
      simp only [ne_eq, not_true, if_false]
      apply (setPrivateKey_spec hload _).bind
      intro _ r w₃ h
      obtain ⟨set, c⟩ := r
      rcases h with ⟨rfl, ⟨hkey, ⟨⟩⟩ | ⟨hset, hsame, -, hwhy⟩⟩
      · exact ⟨rfl, .inl ⟨rfl, rfl, hkey, crypto.group, d, by simp, rfl⟩⟩
      · obtain rfl : set = false := hset
        exact ⟨rfl, .inr ⟨rfl, hsame, rfl, hwhy.resolve_right (not_not.mpr (accepts_beBytes hd))⟩⟩
    · have hr : error ≠ 0 := hr
      simp only [ne_eq, hr, not_false_iff, if_true]
      intro _ w₃ h
      rcases h with rfl | ⟨-, ⟨⟩, -⟩
      exact ⟨rfl, .inr ⟨rfl, ⟨rfl, rfl, rfl⟩, rfl, _, hm⟩⟩
  · have hr : error ≠ 0 := hr
    simp only [hr, if_false, ne_eq, not_false_iff, if_true]
    intro _ w₂ h
    rcases h with rfl | ⟨-, ⟨⟩, -⟩
    exact ⟨rfl, .inr ⟨rfl, ⟨rfl, rfl, rfl⟩, rfl, _, hm⟩⟩

theorem alloc_spec :
    Always (faultyEnv D mayFail) teslaCryptoAlloc w fun _ r w' => w' = w ∧
      ((∃ c, r = some c ∧ c.Loaded D ∧ c.keyReady = false) ∨ r = none ∧ Faulty mayFail) := by
  simp only [teslaCryptoAlloc, hal_eq, Program.call_bind, Program.done_bind, Program.pure_eq]
  rintro (_ | address) w₁ (⟨rfl, hr⟩ | ⟨hm, hr, rfl⟩)
  · exact absurd rfl hr
  · exact ⟨rfl, .inr ⟨rfl, _, hm⟩⟩
  · intro r w₂ h
    obtain ⟨error, group⟩ := r
    rcases h with ⟨rfl, ⟨⟩⟩ | ⟨hm, hr, rfl⟩
    · exact ⟨rfl, .inl ⟨_, rfl, ⟨rfl, rfl⟩, rfl⟩⟩
    · have hr : error ≠ 0 := hr
      simp only [ne_eq, hr, not_false_iff, if_true]
      intro _ w₃ h
      rcases h with rfl | ⟨-, ⟨⟩, -⟩
      intro _ w₄ h
      rcases h with rfl | ⟨-, ⟨⟩, -⟩
      exact ⟨rfl, .inr ⟨rfl, _, hm⟩⟩
  · exact nomatch hr

end

section
variable {D : Device} {mayFail : HalCall → Prop}

def KeyCall : HalCall → Prop
  | .furiLog .. => True
  | .mpiReadBinary _ => True
  | .ecpCheckPrivkey .. => True
  | .ecpMul .. => True
  | .ecpPointWriteBinary .. => True
  | _ => False

theorem loadScalar_uses (crypto : TeslaCrypto) (key : Bytes 32) :
    (teslaCryptoLoadScalar crypto key).Uses KeyCall := by
  simp only [teslaCryptoLoadScalar, hal_eq, Program.call_bind, Program.done_bind,
    Program.pure_eq]
  refine ⟨trivial, fun r => ?_⟩
  dsimp only
  split_ifs
  · trivial
  · refine ⟨trivial, fun error => ?_⟩
    dsimp only
    split_ifs
    · trivial
    · exact ⟨trivial, fun r => trivial⟩

theorem encodePoint_uses (crypto : TeslaCrypto) (error : ℤ) :
    (teslaCryptoEncodePoint crypto error).Uses KeyCall := by
  simp only [teslaCryptoEncodePoint, hal_eq, Program.call_bind, Program.done_bind,
    Program.pure_eq]
  split_ifs
  · trivial
  · exact ⟨trivial, fun r => trivial⟩

theorem setPrivateKey_uses (crypto : TeslaCrypto) (key : Bytes 32) :
    (teslaCryptoSetPrivateKey crypto key).Uses KeyCall := by
  unfold teslaCryptoSetPrivateKey
  split_ifs
  · trivial
  · apply Program.uses_bind (loadScalar_uses _ _)
    intro r
    obtain ⟨error, c⟩ := r
    apply Program.uses_bind (encodePoint_uses _ _)
    intro r
    obtain ⟨error, size, c⟩ := r
    dsimp only
    split_ifs
    · exact ⟨trivial, fun _ => trivial⟩
    · trivial

theorem KeyCall.keeps {w w' : World} {c : HalCall} {r : c.Reply} (h : KeyCall c)
    (hE : faultyEnv D mayFail w c r w') : w' = w := by
  cases c with
  | furiLog => exact hE.elim id (·.2.2)
  | mpiReadBinary => exact hE.elim (·.1) (·.2.2)
  | ecpCheckPrivkey => exact hE.elim (·.1) (·.2.2)
  | ecpMul => exact hE.elim (·.1) (·.2.2)
  | ecpPointWriteBinary => exact hE.elim (·.1) (·.2.2)
  | _ => exact h.elim

theorem setPrivateKey_keeps (crypto : TeslaCrypto) (key : Bytes 32) (w : World) :
    Always (faultyEnv D mayFail) (teslaCryptoSetPrivateKey crypto key) w fun t _ w' =>
      w' = w ∧ ∀ e ∈ t, KeyCall e.1 :=
  always_frame (fun _ _ _ _ hc hE => hc.keeps hE) (setPrivateKey_uses crypto key)

end

def plainCrypto : TeslaCrypto :=
  { TeslaCrypto.zeroed 0 with group := secp256r1, groupReady := true }

theorem plainCrypto_loaded : plainCrypto.Loaded plainDevice := ⟨rfl, rfl⟩

end FlipperApps.Tesla
