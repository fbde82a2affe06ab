import FlipperApps.Calls.Transition
import FlipperApps.Tesla.KeyPair
import FlipperApps.Tesla.Listener

/-!
# The key pair over any sequence of crypto calls

Setting a key tears the old pair down before the new one is known to be good. A
context that is ready holds the scalar and the public key of the latest call that
succeeded; one that is not ready shows no key and authenticates nothing.
-/

namespace FlipperApps.Tesla
open Calls

inductive CryptoLabel
  | setPrivateKey (key : Bytes 32) (set : Bool)
  | generatePrivateKey (calls : List HalEvent) (generated : Bool) (key : Bytes 32)
  | authenticate (peerPublicKey : Bytes 65) (challenge : Bytes 16) (authenticated : Bool)
      (response : Bytes 16)

inductive CryptoStep (D : Device) (mayFail : HalCall → Prop) :
    TeslaCrypto × World → CryptoLabel → TeslaCrypto × World → Prop where
  | setPrivateKey {crypto crypto' : TeslaCrypto} {key : Bytes 32} {w w' : World}
      {t : List HalEvent} {set : Bool} :
      Executes (faultyEnv D mayFail) (teslaCryptoSetPrivateKey crypto key) w t (set, crypto') w' →
      CryptoStep D mayFail (crypto, w) (.setPrivateKey key set) (crypto', w')
  | generatePrivateKey {crypto crypto' : TeslaCrypto} {buffer key : Bytes 32} {w w' : World}
      {t : List HalEvent} {generated : Bool} :
      Executes (faultyEnv D mayFail) (teslaCryptoGeneratePrivateKey crypto buffer) w t
        (generated, crypto', key) w' →
      CryptoStep D mayFail (crypto, w) (.generatePrivateKey t generated key) (crypto', w')
  | authenticate {crypto : TeslaCrypto} {peerPublicKey : Bytes 65}
      {challenge response : Bytes 16} {w : World} {t : List NfcCallEvent}
      {authenticated : Bool} :
      Executes (anyReply NfcInterface) (teslaCryptoAuthenticate crypto peerPublicKey challenge) ()
        t (authenticated, response) () →
      CryptoStep D mayFail (crypto, w)
        (.authenticate peerPublicKey challenge authenticated response) (crypto, w)

namespace CryptoLabel

def installs : CryptoLabel → Option (Bytes 32)
  | .setPrivateKey key true => some key
  | .generatePrivateKey _ true key => some key
  | _ => none

end CryptoLabel

def latestKey (labels : List CryptoLabel) : Option (Bytes 32) :=
  labels.foldl (fun latest l => l.installs <|> latest) none

theorem latestKey_snoc (labels : List CryptoLabel) (l : CryptoLabel) :
    latestKey (labels ++ [l]) = (l.installs <|> latestKey labels) := by
  rw [latestKey, List.foldl_append]
  rfl

/-- `tesla_crypto_set_private_key` was called: it starts by reading the key. -/
def SetsPrivateKey (t : List HalEvent) : Prop :=
  ∃ key r, (⟨.mpiReadBinary key, r⟩ : HalEvent) ∈ t

section
variable {D : Device} {mayFail : HalCall → Prop} {E : Environment HalInterface World}
  {w w' : World} {crypto crypto' : TeslaCrypto}

theorem setPrivateKey_reads (hready : crypto.groupReady = true) (key : Bytes 32) :
    Always E (teslaCryptoSetPrivateKey crypto key) w fun t _ _ => SetsPrivateKey t := by
  simp only [teslaCryptoSetPrivateKey, hready, Bool.not_true, Bool.false_eq_true, if_false,
    teslaCryptoLoadScalar, hal_eq, Program.call_bind, Program.done_bind]
  intro r w₁ _
  apply (always_returns (Program.returns_true _)).mono
  intro t _ _ _
  exact ⟨key, r, List.mem_cons_self⟩

theorem generatePrivateKey_failed (hload : crypto.Loaded D) (buffer : Bytes 32) :
    Always (faultyEnv D mayFail) (teslaCryptoGeneratePrivateKey crypto buffer) w fun t r _ =>
      r.1 = false → r.2.1 = crypto ∨ r.2.1.keyReady = false ∧ SetsPrivateKey t := by
  simp only [teslaCryptoGeneratePrivateKey, hal_eq, Program.call_bind, Program.done_bind,
    Program.pure_eq]
  intro r w₁ _
  obtain ⟨error, d⟩ := r
  by_cases herror : error = 0
  · subst herror
    simp only [if_true]
    intro r w₂ _
    obtain ⟨error, key⟩ := r
    by_cases herror : error = 0
    · subst herror
      simp only [ne_eq, not_true, if_false]
      apply ((setPrivateKey_spec hload key).and (setPrivateKey_reads hload.ready key)).bind
      intro t r w₃ h
      obtain ⟨set, c⟩ := r
      obtain ⟨⟨-, hset⟩, key', r', hmem⟩ := h
      intro hfalse
      rcases hset with ⟨-, heq⟩ | ⟨-, -, hready, -⟩
      · obtain rfl : set = true := congrArg Prod.fst heq
        cases hfalse
      · refine .inr ⟨hready, key', r', ?_⟩
        exact List.mem_cons_of_mem _ (List.mem_cons_of_mem _ (List.mem_append_left _ hmem))
    · simp only [ne_eq, herror, not_false_iff, if_true]
      exact fun _ _ _ _ => .inl rfl
  · simp only [herror, if_false, ne_eq, not_false_iff, if_true]
    exact fun _ _ _ _ => .inl rfl

theorem authenticate_unready (h : crypto.keyReady = false) (peerPublicKey : Bytes 65)
    (challenge : Bytes 16) : (teslaCryptoAuthenticate crypto peerPublicKey challenge).Returns
      fun r => r = (false, Bytes.zero 16) := by
  intro salt
  simp only [teslaCryptoAuthenticateWithSalt, teslaCryptoSharedX, h, Bool.not_false, Bool.true_or,
    if_true]
  exact fun _ => rfl

structure HoldsPair (D : Device) (labels : List CryptoLabel) (crypto : TeslaCrypto) : Prop where
  valid : ValidScalar D.group crypto.privateKey
  encoded : crypto.publicKey = (D.mul crypto.privateKey D.group.g).uncompressed
  latest : ∃ key, latestKey labels = some key ∧ crypto.privateKey = key.beValue ∧
    crypto.publicKey = (D.mul key.beValue D.group.g).uncompressed
  shown : teslaCryptoGetPublicKey crypto = some crypto.publicKey

structure HoldsNothing (crypto : TeslaCrypto) : Prop where
  hidden : teslaCryptoGetPublicKey crypto = none
  refuses : ∀ peerPublicKey challenge,
    (teslaCryptoAuthenticate crypto peerPublicKey challenge).Returns
      fun r => r = (false, Bytes.zero 16)

/-- What a call promises by its result, about the context before and after it. -/
def CryptoLabel.Honest (crypto crypto' : TeslaCrypto) : CryptoLabel → Prop
  | .setPrivateKey key set =>
    (set = true → crypto'.keyReady = true ∧ crypto'.privateKey = key.beValue) ∧
      (set = false → crypto'.keyReady = false)
  | .generatePrivateKey calls generated key =>
    (generated = true → crypto'.keyReady = true ∧ key = Bytes.beBytes 32 crypto'.privateKey) ∧
      (generated = false → key = Bytes.zero 32 ∧ (¬ SetsPrivateKey calls → crypto' = crypto))
  | .authenticate _ _ authenticated response =>
    crypto.keyReady = false → authenticated = false ∧ response = Bytes.zero 16

theorem holdsPair_withKey {labels : List CryptoLabel} {key : Bytes 32}
    (hlatest : latestKey labels = some key) (hkey : Accepts D key) :
    HoldsPair D labels (crypto.withKey D key.beValue) :=
  ⟨hkey, rfl, ⟨key, hlatest, rfl, rfl⟩, rfl⟩

theorem HoldsPair.snoc {labels : List CryptoLabel} {l : CryptoLabel}
    (h : HoldsPair D labels crypto) (hl : l.installs = none) :
    HoldsPair D (labels ++ [l]) crypto := by
  obtain ⟨key, hlatest, hkey⟩ := h.latest
  refine ⟨h.valid, h.encoded, ⟨key, ?_, hkey⟩, h.shown⟩
  rw [latestKey_snoc, hl, hlatest]
  rfl

theorem holdsNothing (h : crypto.keyReady = false) : HoldsNothing crypto := by
  refine ⟨?_, authenticate_unready h⟩
  rw [teslaCryptoGetPublicKey, h]
  rfl

structure KeyInvariant (D : Device) (labels : List CryptoLabel) (crypto : TeslaCrypto) :
    Prop where
  loaded : crypto.Loaded D
  ready : crypto.keyReady = true → HoldsPair D labels crypto

theorem KeyInvariant.unready {labels : List CryptoLabel} (hload : crypto.Loaded D)
    (h : crypto.keyReady = false) : KeyInvariant D labels crypto :=
  ⟨hload, fun hready => absurd (hready.symm.trans h) (by simp)⟩

theorem CryptoStep.honest {l : CryptoLabel} (hload : crypto.Loaded D)
    (h : CryptoStep D mayFail (crypto, w) l (crypto', w')) : l.Honest crypto crypto' := by
  cases h with
  | setPrivateKey hx =>
    obtain ⟨-, ⟨-, heq⟩ | ⟨rfl, -, hready, -⟩⟩ :=
      always_iff.mp (setPrivateKey_spec hload _) _ _ _ hx
    · obtain ⟨rfl, rfl⟩ := Prod.mk.inj heq
      exact ⟨fun _ => ⟨rfl, rfl⟩, (nomatch ·)⟩
    · exact ⟨(nomatch ·), fun _ => hready⟩
  | generatePrivateKey hx =>
    have hfailed := always_iff.mp (generatePrivateKey_failed hload _) _ _ _ hx
    obtain ⟨-, ⟨rfl, heq, -, -⟩ | ⟨rfl, -, hzero, -⟩⟩ :=
      always_iff.mp (generatePrivateKey_spec hload _) _ _ _ hx
    · dsimp only at heq
      subst heq
      exact ⟨fun _ => ⟨rfl, (Bytes.beBytes_beValue _).symm⟩, (nomatch ·)⟩
    · exact ⟨(nomatch ·), fun _ => ⟨hzero, fun hset =>
        (hfailed rfl).resolve_right fun hunready => hset hunready.2⟩⟩
  | authenticate hx =>
    intro hunready
    have hrefused := always_iff.mp (always_returns (authenticate_unready hunready _ _)) _ _ _ hx
    exact Prod.mk.inj hrefused

theorem CryptoStep.keeps {labels : List CryptoLabel} {l : CryptoLabel}
    (hinv : KeyInvariant D labels crypto)
    (h : CryptoStep D mayFail (crypto, w) l (crypto', w')) :
    KeyInvariant D (labels ++ [l]) crypto' := by
  have hload := hinv.loaded
  cases h with
  | setPrivateKey hx =>
    obtain ⟨-, ⟨hkey, heq⟩ | ⟨-, hsame, hready, -⟩⟩ :=
      always_iff.mp (setPrivateKey_spec hload _) _ _ _ hx
    · obtain ⟨rfl, rfl⟩ := Prod.mk.inj heq
      refine ⟨⟨hload.group, hload.ready⟩, fun _ => holdsPair_withKey ?_ hkey⟩
      rw [latestKey_snoc]
      rfl
    · exact .unready (hsame.loaded hload) hready
  | generatePrivateKey hx =>
    have hfailed := always_iff.mp (generatePrivateKey_failed hload _) _ _ _ hx
    obtain ⟨-, ⟨rfl, heq, hkey, -⟩ | ⟨rfl, hsame, -, -⟩⟩ :=
      always_iff.mp (generatePrivateKey_spec hload _) _ _ _ hx
    · dsimp only at heq
      subst heq
      refine ⟨⟨hload.group, hload.ready⟩, fun _ => holdsPair_withKey ?_ hkey⟩
      rw [latestKey_snoc]
      rfl
    · rcases hfailed rfl with heq | ⟨hready, -⟩
      · obtain rfl := heq
        exact ⟨hload, fun hready => (hinv.ready hready).snoc rfl⟩
      · exact .unready (hsame.loaded hload) hready
  | authenticate hx => exact ⟨hload, fun hready => (hinv.ready hready).snoc rfl⟩

/-- Whatever calls a context has seen, and whichever of them failed, it is either
ready with the pair of the latest success or shows and does nothing; and the next
call tells the truth about what it leaves. -/
theorem key_pair_kept {t₀ : List HalEvent} {w₀ w₁ : World} {crypto₀ : TeslaCrypto}
    {labels : List CryptoLabel}
    (halloc : Executes (faultyEnv D mayFail) teslaCryptoAlloc w₀ t₀ (some crypto₀) w₁)
    (hrun : Run (CryptoStep D mayFail) (crypto₀, w₁) labels (crypto, w)) :
    (crypto.keyReady = true → HoldsPair D labels crypto) ∧
      (crypto.keyReady = false → HoldsNothing crypto) ∧
      ∀ l crypto' w', CryptoStep D mayFail (crypto, w) l (crypto', w') →
        l.Honest crypto crypto' := by
  have hinv : KeyInvariant D labels crypto := by
    apply hrun.invariant (P := fun labels s => KeyInvariant D labels s.1)
    · obtain ⟨-, ⟨c, hc, hload, hready⟩ | ⟨hnone, -⟩⟩ :=
        always_iff.mp alloc_spec _ _ _ halloc
      · obtain rfl := Option.some.inj hc
        exact .unready hload hready
      · cases hnone
    · intro labels s l s' h hstep
      exact CryptoStep.keeps h hstep
  exact ⟨hinv.ready, holdsNothing, fun _ _ _ hstep => hstep.honest hinv.loaded⟩

end

def freshContext : TeslaCrypto :=
  { TeslaCrypto.zeroed 0 with group := secp256r1, groupReady := true }

theorem key_pair_kept_one :
    let crypto := freshContext.withKey plainDevice 1
    let labels : List CryptoLabel := [.setPrivateKey (Bytes.beBytes 32 1) true]
    ∃ w, (crypto.keyReady = true → HoldsPair plainDevice labels crypto) ∧
      (crypto.keyReady = false → HoldsNothing crypto) ∧
      ∀ l crypto' w', CryptoStep plainDevice noFailure (crypto, w) l (crypto', w') →
        l.Honest crypto crypto' := by
  intro crypto labels
  have halloc : Executes (faultyEnv plainDevice noFailure) teslaCryptoAlloc
      (World.idle Disk.empty []) [⟨.mallocCrypto, some 0⟩, ⟨.ecpGroupLoad, (0, secp256r1)⟩]
      (some freshContext) (World.idle Disk.empty []) :=
    .call (.inl ⟨rfl, nofun⟩) (.call (.inl ⟨rfl, rfl⟩) (.done _ _))
  have hvalue : (Bytes.beBytes 32 1).beValue = 1 := Bytes.beValue_beBytes (by decide)
  have hkey : Accepts plainDevice (Bytes.beBytes 32 1) := by
    rw [Accepts, hvalue]
    decide
  obtain ⟨t, hx⟩ := @exists_setPrivateKey _ freshContext ⟨rfl, rfl⟩ _ hkey
    (World.idle Disk.empty [])
  rw [hvalue] at hx
  exact ⟨_, key_pair_kept halloc (.snoc (.nil _) (.setPrivateKey hx))⟩

end FlipperApps.Tesla
