import FlipperApps.Calls.Interference
import FlipperApps.Tesla.AppEvents
import FlipperApps.Tesla.IdentitySave
import FlipperApps.Tesla.NfcObjects
import FlipperApps.Tesla.PowerLoss

/-!
# The protocol of the NFC object

A monitor follows the NFC object, its listener and the event queue through the
calls of the app. While the listener runs, the app only takes events or stops
it; an object is built, started and freed over an empty queue; and no key is
loaded or freed while an object is alive.
-/

namespace FlipperApps.Tesla
open Calls

/-- The address of the NFC object that is alive, whether its listener runs, and
how many events may be queued. -/
structure NfcStatus where
  object : Option ℕ
  running : Bool
  queued : ℕ
  deriving DecidableEq

def NfcStatus.observe (m : NfcStatus) : HalEvent → NfcStatus
  | ⟨.mallocNfc, address⟩ => { m with object := some address }
  | ⟨.freeNfc _, _⟩ => { m with object := none }
  | ⟨.nfcListenerStart _, _⟩ => { m with running := true, queued := teslaNfcEventQueueSize }
  | ⟨.nfcListenerStop, _⟩ => { m with running := false }
  | ⟨.nfcEventQueueGet, event⟩ =>
    -- The worker refills the queue of a running listener.
    if m.running then m else { m with queued := if event = none then 0 else m.queued - 1 }
  | _ => m

/-- An app that is leaving frees the object without emptying the queue. -/
def NfcStatus.Allows (leaving : Bool) (m : NfcStatus) : HalCall → Prop
  | .nfcEventQueueGet => True
  | .nfcListenerStop => m.running = true
  | .publicKeyAtNull => False
  | .mallocNfc => m.running = false ∧ m.object = none ∧ m.queued = 0
  | .freeNfc address =>
    m.running = false ∧ m.object = some address ∧ (m.queued = 0 ∨ leaving = true)
  | .nfcListenerStart address => m.running = false ∧ m.object = some address ∧ m.queued = 0
  | .freeCrypto _ => m.running = false ∧ m.object = none
  | .mpiReadBinary _ => m.running = false ∧ m.object = none
  | _ => m.running = false

def nfcProtocol (leaving : Bool) : Monitor HalInterface NfcStatus :=
  ⟨NfcStatus.observe, NfcStatus.Allows leaving⟩

def TeslaNfc.stopped (nfc : TeslaNfc) : TeslaNfc :=
  { nfc with listener := false, apdu := teslaApduResetSession nfc.apdu }

def TeslaNfc.started (nfc : TeslaNfc) : TeslaNfc :=
  { nfc with listener := true, apdu := teslaApduResetSession nfc.apdu }

def OutsideCall : HalCall → Prop
  | .publicKeyAtNull => False
  | .mallocNfc => False
  | .freeNfc _ => False
  | .nfcListenerStart _ => False
  | .nfcListenerStop => False
  | .nfcEventQueueGet => False
  | _ => True

/-- The calls of a preparation: the identity file itself is not removed. -/
def PrepareCall : HalCall → Prop
  | .storageCommonRemove path => path = .tmp
  | c => OutsideCall c

section
variable {leaving : Bool} {m : NfcStatus} {nfc : TeslaNfc} {app : TeslaKeyCardApp}

theorem OutsideCall.allowed {c : HalCall} (hc : OutsideCall c) (hrunning : m.running = false)
    (hobject : m.object = none) :
    (nfcProtocol leaving).allows m c ∧ ∀ r, (nfcProtocol leaving).observe m ⟨c, r⟩ = m := by
  cases c with
  | publicKeyAtNull | mallocNfc | freeNfc | nfcListenerStart | nfcListenerStop |
      nfcEventQueueGet => exact hc.elim
  | freeCrypto | mpiReadBinary => exact ⟨⟨hrunning, hobject⟩, fun _ => rfl⟩
  | _ => exact ⟨hrunning, fun _ => rfl⟩

theorem nfcStop_accepts (hobject : m.object = some nfc.address)
    (hrunning : m.running = nfc.listener) :
    (nfcProtocol leaving).Accepts (teslaNfcStop nfc) m fun nfc' m' =>
      nfc' = nfc.stopped ∧ m' = { m with running := false } := by
  obtain ⟨object, running, queued⟩ := m
  obtain rfl : running = nfc.listener := hrunning
  unfold teslaNfcStop
  cases hlistener : nfc.listener with
  | false => exact ⟨rfl, rfl⟩
  | true => exact ⟨rfl, fun _ => ⟨rfl, fun _ => ⟨rfl, rfl⟩⟩⟩

theorem nfcFree_accepts (hobject : m.object = some nfc.address)
    (hrunning : m.running = nfc.listener) (hqueue : m.queued = 0 ∨ leaving = true) :
    (nfcProtocol leaving).Accepts (teslaNfcFree nfc) m fun _ m' =>
      m' = { m with object := none, running := false } := by
  apply (nfcStop_accepts hobject hrunning).bind
  intro nfc' m' h
  obtain ⟨rfl, rfl⟩ := h
  exact ⟨⟨rfl, hobject, hqueue⟩, fun _ => rfl⟩

def builtNfc (crypto : TeslaCrypto) (uid : Bytes 4) (address : ℕ) : TeslaNfc :=
  ⟨address, crypto.address, uid, false,
    teslaApduInit crypto.publicKey (some ()) address, 0⟩

theorem nfcAlloc_accepts {crypto : TeslaCrypto} {uid : Bytes 4} (hready : crypto.keyReady = true)
    (hobject : m.object = none) (hrunning : m.running = false) (hqueue : m.queued = 0) :
    (nfcProtocol leaving).Accepts (teslaNfcAlloc crypto uid) m fun nfc m' =>
      ∃ address, nfc = builtNfc crypto uid address ∧ m' = { m with object := some address } := by
  refine ⟨⟨hrunning, hobject, hqueue⟩, fun address => ?_⟩
  simp only [teslaCryptoGetPublicKey, hready, if_true, Program.pure_eq, Program.done_bind]
  exact ⟨address, rfl, rfl⟩

theorem nfcStart_accepts (hlistener : nfc.listener = false) (hobject : m.object = some nfc.address)
    (hrunning : m.running = false) (hqueue : m.queued = 0) :
    (nfcProtocol leaving).Accepts (teslaNfcStart nfc) m fun r m' =>
      r = (true, nfc.started) ∧
          m' = { m with running := true, queued := teslaNfcEventQueueSize } ∨
        r = (false, nfc.stopped) ∧ m' = m := by
  unfold teslaNfcStart
  rw [if_neg (by simp [hlistener])]
  refine ⟨hrunning, fun allocated => ?_⟩
  cases allocated with
  | false =>
    refine Or.inr ⟨?_, rfl⟩
    rw [TeslaNfc.stopped, ← hlistener]
  | true => exact ⟨⟨hrunning, hobject, hqueue⟩, fun _ => Or.inl ⟨rfl, rfl⟩⟩

theorem NfcStatus.observe_take (hrunning : m.running = false)
    (event : Option TeslaKeyCardNfcEvent) :
    m.observe ⟨.nfcEventQueueGet, event⟩ =
      { m with queued := if event = none then 0 else m.queued - 1 } :=
  if_neg (by simp [hrunning])

theorem drain_accepts {n : ℕ} (hrunning : m.running = false) (hqueue : m.queued ≤ n) :
    (nfcProtocol leaving).Accepts (drainNfcEvents n) m fun _ m' => m' = { m with queued := 0 } := by
  induction n generalizing m with
  | zero =>
    obtain ⟨object, running, queued⟩ := m
    obtain rfl : queued = 0 := Nat.le_zero.mp hqueue
    rfl
  | succ n ih =>
    refine ⟨trivial, fun event => ?_⟩
    change (nfcProtocol leaving).Accepts _ (m.observe ⟨.nfcEventQueueGet, event⟩) _
    rw [NfcStatus.observe_take hrunning]
    cases event with
    | none => rfl
    | some event =>
      have hless : m.queued - 1 ≤ n := by omega
      exact ih (m := { m with queued := m.queued - 1 }) hrunning hless

end

section
variable {leaving : Bool} {m : NfcStatus} {app : TeslaKeyCardApp}

theorem PrepareCall.outside {c : HalCall} (h : PrepareCall c) : OutsideCall c := by
  cases c with
  | storageCommonRemove => trivial
  | _ => exact h

theorem ReadCall.prepare {c : HalCall} (h : ReadCall c) : PrepareCall c := by
  cases c with
  | publicKeyAtNull | mallocNfc | freeNfc | nfcListenerStart | nfcListenerStop |
      nfcEventQueueGet | storageCommonRemove => exact h.elim
  | _ => trivial

theorem KeyCall.prepare {c : HalCall} (h : KeyCall c) : PrepareCall c := by
  cases c with
  | publicKeyAtNull | mallocNfc | freeNfc | nfcListenerStart | nfcListenerStop |
      nfcEventQueueGet | storageCommonRemove => exact h.elim
  | _ => trivial

theorem ContextCall.outside {c : HalCall} (h : ContextCall c) : OutsideCall c := by
  cases c with
  | furiLog | mallocCrypto | ecpGroupLoad | freeCrypto => trivial
  | _ => exact h.elim

theorem writeStaged_uses (record : TeslaIdentityRecord) :
    (writeStaged record).Uses PrepareCall := by
  simp only [writeStaged, hal_eq, Program.call_bind, Program.done_bind, Program.pure_eq]
  refine ⟨trivial, fun written => ?_⟩
  have hclosed (synced : Bool) : (Program.call (I := HalInterface) .storageFileClose fun _ =>
      if synced then .call (I := HalInterface) (.storageCommonRename .tmp .bin) fun error =>
        .done (error == .ok)
      else .done false).Uses PrepareCall := by
    refine ⟨trivial, fun _ => ?_⟩
    cases synced with
    | false => trivial
    | true => exact ⟨trivial, fun _ => trivial⟩
  dsimp only
  by_cases hwritten : written = 96
  · rw [if_pos hwritten]
    exact ⟨trivial, fun synced => hclosed synced⟩
  · rw [if_neg hwritten]
    exact hclosed false

theorem store_uses (record : TeslaIdentityRecord) :
    (teslaIdentityStore record).Uses PrepareCall := by
  simp only [teslaIdentityStore, hal_eq, Program.call_bind, Program.done_bind, Program.pure_eq]
  have hfinish (success : Bool) : (if success then .done true else
      Program.call (I := HalInterface) (.storageCommonRemove .tmp) fun _ => .done false).Uses
      PrepareCall := by
    cases success with
    | false => exact ⟨rfl, fun _ => trivial⟩
    | true => trivial
  refine ⟨rfl, fun _ => ⟨trivial, fun opened => ?_⟩⟩
  cases opened with
  | false => exact hfinish false
  | true => exact Program.uses_bind (writeStaged_uses record) hfinish

theorem save_uses (identity : TeslaIdentity) : (teslaIdentitySave identity).Uses PrepareCall := by
  refine ⟨trivial, fun iv => ?_⟩
  apply Program.uses_bind ((encrypt_uses iv _).mono fun _ => ReadCall.prepare)
  intro encrypted
  cases encrypted with
  | none => trivial
  | some encrypted =>
    apply Program.uses_bind ((calculateMac_uses _).mono fun _ => ReadCall.prepare)
    intro r
    dsimp only
    split_ifs
    · exact ⟨trivial, fun _ => trivial⟩
    · exact store_uses _

theorem prepareIdentity_uses (crypto : TeslaCrypto) (identity : TeslaIdentity) :
    (teslaKeyCardPrepareIdentity crypto identity).Uses PrepareCall := by
  apply Program.uses_bind (load_uses (fun _ => ReadCall.prepare) trivial identity)
  intro loaded
  dsimp only
  split_ifs
  · exact Program.uses_bind ((setPrivateKey_uses _ _).mono fun _ => KeyCall.prepare)
      fun _ => trivial
  · trivial
  · refine ⟨trivial, fun uid => ?_⟩
    apply Program.uses_bind (generatePrivateKey_uses (fun _ => KeyCall.prepare)
      (fun _ => trivial) (fun _ => trivial) _ _)
    intro generated
    split_ifs
    · trivial
    · exact Program.uses_bind (save_uses _) fun _ => trivial

theorem setPrivateKey_returns (crypto : TeslaCrypto) (key : Bytes 32) :
    (teslaCryptoSetPrivateKey crypto key).Returns fun r => r.1 = true → r.2.keyReady = true := by
  unfold teslaCryptoSetPrivateKey
  split_ifs
  · exact fun h => absurd h (by simp)
  · apply Program.returns_bind
    intro loaded
    apply Program.returns_bind
    intro encoded
    dsimp only
    split_ifs
    · exact fun _ h => absurd h (by simp)
    · exact fun _ => rfl

theorem generatePrivateKey_returns (crypto : TeslaCrypto) (key : Bytes 32) :
    (teslaCryptoGeneratePrivateKey crypto key).Returns fun r =>
      r.1 = true → r.2.1.keyReady = true := by
  simp only [teslaCryptoGeneratePrivateKey, hal_eq, Program.call_bind, Program.done_bind,
    Program.pure_eq]
  intro r
  dsimp only
  split
  · intro r
    dsimp only
    split_ifs
    · exact fun _ h => absurd h (by simp)
    · exact (setPrivateKey_returns _ _).bind fun _ h => h
  · exact fun _ h => absurd h (by simp)

theorem prepareIdentity_returns (crypto : TeslaCrypto) (identity : TeslaIdentity) :
    (teslaKeyCardPrepareIdentity crypto identity).Returns fun r =>
      r.1 = true → r.2.1.keyReady = true := by
  apply Program.returns_bind
  intro loaded
  dsimp only
  split_ifs
  · exact (setPrivateKey_returns _ _).bind fun _ h => h
  · exact fun h => absurd h (by simp)
  · intro uid
    apply (generatePrivateKey_returns _ _).bind
    intro generated hready
    split_ifs with hnot
    · exact fun h => absurd h (by simp)
    · exact Program.returns_bind fun saved _ => hready (by simpa using hnot)

/-- A preparation changes the context and the identity only, and has a key loaded
when it reports success. -/
theorem prepareApp_accepts (hobject : m.object = none) (hrunning : m.running = false) :
    (nfcProtocol leaving).Accepts (prepareApp app) m fun r m' =>
      (r.2 = { app with crypto := r.2.crypto, identity := r.2.identity } ∧
        (r.1 = true → ∃ crypto, r.2.crypto = some crypto ∧ crypto.keyReady = true)) ∧ m' = m := by
  have hkeep (c : HalCall) (hc : OutsideCall c) :=
    @OutsideCall.allowed leaving m c hc hrunning hobject
  unfold prepareApp
  cases happ : app.crypto with
  | none =>
    obtain ⟨model, screen, identity, crypto, nfc⟩ := app
    obtain rfl : crypto = none := happ
    exact ⟨⟨rfl, fun h => absurd h (by simp)⟩, rfl⟩
  | some crypto =>
    apply Monitor.Accepts.of_uses hkeep
    · exact Program.uses_bind ((prepareIdentity_uses crypto _).mono fun _ => PrepareCall.outside)
        fun _ => trivial
    · apply (prepareIdentity_returns crypto app.identity).bind
      intro r hready
      exact ⟨rfl, fun h => ⟨_, rfl, hready h⟩⟩

structure NfcStatus.Matches (m : NfcStatus) (app : TeslaKeyCardApp) : Prop where
  object : m.object = app.nfc.map TeslaNfc.address
  running : m.running = (app.nfc.map TeslaNfc.listener).getD false

theorem NfcStatus.Matches.stopped (h : m.Matches app) (queued : ℕ) (model : TeslaKeyCardViewModel)
    (screen : TeslaKeyCardScreen) :
    NfcStatus.Matches { m with running := false, queued }
      { app with model, screen, nfc := app.nfc.map TeslaNfc.stopped } := by
  constructor
  · rw [h.object, Option.map_map]
    rfl
  · cases app.nfc with
    | none => rfl
    | some nfc => rfl

theorem freeNfc_accepts (h : m.Matches app) (hqueue : m.queued = 0 ∨ leaving = true) :
    (nfcProtocol leaving).Accepts (freeNfc app) m fun app' m' =>
      app' = { app with nfc := none } ∧ m' = { m with object := none, running := false } := by
  obtain ⟨model, screen, identity, crypto, nfc⟩ := app
  obtain ⟨object, running, queued⟩ := m
  obtain ⟨rfl, rfl⟩ : object = _ ∧ running = _ := ⟨h.object, h.running⟩
  cases nfc with
  | none => exact ⟨rfl, rfl⟩
  | some nfc =>
    apply (nfcFree_accepts rfl rfl hqueue).bind
    intro _ m' hm
    exact ⟨rfl, hm⟩

theorem stopNfc_accepts (h : m.Matches app) :
    (nfcProtocol leaving).Accepts (stopNfc app) m fun app' m' =>
      app' = { app with nfc := app.nfc.map TeslaNfc.stopped } ∧
        m' = { m with running := false } := by
  obtain ⟨model, screen, identity, crypto, nfc⟩ := app
  obtain ⟨object, running, queued⟩ := m
  obtain ⟨rfl, rfl⟩ : object = _ ∧ running = _ := ⟨h.object, h.running⟩
  cases nfc with
  | none => exact ⟨rfl, rfl⟩
  | some nfc =>
    apply (nfcStop_accepts rfl rfl).bind
    intro nfc' m' hstopped
    obtain ⟨rfl, rfl⟩ := hstopped
    exact ⟨rfl, rfl⟩

def NfcStatus.serving (address : ℕ) : NfcStatus := ⟨some address, true, teslaNfcEventQueueSize⟩

def NfcStatus.absent : NfcStatus := ⟨none, false, 0⟩

theorem updateNfc_accepts {crypto : TeslaCrypto} (hcrypto : app.crypto = some crypto)
    (hready : crypto.keyReady = true) (hnfc : app.nfc = none) :
    (nfcProtocol leaving).Accepts (teslaKeyCardUpdateNfc app) .absent fun app' m' =>
      (∃ address, m' = .serving address ∧
          app' = { app with nfc := some (builtNfc crypto app.identity.uid address).started }) ∨
        app' = { app with nfc := none } ∧ m' = .absent := by
  have hmatch : NfcStatus.absent.Matches app := ⟨by rw [hnfc]; rfl, by rw [hnfc]; rfl⟩
  apply (freeNfc_accepts hmatch (Or.inl rfl)).bind
  intro app' m' h
  obtain ⟨rfl, rfl⟩ := h
  simp only [hcrypto]
  apply (nfcAlloc_accepts hready rfl rfl rfl).bind
  intro nfc m' h
  obtain ⟨address, rfl, rfl⟩ := h
  apply (nfcStart_accepts rfl rfl rfl rfl).bind
  intro r m' h
  rcases h with ⟨rfl, rfl⟩ | ⟨rfl, rfl⟩
  · exact Or.inl ⟨address, rfl, rfl⟩
  · apply (nfcFree_accepts rfl rfl (Or.inl rfl)).bind
    intro _ m' hm
    exact Or.inr ⟨rfl, hm⟩

theorem resumeNfc_accepts (h : m.Matches app) (hrunning : m.running = false)
    (hqueue : m.queued = 0) :
    (nfcProtocol leaving).Accepts (teslaKeyCardResumeNfc app) m fun r m' =>
      (∃ nfc, app.nfc = some nfc ∧ r = (true, { app with nfc := some nfc.started }) ∧
          m' = .serving nfc.address) ∨
        r = (false, { app with nfc := none }) ∧ m' = .absent := by
  obtain ⟨model, screen, identity, crypto, nfc⟩ := app
  obtain ⟨object, running, queued⟩ := m
  obtain ⟨rfl, hlistener⟩ : object = _ ∧ running = _ := ⟨h.object, h.running⟩
  obtain rfl : running = false := hrunning
  obtain rfl : queued = 0 := hqueue
  cases nfc with
  | none => exact Or.inr ⟨rfl, rfl⟩
  | some nfc =>
    apply (nfcStart_accepts hlistener.symm rfl rfl rfl).bind
    intro r m' hstart
    rcases hstart with ⟨rfl, rfl⟩ | ⟨rfl, rfl⟩
    · exact Or.inl ⟨nfc, rfl, rfl, rfl⟩
    · apply (nfcFree_accepts rfl rfl (Or.inl rfl)).bind
      intro _ m' hm
      exact Or.inr ⟨rfl, hm⟩

end

end FlipperApps.Tesla
