import FlipperApps.Tesla.ObjectProtocol

/-!
# The event handlers keep the protocol

Between two events the listener runs exactly when the main screen holds an NFC
object, and the queue of a stopped listener is empty. Every custom event, the
start and the end of the app follow the protocol of the NFC object.
-/

namespace FlipperApps.Tesla
open Calls

/-- The states in which the screen says that a vehicle may use the card. -/
def TeslaUiState.Serving (state : TeslaUiState) : Prop :=
  state = .ready ∨ state = .present ∨ state = .authenticated

structure Settled (m : NfcStatus) (app : TeslaKeyCardApp) : Prop where
  agrees : m.Matches app
  bound : m.queued ≤ teslaNfcEventQueueSize
  empty : m.running = false → m.queued = 0
  main : app.screen = .main → app.nfc.isSome = true → m.running = true
  reset : app.screen = .reset → m.running = false
  shows : app.screen = .main → app.model.state.Serving → app.nfc.isSome = true

/-- What a rebuild leaves: the new identity is served, or there is no NFC object. -/
inductive RebuildsTo (screen : TeslaKeyCardScreen) : Bool × TeslaKeyCardApp → NfcStatus → Prop
  | served {crypto : TeslaCrypto} {identity : TeslaIdentity} (address : ℕ)
      (hready : crypto.keyReady = true) :
      RebuildsTo screen (true, ⟨⟨.ready, 0, 0, 0, identity.uid⟩, screen, identity, some crypto,
        some (builtNfc crypto identity.uid address).started⟩) (.serving address)
  | failed {app : TeslaKeyCardApp} (hscreen : app.screen = screen)
      (hstate : app.model.state = .error) (hnfc : app.nfc = none) :
      RebuildsTo screen (false, app) .absent

/-- What a reset leaves. An identity that could not be deleted stays in use. -/
inductive ResetsTo (app : TeslaKeyCardApp) : Bool × TeslaKeyCardApp → NfcStatus → Prop
  | kept {nfc : TeslaNfc} (hnfc : app.nfc = some nfc) :
      ResetsTo app (false, { app with
        model := { app.model with state := .error }
        nfc := some nfc.started }) (.serving nfc.address)
  | dropped : ResetsTo app (false, { app with
      model := { app.model with state := .error }
      nfc := none }) .absent
  | rebuilt {r : Bool × TeslaKeyCardApp} {m : NfcStatus} (h : RebuildsTo app.screen r m) :
      ResetsTo app r m

section
variable {leaving : Bool} {m : NfcStatus} {app : TeslaKeyCardApp}

theorem rebuild_accepts (h : m.Matches app) (hqueue : m.queued = 0) :
    (nfcProtocol leaving).Accepts (rebuildIdentity app) m (RebuildsTo app.screen) := by
  have hkeep (c : HalCall) (hc : ContextCall c) :=
    @OutsideCall.allowed leaving .absent c hc.outside rfl rfl
  apply (freeNfc_accepts h (Or.inl hqueue)).bind
  intro app' m' hfreed
  obtain ⟨rfl, rfl⟩ := hfreed
  rw [hqueue]
  change (nfcProtocol leaving).Accepts _ .absent _
  apply (Monitor.Accepts.of_uses hkeep (cryptoFree_uses _) (Program.returns_true _)).bind
  intro _ m' hm
  obtain ⟨-, rfl⟩ := hm
  apply (Monitor.Accepts.of_uses hkeep cryptoAlloc_uses (Program.returns_true _)).bind
  intro crypto m' hm
  obtain ⟨-, rfl⟩ := hm
  apply (prepareApp_accepts rfl rfl).bind
  intro r m' hprepared
  obtain ⟨prepared, app'⟩ := r
  obtain ⟨⟨happ, hready⟩, rfl⟩ := hprepared
  cases prepared with
  | false =>
    rw [show app' = _ from happ]
    exact RebuildsTo.failed rfl rfl rfl
  | true =>
    obtain ⟨crypto', hcrypto, hkey⟩ := hready rfl
    have hnfc : app'.nfc = none := by rw [show app' = _ from happ]
    have hscreen : app'.screen = app.screen := by rw [show app' = _ from happ]
    apply (updateNfc_accepts hcrypto hkey hnfc).bind
    intro app'' m' hupdated
    rcases hupdated with ⟨address, rfl, rfl⟩ | ⟨rfl, rfl⟩
    · dsimp only
      rw [← hscreen, hcrypto]
      exact RebuildsTo.served address hkey
    · exact RebuildsTo.failed hscreen rfl rfl

theorem reset_accepts (h : m.Matches app) (hbound : m.queued ≤ teslaNfcEventQueueSize) :
    (nfcProtocol leaving).Accepts (teslaKeyCardResetIdentity app) m (ResetsTo app) := by
  have hmodel : m.Matches (teslaKeyCardSetModel app .resetting false) := ⟨h.object, h.running⟩
  apply (stopNfc_accepts hmodel).bind
  intro app' m' hstopped
  obtain ⟨rfl, rfl⟩ := hstopped
  have hroom : m.queued ≤ 17 := Nat.le_succ_of_le hbound
  apply (drain_accepts (m := { m with running := false }) rfl hroom).bind
  intro _ m' hm
  obtain rfl := hm
  have hdelete (next : Bool → HalProgram (Bool × TeslaKeyCardApp))
      (hnext : ∀ deleted, (nfcProtocol leaving).Accepts (next deleted)
        { m with running := false, queued := 0 } (ResetsTo app)) :
      (nfcProtocol leaving).Accepts (teslaIdentityDelete >>= next)
        { m with running := false, queued := 0 } (ResetsTo app) :=
    ⟨rfl, fun _ => ⟨rfl, fun _ => hnext _⟩⟩
  apply hdelete
  intro deleted
  have hmatch := h.stopped 0 (teslaKeyCardSetModel app .resetting false).model app.screen
  cases deleted with
  | false =>
    apply (resumeNfc_accepts hmatch rfl rfl).bind
    intro r m' hresumed
    rcases hresumed with ⟨nfc, hnfc, rfl, rfl⟩ | ⟨rfl, rfl⟩
    · obtain ⟨old, hold, rfl⟩ := Option.map_eq_some_iff.mp hnfc
      exact @ResetsTo.kept app old hold
    · exact ResetsTo.dropped
  | true =>
    apply (rebuild_accepts hmatch rfl).mono
    intro r m' hrebuilt
    exact ResetsTo.rebuilt hrebuilt

theorem NfcStatus.serving_settled {address : ℕ} {nfc : TeslaNfc} (hnfc : app.nfc = some nfc)
    (haddress : nfc.address = address) (hlistener : nfc.listener = true)
    (hscreen : app.screen = .main) : Settled (.serving address) app where
  agrees := ⟨by rw [hnfc, ← haddress]; rfl, by rw [hnfc]; exact hlistener.symm⟩
  bound := Nat.le_refl _
  empty := fun h => absurd h (by simp [NfcStatus.serving])
  main := fun _ _ => rfl
  reset := fun h => absurd (hscreen.symm.trans h) (by decide)
  shows := fun _ _ => by rw [hnfc]; rfl

theorem NfcStatus.absent_settled (hnfc : app.nfc = none) (hscreen : app.screen = .main)
    (hstate : app.model.state = .error) : Settled .absent app where
  agrees := ⟨by rw [hnfc]; rfl, by rw [hnfc]; rfl⟩
  bound := Nat.zero_le _
  empty := fun _ => rfl
  main := fun _ h => by simp [hnfc] at h
  reset := fun h => absurd (hscreen.symm.trans h) (by decide)
  shows := fun _ h => by simp [TeslaUiState.Serving, hstate] at h

theorem RebuildsTo.settled {r : Bool × TeslaKeyCardApp} (h : RebuildsTo .main r m) :
    Settled m r.2 := by
  cases h with
  | served address hready => exact NfcStatus.serving_settled rfl rfl rfl rfl
  | failed hscreen hstate hnfc => exact NfcStatus.absent_settled hnfc hscreen hstate

theorem ResetsTo.settled {r : Bool × TeslaKeyCardApp} (h : ResetsTo app r m)
    (hscreen : app.screen = .main) : Settled m r.2 := by
  cases h with
  | kept hnfc => exact NfcStatus.serving_settled rfl rfl rfl hscreen
  | dropped => exact NfcStatus.absent_settled rfl hscreen rfl
  | rebuilt h => exact (hscreen ▸ h).settled

theorem customEvent_accepts (h : Settled m app) (event : UInt32) :
    (nfcProtocol leaving).Accepts (teslaKeyCardCustomEventCallback app event) m
      fun r m' => Settled m' r.2 := by
  unfold teslaKeyCardCustomEventCallback
  by_cases hrequest : event = teslaAppEventResetRequest ∧ app.screen = .main
  · rw [if_pos hrequest]
    apply (stopNfc_accepts h.agrees).bind
    intro app' m' hstopped
    obtain ⟨rfl, rfl⟩ := hstopped
    have hroom : m.queued ≤ 17 := Nat.le_succ_of_le h.bound
    apply (drain_accepts (m := { m with running := false }) rfl hroom).bind
    intro _ m' hm
    obtain rfl := hm
    exact ⟨h.agrees.stopped 0 app.model .reset, Nat.zero_le _, fun _ => rfl,
      fun hmain => absurd hmain (by simp), fun _ => rfl, fun hmain => absurd hmain (by simp)⟩
  rw [if_neg hrequest]
  by_cases hcancel : event = teslaAppEventResetCancel ∧ app.screen = .reset
  · rw [if_pos hcancel]
    have hrunning := h.reset hcancel.2
    have hmatch : m.Matches { app with screen := .main } := ⟨h.agrees.object, h.agrees.running⟩
    apply (resumeNfc_accepts hmatch hrunning (h.empty hrunning)).bind
    intro r m' hresumed
    rcases hresumed with ⟨nfc, hnfc, rfl, rfl⟩ | ⟨rfl, rfl⟩
    · exact NfcStatus.serving_settled rfl rfl rfl rfl
    · exact NfcStatus.absent_settled rfl rfl rfl
  rw [if_neg hcancel]
  by_cases hconfirm : event = teslaAppEventResetConfirm ∧ app.screen = .reset
  · rw [if_pos hconfirm]
    have hmatch : m.Matches { app with screen := .main } := ⟨h.agrees.object, h.agrees.running⟩
    apply (reset_accepts hmatch h.bound).bind
    intro r m' hreset
    exact hreset.settled rfl
  · rw [if_neg hconfirm]
    exact h

theorem start_accepts :
    (nfcProtocol leaving).Accepts teslaKeyCardStart .absent fun app m => Settled m app := by
  have hkeep (c : HalCall) (hc : ContextCall c) :=
    @OutsideCall.allowed leaving .absent c hc.outside rfl rfl
  apply (Monitor.Accepts.of_uses hkeep cryptoAlloc_uses (Program.returns_true _)).bind
  intro crypto m' hm
  obtain ⟨-, rfl⟩ := hm
  apply (prepareApp_accepts rfl rfl).bind
  intro r m' hprepared
  obtain ⟨prepared, app⟩ := r
  obtain ⟨⟨happ, hready⟩, rfl⟩ := hprepared
  have hnfc : app.nfc = none := by rw [show app = _ from happ]
  have hscreen : app.screen = .main := by rw [show app = _ from happ]
  cases prepared with
  | false =>
    exact NfcStatus.absent_settled hnfc hscreen rfl
  | true =>
    obtain ⟨crypto', hcrypto, hkey⟩ := hready rfl
    apply (updateNfc_accepts hcrypto hkey hnfc).bind
    intro app' m' hupdated
    rcases hupdated with ⟨address, rfl, rfl⟩ | ⟨rfl, rfl⟩
    · exact NfcStatus.serving_settled rfl rfl rfl hscreen
    · exact NfcStatus.absent_settled rfl hscreen rfl

theorem appFree_accepts (h : Settled m app) :
    (nfcProtocol true).Accepts (teslaKeyCardAppFree app) m fun _ _ => True := by
  have hobject := h.agrees.object
  have hrunning := h.agrees.running
  unfold teslaKeyCardAppFree
  cases hnfc : app.nfc with
  | none =>
    rw [hnfc] at hobject hrunning
    apply Monitor.Accepts.mono (Monitor.Accepts.of_uses
      (fun c hc => hc.outside.allowed hrunning hobject) (cryptoFree_uses _)
      (Program.returns_true _))
    exact fun _ _ _ => trivial
  | some nfc =>
    rw [hnfc] at hobject hrunning
    apply (nfcFree_accepts hobject hrunning (Or.inr rfl)).bind
    intro _ m' hm
    obtain rfl := hm
    apply Monitor.Accepts.mono (Monitor.Accepts.of_uses
      (fun c hc => hc.outside.allowed rfl rfl) (cryptoFree_uses _) (Program.returns_true _))
    exact fun _ _ _ => trivial

end

end FlipperApps.Tesla
