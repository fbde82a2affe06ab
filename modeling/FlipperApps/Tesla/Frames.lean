import FlipperApps.Tesla.ObjectProtocol

/-!
# What each function of `tesla_key_card.c` may change of the app

Only a custom event changes the screen, and as the source has it; and the identifier
that the model shows stays the one that the NFC object answers with.
-/

namespace FlipperApps.Tesla
open Calls

def TeslaKeyCardApp.handles (app : TeslaKeyCardApp) (event : UInt32) : Bool :=
  match app.screen with
  | .main => event = teslaAppEventResetRequest
  | .reset => event = teslaAppEventResetCancel || event = teslaAppEventResetConfirm

def screenAfter (screen : TeslaKeyCardScreen) (event : UInt32) : TeslaKeyCardScreen :=
  if event = teslaAppEventResetRequest ∧ screen = .main then .reset
  else if (event = teslaAppEventResetCancel ∨ event = teslaAppEventResetConfirm) ∧
      screen = .reset then .main
  else screen

/-- The identifier on the screen is the one that is answered with. -/
def ShownUid (app : TeslaKeyCardApp) : Prop := ∀ nfc, app.nfc = some nfc → nfc.uid = app.model.uid

def OwnUid (app : TeslaKeyCardApp) : Prop := ∀ nfc, app.nfc = some nfc → nfc.uid = app.identity.uid

section
variable {app : TeslaKeyCardApp}

theorem handles_confirm (hscreen : app.screen = .reset) :
    app.handles teslaAppEventResetConfirm = true := by
  rw [TeslaKeyCardApp.handles, hscreen]
  rfl

theorem OwnUid.of_none (h : app.nfc = none) : OwnUid app := fun _ hnfc => nomatch h.symm.trans hnfc

theorem ShownUid.of_none (h : app.nfc = none) : ShownUid app :=
  fun _ hnfc => nomatch h.symm.trans hnfc

theorem nfcStart_returns (nfc : TeslaNfc) :
    (teslaNfcStart nfc).Returns fun r => r.2.uid = nfc.uid := by
  unfold teslaNfcStart
  cases nfc.listener with
  | true => rfl
  | false =>
    intro allocated
    cases allocated with
    | false => rfl
    | true => exact fun _ => rfl

theorem nfcAlloc_returns (crypto : TeslaCrypto) (uid : Bytes 4) :
    (teslaNfcAlloc crypto uid).Returns fun nfc => nfc.uid = uid := by
  intro address
  dsimp only
  cases teslaCryptoGetPublicKey crypto with
  | none => exact fun _ => rfl
  | some publicKey => rfl

theorem freeNfc_returns (app : TeslaKeyCardApp) :
    (freeNfc app).Returns (· = { app with nfc := none }) := by
  obtain ⟨model, screen, identity, crypto, nfc⟩ := app
  cases nfc with
  | none => rfl
  | some nfc => exact Program.returns_bind fun _ => rfl

theorem stopNfc_returns (app : TeslaKeyCardApp) :
    (stopNfc app).Returns (· = { app with nfc := app.nfc.map TeslaNfc.stopped }) := by
  obtain ⟨model, screen, identity, crypto, nfc⟩ := app
  cases nfc with
  | none => rfl
  | some nfc =>
    have hstop : (teslaNfcStop nfc).Returns (· = nfc.stopped) := by
      unfold teslaNfcStop
      split_ifs
      · exact fun _ _ => rfl
      · rfl
    apply hstop.bind
    intro nfc' h
    rw [h]
    rfl

theorem resumeNfc_returns (app : TeslaKeyCardApp) :
    (teslaKeyCardResumeNfc app).Returns fun r => ∃ nfc, r.2 = { app with nfc } ∧
      ∀ new, nfc = some new → ∃ old, app.nfc = some old ∧ new.uid = old.uid := by
  obtain ⟨model, screen, identity, crypto, nfc⟩ := app
  cases nfc with
  | none => exact ⟨none, rfl, nofun⟩
  | some old =>
    apply (nfcStart_returns old).bind
    intro r huid
    obtain ⟨started, new⟩ := r
    cases started with
    | true =>
      refine ⟨some new, rfl, fun nfc hnfc => ⟨old, rfl, ?_⟩⟩
      obtain rfl := Option.some.inj hnfc
      exact huid
    | false => exact Program.returns_bind fun _ => ⟨none, rfl, nofun⟩

theorem updateNfc_returns (app : TeslaKeyCardApp) :
    (teslaKeyCardUpdateNfc app).Returns fun app' =>
      ∃ nfc, app' = { app with nfc } ∧ OwnUid app' := by
  apply (freeNfc_returns app).bind
  rintro _ rfl
  obtain ⟨model, screen, identity, crypto, nfc⟩ := app
  cases crypto with
  | none => exact ⟨none, rfl, .of_none rfl⟩
  | some crypto =>
    apply (nfcAlloc_returns crypto identity.uid).bind
    intro new huid
    apply (nfcStart_returns new).bind
    intro r huid'
    obtain ⟨started, new'⟩ := r
    cases started with
    | true =>
      refine ⟨some new', rfl, fun nfc hnfc => ?_⟩
      obtain rfl := Option.some.inj hnfc
      exact huid'.trans huid
    | false => exact Program.returns_bind fun _ => ⟨none, rfl, .of_none rfl⟩

theorem prepareApp_returns (app : TeslaKeyCardApp) :
    (prepareApp app).Returns fun r => ∃ crypto identity, r.2 = { app with crypto, identity } := by
  obtain ⟨model, screen, identity, crypto, nfc⟩ := app
  cases crypto with
  | none => exact ⟨none, identity, rfl⟩
  | some crypto => exact Program.returns_bind fun r => ⟨some r.2.1, r.2.2, rfl⟩

theorem rebuild_returns (app : TeslaKeyCardApp) :
    (rebuildIdentity app).Returns fun r => r.2.screen = app.screen ∧ ShownUid r.2 ∧
      r.1 = r.2.nfc.isSome := by
  apply (freeNfc_returns app).bind
  rintro _ rfl
  apply Program.returns_bind
  intro _
  apply Program.returns_bind
  intro crypto
  apply (prepareApp_returns _).bind
  intro r hr
  obtain ⟨prepared, app'⟩ := r
  obtain ⟨crypto', identity', rfl⟩ := hr
  cases prepared with
  | false => exact ⟨rfl, .of_none rfl, rfl⟩
  | true =>
    apply (updateNfc_returns _).bind
    rintro _ ⟨nfc, rfl, hown⟩
    exact ⟨rfl, hown, rfl⟩

theorem reset_returns (app : TeslaKeyCardApp) :
    (teslaKeyCardResetIdentity app).Returns fun r =>
      r.2.screen = app.screen ∧ (ShownUid app → ShownUid r.2) ∧
        (r.1 = true → r.2.nfc.isSome = true) := by
  apply (stopNfc_returns _).bind
  rintro _ rfl
  apply Program.returns_bind
  intro _
  apply Program.returns_bind
  intro deleted
  cases deleted with
  | true => exact (rebuild_returns _).mono fun r hr =>
      ⟨hr.1, fun _ => hr.2.1, fun h => hr.2.2.symm.trans h⟩
  | false =>
    apply (resumeNfc_returns _).bind
    intro r hr
    obtain ⟨ready, app'⟩ := r
    obtain ⟨nfc, rfl, hsame⟩ := hr
    refine ⟨rfl, fun h new hnew => ?_, nofun⟩
    obtain ⟨old, hold, huid⟩ := hsame new hnew
    obtain ⟨nfc', hnfc', rfl⟩ := Option.map_eq_some_iff.mp hold
    exact huid.trans (h nfc' hnfc')

theorem customEvent_returns (app : TeslaKeyCardApp) (event : UInt32) :
    (teslaKeyCardCustomEventCallback app event).Returns fun r =>
      r.1 = app.handles event ∧ r.2.screen = screenAfter app.screen event ∧
        (ShownUid app → ShownUid r.2) := by
  unfold teslaKeyCardCustomEventCallback screenAfter TeslaKeyCardApp.handles
  by_cases hrequest : event = teslaAppEventResetRequest ∧ app.screen = .main
  · rw [if_pos hrequest, if_pos hrequest, hrequest.2]
    apply (stopNfc_returns app).bind
    rintro _ rfl
    refine Program.returns_bind fun _ => ⟨by simp [hrequest.1], rfl, fun h new hnew => ?_⟩
    obtain ⟨old, hold, rfl⟩ := Option.map_eq_some_iff.mp hnew
    exact h old hold
  rw [if_neg hrequest, if_neg hrequest]
  by_cases hcancel : event = teslaAppEventResetCancel ∧ app.screen = .reset
  · rw [if_pos hcancel, if_pos ⟨.inl hcancel.1, hcancel.2⟩, hcancel.2]
    apply (resumeNfc_returns _).bind
    intro r hr
    obtain ⟨ready, app'⟩ := r
    obtain ⟨nfc, rfl, hsame⟩ := hr
    refine ⟨by simp [hcancel.1], rfl, fun h new hnew => ?_⟩
    obtain ⟨old, hold, huid⟩ := hsame new hnew
    exact huid.trans (h old hold)
  rw [if_neg hcancel]
  by_cases hconfirm : event = teslaAppEventResetConfirm ∧ app.screen = .reset
  · rw [if_pos hconfirm, if_pos ⟨.inr hconfirm.1, hconfirm.2⟩, hconfirm.2]
    exact (reset_returns _).bind fun r hr => ⟨by simp [hconfirm.1], hr.1, fun h => hr.2.1 h⟩
  rw [if_neg hconfirm, if_neg]
  · cases hscreen : app.screen with
    | main => exact ⟨by simpa [hscreen] using hrequest, hscreen, id⟩
    | reset => exact ⟨by simpa [hscreen] using And.intro hcancel hconfirm, hscreen, id⟩
  · rintro ⟨hevent | hevent, hscreen⟩
    · exact hcancel ⟨hevent, hscreen⟩
    · exact hconfirm ⟨hevent, hscreen⟩

theorem takeNfcEvents_returns (n : ℕ) (app : TeslaKeyCardApp) :
    (takeNfcEvents n app).Returns fun app' =>
      ∃ model, app' = { app with model } ∧ model.uid = app.model.uid := by
  induction n generalizing app with
  | zero => exact ⟨app.model, rfl, rfl⟩
  | succ n ih =>
    intro event
    cases event with
    | none => exact ⟨app.model, rfl, rfl⟩
    | some event =>
      apply (ih _).mono
      rintro _ ⟨model, rfl, huid⟩
      refine ⟨model, rfl, huid.trans ?_⟩
      cases event.event <;> rfl

theorem start_returns : teslaKeyCardStart.Returns fun app =>
    app.screen = .main ∧ ShownUid app := by
  apply Program.returns_bind
  intro crypto
  apply (prepareApp_returns _).bind
  intro r hr
  obtain ⟨prepared, app⟩ := r
  obtain ⟨crypto', identity', rfl⟩ := hr
  cases prepared with
  | false => exact ⟨rfl, .of_none rfl⟩
  | true =>
    apply (updateNfc_returns _).bind
    rintro _ ⟨nfc, rfl, hown⟩
    exact ⟨rfl, hown⟩

end

end FlipperApps.Tesla
