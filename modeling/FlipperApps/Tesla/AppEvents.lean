import FlipperApps.Tesla.KeyCard

/-!
# The event handlers of `tesla_key_card.c`

What the view dispatcher calls: the tick, the custom events of the reset dialog
and the back button; and the end of the app.
-/

namespace FlipperApps.Tesla
open Calls

def teslaAppEventResetRequest : UInt32 := 0x00000001
def teslaAppEventResetCancel : UInt32 := 0x00000002
def teslaAppEventResetConfirm : UInt32 := 0x00000003

def teslaNfcEventQueueSize : ℕ := 16
def teslaNfcEventsPerTick : ℕ := 8

/-- A put that does not wait: a full queue drops the event. -/
def teslaKeyCardNfcEvent (queue : List TeslaKeyCardNfcEvent) (event : TeslaNfcEvent)
    (cryptoTimeMs : UInt16) : List TeslaKeyCardNfcEvent :=
  if queue.length < teslaNfcEventQueueSize then queue ++ [⟨event, cryptoTimeMs⟩] else queue

def TeslaKeyCardViewModel.handleNfcEvent (model : TeslaKeyCardViewModel)
    (nfcEvent : TeslaNfcEvent) (cryptoTimeMs : UInt16) : TeslaKeyCardViewModel :=
  if nfcEvent = .select then { model with sessions := model.sessions + 1, state := .present }
  else if nfcEvent = .authenticate then
    { model with
      authentications := model.authentications + 1
      lastCryptoTimeMs := cryptoTimeMs
      state := .authenticated }
  else if nfcEvent = .fieldOff ∨ nfcEvent = .halted then { model with state := .ready }
  else if nfcEvent = .transmitError ∨ nfcEvent = .protocolError then { model with state := .error }
  else model

def teslaKeyCardHandleNfcEvent (app : TeslaKeyCardApp) (nfcEvent : TeslaNfcEvent)
    (cryptoTimeMs : UInt16) : TeslaKeyCardApp :=
  { app with model := app.model.handleNfcEvent nfcEvent cryptoTimeMs }

def takeNfcEvents : ℕ → TeslaKeyCardApp → HalProgram TeslaKeyCardApp
  | 0, app => return app
  | n + 1, app => do
    match ← hal .nfcEventQueueGet with
    | none => return app
    | some event =>
      takeNfcEvents n (teslaKeyCardHandleNfcEvent app event.event event.cryptoTimeMs)

def teslaKeyCardTickEventCallback (app : TeslaKeyCardApp) : HalProgram TeslaKeyCardApp :=
  takeNfcEvents teslaNfcEventsPerTick app

/-- The dialog and the view follow `screen`. -/
def teslaKeyCardCustomEventCallback (app : TeslaKeyCardApp) (event : UInt32) :
    HalProgram (Bool × TeslaKeyCardApp) :=
  if event = teslaAppEventResetRequest ∧ app.screen = .main then do
    let app ← stopNfc app
    teslaKeyCardClearNfcEvents
    return (true, { app with screen := .reset })
  else if event = teslaAppEventResetCancel ∧ app.screen = .reset then do
    let (nfcReady, app) ← teslaKeyCardResumeNfc { app with screen := .main }
    return (true, teslaKeyCardSetModel app (if nfcReady then .ready else .error) false)
  else if event = teslaAppEventResetConfirm ∧ app.screen = .reset then do
    let (_, app) ← teslaKeyCardResetIdentity { app with screen := .main }
    return (true, app)
  else return (false, app)

inductive NavigationRequest
  | sendCustomEvent (event : UInt32)
  | stop

def teslaKeyCardNavigationCallback (app : TeslaKeyCardApp) : NavigationRequest :=
  if app.screen = .reset then .sendCustomEvent teslaAppEventResetCancel else .stop

def teslaKeyCardAppFree (app : TeslaKeyCardApp) : HalProgram Unit := do
  match app.nfc with
  | none => teslaCryptoFree app.crypto
  | some nfc => do
    teslaNfcFree nfc
    teslaCryptoFree app.crypto

end FlipperApps.Tesla
