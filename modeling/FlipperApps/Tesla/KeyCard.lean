import FlipperApps.Tesla.Apdu
import FlipperApps.Tesla.Crypto
import FlipperApps.Tesla.Identity

/-!
# The key card application of `tesla_key_card.c` and `tesla_nfc.c`

The identity, the crypto context and the NFC listener are built and torn down
together at startup and by a reset.
-/

namespace FlipperApps.Tesla
open Calls

inductive TeslaUiState
  | initializing
  | ready
  | present
  | authenticated
  | error
  | resetting
  deriving DecidableEq

structure TeslaKeyCardViewModel where
  state : TeslaUiState
  sessions : UInt32
  authentications : UInt32
  lastCryptoTimeMs : UInt16
  uid : Bytes 4
  deriving DecidableEq

inductive TeslaKeyCardScreen
  | main
  | reset
  deriving DecidableEq

/-- The crypto context is referred to by its address. The only authenticate
callback is `tesla_nfc_authenticate`, with the NFC object as its context. -/
structure TeslaNfc where
  address : ℕ
  crypto : ℕ
  uid : Bytes 4
  listener : Bool
  apdu : TeslaApdu Unit ℕ
  cryptoTimeMs : UInt32
  deriving DecidableEq

structure TeslaKeyCardApp where
  model : TeslaKeyCardViewModel
  screen : TeslaKeyCardScreen
  identity : TeslaIdentity
  crypto : Option TeslaCrypto
  nfc : Option TeslaNfc
  deriving DecidableEq

def teslaNfcAlloc (crypto : TeslaCrypto) (uid : Bytes 4) : HalProgram TeslaNfc := do
  let address ← hal .mallocNfc
  let publicKey ←
    match teslaCryptoGetPublicKey crypto with
    | some publicKey => pure publicKey
    | none => hal .publicKeyAtNull
  return ⟨address, crypto.address, uid, false, teslaApduInit publicKey (some ()) address, 0⟩

def teslaNfcStop (nfc : TeslaNfc) : HalProgram TeslaNfc :=
  let stopped := { nfc with listener := false, apdu := teslaApduResetSession nfc.apdu }
  if nfc.listener then do
    let _ ← hal .nfcListenerStop
    let _ ← hal .nfcListenerFree
    return stopped
  else pure stopped

def teslaNfcFree (nfc : TeslaNfc) : HalProgram Unit := do
  let nfc ← teslaNfcStop nfc
  hal (.freeNfc nfc.address)

def teslaNfcStart (nfc : TeslaNfc) : HalProgram (Bool × TeslaNfc) :=
  if nfc.listener then pure (true, nfc)
  else do
    let nfc := { nfc with apdu := teslaApduResetSession nfc.apdu }
    let allocated ← hal (.nfcListenerAlloc nfc.uid)
    if !allocated then return (false, nfc)
    else
      let _ ← hal (.nfcListenerStart nfc.address)
      return (true, { nfc with listener := true })

def teslaKeyCardSetModel (app : TeslaKeyCardApp) (state : TeslaUiState)
    (clearCounters : Bool) : TeslaKeyCardApp :=
  let model := { app.model with state }
  { app with model :=
    if clearCounters then
      { model with sessions := 0, authentications := 0, lastCryptoTimeMs := 0 }
    else model }

def drainNfcEvents : ℕ → HalProgram Unit
  | 0 => pure ()
  | n + 1 => do
    match ← hal .nfcEventQueueGet with
    | none => return ()
    | some _ => drainNfcEvents n

/-- The queue holds 16 events: the seventeenth request finds it empty. -/
def teslaKeyCardClearNfcEvents : HalProgram Unit := drainNfcEvents 17

def teslaKeyCardPrepareIdentity (crypto : TeslaCrypto) (identity : TeslaIdentity) :
    HalProgram (Bool × TeslaCrypto × TeslaIdentity) := do
  let (loadResult, identity) ← teslaIdentityLoad identity
  if loadResult = .ok then
    let (set, crypto) ← teslaCryptoSetPrivateKey crypto identity.privateKey
    return (set, crypto, identity)
  -- Only a storage without an identity gets a new one.
  else if loadResult ≠ .notFound then return (false, crypto, identity)
  else
    let uid ← teslaIdentityGenerateUid
    let (generated, crypto, privateKey) ←
      teslaCryptoGeneratePrivateKey crypto identity.privateKey
    let identity := ⟨uid, privateKey⟩
    if !generated then return (false, crypto, identity)
    else
      let saved ← teslaIdentitySave identity
      return (saved, crypto, identity)

/-- `app->crypto && tesla_key_card_prepare_identity(app)`. -/
def prepareApp (app : TeslaKeyCardApp) : HalProgram (Bool × TeslaKeyCardApp) :=
  match app.crypto with
  | none => pure (false, app)
  | some crypto => do
    let (prepared, crypto, identity) ← teslaKeyCardPrepareIdentity crypto app.identity
    return (prepared, { app with crypto := some crypto, identity })

def freeNfc (app : TeslaKeyCardApp) : HalProgram TeslaKeyCardApp :=
  match app.nfc with
  | none => pure app
  | some nfc => do
    teslaNfcFree nfc
    return { app with nfc := none }

def teslaKeyCardUpdateNfc (app : TeslaKeyCardApp) : HalProgram TeslaKeyCardApp := do
  let app ← freeNfc app
  match app.crypto with
  | none => return app
  | some crypto => do
    let nfc ← teslaNfcAlloc crypto app.identity.uid
    let (started, nfc) ← teslaNfcStart nfc
    if !started then
      teslaNfcFree nfc
      return { app with nfc := none }
    else return { app with nfc := some nfc }

def teslaKeyCardResumeNfc (app : TeslaKeyCardApp) : HalProgram (Bool × TeslaKeyCardApp) :=
  match app.nfc with
  | none => pure (false, app)
  | some nfc => do
    let (started, nfc) ← teslaNfcStart nfc
    if started then return (true, { app with nfc := some nfc })
    else
      teslaNfcFree nfc
      return (false, { app with nfc := none })

def stopNfc (app : TeslaKeyCardApp) : HalProgram TeslaKeyCardApp :=
  match app.nfc with
  | none => pure app
  | some nfc => do
    let nfc ← teslaNfcStop nfc
    return { app with nfc := some nfc }

/-- The reset once the stored identity is deleted: a new context, a new identity
and a new listener. -/
def rebuildIdentity (app : TeslaKeyCardApp) : HalProgram (Bool × TeslaKeyCardApp) := do
  let app ← freeNfc app
  teslaCryptoFree app.crypto
  let crypto ← teslaCryptoAlloc
  let (prepared, app) ←
    prepareApp { app with crypto, identity := teslaIdentityClear app.identity }
  if !prepared then return (false, teslaKeyCardSetModel app .error true)
  else
    let app ← teslaKeyCardUpdateNfc app
    return (app.nfc.isSome, { app with model := {
      state := if app.nfc.isSome then .ready else .error
      sessions := 0
      authentications := 0
      lastCryptoTimeMs := 0
      uid := app.identity.uid } })

def teslaKeyCardResetIdentity (app : TeslaKeyCardApp) :
    HalProgram (Bool × TeslaKeyCardApp) := do
  let app ← stopNfc (teslaKeyCardSetModel app .resetting false)
  teslaKeyCardClearNfcEvents
  let deleted ← teslaIdentityDelete
  if !deleted then
    -- The old identity stays in use, with its listener started again.
    let (_, app) ← teslaKeyCardResumeNfc app
    return (false, teslaKeyCardSetModel app .error false)
  else rebuildIdentity app

/-- The start of `tesla_key_card_app`, up to the view dispatcher's loop. -/
def teslaKeyCardStart : HalProgram TeslaKeyCardApp := do
  let crypto ← teslaCryptoAlloc
  let model := ⟨.initializing, 0, 0, 0, Bytes.zero 4⟩
  let (prepared, app) ←
    prepareApp ⟨model, .main, ⟨Bytes.zero 4, Bytes.zero 32⟩, crypto, none⟩
  let app ← if prepared then teslaKeyCardUpdateNfc app else pure app
  let state := if prepared && app.nfc.isSome then .ready else .error
  return { app with model := { model with state, uid := app.identity.uid } }

end FlipperApps.Tesla
