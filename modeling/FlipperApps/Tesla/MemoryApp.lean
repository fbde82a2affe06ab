import FlipperApps.Tesla.Memory

/-!
# The crypto context, the NFC object and the app, with their memory

What is built is freed in the order of the source: an NFC object before the
context it authenticates with, the views before the dispatcher that shows them.
-/

namespace FlipperApps.Tesla.Memory
open Calls

def teslaCryptoFree : Option TeslaCrypto → MemoryProgram Unit
  | none => pure ()
  | some crypto => do
    wipe .publicKey
    finish .publicKeyPoint
    finish .privateKey
    finish .group
    wipe .context
    hal (.freeCrypto crypto.address)

def teslaCryptoAlloc : MemoryProgram (Option TeslaCrypto) := do
  match ← hal .mallocCrypto with
  | none => return none
  | some address => do
    take .group
    take .privateKey
    take .publicKeyPoint
    fill .context
    let (error, group) ← hal .ecpGroupLoad
    let crypto := { TeslaCrypto.zeroed address with group }
    if error ≠ 0 then
      let _ ← hal (.furiLog "Unable to load P-256" [])
      teslaCryptoFree (some crypto)
      return none
    else return some { crypto with groupReady := true }

def teslaCryptoEncodePoint (crypto : TeslaCrypto) (error : ℤ) :
    MemoryProgram (ℤ × ℕ × TeslaCrypto) :=
  if error ≠ 0 then pure (error, 0, crypto)
  else do
    fill .publicKey
    let (error, size, publicKey) ←
      hal (.ecpPointWriteBinary crypto.group crypto.publicKeyPoint)
    return (error, size, { crypto with publicKey })

/-- Both objects of the old pair are freed and initialised again. -/
def teslaCryptoSetPrivateKey (crypto : TeslaCrypto) (key : Bytes 32) :
    MemoryProgram (Bool × TeslaCrypto) :=
  if !crypto.groupReady then pure (false, crypto)
  else do
    wipe .publicKey
    finish .privateKey
    take .privateKey
    finish .publicKeyPoint
    take .publicKeyPoint
    let (error, crypto) ← (teslaCryptoLoadScalar crypto.forget key).widen
    let (error, publicKeySize, crypto) ← teslaCryptoEncodePoint crypto error
    if error ≠ 0 ∨ publicKeySize ≠ 65 then
      let _ ← hal (.furiLog "Invalid private key (%d)" [error])
      return (false, crypto)
    else return (true, { crypto with keyReady := true })

/-- `generated` is freed before the error is looked at. -/
def generateScalar (crypto : TeslaCrypto) (key : Bytes 32) : MemoryProgram (ℤ × Bytes 32) := do
  take .generated
  let (error, generated) ← hal (.ecpGenPrivkey crypto.group)
  let r ←
    if error = 0 then do
      fill .key
      hal (.mpiWriteBinary generated)
    else pure (error, key)
  finish .generated
  return r

def teslaCryptoGeneratePrivateKey (crypto : TeslaCrypto) (key : Bytes 32) :
    MemoryProgram (Bool × TeslaCrypto × Bytes 32) := do
  let (error, key) ← generateScalar crypto key
  if error ≠ 0 then
    let _ ← hal (.furiLog "Private-key generation failed (%d)" [error])
    wipe .key
    return (false, crypto, Bytes.zero 32)
  else
    let (set, crypto) ← teslaCryptoSetPrivateKey crypto key
    if set then return (set, crypto, key)
    else
      wipe .key
      return (set, crypto, Bytes.zero 32)

def teslaNfcAlloc (crypto : TeslaCrypto) (uid : Bytes 4) : MemoryProgram TeslaNfc := do
  let address ← hal .mallocNfc
  take .nfcDevice
  take .nfcData
  take .txBuffer
  let publicKey ←
    match teslaCryptoGetPublicKey crypto with
    | some publicKey => pure publicKey
    | none => hal .publicKeyAtNull
  return ⟨address, crypto.address, uid, false, teslaApduInit publicKey (some ()) address, 0⟩

def teslaNfcFree (nfc : TeslaNfc) : MemoryProgram Unit := do
  let nfc ← (teslaNfcStop nfc).widen
  finish .txBuffer
  finish .nfcData
  finish .nfcDevice
  hal (.freeNfc nfc.address)

def teslaKeyCardPrepareIdentity (crypto : TeslaCrypto) (identity : TeslaIdentity) :
    MemoryProgram (Bool × TeslaCrypto × TeslaIdentity) := do
  let (loadResult, identity) ← teslaIdentityLoad identity
  if loadResult = .ok then
    let (set, crypto) ← teslaCryptoSetPrivateKey crypto identity.privateKey
    return (set, crypto, identity)
  else if loadResult ≠ .notFound then return (false, crypto, identity)
  else
    let uid ← teslaIdentityGenerateUid.widen
    let (generated, crypto, privateKey) ←
      teslaCryptoGeneratePrivateKey crypto identity.privateKey
    let identity := ⟨uid, privateKey⟩
    if !generated then return (false, crypto, identity)
    else
      let saved ← teslaIdentitySave identity
      return (saved, crypto, identity)

def prepareApp (app : TeslaKeyCardApp) : MemoryProgram (Bool × TeslaKeyCardApp) :=
  match app.crypto with
  | none => pure (false, app)
  | some crypto => do
    let (prepared, crypto, identity) ← teslaKeyCardPrepareIdentity crypto app.identity
    return (prepared, { app with crypto := some crypto, identity })

def freeNfc (app : TeslaKeyCardApp) : MemoryProgram TeslaKeyCardApp :=
  match app.nfc with
  | none => pure app
  | some nfc => do
    teslaNfcFree nfc
    return { app with nfc := none }

def teslaKeyCardUpdateNfc (app : TeslaKeyCardApp) : MemoryProgram TeslaKeyCardApp := do
  let app ← freeNfc app
  match app.crypto with
  | none => return app
  | some crypto => do
    let nfc ← teslaNfcAlloc crypto app.identity.uid
    let (started, nfc) ← (teslaNfcStart nfc).widen
    if !started then
      teslaNfcFree nfc
      return { app with nfc := none }
    else return { app with nfc := some nfc }

def teslaKeyCardResumeNfc (app : TeslaKeyCardApp) : MemoryProgram (Bool × TeslaKeyCardApp) :=
  match app.nfc with
  | none => pure (false, app)
  | some nfc => do
    let (started, nfc) ← (teslaNfcStart nfc).widen
    if started then return (true, { app with nfc := some nfc })
    else
      teslaNfcFree nfc
      return (false, { app with nfc := none })

def rebuildIdentity (app : TeslaKeyCardApp) : MemoryProgram (Bool × TeslaKeyCardApp) := do
  let app ← freeNfc app
  teslaCryptoFree app.crypto
  let crypto ← teslaCryptoAlloc
  wipe .key
  let (prepared, app) ←
    prepareApp { app with crypto, identity := teslaIdentityClear app.identity }
  if !prepared then return (false, teslaKeyCardSetModel app .error true)
  else
    let app ← teslaKeyCardUpdateNfc app
    return (app.nfc.isSome, { app with model := {
      state := if app.nfc.isSome then .ready else .error
      sessions := 0
      authentications := 0
      lastCryptoTimeMs := 0
      uid := app.identity.uid } })

def teslaKeyCardResetIdentity (app : TeslaKeyCardApp) :
    MemoryProgram (Bool × TeslaKeyCardApp) := do
  let app ← (stopNfc (teslaKeyCardSetModel app .resetting false)).widen
  teslaKeyCardClearNfcEvents.widen
  let deleted ← teslaIdentityDelete
  if !deleted then
    let (_, app) ← teslaKeyCardResumeNfc app
    return (false, teslaKeyCardSetModel app .error false)
  else rebuildIdentity app

def teslaKeyCardCustomEventCallback (app : TeslaKeyCardApp) (event : UInt32) :
    MemoryProgram (Bool × TeslaKeyCardApp) :=
  if event = teslaAppEventResetRequest ∧ app.screen = .main then do
    let app ← (stopNfc app).widen
    teslaKeyCardClearNfcEvents.widen
    return (true, { app with screen := .reset })
  else if event = teslaAppEventResetCancel ∧ app.screen = .reset then do
    let (nfcReady, app) ← teslaKeyCardResumeNfc { app with screen := .main }
    return (true, teslaKeyCardSetModel app (if nfcReady then .ready else .error) false)
  else if event = teslaAppEventResetConfirm ∧ app.screen = .reset then do
    let (_, app) ← teslaKeyCardResetIdentity { app with screen := .main }
    return (true, app)
  else return (false, app)

def teslaKeyCardAppAlloc : MemoryProgram Unit := do
  take .app
  take .gui
  take .viewDispatcher
  take .mainView
  take .resetDialog
  take .eventQueue
  take (.shown .main)
  take (.shown .reset)

/-- `tesla_key_card_app` up to the loop of the view dispatcher. -/
def teslaKeyCardStart : MemoryProgram TeslaKeyCardApp := do
  teslaKeyCardAppAlloc
  let crypto ← teslaCryptoAlloc
  let model := ⟨.initializing, 0, 0, 0, Bytes.zero 4⟩
  let (prepared, app) ←
    prepareApp ⟨model, .main, ⟨Bytes.zero 4, Bytes.zero 32⟩, crypto, none⟩
  let app ← if prepared then teslaKeyCardUpdateNfc app else pure app
  let state := if prepared && app.nfc.isSome then .ready else .error
  return { app with model := { model with state, uid := app.identity.uid } }

def teslaKeyCardAppFree (app : TeslaKeyCardApp) : MemoryProgram Unit := do
  let app ← freeNfc app
  teslaCryptoFree app.crypto
  wipe .key
  finish .eventQueue
  finish (.shown .reset)
  finish (.shown .main)
  finish .viewDispatcher
  finish .resetDialog
  finish .mainView
  finish .gui
  finish .app

end FlipperApps.Tesla.Memory
