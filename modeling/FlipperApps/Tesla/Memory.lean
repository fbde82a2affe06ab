import FlipperApps.Calls.Tenancy
import FlipperApps.Tesla.AppEvents

/-!
# The key card with the memory and the handles it looks after

The functions of `tesla_identity.c`, `tesla_crypto.c`, `tesla_nfc.c` and
`tesla_key_card.c` once more, with what they allocate, open, fill, wipe, close and
free. Both are read off the source; without these steps each of them is the function
modelled before, so where the two differ the erasure does not build.
-/

namespace FlipperApps.Tesla.Memory
open Calls

/-- What the app allocates and opens. Allocations whose address is passed back
carry it; `group`, `privateKey` and `publicKeyPoint` are the mbedTLS objects in the
crypto context, `shown` the views that are added to the dispatcher, 0 and 1. -/
inductive Resource
  | app
  | gui
  | viewDispatcher
  | mainView
  | resetDialog
  | eventQueue
  | shown (view : TeslaKeyCardScreen)
  | crypto (address : ℕ)
  | group
  | privateKey
  | publicKeyPoint
  | generated
  | nfc (address : ℕ)
  | nfcDevice
  | nfcData
  | txBuffer
  | listener
  | running
  | storage
  | file
  | openFile
  | enclaveKey
  deriving DecidableEq

/-- The buffers that the code wipes. The record of a save is in two parts, as its
MAC is also wiped alone. Not among them are the copy of the public key in `TeslaApdu`
and the transmit buffer, which are freed as they are. -/
inductive Secret
  | key
  | macKey
  | calculatedMac
  | record
  | legacy
  | newRecord
  | newMac
  | publicKey
  | context
  deriving DecidableEq

/-- What must be there for as long as a resource is held. The pointers to all
objects of the app live in the app; an NFC object authenticates with the key. -/
def Resource.Rests : Resource → Finset Resource → Prop
  | .gui, s => .app ∈ s
  | .viewDispatcher, s => .app ∈ s ∧ .gui ∈ s
  | .mainView, s => .app ∈ s
  | .resetDialog, s => .app ∈ s
  | .eventQueue, s => .app ∈ s
  | .shown view, s => .viewDispatcher ∈ s ∧ (if view = .main then .mainView else .resetDialog) ∈ s
  | .crypto _, s => .app ∈ s
  | .group, s => ∃ address, .crypto address ∈ s
  | .privateKey, s => ∃ address, .crypto address ∈ s
  | .publicKeyPoint, s => ∃ address, .crypto address ∈ s
  | .nfc _, s => .group ∈ s ∧ .privateKey ∈ s ∧ .publicKeyPoint ∈ s
  | .nfcDevice, s => ∃ address, .nfc address ∈ s
  | .nfcData, s => ∃ address, .nfc address ∈ s
  | .txBuffer, s => ∃ address, .nfc address ∈ s
  | .listener, s => .nfcDevice ∈ s ∧ .nfcData ∈ s
  -- The callback fills the transmit buffer and puts events on the queue.
  | .running, s => .listener ∈ s ∧ .txBuffer ∈ s ∧ .eventQueue ∈ s
  | .file, s => .storage ∈ s
  | .openFile, s => .file ∈ s
  | _, _ => True

def uses : HalCall → List Resource
  | .storageCommonStat _ => [.storage]
  | .storageCommonRemove _ => [.storage]
  | .storageCommonRename .. => [.storage]
  | .storageFileOpen .. => [.file]
  | .storageFileRead _ => [.openFile]
  | .storageFileWrite _ => [.openFile]
  | .storageFileSync => [.openFile]
  | .furiHalCryptoEncrypt _ => [.enclaveKey]
  | .furiHalCryptoDecrypt _ => [.enclaveKey]
  | .ecpGroupLoad => [.group]
  | .mpiReadBinary _ => [.privateKey]
  | .ecpCheckPrivkey .. => [.group, .privateKey]
  | .ecpMul .. => [.group, .privateKey, .publicKeyPoint]
  | .ecpPointWriteBinary .. => [.group, .publicKeyPoint]
  | .ecpGenPrivkey _ => [.group, .generated]
  | .mpiWriteBinary _ => [.generated]
  | .nfcListenerAlloc _ => [.nfcDevice, .nfcData]
  | .nfcListenerStart address => [.nfc address]
  | .nfcEventQueueGet => [.eventQueue]
  | _ => []

def ends : HalCall → Option Resource
  | .storageFileClose => some .openFile
  | .enclaveUnloadKey => some .enclaveKey
  | .freeCrypto address => some (.crypto address)
  | .freeNfc address => some (.nfc address)
  | .nfcListenerStop => some .running
  | .nfcListenerFree => some .listener
  | _ => none

def grants : (c : HalCall) → c.Reply → Option Resource
  | .storageFileOpen .., opened => if opened then some .openFile else none
  | .enclaveLoadKey _, loaded => if loaded then some .enclaveKey else none
  | .mallocCrypto, address => address.map .crypto
  | .mallocNfc, address => some (.nfc address)
  | .nfcListenerAlloc _, allocated => if allocated then some .listener else none
  | .nfcListenerStart _, _ => some .running
  | _, _ => none

theorem Resource.rests_mono (r : Resource) (s s' : Finset Resource) (h : s ⊆ s')
    (hr : r.Rests s) : r.Rests s' := by
  cases r with
  | gui | mainView | resetDialog | eventQueue | crypto | file | openFile => exact h hr
  | viewDispatcher | shown | listener => exact ⟨h hr.1, h hr.2⟩
  | nfc | running => exact ⟨h hr.1, h hr.2.1, h hr.2.2⟩
  | group | privateKey | publicKeyPoint | nfcDevice | nfcData | txBuffer =>
    exact hr.imp fun _ ha => h ha
  | app | generated | storage | enclaveKey => trivial

def bars : HalCall → List Secret
  | .freeCrypto _ => [.publicKey, .context]
  | _ => []

def tenancy : Tenancy HalInterface Resource Secret :=
  ⟨Resource.Rests, Resource.rests_mono, uses, bars, ends, grants⟩

abbrev MemoryInterface : Interface := UpkeepInterface HalInterface Resource Secret
abbrev MemoryProgram := Program MemoryInterface
abbrev MemoryEvent := Event MemoryInterface

def hal (c : HalCall) : MemoryProgram c.Reply := Program.outside (I := HalInterface) c

def take (r : Resource) : MemoryProgram Unit := Program.own (.take r)

def finish (r : Resource) : MemoryProgram Unit := Program.own (.finish r)

/-- The buffer is written, or its address is passed to the next call. -/
def fill (b : Secret) : MemoryProgram Unit := Program.own (.fill b)

def wipe (b : Secret) : MemoryProgram Unit := Program.own (.wipe b)

def teslaIdentityDeriveMacKey : MemoryProgram (Bool × Bytes 32) := do
  let ensured ← hal .enclaveEnsureKey
  if !ensured then
    wipe .macKey
    return (false, Bytes.zero 32)
  else
    let loaded ← hal (.enclaveLoadKey (Bytes.zero 16))
    if !loaded then
      wipe .macKey
      return (false, Bytes.zero 32)
    else
      fill .macKey
      let (success, macKey) ← hal (.furiHalCryptoEncrypt teslaIdentityMacDerivation)
      let unloaded ← hal .enclaveUnloadKey
      if unloaded && success then return (true, macKey)
      else
        wipe .macKey
        return (false, Bytes.zero 32)

/-- The condition `md_info && derive && hmac`, with the MAC written to a buffer. -/
def hmacInto (mac : Secret) (record : RecordFields) : MemoryProgram (Bool × Bytes 32) := do
  let mdInfo ← hal .mdInfoFromType
  if !mdInfo then return (false, Bytes.zero 32)
  else
    let (derived, macKey) ← teslaIdentityDeriveMacKey
    if !derived then return (false, Bytes.zero 32)
    else
      fill mac
      let (error, value) ← hal (.mdHmac macKey record.pack)
      if error = 0 then return (true, value) else return (false, value)

def teslaIdentityCalculateMac (mac : Secret) (record : RecordFields) :
    MemoryProgram (Bool × Bytes 32) := do
  let (success, value) ← hmacInto mac record
  wipe .macKey
  if success then return (true, value)
  else
    wipe mac
    return (false, Bytes.zero 32)

def readPacked (path : IdentityPath) (buffer : Secret) (n : ℕ) :
    MemoryProgram (TeslaIdentityLoadResult × Bytes n) := do
  let (statError, size) ← hal (.storageCommonStat path)
  if statError = .notExist then return (.notFound, Bytes.zero n)
  else if statError ≠ .ok ∨ size ≠ n then
    return (if statError = .ok then .corrupt else .storageError, Bytes.zero n)
  else
    take .file
    let opened ← hal (.storageFileOpen path .readExisting)
    if !opened then
      finish .file
      return (.storageError, Bytes.zero n)
    else
      fill buffer
      let bytes ← hal (.storageFileRead n)
      let _ ← hal .storageFileClose
      finish .file
      if h : bytes.length = n then return (.ok, ⟨bytes, h⟩)
      else return (.storageError, Bytes.zero n)

def teslaIdentityReadRecord (path : IdentityPath) :
    MemoryProgram (TeslaIdentityLoadResult × TeslaIdentityRecord) := do
  let (result, bytes) ← readPacked path .record 96
  return (result, TeslaIdentityRecord.unpack bytes)

def teslaIdentityReadLegacyRecord (path : IdentityPath) :
    MemoryProgram (TeslaIdentityLoadResult × TeslaIdentityLegacyRecord) := do
  let (result, bytes) ← readPacked path .legacy 68
  return (result, TeslaIdentityLegacyRecord.unpack bytes)

def teslaIdentityDecryptPrivateKey (iv : Bytes 16) (encryptedPrivateKey : Bytes 32)
    (identity : TeslaIdentity) : MemoryProgram (TeslaIdentityLoadResult × TeslaIdentity) := do
  let ensured ← hal .enclaveEnsureKey
  let loaded ← if ensured then hal (.enclaveLoadKey iv) else pure false
  if !loaded then return (.cryptoError, identity)
  else
    fill .key
    let (decrypted, privateKey) ← hal (.furiHalCryptoDecrypt encryptedPrivateKey)
    let identity := { identity with privateKey }
    let unloaded ← hal .enclaveUnloadKey
    if !decrypted || !unloaded then
      wipe .key
      return (.cryptoError, teslaIdentityClear identity)
    else return (.ok, identity)

def decodeFields (record : RecordFields) (identity : TeslaIdentity) :
    MemoryProgram (TeslaIdentityLoadResult × TeslaIdentity) := do
  let (result, identity) ←
    teslaIdentityDecryptPrivateKey record.iv record.encryptedPrivateKey identity
  if result ≠ .ok then return (result, identity)
  else return (.ok, { identity with uid := record.uid })

def teslaIdentityDecodeRecord (record : TeslaIdentityRecord) (identity : TeslaIdentity) :
    MemoryProgram (TeslaIdentityLoadResult × TeslaIdentity) :=
  if record.fields.magic.toList ≠ teslaIdentityMagic ∨
      record.fields.version ≠ teslaIdentityVersion ∨
      record.fields.uidSize ≠ teslaNfcUidSize then
    pure (.corrupt, identity)
  else do
    let (calculated, mac) ← teslaIdentityCalculateMac .calculatedMac record.fields
    if !calculated then return (.cryptoError, identity)
    else if !teslaIdentityMacEquals record.mac mac then
      wipe .calculatedMac
      return (.corrupt, identity)
    else
      wipe .calculatedMac
      decodeFields record.fields identity

def teslaIdentityDecodeLegacyRecord (record : TeslaIdentityLegacyRecord)
    (identity : TeslaIdentity) : MemoryProgram (TeslaIdentityLoadResult × TeslaIdentity) :=
  if record.fields.magic.toList ≠ teslaIdentityMagic ∨
      record.fields.version ≠ teslaIdentityLegacyVersion ∨
      record.fields.uidSize ≠ teslaNfcUidSize then
    pure (.corrupt, identity)
  else do
    let checksum ← hal (.crc32CalcBuffer record.fields.pack)
    if record.checksum ≠ checksum then return (.corrupt, identity)
    else decodeFields record.fields identity

def teslaIdentityLoadPath (path : IdentityPath) (identity : TeslaIdentity) :
    MemoryProgram (TeslaIdentityLoadResult × TeslaIdentity × Bool) := do
  let (result, record) ← teslaIdentityReadRecord path
  if result = .ok then
    let (result, identity) ← teslaIdentityDecodeRecord record identity
    wipe .record
    return (result, identity, false)
  else
    wipe .record
    if result ≠ .corrupt then return (result, identity, false)
    else
      let (result, legacy) ← teslaIdentityReadLegacyRecord path
      if result = .ok then
        let (result, identity) ← teslaIdentityDecodeLegacyRecord legacy identity
        wipe .legacy
        return (result, identity, result == .ok)
      else
        wipe .legacy
        return (result, identity, false)

def teslaIdentityRecover (result : TeslaIdentityLoadResult) (identity : TeslaIdentity)
    (legacyRecord : Bool) : MemoryProgram (TeslaIdentityLoadResult × TeslaIdentity × Bool) := do
  let (temporaryResult, identity, temporaryLegacyRecord) ← teslaIdentityLoadPath .tmp identity
  if temporaryResult = .ok then
    let error ← hal (.storageCommonRename .tmp .bin)
    if error ≠ .ok then
      let _ ← hal (.furiLog "Recovered staged identity; rename failed" [])
      return (.ok, identity, false)
    else return (.ok, identity, temporaryLegacyRecord)
  else if result = .notFound then return (temporaryResult, identity, legacyRecord)
  else return (result, identity, legacyRecord)

def teslaIdentityLoad (identity : TeslaIdentity) :
    MemoryProgram (TeslaIdentityLoadResult × TeslaIdentity) := do
  wipe .key
  take .storage
  let (result, identity, legacyRecord) ←
    teslaIdentityLoadPath .bin (teslaIdentityClear identity)
  let (result, identity, legacyRecord) ←
    if result = .notFound ∨ result = .corrupt then
      teslaIdentityRecover result identity legacyRecord
    else pure (result, identity, legacyRecord)
  finish .storage
  (teslaIdentityWarnLegacy result legacyRecord).widen
  return (result, identity)

def teslaIdentityEncrypt (iv : Bytes 16) (privateKey : Bytes 32) :
    MemoryProgram (Option (Bytes 32)) := do
  let ensured ← hal .enclaveEnsureKey
  if !ensured then
    let _ ← hal (.furiLog "Unable to provision device key" [])
    return none
  else
    let loaded ← hal (.enclaveLoadKey iv)
    if !loaded then
      let _ ← hal (.furiLog "Unable to load device key" [])
      return none
    else
      fill .newRecord
      let (encrypted, encryptedPrivateKey) ← hal (.furiHalCryptoEncrypt privateKey)
      if !encrypted then
        let _ ← hal (.furiLog "Private-key encryption failed" [])
        let _ ← hal .enclaveUnloadKey
        return none
      else
        let unloaded ← hal .enclaveUnloadKey
        if !unloaded then
          let _ ← hal (.furiLog "Unable to unload device key" [])
          return none
        else return some encryptedPrivateKey

def writeStaged (record : TeslaIdentityRecord) : MemoryProgram Bool := do
  let bytesWritten ← hal (.storageFileWrite record.pack.toList)
  let synced ← if bytesWritten = 96 then hal .storageFileSync else pure false
  let _ ← hal .storageFileClose
  if synced then
    let error ← hal (.storageCommonRename .tmp .bin)
    return error == .ok
  else return false

def teslaIdentityStore (record : TeslaIdentityRecord) : MemoryProgram Bool := do
  take .storage
  let _ ← hal (.storageCommonRemove .tmp)
  take .file
  let opened ← hal (.storageFileOpen .tmp .createAlways)
  let success ← if opened then writeStaged record else pure false
  finish .file
  if success then
    finish .storage
    return true
  else
    let _ ← hal (.storageCommonRemove .tmp)
    finish .storage
    return false

/-- A save up to its label `cleanup_record`. -/
def saveRecord (identity : TeslaIdentity) : MemoryProgram Bool := do
  fill .newRecord
  let iv ← hal (.furiHalRandomFillBuf 16)
  match ← teslaIdentityEncrypt iv identity.privateKey with
  | none => return false
  | some encryptedPrivateKey => do
    let fields := newFields identity.uid iv encryptedPrivateKey
    let (calculated, mac) ← teslaIdentityCalculateMac .newMac fields
    if !calculated then
      let _ ← hal (.furiLog "Unable to authenticate identity record" [])
      return false
    else teslaIdentityStore ⟨fields, mac⟩

def teslaIdentitySave (identity : TeslaIdentity) : MemoryProgram Bool := do
  let success ← saveRecord identity
  wipe .newRecord
  wipe .newMac
  return success

def teslaIdentityDelete : MemoryProgram Bool := do
  take .storage
  let error ← hal (.storageCommonRemove .bin)
  let _ ← hal (.storageCommonRemove .tmp)
  finish .storage
  return error == .ok || error == .notExist

end FlipperApps.Tesla.Memory
