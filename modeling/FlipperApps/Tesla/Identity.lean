import FlipperApps.Tesla.Hal
import FlipperApps.Tesla.Record

/-!
# Loading, saving and deleting the identity of `tesla_identity.c`

Buffers that a C function fills through a pointer are returned with its result.
-/

namespace FlipperApps.Tesla
open Calls

inductive TeslaIdentityLoadResult
  | ok
  | notFound
  | corrupt
  | storageError
  | cryptoError
  deriving DecidableEq

def teslaIdentityMacDerivation : Bytes 32 where
  toList := [0x54, 0x65, 0x73, 0x6C, 0x61, 0x4B, 0x65, 0x79, 0x43, 0x61, 0x72, 0x64, 0x2D,
    0x4D, 0x41, 0x43, 0x2D, 0x44, 0x65, 0x72, 0x69, 0x76, 0x61, 0x74, 0x69, 0x6F, 0x6E, 0x2D,
    0x56, 0x31, 0x00, 0x00]
  length_eq := rfl

def noIdentity : TeslaIdentity := ⟨Bytes.zero 4, Bytes.zero 32⟩

def teslaIdentityClear (_ : TeslaIdentity) : TeslaIdentity := ⟨Bytes.zero 4, Bytes.zero 32⟩

def stampUid (uid : Bytes 4) : Bytes 4 := ⟨uid.toList.set 0 0x08, by simp⟩

def teslaIdentityGenerateUid : HalProgram (Bytes 4) := do
  let uid ← hal (.furiHalRandomFillBuf 4)
  return stampUid uid

def teslaIdentityDeriveMacKey : HalProgram (Bool × Bytes 32) := do
  let ensured ← hal .enclaveEnsureKey
  if !ensured then return (false, Bytes.zero 32)
  else
    let loaded ← hal (.enclaveLoadKey (Bytes.zero 16))
    if !loaded then return (false, Bytes.zero 32)
    else
      let (success, macKey) ← hal (.furiHalCryptoEncrypt teslaIdentityMacDerivation)
      let unloaded ← hal .enclaveUnloadKey
      if unloaded && success then return (true, macKey)
      else return (false, Bytes.zero 32)

def teslaIdentityCalculateMac (record : RecordFields) : HalProgram (Bool × Bytes 32) := do
  let mdInfo ← hal .mdInfoFromType
  if !mdInfo then return (false, Bytes.zero 32)
  else
    let (derived, macKey) ← teslaIdentityDeriveMacKey
    if !derived then return (false, Bytes.zero 32)
    else
      let (error, mac) ← hal (.mdHmac macKey record.pack)
      if error = 0 then return (true, mac) else return (false, Bytes.zero 32)

def teslaIdentityMacEquals (first second : Bytes 32) : Bool :=
  (first.toList.zipWith (· ^^^ ·) second.toList).foldl (· ||| ·) 0 == 0

def readPacked (path : IdentityPath) (n : ℕ) :
    HalProgram (TeslaIdentityLoadResult × Bytes n) := do
  let (statError, size) ← hal (.storageCommonStat path)
  if statError = .notExist then return (.notFound, Bytes.zero n)
  else if statError ≠ .ok ∨ size ≠ n then
    return (if statError = .ok then .corrupt else .storageError, Bytes.zero n)
  else
    let opened ← hal (.storageFileOpen path .readExisting)
    if !opened then return (.storageError, Bytes.zero n)
    else
      let bytes ← hal (.storageFileRead n)
      let _ ← hal .storageFileClose
      -- A short read is the storage's fault: the size was checked above.
      if h : bytes.length = n then return (.ok, ⟨bytes, h⟩)
      else return (.storageError, Bytes.zero n)

def teslaIdentityReadRecord (path : IdentityPath) :
    HalProgram (TeslaIdentityLoadResult × TeslaIdentityRecord) := do
  let (result, bytes) ← readPacked path 96
  return (result, TeslaIdentityRecord.unpack bytes)

def teslaIdentityReadLegacyRecord (path : IdentityPath) :
    HalProgram (TeslaIdentityLoadResult × TeslaIdentityLegacyRecord) := do
  let (result, bytes) ← readPacked path 68
  return (result, TeslaIdentityLegacyRecord.unpack bytes)

def teslaIdentityDecryptPrivateKey (iv : Bytes 16) (encryptedPrivateKey : Bytes 32)
    (identity : TeslaIdentity) : HalProgram (TeslaIdentityLoadResult × TeslaIdentity) := do
  let ensured ← hal .enclaveEnsureKey
  let loaded ← if ensured then hal (.enclaveLoadKey iv) else pure false
  if !loaded then return (.cryptoError, identity)
  else
    let (decrypted, privateKey) ← hal (.furiHalCryptoDecrypt encryptedPrivateKey)
    let identity := { identity with privateKey }
    let unloaded ← hal .enclaveUnloadKey
    if !decrypted || !unloaded then return (.cryptoError, teslaIdentityClear identity)
    else return (.ok, identity)

def decodeFields (record : RecordFields) (identity : TeslaIdentity) :
    HalProgram (TeslaIdentityLoadResult × TeslaIdentity) := do
  let (result, identity) ←
    teslaIdentityDecryptPrivateKey record.iv record.encryptedPrivateKey identity
  if result ≠ .ok then return (result, identity)
  else return (.ok, { identity with uid := record.uid })

def teslaIdentityDecodeRecord (record : TeslaIdentityRecord) (identity : TeslaIdentity) :
    HalProgram (TeslaIdentityLoadResult × TeslaIdentity) :=
  if record.fields.magic.toList ≠ teslaIdentityMagic ∨
      record.fields.version ≠ teslaIdentityVersion ∨
      record.fields.uidSize ≠ teslaNfcUidSize then
    pure (.corrupt, identity)
  else do
    let (calculated, mac) ← teslaIdentityCalculateMac record.fields
    if !calculated then return (.cryptoError, identity)
    else if !teslaIdentityMacEquals record.mac mac then return (.corrupt, identity)
    else decodeFields record.fields identity

/-- The short-circuit condition computes the checksum of a v1 header only. -/
def teslaIdentityDecodeLegacyRecord (record : TeslaIdentityLegacyRecord)
    (identity : TeslaIdentity) : HalProgram (TeslaIdentityLoadResult × TeslaIdentity) :=
  if record.fields.magic.toList ≠ teslaIdentityMagic ∨
      record.fields.version ≠ teslaIdentityLegacyVersion ∨
      record.fields.uidSize ≠ teslaNfcUidSize then
    pure (.corrupt, identity)
  else do
    let checksum ← hal (.crc32CalcBuffer record.fields.pack)
    if record.checksum ≠ checksum then return (.corrupt, identity)
    else decodeFields record.fields identity

/-- The last component is the legacy flag. -/
def teslaIdentityLoadPath (path : IdentityPath) (identity : TeslaIdentity) :
    HalProgram (TeslaIdentityLoadResult × TeslaIdentity × Bool) := do
  let (result, record) ← teslaIdentityReadRecord path
  if result = .ok then
    let (result, identity) ← teslaIdentityDecodeRecord record identity
    return (result, identity, false)
  else if result ≠ .corrupt then return (result, identity, false)
  else
    let (result, legacy) ← teslaIdentityReadLegacyRecord path
    if result = .ok then
      let (result, identity) ← teslaIdentityDecodeLegacyRecord legacy identity
      return (result, identity, result == .ok)
    else return (result, identity, false)

def teslaIdentityRecover (result : TeslaIdentityLoadResult) (identity : TeslaIdentity)
    (legacyRecord : Bool) : HalProgram (TeslaIdentityLoadResult × TeslaIdentity × Bool) := do
  let (temporaryResult, identity, temporaryLegacyRecord) ←
    teslaIdentityLoadPath .tmp identity
  if temporaryResult = .ok then
    -- The identity is already decoded: a failed rename does not fail the load.
    let error ← hal (.storageCommonRename .tmp .bin)
    if error ≠ .ok then
      let _ ← hal (.furiLog "Recovered staged identity; rename failed" [])
      return (.ok, identity, false)
    else return (.ok, identity, temporaryLegacyRecord)
  -- An absent file takes the verdict on the staged one, a corrupt file keeps its own.
  else if result = .notFound then return (temporaryResult, identity, legacyRecord)
  else return (result, identity, legacyRecord)

def teslaIdentityWarnLegacy (result : TeslaIdentityLoadResult) (legacyRecord : Bool) :
    HalProgram Unit :=
  if result = .ok ∧ legacyRecord then
    hal (.furiLog "Legacy identity retained; reset to upgrade storage" [])
  else pure ()

def teslaIdentityLoad (identity : TeslaIdentity) :
    HalProgram (TeslaIdentityLoadResult × TeslaIdentity) := do
  let (result, identity, legacyRecord) ←
    teslaIdentityLoadPath .bin (teslaIdentityClear identity)
  let (result, identity, legacyRecord) ←
    if result = .notFound ∨ result = .corrupt then
      teslaIdentityRecover result identity legacyRecord
    else pure (result, identity, legacyRecord)
  teslaIdentityWarnLegacy result legacyRecord
  return (result, identity)

def writeStaged (record : TeslaIdentityRecord) : HalProgram Bool := do
  let bytesWritten ← hal (.storageFileWrite record.pack.toList)
  let synced ← if bytesWritten = 96 then hal .storageFileSync else pure false
  let _ ← hal .storageFileClose
  if synced then
    let error ← hal (.storageCommonRename .tmp .bin)
    return error == .ok
  else return false

def teslaIdentityStore (record : TeslaIdentityRecord) : HalProgram Bool := do
  let _ ← hal (.storageCommonRemove .tmp)
  let opened ← hal (.storageFileOpen .tmp .createAlways)
  let success ← if opened then writeStaged record else pure false
  if success then return true
  else
    let _ ← hal (.storageCommonRemove .tmp)
    return false

/-- Encrypts the private key under the device key. The slot is released on every
path past a successful load. -/
def teslaIdentityEncrypt (iv : Bytes 16) (privateKey : Bytes 32) :
    HalProgram (Option (Bytes 32)) := do
  let ensured ← hal .enclaveEnsureKey
  if !ensured then
    let _ ← hal (.furiLog "Unable to provision device key" [])
    return none
  else
    let loaded ← hal (.enclaveLoadKey iv)
    if !loaded then
      let _ ← hal (.furiLog "Unable to load device key" [])
      return none
    else
      let (encrypted, encryptedPrivateKey) ← hal (.furiHalCryptoEncrypt privateKey)
      if !encrypted then
        let _ ← hal (.furiLog "Private-key encryption failed" [])
        let _ ← hal .enclaveUnloadKey
        return none
      else
        let unloaded ← hal .enclaveUnloadKey
        if !unloaded then
          let _ ← hal (.furiLog "Unable to unload device key" [])
          return none
        else return some encryptedPrivateKey

def newFields (uid : Bytes 4) (iv : Bytes 16) (encryptedPrivateKey : Bytes 32) : RecordFields where
  magic := ⟨teslaIdentityMagic, rfl⟩
  version := teslaIdentityVersion
  uidSize := teslaNfcUidSize
  uid := uid
  reserved := Bytes.zero 2
  iv := iv
  encryptedPrivateKey := encryptedPrivateKey

def teslaIdentitySave (identity : TeslaIdentity) : HalProgram Bool := do
  let iv ← hal (.furiHalRandomFillBuf 16)
  match ← teslaIdentityEncrypt iv identity.privateKey with
  | none => return false
  | some encryptedPrivateKey => do
    let fields := newFields identity.uid iv encryptedPrivateKey
    let (calculated, mac) ← teslaIdentityCalculateMac fields
    if !calculated then
      let _ ← hal (.furiLog "Unable to authenticate identity record" [])
      return false
    else teslaIdentityStore ⟨fields, mac⟩

def teslaIdentityDelete : HalProgram Bool := do
  let error ← hal (.storageCommonRemove .bin)
  -- The error of the second removal is dropped.
  let _ ← hal (.storageCommonRemove .tmp)
  return error == .ok || error == .notExist

end FlipperApps.Tesla
