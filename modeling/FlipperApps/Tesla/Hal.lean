import FlipperApps.Bytes
import FlipperApps.Calls.Rules

/-!
# The firmware calls of the key card

Storage, secure enclave, mbedTLS and log calls that the identity and crypto code
issues, under the names of the C functions. Nothing here says what they do.
-/

namespace FlipperApps.Tesla
open Calls

/-- `APP_DATA_PATH("identity.bin")` and `APP_DATA_PATH("identity.tmp")`. -/
inductive IdentityPath
  | bin
  | tmp
  deriving DecidableEq

inductive FsError
  | ok
  | notExist
  | other (code : ℕ)
  deriving DecidableEq

inductive OpenMode
  | readExisting
  | createAlways
  deriving DecidableEq

structure EcpPoint where
  x : ℕ
  y : ℕ
  z : ℕ
  deriving DecidableEq

structure EcpGroup where
  g : EcpPoint
  n : ℕ
  deriving DecidableEq

inductive TeslaNfcEvent
  | fieldOff
  | halted
  | select
  | getPublicKey
  | authenticate
  | getCardInfo
  | protocolError
  | transmitError
  deriving DecidableEq

structure TeslaKeyCardNfcEvent where
  event : TeslaNfcEvent
  cryptoTimeMs : UInt16
  deriving DecidableEq

inductive HalCall
  | furiLog (format : String) (args : List ℤ)
  | furiHalRandomFillBuf (size : ℕ)
  | storageCommonStat (path : IdentityPath)
  | storageCommonRemove (path : IdentityPath)
  | storageCommonRename (source destination : IdentityPath)
  | storageFileOpen (path : IdentityPath) (mode : OpenMode)
  | storageFileRead (size : ℕ)
  | storageFileWrite (data : List UInt8)
  | storageFileSync
  | storageFileClose
  | enclaveEnsureKey
  | enclaveLoadKey (iv : Bytes 16)
  | enclaveUnloadKey
  | furiHalCryptoEncrypt (input : Bytes 32)
  | furiHalCryptoDecrypt (input : Bytes 32)
  | mdInfoFromType
  | mdHmac (key : Bytes 32) (input : Bytes 64)
  | crc32CalcBuffer (input : Bytes 64)
  | mallocCrypto
  | ecpGroupLoad
  | mpiReadBinary (bytes : Bytes 32)
  | mpiWriteBinary (value : ℕ)
  | ecpCheckPrivkey (group : EcpGroup) (key : ℕ)
  | ecpMul (group : EcpGroup) (key : ℕ) (point : EcpPoint)
  | ecpPointWriteBinary (group : EcpGroup) (point : EcpPoint)
  | ecpGenPrivkey (group : EcpGroup)
  | freeCrypto (address : ℕ)
  | publicKeyAtNull
  | mallocNfc
  | freeNfc (address : ℕ)
  | nfcListenerAlloc (uid : Bytes 4)
  | nfcListenerStart (context : ℕ)
  | nfcListenerStop
  | nfcListenerFree
  | nfcEventQueueGet

/-- An mbedTLS error is an integer, and zero is success. Reading a public key
through a null pointer has no defined reply. -/
abbrev HalCall.Reply : HalCall → Type
  | .furiLog .. => Unit
  | .furiHalRandomFillBuf size => Bytes size
  | .storageCommonStat _ => FsError × ℕ
  | .storageCommonRemove _ => FsError
  | .storageCommonRename .. => FsError
  | .storageFileOpen .. => Bool
  | .storageFileRead _ => List UInt8
  | .storageFileWrite _ => ℕ
  | .storageFileSync => Bool
  | .storageFileClose => Bool
  | .enclaveEnsureKey => Bool
  | .enclaveLoadKey _ => Bool
  | .enclaveUnloadKey => Bool
  | .furiHalCryptoEncrypt _ => Bool × Bytes 32
  | .furiHalCryptoDecrypt _ => Bool × Bytes 32
  | .mdInfoFromType => Bool
  | .mdHmac .. => ℤ × Bytes 32
  | .crc32CalcBuffer _ => UInt32
  | .mallocCrypto => Option ℕ
  | .ecpGroupLoad => ℤ × EcpGroup
  | .mpiReadBinary _ => ℤ × ℕ
  | .mpiWriteBinary _ => ℤ × Bytes 32
  | .ecpCheckPrivkey .. => ℤ
  | .ecpMul .. => ℤ × EcpPoint
  | .ecpPointWriteBinary .. => ℤ × ℕ × Bytes 65
  | .ecpGenPrivkey _ => ℤ × ℕ
  | .freeCrypto _ => Unit
  | .publicKeyAtNull => Bytes 65
  | .mallocNfc => ℕ
  | .freeNfc _ => Unit
  | .nfcListenerAlloc _ => Bool
  | .nfcListenerStart _ => Unit
  | .nfcListenerStop => Unit
  | .nfcListenerFree => Unit
  | .nfcEventQueueGet => Option TeslaKeyCardNfcEvent

abbrev HalInterface : Interface := ⟨HalCall, HalCall.Reply⟩
abbrev HalProgram := Program HalInterface
abbrev HalEvent := Event HalInterface

def hal (c : HalCall) : HalProgram c.Reply := Program.perform (I := HalInterface) c

theorem hal_eq (c : HalCall) : hal c = .call c .done := rfl

end FlipperApps.Tesla
