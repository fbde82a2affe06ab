import FlipperApps.Calls.Translation
import FlipperApps.Tesla.KeyCard

/-!
# The listener side of `tesla_nfc.c` and `tesla_crypto.c`

What runs on the NFC worker: the listener callback, the APDU layer inside it and
the authentication that the APDU layer calls back. The mbedTLS calls return the
objects that the C functions fill through a pointer.
-/

namespace FlipperApps.Tesla
open Calls

inductive Iso14443Error
  | none
  | other (code : ℕ)
  deriving DecidableEq

structure AesContext where
  roundKeys : List UInt32
  deriving DecidableEq

inductive NfcCall
  | fault (f : AccessFault)
  | furiGetTick
  | furiKernelGetTickFrequency
  | furiHalRandomFillBuf (size : ℕ)
  | furiLog (format : String) (args : List ℤ)
  | ecpPointReadBinary (group : EcpGroup) (data : Bytes 65)
  | ecpCheckPubkey (group : EcpGroup) (point : EcpPoint)
  | ecpMul (group : EcpGroup) (key : ℕ) (point : EcpPoint)
  | ecpPointWriteBinary (group : EcpGroup) (point : EcpPoint)
  | sha1 (input : Bytes 32)
  | aesSetkeyEnc (key : Bytes 16)
  | aesCryptEcb (aes : AesContext) (input : Bytes 16)
  | sendBlock (block : List UInt8)
  | notify (event : TeslaNfcEvent) (cryptoTimeMs : UInt16)

abbrev NfcCall.Reply : NfcCall → Type
  | .fault _ => Empty
  | .furiGetTick => UInt32
  | .furiKernelGetTickFrequency => UInt32
  | .furiHalRandomFillBuf size => Bytes size
  | .furiLog .. => Unit
  | .ecpPointReadBinary .. => ℤ × EcpPoint
  | .ecpCheckPubkey .. => ℤ
  | .ecpMul .. => ℤ × EcpPoint
  | .ecpPointWriteBinary .. => ℤ × ℕ × Bytes 65
  | .sha1 _ => ℤ × Bytes 20
  | .aesSetkeyEnc _ => ℤ × AesContext
  | .aesCryptEcb .. => ℤ × Bytes 16
  | .sendBlock _ => Iso14443Error
  | .notify .. => Unit

abbrev NfcInterface : Interface := ⟨NfcCall, NfcCall.Reply⟩
abbrev NfcProgram := Program NfcInterface
abbrev NfcCallEvent := Event NfcInterface

def nfcCall (c : NfcCall) : NfcProgram c.Reply := Program.perform (I := NfcInterface) c

theorem nfcCall_eq (c : NfcCall) : nfcCall c = .call c .done := rfl

theorem key_within : 0 + 16 ≤ 20 := by decide

theorem x_within : 1 + 32 ≤ 65 := by decide

theorem y_within : 33 + 32 ≤ 65 := by decide

theorem first_within : 0 < 65 := by decide

/-- The x-coordinate of the shared point, or the error code of the step that failed. -/
def teslaCryptoSharedX (crypto : TeslaCrypto) (peerPublicKey : Bytes 65) :
    NfcProgram (Except ℤ (Bytes 32)) :=
  if !crypto.keyReady || peerPublicKey.get 0 != 0x04 then return .error (-1)
  else do
    let (error, peerPoint) ← nfcCall (.ecpPointReadBinary crypto.group peerPublicKey)
    if error ≠ 0 then return .error error
    else
      let error ← nfcCall (.ecpCheckPubkey crypto.group peerPoint)
      if error ≠ 0 then return .error error
      else
        let (error, sharedPoint) ← nfcCall (.ecpMul crypto.group crypto.privateKey peerPoint)
        if error ≠ 0 then return .error error
        else
          let (error, size, encoded) ← nfcCall (.ecpPointWriteBinary crypto.group sharedPoint)
          -- A wrong size fails with the code of the successful write, zero.
          if error ≠ 0 ∨ size ≠ 65 then return .error error
          else return .ok (encoded.slice 1 32)

def overlaySalt (challenge : Bytes 16) (salt : Bytes 4) : Bytes 16 :=
  salt.append (challenge.slice 4 12)

def teslaCryptoEncryptBlock (sharedX : Bytes 32) (plaintext : Bytes 16) :
    NfcProgram (Except ℤ (Bytes 16)) := do
  let (error, digest) ← nfcCall (.sha1 sharedX)
  if error ≠ 0 then return .error error
  else
    let (error, aes) ← nfcCall (.aesSetkeyEnc (digest.slice 0 16))
    if error ≠ 0 then return .error error
    else
      let (error, response) ← nfcCall (.aesCryptEcb aes plaintext)
      if error ≠ 0 then return .error error else return .ok response

def teslaCryptoAuthenticationFailed (error : ℤ) : NfcProgram (Bool × Bytes 16) := do
  let _ ← nfcCall (.furiLog "Authentication calculation failed (%d)" [error])
  return (false, Bytes.zero 16)

def teslaCryptoAuthenticateWithSalt (crypto : TeslaCrypto) (peerPublicKey : Bytes 65)
    (challenge : Bytes 16) (salt : Bytes 4) : NfcProgram (Bool × Bytes 16) := do
  match ← teslaCryptoSharedX crypto peerPublicKey with
  | .error error => teslaCryptoAuthenticationFailed error
  | .ok sharedX => do
    match ← teslaCryptoEncryptBlock sharedX (overlaySalt challenge salt) with
    | .error error => teslaCryptoAuthenticationFailed error
    | .ok response => return (true, response)

def teslaCryptoAuthenticate (crypto : TeslaCrypto) (peerPublicKey : Bytes 65)
    (challenge : Bytes 16) : NfcProgram (Bool × Bytes 16) := do
  let salt ← nfcCall (.furiHalRandomFillBuf 4)
  teslaCryptoAuthenticateWithSalt crypto peerPublicKey challenge salt

/-- The second component is the new `crypto_time_ms`. -/
def teslaNfcAuthenticate (crypto : TeslaCrypto) (peerPublicKey : Bytes 65)
    (challenge : Bytes 16) : NfcProgram ((Bool × Bytes 16) × UInt32) := do
  let start ← nfcCall .furiGetTick
  let r ← teslaCryptoAuthenticate crypto peerPublicKey challenge
  let stop ← nfcCall .furiGetTick
  let tickFrequency ← nfcCall .furiKernelGetTickFrequency
  return (r, if tickFrequency = 0 then 0 else (stop - start) * 1000 / tickFrequency)

/-- The calls of the APDU layer as the NFC object carries them out; the state is
its `crypto_time_ms`. -/
def teslaNfcCarryOut (crypto : TeslaCrypto) :
    (c : ApduCall Unit ℕ) → UInt32 → NfcProgram (c.Reply × UInt32)
  | .authenticate _ _ peerPublicKey challenge, _ =>
    teslaNfcAuthenticate crypto peerPublicKey challenge
  | .fault f, _ => Program.call (I := NfcInterface) (.fault f) fun e => e.elim

def teslaNfcProcess (crypto : TeslaCrypto) (nfc : TeslaNfc) (request response : List UInt8) :
    NfcProgram ((TeslaApdu Unit ℕ × TeslaApduResult × List UInt8) × UInt32) :=
  (teslaApduProcess nfc.apdu request response).interpret (teslaNfcCarryOut crypto) nfc.cryptoTimeMs

/-- `furi_check` guards the capacity of the buffer. -/
def bitBufferAppendBytes (capacity : ℕ) (buffer data : List UInt8) (size : ℕ) :
    NfcProgram (List UInt8) :=
  if data.length < size then
    Program.call (I := NfcInterface) (.fault (.read size data.length)) fun e => e.elim
  else if capacity < buffer.length + size then
    Program.call (I := NfcInterface) (.fault (.write (buffer.length + size) capacity))
      fun e => e.elim
  else pure (buffer ++ data.take size)

/-- `callback` says whether the notification callback is set. -/
def teslaNfcNotify (callback : Bool) (nfc : TeslaNfc) (event : TeslaNfcEvent) : NfcProgram Unit :=
  if callback then nfcCall (.notify event nfc.cryptoTimeMs.toUInt16) else pure ()

/-- The chain of conditions after a block was sent; it has no last `else`. -/
def teslaNfcAnswerEvent (sendError : Iso14443Error) (result : TeslaApduResult) :
    Option TeslaNfcEvent :=
  if sendError ≠ .none then some .transmitError
  else if result.command = .select ∧ result.statusWord = 0x9000 then some .select
  else if result.command = .getPublicKey ∧ result.statusWord = 0x9000 then some .getPublicKey
  else if result.command = .authenticate ∧ result.statusWord = 0x9000 then some .authenticate
  else if result.command = .getCardInfo ∧ result.statusWord = 0x9000 then some .getCardInfo
  else if result.statusWord ≠ 0x9000 then some .protocolError
  else none

inductive ListenerEvent
  | receivedData (data : List UInt8)
  | fieldOff
  | halted

def teslaNfcReceivedData (crypto : TeslaCrypto) (callback : Bool) (nfc : TeslaNfc)
    (data : List UInt8) : NfcProgram TeslaNfc := do
  let ((apdu, result, response), cryptoTimeMs) ←
    teslaNfcProcess crypto nfc data (List.replicate 67 0)
  let nfc := { nfc with apdu, cryptoTimeMs }
  let block ← bitBufferAppendBytes 96 [] response result.responseSize
  let sendError ← nfcCall (.sendBlock block)
  match teslaNfcAnswerEvent sendError result with
  | none => return nfc
  | some event => do
    teslaNfcNotify callback nfc event
    return nfc

def teslaNfcEndSession (callback : Bool) (nfc : TeslaNfc) (event : TeslaNfcEvent) :
    NfcProgram TeslaNfc := do
  let nfc := { nfc with apdu := teslaApduResetSession nfc.apdu }
  teslaNfcNotify callback nfc event
  return nfc

def teslaNfcListenerCallback (crypto : TeslaCrypto) (callback : Bool) (nfc : TeslaNfc) :
    ListenerEvent → NfcProgram TeslaNfc
  | .receivedData data => teslaNfcReceivedData crypto callback nfc data
  | .fieldOff => teslaNfcEndSession callback nfc .fieldOff
  | .halted => teslaNfcEndSession callback nfc .halted

end FlipperApps.Tesla
