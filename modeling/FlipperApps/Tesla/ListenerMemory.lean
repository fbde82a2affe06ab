import FlipperApps.Calls.Tenancy
import FlipperApps.Tesla.Listener

/-!
# The NFC worker with the memory it looks after

The authentication of `tesla_crypto.c`, the APDU layer around it and the listener
callback once more, with the mbedTLS objects they initialise and free and the
buffers they fill and wipe.
-/

namespace FlipperApps.Tesla.ListenerMemory
open Calls

inductive Object
  | peerPoint
  | sharedPoint
  | aes
  deriving DecidableEq

/-- The buffers on the stack of the worker. -/
inductive Secret
  | salt
  | sharedEncoded
  | sharedX
  | digest
  | plaintext
  | authResponse
  | response
  deriving DecidableEq

def uses : NfcCall → List Object
  | .ecpPointReadBinary .. => [.peerPoint]
  | .ecpCheckPubkey .. => [.peerPoint]
  | .ecpMul .. => [.peerPoint, .sharedPoint]
  | .ecpPointWriteBinary .. => [.sharedPoint]
  | .aesSetkeyEnc _ => [.aes]
  | .aesCryptEcb .. => [.aes]
  | _ => []

/-- What is wiped before a block is sent, and before the app is notified. -/
def bars : NfcCall → List Secret
  | .sendBlock _ => [.salt, .sharedEncoded, .sharedX, .digest, .plaintext, .authResponse]
  | .notify .. => [.salt, .sharedEncoded, .sharedX, .digest, .plaintext, .authResponse, .response]
  | _ => []

def tenancy : Tenancy NfcInterface Object Secret where
  rests _ _ := True
  rests_mono _ _ _ _ _ := trivial
  uses := uses
  bars := bars
  ends _ := none
  grants _ _ := none

abbrev MemoryInterface : Interface := UpkeepInterface NfcInterface Object Secret
abbrev MemoryProgram := Program MemoryInterface
abbrev MemoryEvent := Event MemoryInterface

abbrev ApduMemory (κ χ : Type) : Interface := UpkeepInterface (ApduInterface κ χ) Object Secret

def nfcCall (c : NfcCall) : MemoryProgram c.Reply := Program.outside (I := NfcInterface) c

def take (o : Object) : MemoryProgram Unit := Program.own (.take o)

def finish (o : Object) : MemoryProgram Unit := Program.own (.finish o)

/-- The buffer is written, or its address is passed to the next call. -/
def fill (b : Secret) : MemoryProgram Unit := Program.own (.fill b)

/-- `tesla_secure_zero`. The plain `memset` with which the APDU layer clears
`auth_response` counts as one too. -/
def wipe (b : Secret) : MemoryProgram Unit := Program.own (.wipe b)

section
variable {ε α β : Type}

def orCleanup (p : MemoryProgram (Except ε α)) (next : α → MemoryProgram (Except ε β)) :
    MemoryProgram (Except ε β) := do
  match ← p with
  | .error error => return .error error
  | .ok a => next a

def cleanup (p : MemoryProgram (Except ε α)) (failed : ε → MemoryProgram β) (done : α → β) :
    MemoryProgram β := do
  match ← p with
  | .error error => failed error
  | .ok a => return done a

end

def teslaCryptoSharedX (crypto : TeslaCrypto) (peerPublicKey : Bytes 65) :
    MemoryProgram (Except ℤ (Bytes 32)) :=
  if !crypto.keyReady || peerPublicKey.get 0 first_within != 0x04 then return .error (-1)
  else do
    let peer ← nfcCall (.ecpPointReadBinary crypto.group peerPublicKey)
    if peer.1 ≠ 0 then return .error peer.1
    else
      let error ← nfcCall (.ecpCheckPubkey crypto.group peer.2)
      if error ≠ 0 then return .error error
      else
        let shared ← nfcCall (.ecpMul crypto.group crypto.privateKey peer.2)
        if shared.1 ≠ 0 then return .error shared.1
        else
          fill .sharedEncoded
          let encoded ← nfcCall (.ecpPointWriteBinary crypto.group shared.2)
          if encoded.1 ≠ 0 ∨ encoded.2.1 ≠ 65 then return .error encoded.1
          else
            fill .sharedX
            return .ok (encoded.2.2.slice 1 32 x_within)

def teslaCryptoEncryptBlock (sharedX : Bytes 32) (plaintext : Bytes 16) :
    MemoryProgram (Except ℤ (Bytes 16)) := do
  fill .digest
  let digest ← nfcCall (.sha1 sharedX)
  if digest.1 ≠ 0 then return .error digest.1
  else
    fill .plaintext
    let aes ← nfcCall (.aesSetkeyEnc (digest.2.slice 0 16 key_within))
    if aes.1 ≠ 0 then return .error aes.1
    else
      fill .authResponse
      let response ← nfcCall (.aesCryptEcb aes.2 plaintext)
      if response.1 ≠ 0 then return .error response.1 else return .ok response.2

def teslaCryptoAuthenticationFailed (error : ℤ) : MemoryProgram (Bool × Bytes 16) := do
  let _ ← nfcCall (.furiLog "Authentication calculation failed (%d)" [error])
  wipe .authResponse
  return (false, Bytes.zero 16)

def teslaCryptoAuthenticateWithSalt (crypto : TeslaCrypto) (peerPublicKey : Bytes 65)
    (challenge : Bytes 16) (salt : Bytes 4) : MemoryProgram (Bool × Bytes 16) := do
  take .peerPoint
  take .sharedPoint
  take .aes
  let r ← cleanup
    (orCleanup (teslaCryptoSharedX crypto peerPublicKey) fun sharedX =>
      teslaCryptoEncryptBlock sharedX (overlaySalt challenge salt))
    teslaCryptoAuthenticationFailed fun response => (true, response)
  wipe .plaintext
  wipe .digest
  wipe .sharedX
  wipe .sharedEncoded
  finish .aes
  finish .sharedPoint
  finish .peerPoint
  return r

def teslaCryptoAuthenticate (crypto : TeslaCrypto) (peerPublicKey : Bytes 65)
    (challenge : Bytes 16) : MemoryProgram (Bool × Bytes 16) := do
  fill .salt
  let salt ← nfcCall (.furiHalRandomFillBuf 4)
  let r ← teslaCryptoAuthenticateWithSalt crypto peerPublicKey challenge salt
  wipe .salt
  return r

def teslaNfcAuthenticate (crypto : TeslaCrypto) (peerPublicKey : Bytes 65)
    (challenge : Bytes 16) : MemoryProgram ((Bool × Bytes 16) × UInt32) := do
  let start ← nfcCall .furiGetTick
  let r ← teslaCryptoAuthenticate crypto peerPublicKey challenge
  let stop ← nfcCall .furiGetTick
  let tickFrequency ← nfcCall .furiKernelGetTickFrequency
  return (r, if tickFrequency = 0 then 0 else (stop - start) * 1000 / tickFrequency)

section
variable {κ χ : Type}

/-- The response of the callback is wiped once it has been copied. -/
def teslaApduAuthenticate (apdu : TeslaApdu κ χ) (request response : List UInt8) :
    Program (ApduMemory κ χ) (TeslaApduResult × List UInt8) :=
  if request.length < 5 then
    (teslaApduWriteResponse .authenticate swWrongLength [] 0 response).widen
  else do
    let lc ← (readByte request 4).widen
    let dataEnd ← (addSize 5 lc.toNat).widen
    if lc.toNat < 65 + 16 ∨ request.length < dataEnd then
      (teslaApduWriteResponse .authenticate swWrongLength [] 0 response).widen
    else
      let (authenticated, authResponse) ← (teslaApduRunCallback apdu request).widen
      let size ← (teslaApduApplyCase4Le request dataEnd 16).widen
      let result ←
        if authenticated then
          (teslaApduWriteResponse .authenticate swSuccess authResponse.toList size response).widen
        else (teslaApduWriteResponse .authenticate swUnknown [] 0 response).widen
      Program.own (.wipe .authResponse)
      return result

def teslaApduDispatch (apdu : TeslaApdu κ χ) (ins : UInt8) (request response : List UInt8) :
    Program (ApduMemory κ χ) (TeslaApduResult × List UInt8) :=
  if ins = 0x04 then do
    let size ← (teslaApduApplyLe request 65).widen
    (teslaApduWriteResponse .getPublicKey swSuccess apdu.publicKey.toList size response).widen
  else if ins = 0x11 then teslaApduAuthenticate apdu request response
  else if ins = 0x14 then do
    let size ← (teslaApduApplyLe request 2).widen
    (teslaApduWriteResponse .getCardInfo swSuccess [0x00, 0x01] size response).widen
  else (teslaApduWriteResponse .unsupported swInsNotSupported [] 0 response).widen

def teslaApduProcess (apdu : TeslaApdu κ χ) (request response : List UInt8) :
    Program (ApduMemory κ χ) (TeslaApdu κ χ × TeslaApduResult × List UInt8) :=
  if request.length < 4 then do
    return (apdu, ← (teslaApduWriteResponse .none swWrongLength [] 0 response).widen)
  else do
    let cla ← (readByte request 0).widen
    let ins ← (readByte request 1).widen
    let p1 ← (readByte request 2).widen
    if cla = 0x00 ∧ ins = 0xA4 ∧ p1 = 0x04 then
      let found ← (teslaApduSelectMatches request).widen
      return ({ apdu with selected := found }, ← (teslaApduWriteResponse .select
        (if found then swSuccess else swFileNotFound) [] 0 response).widen)
    else if !apdu.selected then
      return (apdu, ← (teslaApduWriteResponse .unsupported swCommandNotAllow [] 0 response).widen)
    else if cla &&& 0x80 = 0 then
      return (apdu, ← (teslaApduWriteResponse .unsupported swClaNotSupported [] 0 response).widen)
    else return (apdu, ← teslaApduDispatch apdu ins request response)

end

def teslaNfcCarryOut (crypto : TeslaCrypto) :
    (c : ApduCall Unit ℕ) → UInt32 → MemoryProgram (c.Reply × UInt32)
  | .authenticate _ _ peerPublicKey challenge, _ =>
    teslaNfcAuthenticate crypto peerPublicKey challenge
  | .fault f, _ => Program.call (I := MemoryInterface) (.inl (.fault f)) fun (e : Empty) => e.elim

def teslaNfcProcess (crypto : TeslaCrypto) (nfc : TeslaNfc) (request response : List UInt8) :
    MemoryProgram ((TeslaApdu Unit ℕ × TeslaApduResult × List UInt8) × UInt32) :=
  (teslaApduProcess nfc.apdu request response).interpret
    (Program.passing (I := ApduInterface Unit ℕ) (teslaNfcCarryOut crypto)) nfc.cryptoTimeMs

def teslaNfcReceivedData (crypto : TeslaCrypto) (callback : Bool) (nfc : TeslaNfc)
    (data : List UInt8) : MemoryProgram TeslaNfc := do
  fill .response
  let ((apdu, result, response), cryptoTimeMs) ←
    teslaNfcProcess crypto nfc data (List.replicate 67 0)
  let nfc := { nfc with apdu, cryptoTimeMs }
  let block ← (bitBufferAppendBytes 96 [] response result.responseSize).widen
  let sendError ← nfcCall (.sendBlock block)
  wipe .response
  match teslaNfcAnswerEvent sendError result with
  | none => return nfc
  | some event => do
    (teslaNfcNotify callback nfc event).widen
    return nfc

def teslaNfcListenerCallback (crypto : TeslaCrypto) (callback : Bool) (nfc : TeslaNfc) :
    ListenerEvent → MemoryProgram TeslaNfc
  | .receivedData data => teslaNfcReceivedData crypto callback nfc data
  | .fieldOff => (teslaNfcEndSession callback nfc .fieldOff).widen
  | .halted => (teslaNfcEndSession callback nfc .halted).widen

end FlipperApps.Tesla.ListenerMemory
