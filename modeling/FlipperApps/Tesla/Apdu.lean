import FlipperApps.Bytes
import FlipperApps.Calls.Rules

/-!
# The APDU layer of `tesla_apdu.c`

Every read of the request, every write of the response and every size
computation is checked: an access outside its buffer, or a size that wraps,
issues a fault, which has no reply. The authenticate callback is a call.
-/

namespace FlipperApps.Tesla
open Calls

inductive AccessFault
  | read (index size : ℕ)
  | write (index size : ℕ)
  | wrap

variable {κ χ α : Type}

/-- `κ` and `χ` are the types of the callback and context pointers. -/
inductive ApduCall (κ χ : Type)
  | authenticate (callback : κ) (context : χ) (peer : Bytes 65) (challenge : Bytes 16)
  | fault (f : AccessFault)

abbrev ApduCall.Reply : ApduCall κ χ → Type
  | .authenticate .. => Bool × Bytes 16
  | .fault _ => Empty

abbrev ApduInterface (κ χ : Type) : Interface := ⟨ApduCall κ χ, ApduCall.Reply⟩
abbrev ApduProgram (κ χ α : Type) := Program (ApduInterface κ χ) α

def fault (f : AccessFault) : ApduProgram κ χ α :=
  Program.call (I := ApduInterface κ χ) (.fault f) fun e => e.elim

def readByte (buffer : List UInt8) (i : ℕ) : ApduProgram κ χ UInt8 :=
  if h : i < buffer.length then pure buffer[i] else fault (.read i buffer.length)

def readBytes (buffer : List UInt8) (i n : ℕ) : ApduProgram κ χ (Bytes n) :=
  if h : i + n ≤ buffer.length then pure (Bytes.within buffer i n h)
  else fault (.read (i + n) buffer.length)

def pointerTo (buffer : List UInt8) (i : ℕ) : ApduProgram κ χ (List UInt8) :=
  if i ≤ buffer.length then pure (buffer.drop i) else fault (.read i buffer.length)

def writeByte (buffer : List UInt8) (i : ℕ) (x : UInt8) : ApduProgram κ χ (List UInt8) :=
  if i < buffer.length then pure (buffer.set i x) else fault (.write i buffer.length)

def copyBytes (buffer data : List UInt8) (n : ℕ) : ApduProgram κ χ (List UInt8) :=
  if data.length < n then fault (.read n data.length)
  else if buffer.length < n then fault (.write n buffer.length)
  else pure (data.take n ++ buffer.drop n)

def addSize (a b : ℕ) : ApduProgram κ χ ℕ := if a + b < 2 ^ 32 then pure (a + b) else fault .wrap

def subSize (a b : ℕ) : ApduProgram κ χ ℕ := if b ≤ a then pure (a - b) else fault .wrap

inductive TeslaApduCommand
  | none
  | select
  | getPublicKey
  | authenticate
  | getCardInfo
  | unsupported
  deriving DecidableEq

structure TeslaApdu (κ χ : Type) where
  selected : Bool
  publicKey : Bytes 65
  authenticateCallback : Option κ
  authenticateContext : χ
  deriving DecidableEq

structure TeslaApduResult where
  command : TeslaApduCommand
  statusWord : UInt16
  responseSize : ℕ
  deriving DecidableEq

def swSuccess : UInt16 := 0x9000
def swWrongLength : UInt16 := 0x6700
def swCommandNotAllow : UInt16 := 0x6999
def swFileNotFound : UInt16 := 0x6A82
def swInsNotSupported : UInt16 := 0x6D00
def swClaNotSupported : UInt16 := 0x6E00
def swUnknown : UInt16 := 0x6F00

def teslaAid : List UInt8 := [0x74, 0x65, 0x73, 0x6C, 0x61, 0x4C, 0x6F, 0x67, 0x69, 0x63]
def teslaPhoneKeyAid : List UInt8 :=
  [0xF4, 0x65, 0x73, 0x6C, 0x61, 0x4C, 0x6F, 0x67, 0x69, 0x63]

def highByte (w : UInt16) : UInt8 := (w >>> 8).toUInt8
def lowByte (w : UInt16) : UInt8 := w.toUInt8

def teslaApduAidMatches (aid : List UInt8) (aidSize : ℕ) : ApduProgram κ χ Bool :=
  if aidSize < teslaAid.length then pure false
  else do
    let bytes ← readBytes aid 0 teslaAid.length
    return bytes.toList == teslaAid || bytes.toList == teslaPhoneKeyAid

def teslaApduPutResponse (command : TeslaApduCommand) (statusWord : UInt16)
    (data : List UInt8) (dataSize : ℕ) (response : List UInt8) :
    ApduProgram κ χ (TeslaApduResult × List UInt8) := do
  let response ← if dataSize ≠ 0 then copyBytes response data dataSize else pure response
  let response ← writeByte response dataSize (highByte statusWord)
  let last ← addSize dataSize 1
  let response ← writeByte response last (lowByte statusWord)
  let responseSize ← addSize dataSize 2
  return (⟨command, statusWord, responseSize⟩, response)

/-- The response buffer is as long as its capacity. -/
def teslaApduWriteResponse (command : TeslaApduCommand) (statusWord : UInt16)
    (data : List UInt8) (dataSize : ℕ) (response : List UInt8) :
    ApduProgram κ χ (TeslaApduResult × List UInt8) := do
  let needed ← addSize dataSize 2
  if response.length < needed then
    -- The result then keeps the status word that was not sent.
    if response.length < 2 then return (⟨command, statusWord, 0⟩, response)
    else teslaApduPutResponse command swWrongLength data 0 response
  else teslaApduPutResponse command statusWord data dataSize response

def teslaApduApplyLe (request : List UInt8) (size : ℕ) : ApduProgram κ χ ℕ :=
  if request.length = 5 then do
    let le ← readByte request 4
    return if le ≠ 0 ∧ le.toNat < size then le.toNat else size
  else pure size

def teslaApduApplyCase4Le (request : List UInt8) (dataEnd size : ℕ) : ApduProgram κ χ ℕ := do
  let withLe ← addSize dataEnd 1
  if request.length = withLe then
    let le ← readByte request dataEnd
    return if le ≠ 0 ∧ le.toNat < size then le.toNat else size
  else return size

def teslaApduInit (publicKey : Bytes 65) (callback : Option κ) (context : χ) : TeslaApdu κ χ :=
  ⟨false, publicKey, callback, context⟩

def teslaApduResetSession (apdu : TeslaApdu κ χ) : TeslaApdu κ χ := { apdu with selected := false }

def teslaApduSelectMatches (request : List UInt8) : ApduProgram κ χ Bool :=
  if 5 ≤ request.length then do
    let aidSize ← readByte request 4
    let rest ← subSize request.length 5
    if aidSize.toNat ≤ rest then
      let aid ← pointerTo request 5
      teslaApduAidMatches aid aidSize.toNat
    else return false
  else pure false

def teslaApduRunCallback (apdu : TeslaApdu κ χ) (request : List UInt8) :
    ApduProgram κ χ (Bool × Bytes 16) :=
  match apdu.authenticateCallback with
  | none => pure (false, Bytes.zero 16)
  | some callback => do
    let peer ← readBytes request 5 65
    let challenge ← readBytes request (5 + 65) 16
    Program.perform (I := ApduInterface κ χ)
      (.authenticate callback apdu.authenticateContext peer challenge)

def teslaApduAuthenticate (apdu : TeslaApdu κ χ) (request response : List UInt8) :
    ApduProgram κ χ (TeslaApduResult × List UInt8) :=
  if request.length < 5 then
    teslaApduWriteResponse .authenticate swWrongLength [] 0 response
  else do
    let lc ← readByte request 4
    let dataEnd ← addSize 5 lc.toNat
    if lc.toNat < 65 + 16 ∨ request.length < dataEnd then
      teslaApduWriteResponse .authenticate swWrongLength [] 0 response
    else
      let (authenticated, authResponse) ← teslaApduRunCallback apdu request
      let size ← teslaApduApplyCase4Le request dataEnd 16
      if authenticated then
        teslaApduWriteResponse .authenticate swSuccess authResponse.toList size response
      else teslaApduWriteResponse .authenticate swUnknown [] 0 response

def teslaApduDispatch (apdu : TeslaApdu κ χ) (ins : UInt8) (request response : List UInt8) :
    ApduProgram κ χ (TeslaApduResult × List UInt8) :=
  if ins = 0x04 then do
    let size ← teslaApduApplyLe request 65
    teslaApduWriteResponse .getPublicKey swSuccess apdu.publicKey.toList size response
  else if ins = 0x11 then teslaApduAuthenticate apdu request response
  else if ins = 0x14 then do
    let size ← teslaApduApplyLe request 2
    teslaApduWriteResponse .getCardInfo swSuccess [0x00, 0x01] size response
  else teslaApduWriteResponse .unsupported swInsNotSupported [] 0 response

def teslaApduProcess (apdu : TeslaApdu κ χ) (request response : List UInt8) :
    ApduProgram κ χ (TeslaApdu κ χ × TeslaApduResult × List UInt8) :=
  if request.length < 4 then do
    return (apdu, ← teslaApduWriteResponse .none swWrongLength [] 0 response)
  else do
    let cla ← readByte request 0
    let ins ← readByte request 1
    let p1 ← readByte request 2
    if cla = 0x00 ∧ ins = 0xA4 ∧ p1 = 0x04 then
      let found ← teslaApduSelectMatches request
      return ({ apdu with selected := found }, ← teslaApduWriteResponse .select
        (if found then swSuccess else swFileNotFound) [] 0 response)
    else if !apdu.selected then
      return (apdu, ← teslaApduWriteResponse .unsupported swCommandNotAllow [] 0 response)
    else if cla &&& 0x80 = 0 then
      return (apdu, ← teslaApduWriteResponse .unsupported swClaNotSupported [] 0 response)
    else return (apdu, ← teslaApduDispatch apdu ins request response)

end FlipperApps.Tesla
