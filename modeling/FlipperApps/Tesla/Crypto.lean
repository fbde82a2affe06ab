import FlipperApps.Tesla.Hal

/-! The crypto context of `tesla_crypto.c` and the loading of its key pair. -/

namespace FlipperApps.Tesla
open Calls

structure TeslaCrypto where
  address : ℕ
  group : EcpGroup
  privateKey : ℕ
  publicKeyPoint : EcpPoint
  publicKey : Bytes 65
  groupReady : Bool
  keyReady : Bool
  deriving DecidableEq

def TeslaCrypto.zeroed (address : ℕ) : TeslaCrypto :=
  ⟨address, ⟨⟨0, 0, 0⟩, 0⟩, 0, ⟨0, 0, 0⟩, Bytes.zero 65, false, false⟩

def teslaCryptoFree : Option TeslaCrypto → HalProgram Unit
  | none => pure ()
  | some crypto => hal (.freeCrypto crypto.address)

def teslaCryptoAlloc : HalProgram (Option TeslaCrypto) := do
  match ← hal .mallocCrypto with
  | none => return none
  | some address => do
    -- The three init calls of mbedTLS zero what the allocation has zeroed.
    let (error, group) ← hal .ecpGroupLoad
    let crypto := { TeslaCrypto.zeroed address with group }
    if error ≠ 0 then
      let _ ← hal (.furiLog "Unable to load P-256" [])
      teslaCryptoFree (some crypto)
      return none
    else return some { crypto with groupReady := true }

def TeslaCrypto.forget (crypto : TeslaCrypto) : TeslaCrypto :=
  { crypto with
    keyReady := false, publicKey := Bytes.zero 65, privateKey := 0, publicKeyPoint := ⟨0, 0, 0⟩ }

def teslaCryptoLoadScalar (crypto : TeslaCrypto) (key : Bytes 32) :
    HalProgram (ℤ × TeslaCrypto) := do
  let (error, privateKey) ← hal (.mpiReadBinary key)
  let crypto := { crypto with privateKey }
  if error ≠ 0 then return (error, crypto)
  else
    let error ← hal (.ecpCheckPrivkey crypto.group crypto.privateKey)
    if error ≠ 0 then return (error, crypto)
    else
      let (error, publicKeyPoint) ← hal (.ecpMul crypto.group crypto.privateKey crypto.group.g)
      return (error, { crypto with publicKeyPoint })

def teslaCryptoEncodePoint (crypto : TeslaCrypto) (error : ℤ) :
    HalProgram (ℤ × ℕ × TeslaCrypto) :=
  if error ≠ 0 then pure (error, 0, crypto)
  else do
    let (error, size, publicKey) ←
      hal (.ecpPointWriteBinary crypto.group crypto.publicKeyPoint)
    return (error, size, { crypto with publicKey })

def teslaCryptoSetPrivateKey (crypto : TeslaCrypto) (key : Bytes 32) :
    HalProgram (Bool × TeslaCrypto) :=
  if !crypto.groupReady then pure (false, crypto)
  else do
    let (error, crypto) ← teslaCryptoLoadScalar crypto.forget key
    let (error, publicKeySize, crypto) ← teslaCryptoEncodePoint crypto error
    if error ≠ 0 ∨ publicKeySize ≠ 65 then
      let _ ← hal (.furiLog "Invalid private key (%d)" [error])
      return (false, crypto)
    else return (true, { crypto with keyReady := true })

/-- The key buffer is returned with the result: the caller's buffer is zeroed on
failure. -/
def teslaCryptoGeneratePrivateKey (crypto : TeslaCrypto) (key : Bytes 32) :
    HalProgram (Bool × TeslaCrypto × Bytes 32) := do
  let (error, generated) ← hal (.ecpGenPrivkey crypto.group)
  let (error, key) ←
    if error = 0 then hal (.mpiWriteBinary generated) else pure (error, key)
  if error ≠ 0 then
    let _ ← hal (.furiLog "Private-key generation failed (%d)" [error])
    return (false, crypto, Bytes.zero 32)
  else
    let (set, crypto) ← teslaCryptoSetPrivateKey crypto key
    return (set, crypto, if set then key else Bytes.zero 32)

def teslaCryptoGetPublicKey (crypto : TeslaCrypto) : Option (Bytes 65) :=
  if crypto.keyReady then some crypto.publicKey else none

end FlipperApps.Tesla
