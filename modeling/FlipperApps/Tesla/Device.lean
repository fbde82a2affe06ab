import FlipperApps.Calls.Interruption
import FlipperApps.Tesla.Hal

/-!
# What the firmware calls do

A device fixes the cryptographic functions. `Works` is the documented effect of
each call on two files, one open file and the enclave slot. A failing call
reports it, and leaves both files as they were except for a partial write.
-/

namespace FlipperApps.Tesla
open Calls

/-- The device key, HMAC, CRC and curve, with the laws the code relies on. -/
structure Device where
  encrypt : Bytes 16 → Bytes 32 → Bytes 32
  decrypt : Bytes 16 → Bytes 32 → Bytes 32
  hmac : Bytes 32 → Bytes 64 → Bytes 32
  crc32 : Bytes 64 → UInt32
  group : EcpGroup
  mul : ℕ → EcpPoint → EcpPoint
  decrypt_encrypt : ∀ iv x, decrypt iv (encrypt iv x) = x
  order_gt : 1 < group.n
  order_le : group.n ≤ 256 ^ 32
  mul_ne_zero : ∀ d, 1 ≤ d → d < group.n → (mul d group.g).z ≠ 0

abbrev Disk := IdentityPath → Option (List UInt8)

namespace Disk

def empty : Disk := fun _ => none

def write (d : Disk) (p : IdentityPath) (content : Option (List UInt8)) : Disk :=
  Function.update d p content

@[simp] theorem write_same (d : Disk) (p : IdentityPath) (content : Option (List UInt8)) :
    d.write p content p = content := Function.update_self ..

@[simp] theorem write_ne (d : Disk) {p q : IdentityPath} (h : q ≠ p)
    (content : Option (List UInt8)) : d.write p content q = d q := Function.update_of_ne h ..

def rename (d : Disk) (p q : IdentityPath) : Disk := (d.write q (d p)).write p none

end Disk

structure OpenFile where
  path : IdentityPath
  position : ℕ

structure World where
  disk : Disk
  file : Option OpenFile
  enclave : Option (Bytes 16)
  events : List TeslaKeyCardNfcEvent

namespace World

def idle (d : Disk) (events : List TeslaKeyCardNfcEvent) : World := ⟨d, none, none, events⟩

def content (w : World) (f : OpenFile) : List UInt8 := (w.disk f.path).getD []

def read (w : World) (size : ℕ) : List UInt8 :=
  match w.file with
  | none => []
  | some f => ((w.content f).drop f.position).take size

def write (w : World) (f : OpenFile) (data : List UInt8) : World :=
  { w with
    disk := w.disk.write f.path (some ((w.content f).take f.position ++ data))
    file := some { f with position := f.position + data.length } }

end World

def EcpPoint.uncompressed (p : EcpPoint) : Bytes 65 :=
  ⟨0x04 :: ((Bytes.beBytes 32 p.x).toList ++ (Bytes.beBytes 32 p.y).toList), by simp⟩

/-- `MBEDTLS_ERR_ECP_INVALID_KEY` and `MBEDTLS_ERR_MPI_BUFFER_TOO_SMALL`. -/
def ecpInvalidKey : ℤ := -0x4C80
def mpiBufferTooSmall : ℤ := -0x0008

def ValidScalar (group : EcpGroup) (key : ℕ) : Prop := 1 ≤ key ∧ key < group.n

instance (group : EcpGroup) (key : ℕ) : Decidable (ValidScalar group key) :=
  inferInstanceAs (Decidable (_ ∧ _))

def Works (D : Device) (w : World) : (c : HalCall) → c.Reply → World → Prop
  | .furiLog .., _, w' => w' = w
  | .furiHalRandomFillBuf _, _, w' => w' = w
  | .storageCommonStat p, r, w' => w' = w ∧ r = match w.disk p with
    | none => (.notExist, 0)
    | some content => (.ok, content.length)
  | .storageCommonRemove p, r, w' => w' = { w with disk := w.disk.write p none } ∧
      r = if w.disk p = none then .notExist else .ok
  | .storageCommonRename p q, r, w' =>
    if w.disk p = none then w' = w ∧ r = .notExist
    else w' = { w with disk := w.disk.rename p q } ∧ r = .ok
  | .storageFileOpen p .readExisting, r, w' =>
    if w.disk p = none then w' = w ∧ r = false
    else w' = { w with file := some ⟨p, 0⟩ } ∧ r = true
  | .storageFileOpen p .createAlways, r, w' =>
    w' = { w with disk := w.disk.write p (some []), file := some ⟨p, 0⟩ } ∧ r = true
  | .storageFileRead size, r, w' => r = w.read size ∧ w' = { w with
      file := w.file.map fun f => { f with position := f.position + r.length } }
  | .storageFileWrite data, r, w' => match w.file with
    | none => w' = w ∧ r = 0
    | some f => w' = w.write f data ∧ r = data.length
  | .storageFileSync, r, w' => w' = w ∧ r = w.file.isSome
  | .storageFileClose, r, w' => w' = { w with file := none } ∧ r = w.file.isSome
  | .enclaveEnsureKey, r, w' => w' = w ∧ r = true
  | .enclaveLoadKey iv, r, w' => match w.enclave with
    | none => w' = { w with enclave := some iv } ∧ r = true
    | some _ => w' = w ∧ r = false
  | .enclaveUnloadKey, r, w' => w' = { w with enclave := none } ∧ r = w.enclave.isSome
  | .furiHalCryptoEncrypt input, r, w' => w' = w ∧ match w.enclave with
    | none => r.1 = false
    | some iv => r = (true, D.encrypt iv input)
  | .furiHalCryptoDecrypt input, r, w' => w' = w ∧ match w.enclave with
    | none => r.1 = false
    | some iv => r = (true, D.decrypt iv input)
  | .mdInfoFromType, r, w' => w' = w ∧ r = true
  | .mdHmac key input, r, w' => w' = w ∧ r = (0, D.hmac key input)
  | .crc32CalcBuffer input, r, w' => w' = w ∧ r = D.crc32 input
  | .mallocCrypto, r, w' => w' = w ∧ r ≠ none
  | .ecpGroupLoad, r, w' => w' = w ∧ r = (0, D.group)
  | .mpiReadBinary bytes, r, w' => w' = w ∧ r = (0, bytes.beValue)
  | .mpiWriteBinary value, r, w' => w' = w ∧
      if value < 256 ^ 32 then r = (0, Bytes.beBytes 32 value) else r.1 = mpiBufferTooSmall
  | .ecpCheckPrivkey group key, r, w' => w' = w ∧
      r = if ValidScalar group key then 0 else ecpInvalidKey
  | .ecpMul _ key point, r, w' => w' = w ∧ r = (0, D.mul key point)
  | .ecpPointWriteBinary _ point, r, w' => w' = w ∧
      if point.z = 0 then r.1 = 0 ∧ r.2.1 = 1 else r = (0, 65, point.uncompressed)
  | .ecpGenPrivkey group, r, w' => w' = w ∧
      if 1 < group.n then r.1 = 0 ∧ ValidScalar group r.2 else r.1 = ecpInvalidKey
  | .freeCrypto _, _, w' => w' = w
  | .publicKeyAtNull, _, w' => w' = w
  | .mallocNfc, _, w' => w' = w
  | .freeNfc _, _, w' => w' = w
  | .nfcListenerAlloc _, r, w' => w' = w ∧ r = true
  | .nfcListenerStart _, _, w' => w' = w
  | .nfcListenerStop, _, w' => w' = w
  | .nfcListenerFree, _, w' => w' = w
  | .nfcEventQueueGet, r, w' => w' = { w with events := w.events.tail } ∧ r = w.events.head?

/-- The reply reports a failure. The calls not listed cannot fail. -/
def Refused : (c : HalCall) → c.Reply → Prop
  | .storageCommonStat _, r => r.1 ≠ .ok ∧ r.1 ≠ .notExist
  | .storageCommonRemove _, r => r ≠ .ok ∧ r ≠ .notExist
  | .storageCommonRename .., r => r ≠ .ok
  | .storageFileOpen .., r => r = false
  | .storageFileRead size, r => r.length < size
  | .storageFileWrite data, r => r < data.length
  | .storageFileSync, r => r = false
  | .storageFileClose, r => r = false
  | .enclaveEnsureKey, r => r = false
  | .enclaveLoadKey _, r => r = false
  | .enclaveUnloadKey, r => r = false
  | .furiHalCryptoEncrypt _, r => r.1 = false
  | .furiHalCryptoDecrypt _, r => r.1 = false
  | .mdInfoFromType, r => r = false
  | .mdHmac .., r => r.1 ≠ 0
  | .mallocCrypto, r => r = none
  | .ecpGroupLoad, r => r.1 ≠ 0
  | .mpiReadBinary _, r => r.1 ≠ 0
  | .mpiWriteBinary _, r => r.1 ≠ 0
  | .ecpCheckPrivkey .., r => r ≠ 0
  | .ecpMul .., r => r.1 ≠ 0
  | .ecpPointWriteBinary .., r => r.1 ≠ 0
  | .ecpGenPrivkey _, r => r.1 ≠ 0
  | .nfcListenerAlloc _, r => r = false
  | _, _ => False

/-- A failing write may have put down a part of its data; a failing unload has
released the slot, and a failing close the file. -/
def Kept (w : World) : HalCall → World → Prop
  | .storageFileWrite data, w' => match w.file with
    | none => w' = w
    | some f => ∃ n, w' = w.write f (data.take n)
  | .storageFileClose, w' => w' = { w with file := none }
  | .enclaveUnloadKey, w' => w' = { w with enclave := none }
  | _, w' => w' = w

def halEnv (D : Device) (failures : Environment HalInterface World) :
    Environment HalInterface World :=
  fun w c r w' => Works D w c r w' ∨ failures w c r w'

/-- Some calls may fail, with no effect on the files but a partial write. -/
def failing (mayFail : HalCall → Prop) : Environment HalInterface World :=
  fun w c r w' => mayFail c ∧ Refused c r ∧ Kept w c w'

def noFailure : HalCall → Prop := fun _ => False

theorem failing_mono {mayFail mayFail' : HalCall → Prop} (h : ∀ c, mayFail c → mayFail' c)
    {w w' : World} {c : HalCall} {r : c.Reply} (hf : failing mayFail w c r w') :
    failing mayFail' w c r w' :=
  ⟨h c hf.1, hf.2⟩

theorem halEnv_mono {D : Device} {F F' : Environment HalInterface World}
    (h : ∀ w c r w', F w c r w' → F' w c r w') {w w' : World} {c : HalCall} {r : c.Reply}
    (hE : halEnv D F w c r w') : halEnv D F' w c r w' :=
  hE.imp id (h w c r w')

theorem works_total (D : Device) (w : World) (c : HalCall) : ∃ r w', Works D w c r w' := by
  cases c with
  | storageCommonRename p q =>
    by_cases h : w.disk p = none
    · exact ⟨_, _, by simp only [Works, h, if_true]; exact ⟨rfl, rfl⟩⟩
    · exact ⟨_, _, by simp only [Works, h, if_false]; exact ⟨rfl, rfl⟩⟩
  | storageFileOpen p mode =>
    cases mode with
    | createAlways => exact ⟨_, _, rfl, rfl⟩
    | readExisting =>
      by_cases h : w.disk p = none
      · exact ⟨_, _, by simp only [Works, h, if_true]; exact ⟨rfl, rfl⟩⟩
      · exact ⟨_, _, by simp only [Works, h, if_false]; exact ⟨rfl, rfl⟩⟩
  | storageFileWrite data =>
    cases h : w.file with
    | none => exact ⟨_, _, by simp only [Works, h]; exact ⟨rfl, rfl⟩⟩
    | some f => exact ⟨_, _, by simp only [Works, h]; exact ⟨rfl, rfl⟩⟩
  | enclaveLoadKey iv =>
    cases h : w.enclave with
    | none => exact ⟨_, _, by simp only [Works, h]; exact ⟨rfl, rfl⟩⟩
    | some _ => exact ⟨_, _, by simp only [Works, h]; exact ⟨rfl, rfl⟩⟩
  | furiHalCryptoEncrypt input =>
    cases h : w.enclave with
    | none => exact ⟨(false, input), w, rfl, by rw [h]⟩
    | some iv => exact ⟨_, w, rfl, by rw [h]⟩
  | furiHalCryptoDecrypt input =>
    cases h : w.enclave with
    | none => exact ⟨(false, input), w, rfl, by rw [h]⟩
    | some iv => exact ⟨_, w, rfl, by rw [h]⟩
  | mallocCrypto => exact ⟨some 0, w, rfl, nofun⟩
  | mpiWriteBinary value =>
    by_cases h : value < 256 ^ 32
    · exact ⟨_, w, rfl, by rw [if_pos h]⟩
    · exact ⟨(mpiBufferTooSmall, Bytes.zero 32), w, rfl, by rw [if_neg h]⟩
  | ecpPointWriteBinary group point =>
    by_cases h : point.z = 0
    · exact ⟨(0, 1, Bytes.zero 65), w, rfl, by rw [if_pos h]; exact ⟨rfl, rfl⟩⟩
    · exact ⟨_, w, rfl, by rw [if_neg h]⟩
  | ecpGenPrivkey group =>
    by_cases h : 1 < group.n
    · exact ⟨(0, 1), w, rfl, by rw [if_pos h]; exact ⟨rfl, Nat.le_refl 1, h⟩⟩
    · exact ⟨(ecpInvalidKey, 0), w, rfl, by rw [if_neg h]⟩
  | furiHalRandomFillBuf size => exact ⟨Bytes.zero size, w, rfl⟩
  | publicKeyAtNull => exact ⟨Bytes.zero 65, w, rfl⟩
  | mallocNfc => exact ⟨(0 : ℕ), w, rfl⟩
  | storageFileRead size => exact ⟨_, _, rfl, rfl⟩
  | furiLog => exact ⟨(), w, rfl⟩
  | freeCrypto => exact ⟨(), w, rfl⟩
  | freeNfc => exact ⟨(), w, rfl⟩
  | nfcListenerStart => exact ⟨(), w, rfl⟩
  | nfcListenerStop => exact ⟨(), w, rfl⟩
  | nfcListenerFree => exact ⟨(), w, rfl⟩
  | _ => exact ⟨_, _, rfl, rfl⟩

theorem halEnv_total (D : Device) (F : Environment HalInterface World) (w : World)
    (c : HalCall) : ∃ r w', halEnv D F w c r w' := by
  obtain ⟨r, w', h⟩ := works_total D w c
  exact ⟨r, w', .inl h⟩

/-- The reflected CRC-32 of the firmware, one byte at a time. -/
def crc32Byte (crc : UInt32) (x : UInt8) : UInt32 :=
  (List.range 8).foldl (fun c _ => if c &&& 1 = 1 then (c >>> 1) ^^^ 0xEDB88320 else c >>> 1)
    (crc ^^^ x.toUInt32)

def secp256r1 : EcpGroup where
  g := {
    x := 0x6B17D1F2E12C4247F8BCE6E563A440F277037D812DEB33A0F4A13945D898C296
    y := 0x4FE342E2FE1A7F9B8EE7EB4A7C0F9E162BCE33576B315ECECBB6406837BF51F5
    z := 1 }
  n := 0xFFFFFFFF00000000FFFFFFFFFFFFFFFFBCE6FAADA7179E84F3B9CAC2FC632551

/-- A device to run examples on, with a simple cipher and MAC in place of those
under its secret key, and the curve for the scalar 1. -/
def plainDevice : Device where
  encrypt _ x := ⟨x.toList.reverse, by simp⟩
  decrypt _ x := ⟨x.toList.reverse, by simp⟩
  hmac key m := ⟨key.toList.zipWith (· ^^^ ·)
    ((m.toList.take 32).zipWith (· + ·) (m.toList.drop 32)), by simp⟩
  crc32 m := m.toList.foldl crc32Byte 0xFFFFFFFF ^^^ 0xFFFFFFFF
  group := secp256r1
  mul _ p := p
  decrypt_encrypt _ x := by
    ext1
    simp
  order_gt := by decide
  order_le := by decide
  mul_ne_zero _ _ _ := by decide

end FlipperApps.Tesla
