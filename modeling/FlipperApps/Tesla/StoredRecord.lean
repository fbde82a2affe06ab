import FlipperApps.Tesla.Device
import FlipperApps.Tesla.Identity

/-!
# Valid identity files

The reference for what a file says: its length, magic, version, identifier size
and tag make it a valid record, and the identity is read off fixed offsets.
-/

namespace FlipperApps.Tesla

def Device.macKey (D : Device) : Bytes 32 :=
  D.encrypt (Bytes.zero 16) teslaIdentityMacDerivation

def Device.mac (D : Device) (m : Bytes 64) : Bytes 32 := D.hmac D.macKey m

/-- A v2 file: 96 bytes that end with the MAC of the first 64. -/
def ValidV2 (D : Device) (F : List UInt8) : Prop :=
  F.length = 96 ∧ F.take 8 = teslaIdentityMagic ∧ F[8]? = some 2 ∧ F[9]? = some 4 ∧
    ∃ h, F.drop 64 = (D.mac (Bytes.within F 0 64 h)).toList

/-- A v1 file: 68 bytes that end with the little-endian CRC of the first 64. -/
def ValidV1 (D : Device) (F : List UInt8) : Prop :=
  F.length = 68 ∧ F.take 8 = teslaIdentityMagic ∧ F[8]? = some 1 ∧ F[9]? = some 4 ∧
    ∃ h, F.drop 64 = (Bytes.leBytes 4 (D.crc32 (Bytes.within F 0 64 h)).toNat).toList

def ValidRecord (D : Device) (F : List UInt8) : Prop := ValidV2 D F ∨ ValidV1 D F

section
variable {D : Device} {F : List UInt8}

instance : Decidable (ValidV2 D F) := inferInstanceAs (Decidable (_ ∧ _ ∧ _ ∧ _ ∧ _))
instance : Decidable (ValidV1 D F) := inferInstanceAs (Decidable (_ ∧ _ ∧ _ ∧ _ ∧ _))
instance : Decidable (ValidRecord D F) := inferInstanceAs (Decidable (_ ∨ _))

theorem ValidRecord.le_length (h : ValidRecord D F) : 64 ≤ F.length := by
  rcases h with h | h
  · have := h.1
    omega
  · have := h.1
    omega

/-- The identifier at byte 10, and the key at byte 32 encrypted under the IV at
byte 16. -/
def identityAt (D : Device) (F : List UInt8) (h : 64 ≤ F.length) : TeslaIdentity where
  uid := Bytes.within F 10 4 (by omega)
  privateKey := D.decrypt (Bytes.within F 16 16 (by omega)) (Bytes.within F 32 32 h)

def storedIdentity (D : Device) (F : List UInt8) : Option TeslaIdentity :=
  if h : ValidRecord D F then some (identityAt D F h.le_length) else none

theorem storedIdentity_eq_some (h : ValidRecord D F) :
    storedIdentity D F = some (identityAt D F h.le_length) := dif_pos h

theorem storedIdentity_eq_none (h : ¬ ValidRecord D F) : storedIdentity D F = none := dif_neg h

end

theorem or_eq_zero_iff (x y : UInt8) : x ||| y = 0 ↔ x = 0 ∧ y = 0 := by
  rw [← UInt8.toNat_inj, ← UInt8.toNat_inj, ← UInt8.toNat_inj, UInt8.toNat_or]
  exact Nat.or_eq_zero_iff

theorem foldl_xor_eq_zero {xs ys : List UInt8} (hlen : xs.length = ys.length) (acc : UInt8) :
    (xs.zipWith (· ^^^ ·) ys).foldl (· ||| ·) acc = 0 ↔ acc = 0 ∧ xs = ys := by
  induction xs generalizing ys acc with
  | nil =>
    obtain rfl : ys = [] := List.length_eq_zero_iff.mp hlen.symm
    simp
  | cons x xs ih =>
    cases ys with
    | nil => simp at hlen
    | cons y ys =>
      rw [List.zipWith_cons_cons, List.foldl_cons, ih (by simpa using hlen), or_eq_zero_iff,
        UInt8.xor_eq_zero_iff, List.cons.injEq, and_assoc]

theorem macEquals_iff (first second : Bytes 32) :
    teslaIdentityMacEquals first second = true ↔ first = second := by
  rw [teslaIdentityMacEquals, beq_iff_eq, foldl_xor_eq_zero (by simp), Bytes.ext_iff]
  simp

def HeaderOk (version : UInt8) (r : RecordFields) : Prop :=
  r.magic.toList = teslaIdentityMagic ∧ r.version = version ∧ r.uidSize = teslaNfcUidSize

theorem header_iff {n : ℕ} (b : Bytes n) (h : 64 ≤ n) (version : UInt8) :
    HeaderOk version (RecordFields.unpack (b.slice 0 64)) ↔
      b.toList.take 8 = teslaIdentityMagic ∧ b.toList[8]? = some version ∧
        b.toList[9]? = some 4 := by
  have h8 : 8 < b.toList.length := by simp; omega
  have h9 : 9 < b.toList.length := by simp; omega
  rw [List.getElem?_eq_getElem h8, List.getElem?_eq_getElem h9]
  simp [HeaderOk, RecordFields.unpack, Bytes.get, List.take_take, teslaNfcUidSize]

theorem validV2_iff (D : Device) (b : Bytes 96) :
    ValidV2 D b.toList ↔ HeaderOk teslaIdentityVersion (TeslaIdentityRecord.unpack b).fields ∧
      (TeslaIdentityRecord.unpack b).mac =
        D.mac (TeslaIdentityRecord.unpack b).fields.pack := by
  simp only [TeslaIdentityRecord.unpack, RecordFields.pack_unpack, Bytes.ext_iff,
    b.slice_end 64 32 rfl]
  rw [header_iff b (by omega)]
  constructor
  · intro h
    obtain ⟨-, hmagic, hversion, huid, _, hmac⟩ := h
    exact ⟨⟨hmagic, hversion, huid⟩, hmac⟩
  · intro h
    obtain ⟨⟨hmagic, hversion, huid⟩, hmac⟩ := h
    exact ⟨b.length_eq, hmagic, hversion, huid, by simp, hmac⟩

theorem validV1_iff (D : Device) (b : Bytes 68) :
    ValidV1 D b.toList ↔
      HeaderOk teslaIdentityLegacyVersion (TeslaIdentityLegacyRecord.unpack b).fields ∧
        (TeslaIdentityLegacyRecord.unpack b).checksum =
          D.crc32 (TeslaIdentityLegacyRecord.unpack b).fields.pack := by
  rw [TeslaIdentityLegacyRecord.checksum_eq_iff]
  simp only [TeslaIdentityLegacyRecord.unpack, RecordFields.pack_unpack, Bytes.ext_iff,
    b.slice_end 64 4 rfl]
  rw [header_iff b (by omega)]
  constructor
  · intro h
    obtain ⟨-, hmagic, hversion, huid, _, hcrc⟩ := h
    exact ⟨⟨hmagic, hversion, huid⟩, hcrc⟩
  · intro h
    obtain ⟨⟨hmagic, hversion, huid⟩, hcrc⟩ := h
    exact ⟨b.length_eq, hmagic, hversion, huid, by simp, hcrc⟩

def identityOf (D : Device) (r : RecordFields) : TeslaIdentity :=
  ⟨r.uid, D.decrypt r.iv r.encryptedPrivateKey⟩

theorem identityOf_unpack {n : ℕ} (D : Device) (b : Bytes n) (h : 64 ≤ n) :
    identityOf D (RecordFields.unpack (b.slice 0 64)) =
      identityAt D b.toList (by simpa using h) := by
  have hslice (i len : ℕ) (hi : i + len ≤ 64) :
      (b.slice 0 64).slice i len = Bytes.within b.toList i len (by simp; omega) := by
    ext1
    simp [List.drop_take, List.take_take, Nat.min_eq_left (show len ≤ 64 - i by omega)]
  simp only [identityOf, RecordFields.unpack, identityAt, hslice]

end FlipperApps.Tesla
