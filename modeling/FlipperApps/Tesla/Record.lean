import FlipperApps.Bytes
import Mathlib.Data.List.TakeDrop

/-!
# The packed identity records

Both record formats are 64 bytes of fields followed by a tag: a MAC in version
2, a checksum in version 1. Reading the fields off a packed buffer and packing
them are inverse to each other.
-/

namespace FlipperApps.Tesla

def teslaIdentityMagic : List UInt8 := [0x54, 0x4B, 0x43, 0x46, 0x5A, 0x30, 0x30, 0x31]
def teslaIdentityVersion : UInt8 := 2
def teslaIdentityLegacyVersion : UInt8 := 1
def teslaNfcUidSize : UInt8 := 4

structure TeslaIdentity where
  uid : Bytes 4
  privateKey : Bytes 32
  deriving DecidableEq

structure RecordFields where
  magic : Bytes 8
  version : UInt8
  uidSize : UInt8
  uid : Bytes 4
  reserved : Bytes 2
  iv : Bytes 16
  encryptedPrivateKey : Bytes 32
  deriving DecidableEq

structure TeslaIdentityRecord where
  fields : RecordFields
  mac : Bytes 32
  deriving DecidableEq

structure TeslaIdentityLegacyRecord where
  fields : RecordFields
  checksum : UInt32
  deriving DecidableEq

namespace RecordFields

def pack (r : RecordFields) : Bytes 64 :=
  ⟨r.magic.toList ++ r.version :: r.uidSize :: (r.uid.toList ++ r.reserved.toList ++
    r.iv.toList ++ r.encryptedPrivateKey.toList), by simp⟩

def unpack (b : Bytes 64) : RecordFields where
  magic := b.slice 0 8
  version := b.get 8
  uidSize := b.get 9
  uid := b.slice 10 4
  reserved := b.slice 14 2
  iv := b.slice 16 16
  encryptedPrivateKey := b.slice 32 32

theorem pack_unpack (b : Bytes 64) : (unpack b).pack = b := by
  ext1
  have hend : (b.slice 32 32).toList = b.toList.drop 32 := b.slice_end 32 32 rfl
  simp only [pack, unpack, List.append_assoc, hend]
  rw [b.slice_append_drop 16 16, b.slice_append_drop 14 2, b.slice_append_drop 10 4,
    b.get_cons_drop 9, b.get_cons_drop 8, b.slice_append_drop 0 8, List.drop_zero]

theorem unpack_pack (r : RecordFields) : unpack r.pack = r := by
  obtain ⟨magic, version, uidSize, uid, reserved, iv, key⟩ := r
  simp only [unpack, pack, RecordFields.mk.injEq, Bytes.ext_iff, Bytes.slice_toList, Bytes.get,
    List.get_eq_getElem]
  simp [List.drop_append, List.drop_of_length_le, List.take_of_length_le]

end RecordFields

namespace TeslaIdentityRecord

def pack (r : TeslaIdentityRecord) : Bytes 96 := r.fields.pack.append r.mac

def unpack (b : Bytes 96) : TeslaIdentityRecord :=
  ⟨RecordFields.unpack (b.slice 0 64), b.slice 64 32⟩

theorem unpack_pack (r : TeslaIdentityRecord) : unpack r.pack = r := by
  obtain ⟨fields, mac⟩ := r
  have hfields : (fields.pack.append mac).slice 0 64 = fields.pack := by
    ext1
    simp
  have hmac : (fields.pack.append mac).slice 64 32 = mac := by
    ext1
    simp [List.take_of_length_le]
  simp only [unpack, pack, hfields, hmac, RecordFields.unpack_pack]

end TeslaIdentityRecord

namespace TeslaIdentityLegacyRecord

/-- The checksum is stored in the byte order of the processor, little-endian. -/
def unpack (b : Bytes 68) : TeslaIdentityLegacyRecord :=
  ⟨RecordFields.unpack (b.slice 0 64), UInt32.ofNat (b.slice 64 4).leValue⟩

theorem checksum_eq_iff (b : Bytes 68) (c : UInt32) :
    (unpack b).checksum = c ↔ b.slice 64 4 = Bytes.leBytes 4 c.toNat := by
  constructor
  · intro h
    subst h
    have hlt := (b.slice 64 4).leValue_lt
    rw [unpack, UInt32.toNat_ofNat', Nat.mod_eq_of_lt (by simpa using hlt),
      Bytes.leBytes_leValue]
  · intro h
    have hlt := c.toNat_lt
    rw [unpack, h, Bytes.leValue_leBytes (by simpa using hlt), UInt32.ofNat_toNat]

end TeslaIdentityLegacyRecord

end FlipperApps.Tesla
