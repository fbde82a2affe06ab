import FlipperApps.Tesla.IdentitySave

/-!
# What the stored record is worth

A successful save is read back exactly. A file that does not end with the
device's MAC is refused, unless it is a v1 file: its checksum needs no key.
-/

namespace FlipperApps.Tesla
open Calls

def sampleIdentity : TeslaIdentity := ⟨⟨[0x08, 0x11, 0x22, 0x33], rfl⟩, Bytes.beBytes 32 1⟩

theorem save_load (D : Device) {F : Environment HalInterface World} (hF : Reported F)
    (identity identity' : TeslaIdentity) (q : List TeslaKeyCardNfcEvent) {w w' : World}
    {t : List HalEvent} (h : Executes (halEnv D F) (teslaIdentitySave identity) w t true w') :
    w'.disk .tmp = none ∧
      Yields (faultyEnv D noFailure) (teslaIdentityLoad identity') (World.idle w'.disk q)
        (.ok, identity) (World.idle w'.disk q) := by
  obtain ⟨iv, hdisk⟩ := always_iff.mp (save_success hF identity) _ _ _ h rfl
  have hload := load_yields D w'.disk q identity'
  rw [hdisk, referenceLoad_saved] at hload
  rw [hdisk]
  exact ⟨rfl, hload⟩

theorem save_load_sampleIdentity :
    ∃ t w', Executes (faultyEnv plainDevice noFailure) (teslaIdentitySave sampleIdentity)
        (World.idle Disk.empty []) t true w' ∧
      w'.disk .tmp = none ∧
        Yields (faultyEnv plainDevice noFailure) (teslaIdentityLoad noIdentity)
          (World.idle w'.disk []) (.ok, sampleIdentity) (World.idle w'.disk []) := by
  obtain ⟨t, w', hx⟩ := exists_save plainDevice sampleIdentity Disk.empty []
  exact ⟨t, w', hx, save_load plainDevice (reported_failing noFailure) sampleIdentity noIdentity
    [] hx⟩

def EndsWithMac (D : Device) (F : List UInt8) : Prop :=
  ∃ h, F.drop (F.length - 32) = (D.mac (Bytes.within F 0 64 h)).toList

theorem ValidV2.endsWithMac {D : Device} {F : List UInt8} (h : ValidV2 D F) :
    EndsWithMac D F := by
  obtain ⟨hlen, -, -, -, hfirst, hmac⟩ := h
  refine ⟨hfirst, ?_⟩
  rw [hlen]
  exact hmac

theorem load_tampered (D : Device) {F : List UInt8} (hmac : ¬ EndsWithMac D F)
    (hlegacy : ¬ ValidV1 D F) (identity : TeslaIdentity) (q : List TeslaKeyCardNfcEvent) :
    Yields (faultyEnv D noFailure) (teslaIdentityLoad identity) (World.idle (Disk.binOnly F) q)
      (.corrupt, noIdentity) (World.idle (Disk.binOnly F) q) := by
  have hbin : ¬ ValidAt D (Disk.binOnly F) .bin := by
    intro h
    rcases h with ⟨G, ⟨⟩, hv | hv⟩
    · exact hmac hv.endsWithMac
    · exact hlegacy hv
  have htmp : ¬ ValidAt D (Disk.binOnly F) .tmp := fun ⟨_, h, _⟩ => nomatch h
  have hload := load_yields D (Disk.binOnly F) q identity
  rwa [referenceLoad, storedIdentity_bind_eq_none hbin, storedIdentity_bind_eq_none htmp] at hload

def unsignedFile : List UInt8 :=
  (newFields ⟨[0x08, 0x66, 0x66, 0x66], rfl⟩ (Bytes.zero 16) (Bytes.zero 32)).pack.toList ++
    List.replicate 32 0

theorem unsignedFile_not_endsWithMac : ¬ EndsWithMac plainDevice unsignedFile := by
  intro h
  obtain ⟨h, hmac⟩ := h
  have hhead := congrArg List.head? hmac
  revert hhead
  clear hmac
  decide +revert

theorem load_tampered_unsignedFile :
    Yields (faultyEnv plainDevice noFailure) (teslaIdentityLoad noIdentity)
      (World.idle (Disk.binOnly unsignedFile) []) (.corrupt, noIdentity)
      (World.idle (Disk.binOnly unsignedFile) []) :=
  load_tampered plainDevice unsignedFile_not_endsWithMac (fun h => absurd h.1 (by decide))
    noIdentity []

/-- The v1 file with these fields: its checksum needs no key. -/
def legacyFile (D : Device) (fields : RecordFields) : Bytes 68 :=
  fields.pack.append (Bytes.leBytes 4 (D.crc32 fields.pack).toNat)

theorem legacyFile_unpack (D : Device) (fields : RecordFields) :
    (TeslaIdentityLegacyRecord.unpack (legacyFile D fields)).fields = fields := by
  have hfields : (legacyFile D fields).slice 0 64 = fields.pack := by
    ext1
    simp [legacyFile]
  rw [TeslaIdentityLegacyRecord.unpack, hfields, RecordFields.unpack_pack]

theorem legacyFile_valid (D : Device) {fields : RecordFields}
    (h : HeaderOk teslaIdentityLegacyVersion fields) : ValidV1 D (legacyFile D fields).toList := by
  rw [validV1_iff, TeslaIdentityLegacyRecord.checksum_eq_iff, legacyFile_unpack]
  refine ⟨h, ?_⟩
  ext1
  simp [legacyFile, List.take_of_length_le]

theorem legacyFile_identityAt (D : Device) (fields : RecordFields)
    (h : 64 ≤ (legacyFile D fields).toList.length) :
    identityAt D (legacyFile D fields).toList h = identityOf D fields := by
  rw [← identityOf_unpack D _ (by omega)]
  change identityOf D (TeslaIdentityLegacyRecord.unpack (legacyFile D fields)).fields = _
  rw [legacyFile_unpack]

def forgedFields : RecordFields :=
  { newFields ⟨[0x08, 0x66, 0x66, 0x66], rfl⟩ (Bytes.zero 16) (Bytes.zero 32) with
    version := teslaIdentityLegacyVersion }

theorem forged_not_endsWithMac :
    ¬ EndsWithMac plainDevice (legacyFile plainDevice forgedFields).toList := by
  intro h
  obtain ⟨h, hmac⟩ := h
  have hhead := congrArg List.head? hmac
  revert hhead
  clear hmac
  decide +revert

theorem forged_loads :
    let F := (legacyFile plainDevice forgedFields).toList
    ∃ t w', Executes (faultyEnv plainDevice noFailure) (teslaIdentitySave sampleIdentity)
        (World.idle Disk.empty []) t true w' ∧
      w'.disk .bin ≠ some F ∧ ¬ EndsWithMac plainDevice F ∧
      ∃ other, other ≠ sampleIdentity ∧
        Yields (faultyEnv plainDevice noFailure) (teslaIdentityLoad noIdentity)
          (World.idle (Disk.binOnly F) []) (.ok, other) (World.idle (Disk.binOnly F) []) := by
  intro F
  obtain ⟨t, w', hx⟩ := exists_save plainDevice sampleIdentity Disk.empty []
  obtain ⟨iv, hdisk⟩ :=
    always_iff.mp (save_success (reported_failing noFailure) sampleIdentity) _ _ _ hx rfl
  have hvalid : ValidRecord plainDevice F := .inr (legacyFile_valid plainDevice ⟨rfl, rfl, rfl⟩)
  have hload := load_yields plainDevice (Disk.binOnly F) [] noIdentity
  rw [referenceLoad, storedIdentity_bind_eq_some (d := Disk.binOnly F) (p := .bin) rfl hvalid,
    legacyFile_identityAt] at hload
  refine ⟨t, w', hx, ?_, ?_, _, ?_, hload⟩
  · intro h
    have hlen := congrArg List.length (Option.some.inj (congrFun hdisk .bin ▸ h))
    simp [F] at hlen
  · exact forged_not_endsWithMac
  · decide

end FlipperApps.Tesla
