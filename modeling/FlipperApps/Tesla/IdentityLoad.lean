import FlipperApps.Tesla.StoredRecord

/-!
# What `tesla_identity_load` does

One specification for each function, in an environment where some calls may
fail. Every outcome is the reference outcome, or an error that a failing call
accounts for; where no call may fail the outcome is the reference one.
-/

namespace FlipperApps.Tesla
open Calls

def Faulty (mayFail : HalCall → Prop) : Prop := ∃ c, mayFail c

abbrev faultyEnv (D : Device) (mayFail : HalCall → Prop) : Environment HalInterface World :=
  halEnv D (failing mayFail)

theorem executes_faulty {α : Type} {D : Device} {p : HalProgram α} {w w' : World}
    {t : List HalEvent} {a : α} (mayFail : HalCall → Prop)
    (h : Executes (faultyEnv D noFailure) p w t a w') :
    Executes (faultyEnv D mayFail) p w t a w' :=
  h.mono fun _ _ _ _ => halEnv_mono fun _ _ _ _ => failing_mono fun _ => False.elim

theorem exists_works {α : Type} {D : Device} (p : HalProgram α) (w : World) :
    ∃ t a w', Executes (faultyEnv D noFailure) p w t a w' :=
  exists_executes (halEnv_total D (failing noFailure)) p w

section
variable {D : Device} {mayFail : HalCall → Prop} {d : Disk} {q : List TeslaKeyCardNfcEvent}

theorem deriveMacKey_spec :
    Always (faultyEnv D mayFail) teslaIdentityDeriveMacKey (World.idle d q) fun _ r w' =>
      w' = World.idle d q ∧ (r = (true, D.macKey) ∨ r.1 = false ∧ Faulty mayFail) := by
  simp only [teslaIdentityDeriveMacKey, hal_eq, Program.call_bind, Program.done_bind]
  intro ensured w h
  rcases h with ⟨rfl, rfl⟩ | ⟨hm, rfl, rfl⟩
  · intro loaded w h
    rcases h with ⟨rfl, rfl⟩ | ⟨hm, rfl, rfl⟩
    · intro r w h
      obtain ⟨success, macKey⟩ := r
      rcases h with ⟨rfl, ⟨⟩⟩ | ⟨hm, hr, rfl⟩
      · intro unloaded w h
        rcases h with ⟨rfl, rfl⟩ | ⟨hm, rfl, rfl⟩
        · exact ⟨rfl, .inl rfl⟩
        · exact ⟨rfl, .inr ⟨rfl, _, hm⟩⟩
      · obtain rfl : success = false := hr
        intro unloaded w h
        rcases h with ⟨rfl, rfl⟩ | ⟨hm', rfl, rfl⟩
        · exact ⟨rfl, .inr ⟨rfl, _, hm⟩⟩
        · exact ⟨rfl, .inr ⟨rfl, _, hm⟩⟩
    · exact ⟨rfl, .inr ⟨rfl, _, hm⟩⟩
  · exact ⟨rfl, .inr ⟨rfl, _, hm⟩⟩

theorem calculateMac_spec (fields : RecordFields) :
    Always (faultyEnv D mayFail) (teslaIdentityCalculateMac fields) (World.idle d q)
      fun _ r w' => w' = World.idle d q ∧
        (r = (true, D.mac fields.pack) ∨ r.1 = false ∧ Faulty mayFail) := by
  simp only [teslaIdentityCalculateMac, hal_eq, Program.call_bind, Program.done_bind]
  intro mdInfo w h
  rcases h with ⟨rfl, rfl⟩ | ⟨hm, rfl, rfl⟩
  · apply deriveMacKey_spec.bind
    intro _ r w h
    obtain ⟨derived, macKey⟩ := r
    rcases h with ⟨rfl, ⟨⟨⟩⟩ | ⟨hr, hf⟩⟩
    · intro r w h
      obtain ⟨error, mac⟩ := r
      rcases h with ⟨rfl, ⟨⟩⟩ | ⟨hm, hr, rfl⟩
      · exact ⟨rfl, .inl rfl⟩
      · change Always _ (if error = 0 then pure _ else pure _) _ _
        rw [if_neg hr]
        exact ⟨rfl, .inr ⟨rfl, _, hm⟩⟩
    · obtain rfl : derived = false := hr
      exact ⟨rfl, .inr ⟨rfl, hf⟩⟩
  · exact ⟨rfl, .inr ⟨rfl, _, hm⟩⟩

theorem decryptPrivateKey_spec (iv : Bytes 16) (encrypted : Bytes 32)
    (identity : TeslaIdentity) :
    Always (faultyEnv D mayFail) (teslaIdentityDecryptPrivateKey iv encrypted identity)
      (World.idle d q) fun _ r w' => w' = World.idle d q ∧
        (r = (.ok, { identity with privateKey := D.decrypt iv encrypted }) ∨
          r.1 = .cryptoError ∧ Faulty mayFail) := by
  simp only [teslaIdentityDecryptPrivateKey, hal_eq, Program.call_bind, Program.done_bind]
  intro ensured w h
  rcases h with ⟨rfl, rfl⟩ | ⟨hm, rfl, rfl⟩
  · intro loaded w h
    rcases h with ⟨rfl, rfl⟩ | ⟨hm, rfl, rfl⟩
    · intro r w h
      obtain ⟨decrypted, privateKey⟩ := r
      rcases h with ⟨rfl, ⟨⟩⟩ | ⟨hm, hr, rfl⟩
      · intro unloaded w h
        rcases h with ⟨rfl, rfl⟩ | ⟨hm, rfl, rfl⟩
        · exact ⟨rfl, .inl rfl⟩
        · exact ⟨rfl, .inr ⟨rfl, _, hm⟩⟩
      · obtain rfl : decrypted = false := hr
        intro unloaded w h
        rcases h with ⟨rfl, rfl⟩ | ⟨hm', rfl, rfl⟩
        · exact ⟨rfl, .inr ⟨rfl, _, hm⟩⟩
        · exact ⟨rfl, .inr ⟨rfl, _, hm⟩⟩
    · exact ⟨rfl, .inr ⟨rfl, _, hm⟩⟩
  · exact ⟨rfl, .inr ⟨rfl, _, hm⟩⟩

theorem decodeFields_spec (fields : RecordFields) (identity : TeslaIdentity) :
    Always (faultyEnv D mayFail) (decodeFields fields identity) (World.idle d q)
      fun _ r w' => w' = World.idle d q ∧
        (r = (.ok, identityOf D fields) ∨ r.1 = .cryptoError ∧ Faulty mayFail) := by
  apply (decryptPrivateKey_spec fields.iv fields.encryptedPrivateKey identity).bind
  intro _ r w h
  obtain ⟨result, identity'⟩ := r
  rcases h with ⟨rfl, ⟨⟨⟩⟩ | ⟨hr, hf⟩⟩
  · exact ⟨rfl, .inl rfl⟩
  · obtain rfl : result = .cryptoError := hr
    exact ⟨rfl, .inr ⟨rfl, hf⟩⟩

def Decoded (D : Device) (mayFail : HalCall → Prop) (valid : Prop) (fields : RecordFields)
    (identity : TeslaIdentity) (r : TeslaIdentityLoadResult × TeslaIdentity) : Prop :=
  valid ∧ r = (.ok, identityOf D fields) ∨ ¬ valid ∧ r = (.corrupt, identity) ∨
    r.1 = .cryptoError ∧ Faulty mayFail

theorem decodeRecord_spec (record : TeslaIdentityRecord) (identity : TeslaIdentity) :
    Always (faultyEnv D mayFail) (teslaIdentityDecodeRecord record identity) (World.idle d q)
      fun _ r w' => w' = World.idle d q ∧ Decoded D mayFail
        (HeaderOk teslaIdentityVersion record.fields ∧
          record.mac = D.mac record.fields.pack) record.fields identity r := by
  unfold teslaIdentityDecodeRecord
  split_ifs with hheader
  · refine ⟨rfl, .inr (.inl ⟨fun hok => ?_, rfl⟩)⟩
    exact absurd hok.1 (by simp only [HeaderOk]; tauto)
  · have hok : HeaderOk teslaIdentityVersion record.fields := by
      simpa only [HeaderOk, not_or, not_not] using hheader
    apply (calculateMac_spec record.fields).bind
    intro _ r w h
    obtain ⟨calculated, mac⟩ := r
    rcases h with ⟨rfl, ⟨⟨⟩⟩ | ⟨hr, hf⟩⟩
    · by_cases hmac : record.mac = D.mac record.fields.pack
      · simp only [(macEquals_iff _ _).mpr hmac, Bool.not_true, Bool.false_eq_true, if_false]
        apply (decodeFields_spec record.fields identity).mono
        intro _ r w' h
        rcases h with ⟨rfl, hr | hr⟩
        · exact ⟨rfl, .inl ⟨⟨hok, hmac⟩, hr⟩⟩
        · exact ⟨rfl, .inr (.inr hr)⟩
      · have hne : teslaIdentityMacEquals record.mac (D.mac record.fields.pack) = false := by
          simpa only [Bool.not_eq_true] using mt (macEquals_iff _ _).mp hmac
        simp only [hne, Bool.not_true, Bool.not_false, Bool.false_eq_true, if_false, if_true]
        exact ⟨rfl, .inr (.inl ⟨fun hv => hmac hv.2, rfl⟩)⟩
    · obtain rfl : calculated = false := hr
      exact ⟨rfl, .inr (.inr ⟨rfl, hf⟩)⟩

theorem decodeLegacyRecord_spec (record : TeslaIdentityLegacyRecord) (identity : TeslaIdentity) :
    Always (faultyEnv D mayFail) (teslaIdentityDecodeLegacyRecord record identity)
      (World.idle d q) fun _ r w' => w' = World.idle d q ∧ Decoded D mayFail
        (HeaderOk teslaIdentityLegacyVersion record.fields ∧
          record.checksum = D.crc32 record.fields.pack) record.fields identity r := by
  unfold teslaIdentityDecodeLegacyRecord
  split_ifs with hheader
  · refine ⟨rfl, .inr (.inl ⟨fun hok => ?_, rfl⟩)⟩
    exact absurd hok.1 (by simp only [HeaderOk]; tauto)
  · have hok : HeaderOk teslaIdentityLegacyVersion record.fields := by
      simpa only [HeaderOk, not_or, not_not] using hheader
    simp only [hal_eq, Program.call_bind, Program.done_bind]
    intro checksum w h
    rcases h with ⟨rfl, rfl⟩ | ⟨-, ⟨⟩, -⟩
    by_cases hcrc : record.checksum = D.crc32 record.fields.pack
    · simp only [hcrc, ne_eq, not_true, if_false]
      apply (decodeFields_spec record.fields identity).mono
      intro _ r w' h
      rcases h with ⟨rfl, hr | hr⟩
      · exact ⟨rfl, .inl ⟨⟨hok, trivial⟩, hr⟩⟩
      · exact ⟨rfl, .inr (.inr hr)⟩
    · simp only [ne_eq, hcrc, not_false_iff, if_true]
      exact ⟨rfl, .inr (.inl ⟨fun hv => hv.2, rfl⟩)⟩

inductive ReadOutcome (mayFail : HalCall → Prop) (n : ℕ) :
    Option (List UInt8) → TeslaIdentityLoadResult → Bytes n → Prop
  | ok (b : Bytes n) : ReadOutcome mayFail n (some b.toList) .ok b
  | notFound (b : Bytes n) : ReadOutcome mayFail n none .notFound b
  | corrupt {F : List UInt8} (b : Bytes n) : F.length ≠ n →
      ReadOutcome mayFail n (some F) .corrupt b
  | storageError (file : Option (List UInt8)) (b : Bytes n) : Faulty mayFail →
      ReadOutcome mayFail n file .storageError b

theorem readPacked_spec (p : IdentityPath) (n : ℕ) :
    Always (faultyEnv D mayFail) (readPacked p n) (World.idle d q) fun _ r w' =>
      w' = World.idle d q ∧ ReadOutcome mayFail n (d p) r.1 r.2 := by
  simp only [readPacked, hal_eq, Program.call_bind, Program.done_bind, Program.pure_eq]
  intro r w h
  obtain ⟨statError, size⟩ := r
  rcases h with ⟨rfl, hr⟩ | ⟨hm, ⟨hok, hne⟩, rfl⟩
  · cases hd : d p with
    | none =>
      obtain ⟨rfl, rfl⟩ : statError = .notExist ∧ size = 0 := by
        simpa [World.idle, hd] using hr
      exact ⟨rfl, .notFound _⟩
    | some F =>
      obtain ⟨rfl, rfl⟩ : statError = .ok ∧ size = F.length := by
        simpa [World.idle, hd] using hr
      by_cases hsize : F.length = n
      · simp only [reduceCtorEq, if_false, ne_eq, not_true, hsize, or_self]
        intro opened w h
        rcases h with hw | ⟨hm, rfl, rfl⟩
        · obtain ⟨rfl, rfl⟩ : w = ⟨d, some ⟨p, 0⟩, none, q⟩ ∧ opened = true := by
            simpa [Works, World.idle, hd] using hw
          intro bytes w h
          rcases h with ⟨hbytes, rfl⟩ | ⟨hm, hshort, rfl⟩
          · obtain rfl : bytes = F := by
              simpa [World.read, World.content, hd, List.take_of_length_le hsize.le] using hbytes
            intro closed w h
            rcases h with ⟨rfl, -⟩ | ⟨-, -, rfl⟩
            · simp only [dif_pos hsize]
              exact ⟨rfl, .ok ⟨bytes, hsize⟩⟩
            · simp only [dif_pos hsize]
              exact ⟨rfl, .ok ⟨bytes, hsize⟩⟩
          · have hlen : bytes.length ≠ n := Nat.ne_of_lt hshort
            intro closed w h
            rcases h with ⟨rfl, -⟩ | ⟨-, -, rfl⟩
            · simp only [dif_neg hlen]
              exact ⟨rfl, .storageError _ _ ⟨_, hm⟩⟩
            · simp only [dif_neg hlen]
              exact ⟨rfl, .storageError _ _ ⟨_, hm⟩⟩
        · exact ⟨rfl, .storageError _ _ ⟨_, hm⟩⟩
      · simp only [reduceCtorEq, if_false, ne_eq, not_true, hsize, not_false_iff, or_true, if_true]
        exact ⟨rfl, .corrupt _ hsize⟩
  · have hne : statError ≠ .notExist := hne
    have hok : statError ≠ .ok := hok
    simp only [if_neg hne, ne_eq, hok, not_false_iff, true_or, if_true]
    exact ⟨rfl, .storageError _ _ ⟨_, hm⟩⟩

inductive LoadOutcome (D : Device) (mayFail : HalCall → Prop) (identity : TeslaIdentity) :
    Option (List UInt8) → TeslaIdentityLoadResult → TeslaIdentity → Prop
  | ok {F : List UInt8} (h : ValidRecord D F) :
      LoadOutcome D mayFail identity (some F) .ok (identityAt D F h.le_length)
  | notFound : LoadOutcome D mayFail identity none .notFound identity
  | corrupt {F : List UInt8} : ¬ ValidRecord D F →
      LoadOutcome D mayFail identity (some F) .corrupt identity
  | error (file : Option (List UInt8)) {r : TeslaIdentityLoadResult} (found : TeslaIdentity) :
      r = .storageError ∨ r = .cryptoError → Faulty mayFail →
      LoadOutcome D mayFail identity file r found

theorem readRecord_spec (p : IdentityPath) :
    Always (faultyEnv D mayFail) (teslaIdentityReadRecord p) (World.idle d q) fun _ r w' =>
      w' = World.idle d q ∧
        ∃ b, r.2 = TeslaIdentityRecord.unpack b ∧ ReadOutcome mayFail 96 (d p) r.1 b :=
  (readPacked_spec p 96).bind fun _ r _ h => ⟨h.1, r.2, rfl, h.2⟩

theorem readLegacyRecord_spec (p : IdentityPath) :
    Always (faultyEnv D mayFail) (teslaIdentityReadLegacyRecord p) (World.idle d q)
      fun _ r w' => w' = World.idle d q ∧
        ∃ b, r.2 = TeslaIdentityLegacyRecord.unpack b ∧ ReadOutcome mayFail 68 (d p) r.1 b :=
  (readPacked_spec p 68).bind fun _ r _ h => ⟨h.1, r.2, rfl, h.2⟩

theorem Decoded.outcome {F : List UInt8} {valid : Prop} {fields : RecordFields}
    {identity : TeslaIdentity} {r : TeslaIdentityLoadResult × TeslaIdentity}
    (h : Decoded D mayFail valid fields identity r) (hlen : 64 ≤ F.length)
    (hvalid : valid ↔ ValidRecord D F) (hfields : identityOf D fields = identityAt D F hlen) :
    LoadOutcome D mayFail identity (some F) r.1 r.2 := by
  rcases h with ⟨hv, rfl⟩ | ⟨hv, rfl⟩ | ⟨hr, hf⟩
  · rw [hfields]
    exact .ok (hvalid.mp hv)
  · exact .corrupt (mt hvalid.mpr hv)
  · exact .error _ _ (.inr hr) hf

theorem loadPath_spec (p : IdentityPath) (identity : TeslaIdentity) :
    Always (faultyEnv D mayFail) (teslaIdentityLoadPath p identity) (World.idle d q)
      fun _ r w' => w' = World.idle d q ∧
        LoadOutcome D mayFail identity (d p) r.1 r.2.1 := by
  have hv2 {F : List UInt8} (h : F.length ≠ 96) : ¬ ValidV2 D F := fun hv => h hv.1
  have hv1 {F : List UInt8} (h : F.length ≠ 68) : ¬ ValidV1 D F := fun hv => h hv.1
  apply (readRecord_spec p).bind
  intro _ r w h
  obtain ⟨result, record⟩ := r
  obtain ⟨rfl, b, rfl, hread⟩ := h
  generalize hfile : d p = file at hread ⊢
  cases hread with
  | ok b =>
    apply (decodeRecord_spec (TeslaIdentityRecord.unpack b) identity).bind
    intro _ r w h
    obtain ⟨rfl, hdec⟩ := h
    refine ⟨rfl, hdec.outcome (by simp) ?_ (identityOf_unpack D b (by omega))⟩
    rw [ValidRecord, validV2_iff, or_iff_left (hv1 (by simp))]
  | notFound => exact ⟨rfl, .notFound⟩
  | storageError _ _ hf => exact ⟨rfl, .error _ _ (.inl rfl) hf⟩
  | corrupt _ hlen =>
    -- Only a file of another size reaches the v1 reader, so it is not a v2 record.
    apply (readLegacyRecord_spec p).bind
    intro _ r w h
    obtain ⟨result, legacy⟩ := r
    obtain ⟨rfl, b, rfl, hread⟩ := h
    rw [hfile] at hread
    cases hread with
    | ok b =>
      apply (decodeLegacyRecord_spec (TeslaIdentityLegacyRecord.unpack b) identity).bind
      intro _ r w h
      obtain ⟨rfl, hdec⟩ := h
      refine ⟨rfl, hdec.outcome (by simp) ?_ (identityOf_unpack D b (by omega))⟩
      rw [ValidRecord, validV1_iff, or_iff_right (hv2 hlen)]
    | storageError _ _ hf => exact ⟨rfl, .error _ _ (.inl rfl) hf⟩
    | corrupt _ hlen' => exact ⟨rfl, .corrupt fun hv => hv.elim (hv2 hlen) (hv1 hlen')⟩

def ReadCall : HalCall → Prop
  | .furiLog .. => True
  | .storageCommonStat _ => True
  | .storageFileOpen _ mode => mode = .readExisting
  | .storageFileRead _ => True
  | .storageFileClose => True
  | .enclaveEnsureKey => True
  | .enclaveLoadKey _ => True
  | .enclaveUnloadKey => True
  | .furiHalCryptoEncrypt _ => True
  | .furiHalCryptoDecrypt _ => True
  | .mdInfoFromType => True
  | .mdHmac .. => True
  | .crc32CalcBuffer _ => True
  | _ => False

theorem readPacked_uses (p : IdentityPath) (n : ℕ) : (readPacked p n).Uses ReadCall := by
  simp only [readPacked, hal_eq, Program.call_bind, Program.done_bind, Program.pure_eq]
  refine ⟨trivial, fun r => ?_⟩
  dsimp only
  split_ifs
  · trivial
  · trivial
  · trivial
  · refine ⟨rfl, fun opened => ?_⟩
    dsimp only
    split_ifs
    · trivial
    · refine ⟨trivial, fun bytes => ⟨trivial, fun _ => ?_⟩⟩
      dsimp only
      split_ifs <;> trivial

theorem deriveMacKey_uses : teslaIdentityDeriveMacKey.Uses ReadCall := by
  simp only [teslaIdentityDeriveMacKey, hal_eq, Program.call_bind, Program.done_bind,
    Program.pure_eq]
  refine ⟨trivial, fun ensured => ?_⟩
  dsimp only
  split_ifs
  · trivial
  · refine ⟨trivial, fun loaded => ?_⟩
    dsimp only
    split_ifs
    · trivial
    · refine ⟨trivial, fun r => ⟨trivial, fun unloaded => ?_⟩⟩
      dsimp only
      split_ifs <;> trivial

theorem calculateMac_uses (fields : RecordFields) :
    (teslaIdentityCalculateMac fields).Uses ReadCall := by
  simp only [teslaIdentityCalculateMac, hal_eq, Program.call_bind, Program.done_bind,
    Program.pure_eq]
  refine ⟨trivial, fun mdInfo => ?_⟩
  dsimp only
  split_ifs
  · trivial
  · refine Program.uses_bind deriveMacKey_uses fun r => ?_
    split_ifs
    · trivial
    · refine ⟨trivial, fun r => ?_⟩
      dsimp only
      split_ifs <;> trivial

theorem decodeFields_uses (fields : RecordFields) (identity : TeslaIdentity) :
    (decodeFields fields identity).Uses ReadCall := by
  refine Program.uses_bind ?_ fun r => ?_
  · simp only [teslaIdentityDecryptPrivateKey, hal_eq, Program.call_bind, Program.done_bind,
      Program.pure_eq, Bool.not_false, if_true]
    refine ⟨trivial, fun ensured => ?_⟩
    dsimp only
    split_ifs
    · refine ⟨trivial, fun loaded => ?_⟩
      dsimp only
      split_ifs
      · trivial
      · refine ⟨trivial, fun r => ⟨trivial, fun unloaded => ?_⟩⟩
        dsimp only
        split_ifs <;> trivial
    · trivial
  · dsimp only
    split_ifs <;> trivial

theorem decodeRecord_uses (record : TeslaIdentityRecord) (identity : TeslaIdentity) :
    (teslaIdentityDecodeRecord record identity).Uses ReadCall := by
  unfold teslaIdentityDecodeRecord
  split_ifs
  · trivial
  · refine Program.uses_bind (calculateMac_uses record.fields) fun r => ?_
    dsimp only
    split_ifs
    · trivial
    · trivial
    · exact decodeFields_uses _ _

theorem decodeLegacyRecord_uses (record : TeslaIdentityLegacyRecord) (identity : TeslaIdentity) :
    (teslaIdentityDecodeLegacyRecord record identity).Uses ReadCall := by
  unfold teslaIdentityDecodeLegacyRecord
  split_ifs
  · trivial
  · simp only [hal_eq, Program.call_bind, Program.done_bind]
    refine ⟨trivial, fun checksum => ?_⟩
    dsimp only
    split_ifs
    · trivial
    · exact decodeFields_uses _ _

theorem loadPath_uses (p : IdentityPath) (identity : TeslaIdentity) :
    (teslaIdentityLoadPath p identity).Uses ReadCall := by
  refine Program.uses_bind (Program.uses_bind (readPacked_uses p 96) fun r => trivial) ?_
  intro r
  obtain ⟨result, record⟩ := r
  dsimp only
  split_ifs
  · exact Program.uses_bind (decodeRecord_uses _ _) fun _ => trivial
  · trivial
  · refine Program.uses_bind (Program.uses_bind (readPacked_uses p 68) fun r => trivial) ?_
    intro r
    obtain ⟨result, legacy⟩ := r
    dsimp only
    split_ifs
    · exact Program.uses_bind (decodeLegacyRecord_uses _ _) fun _ => trivial
    · trivial

end

end FlipperApps.Tesla
