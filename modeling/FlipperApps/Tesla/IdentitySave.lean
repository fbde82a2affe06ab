import FlipperApps.Tesla.Recovery

/-!
# What `tesla_identity_save` does

A save that reports success has written a complete v2 record of the identity,
whatever failed on the way; a later load finds exactly that identity.
-/

namespace FlipperApps.Tesla
open Calls

/-- Failing calls report it, and a failing close does not undo what was synced. -/
structure Reported (F : Environment HalInterface World) : Prop where
  refused : ∀ w c r w', F w c r w' → Refused c r
  close : ∀ w r w', F w .storageFileClose r w' → w'.disk = w.disk

theorem reported_failing (mayFail : HalCall → Prop) : Reported (failing mayFail) where
  refused _ _ _ _ h := h.2.1
  close := by
    intro w r w' h
    obtain ⟨-, -, rfl⟩ := h
    rfl

def newRecord (D : Device) (identity : TeslaIdentity) (iv : Bytes 16) : TeslaIdentityRecord :=
  let fields := newFields identity.uid iv (D.encrypt iv identity.privateKey)
  ⟨fields, D.mac fields.pack⟩

theorem newRecord_valid (D : Device) (identity : TeslaIdentity) (iv : Bytes 16) :
    ValidV2 D (newRecord D identity iv).pack.toList := by
  rw [validV2_iff, TeslaIdentityRecord.unpack_pack]
  exact ⟨⟨rfl, rfl, rfl⟩, rfl⟩

theorem newRecord_identityAt (D : Device) (identity : TeslaIdentity) (iv : Bytes 16)
    (h : 64 ≤ (newRecord D identity iv).pack.toList.length) :
    identityAt D (newRecord D identity iv).pack.toList h = identity := by
  rw [← identityOf_unpack D _ (by omega)]
  change identityOf D (TeslaIdentityRecord.unpack (newRecord D identity iv).pack).fields = _
  rw [TeslaIdentityRecord.unpack_pack]
  simp [identityOf, newRecord, newFields, D.decrypt_encrypt]

def Disk.binOnly (record : List UInt8) : Disk
  | .bin => some record
  | .tmp => none

section
variable {D : Device} {F : Environment HalInterface World} {w w' : World}

theorem Reported.works (hF : Reported F) {c : HalCall} {r : c.Reply}
    (hE : halEnv D F w c r w') (h : ¬ Refused c r) : Works D w c r w' :=
  hE.resolve_right fun hf => h (hF.refused _ _ _ _ hf)

theorem Reported.enclave_loaded (hF : Reported F) {iv : Bytes 16}
    (hE : halEnv D F w (.enclaveLoadKey iv) true w') : w'.enclave = some iv := by
  have hw := hF.works hE (by simp [Refused])
  simp only [Works] at hw
  split at hw
  · rw [hw.1]
  · exact absurd hw.2 (by simp)

theorem Reported.encrypted (hF : Reported F) {iv : Bytes 16} {x y : Bytes 32}
    (hw : w.enclave = some iv) (hE : halEnv D F w (.furiHalCryptoEncrypt x) (true, y) w') :
    y = D.encrypt iv x := by
  have hworks := hF.works hE (by simp [Refused])
  simp only [Works, hw, Prod.mk.injEq, true_and] at hworks
  exact hworks.2

theorem deriveMacKey_value (hF : Reported F) :
    Always (halEnv D F) teslaIdentityDeriveMacKey w fun _ r _ =>
      r.1 = true → r.2 = D.macKey := by
  simp only [teslaIdentityDeriveMacKey, hal_eq, Program.call_bind, Program.done_bind,
    Program.pure_eq]
  intro ensured w₁ _
  rcases ensured with _ | _
  · exact fun h => absurd h Bool.false_ne_true
  intro loaded w₂ hload
  rcases loaded with _ | _
  · exact fun h => absurd h Bool.false_ne_true
  intro r w₃ hencrypt
  rcases r with ⟨_ | _, macKey⟩
  · intro unloaded w₄ _
    rcases unloaded with _ | _
    · exact fun h => absurd h Bool.false_ne_true
    · exact fun h => absurd h Bool.false_ne_true
  intro unloaded w₄ _
  rcases unloaded with _ | _
  · exact fun h => absurd h Bool.false_ne_true
  · exact fun _ => hF.encrypted (hF.enclave_loaded hload) hencrypt

theorem calculateMac_value (hF : Reported F) (fields : RecordFields) :
    Always (halEnv D F) (teslaIdentityCalculateMac fields) w fun _ r _ =>
      r.1 = true → r.2 = D.mac fields.pack := by
  simp only [teslaIdentityCalculateMac, hal_eq, Program.call_bind, Program.done_bind,
    Program.pure_eq]
  intro mdInfo w₁ _
  rcases mdInfo with _ | _
  · exact fun h => absurd h Bool.false_ne_true
  apply (deriveMacKey_value hF).bind
  intro _ r w₂ hkey
  rcases r with ⟨_ | _, macKey⟩
  · exact fun h => absurd h Bool.false_ne_true
  obtain rfl : macKey = D.macKey := hkey rfl
  intro r w₃ hE
  obtain ⟨error, mac⟩ := r
  by_cases herror : error = 0
  · subst herror
    have hworks := hF.works hE (by simp [Refused])
    simp only [Works, Prod.mk.injEq, true_and] at hworks
    exact fun _ => hworks.2
  · simp only [if_neg herror]
    exact fun h => absurd h Bool.false_ne_true

theorem encrypt_value (hF : Reported F) (iv : Bytes 16) (privateKey : Bytes 32) :
    Always (halEnv D F) (teslaIdentityEncrypt iv privateKey) w fun _ r _ =>
      ∀ x, r = some x → x = D.encrypt iv privateKey := by
  simp only [teslaIdentityEncrypt, hal_eq, Program.call_bind, Program.done_bind,
    Program.pure_eq]
  intro ensured w₁ _
  rcases ensured with _ | _
  · exact fun _ _ _ => nofun
  intro loaded w₂ hload
  rcases loaded with _ | _
  · exact fun _ _ _ => nofun
  intro r w₃ hencrypt
  rcases r with ⟨_ | _, encrypted⟩
  · exact fun _ _ _ _ _ _ => nofun
  intro unloaded w₄ _
  rcases unloaded with _ | _
  · exact fun _ _ _ => nofun
  · intro _ h
    cases h
    exact hF.encrypted (hF.enclave_loaded hload) hencrypt

theorem encrypt_uses (iv : Bytes 16) (privateKey : Bytes 32) :
    (teslaIdentityEncrypt iv privateKey).Uses ReadCall := by
  simp only [teslaIdentityEncrypt, hal_eq, Program.call_bind, Program.done_bind,
    Program.pure_eq]
  refine ⟨trivial, fun ensured => ?_⟩
  dsimp only
  split_ifs
  · exact ⟨trivial, fun _ => trivial⟩
  · refine ⟨trivial, fun loaded => ?_⟩
    dsimp only
    split_ifs
    · exact ⟨trivial, fun _ => trivial⟩
    · refine ⟨trivial, fun r => ?_⟩
      dsimp only
      split_ifs
      · exact ⟨trivial, fun _ => ⟨trivial, fun _ => trivial⟩⟩
      · refine ⟨trivial, fun unloaded => ?_⟩
        dsimp only
        split_ifs
        · exact ⟨trivial, fun _ => trivial⟩
        · trivial

def World.staging (d : Disk) (enclave : Option (Bytes 16))
    (events : List TeslaKeyCardNfcEvent) : World :=
  ⟨d.write .tmp (some []), some ⟨.tmp, 0⟩, enclave, events⟩

theorem World.write_staging (d : Disk) (enclave : Option (Bytes 16))
    (events : List TeslaKeyCardNfcEvent) (data : List UInt8) :
    (World.staging d enclave events).write ⟨.tmp, 0⟩ data =
      ⟨d.write .tmp (some data), some ⟨.tmp, data.length⟩, enclave, events⟩ := by
  simp [World.write, World.staging, World.content, Disk.write]

theorem Disk.rename_staged (d : Disk) (record : List UInt8) :
    (d.write .tmp (some record)).rename .tmp .bin = Disk.binOnly record := by
  funext p
  cases p <;> simp [Disk.rename, Disk.write, Disk.binOnly]

theorem writeStaged_success (hF : Reported F) (record : TeslaIdentityRecord) (d : Disk)
    (enclave : Option (Bytes 16)) (events : List TeslaKeyCardNfcEvent) :
    Always (halEnv D F) (writeStaged record) (World.staging d enclave events) fun _ r w' =>
      r = true → w'.disk = Disk.binOnly record.pack.toList := by
  simp only [writeStaged, hal_eq, Program.call_bind, Program.done_bind, Program.pure_eq,
    Bool.false_eq_true, if_false]
  intro written w₁ hwrite
  dsimp only
  split_ifs with hlen
  · intro synced w₂ hsync
    rcases synced with _ | _
    · exact fun _ _ _ => nofun
    intro closed w₃ hclose
    have hwritten : w₁ = (World.staging d enclave events).write ⟨.tmp, 0⟩ record.pack.toList := by
      refine (hF.works hwrite ?_).1
      simp [Refused, hlen]
    obtain ⟨rfl, -⟩ := hF.works hsync (by simp [Refused])
    have hdisk : w₃.disk = d.write .tmp (some record.pack.toList) := by
      rw [hwritten, World.write_staging] at hclose
      rcases hclose with ⟨rfl, -⟩ | hf
      · rfl
      · exact hF.close _ _ _ hf
    intro error w₄ hrename hok
    obtain rfl : error = .ok := by simpa using hok
    have hworks := hF.works hrename (by simp [Refused])
    simp only [Works, hdisk, Disk.write_same, reduceCtorEq, if_false] at hworks
    rw [hworks.1]
    exact Disk.rename_staged d _
  · intro closed w₂ _
    exact nofun

theorem store_success (hF : Reported F) (record : TeslaIdentityRecord) :
    Always (halEnv D F) (teslaIdentityStore record) w fun _ r w' =>
      r = true → w'.disk = Disk.binOnly record.pack.toList := by
  simp only [teslaIdentityStore, hal_eq, Program.call_bind, Program.done_bind, Program.pure_eq]
  intro removed w₁ _ opened w₂ hopen
  rcases opened with _ | _
  · exact fun _ _ _ => nofun
  obtain ⟨rfl, -⟩ := hF.works hopen (by simp [Refused])
  apply (writeStaged_success hF record w₁.disk w₁.enclave w₁.events).bind
  intro _ written w₃ hdisk
  rcases written with _ | _
  · exact fun _ _ _ => nofun
  · exact hdisk

theorem save_success (hF : Reported F) (identity : TeslaIdentity) :
    Always (halEnv D F) (teslaIdentitySave identity) w fun _ r w' => r = true →
      ∃ iv, w'.disk = Disk.binOnly (newRecord D identity iv).pack.toList := by
  simp only [teslaIdentitySave, hal_eq, Program.call_bind, Program.done_bind, Program.pure_eq]
  intro iv w₁ _
  apply (encrypt_value hF iv identity.privateKey).bind
  intro _ encrypted w₂ hencrypted
  rcases encrypted with _ | encrypted
  · exact nofun
  obtain rfl := hencrypted _ rfl
  apply (calculateMac_value hF _).bind
  intro _ r w₃ hmac
  rcases r with ⟨_ | _, mac⟩
  · exact fun _ _ _ => nofun
  obtain rfl := hmac rfl
  apply (store_success hF _).mono
  exact fun _ r w' h hr => ⟨iv, h hr⟩

end

section
variable {D : Device} {mayFail : HalCall → Prop} {d : Disk} {q : List TeslaKeyCardNfcEvent}

theorem encrypt_spec (iv : Bytes 16) (privateKey : Bytes 32) :
    Always (faultyEnv D mayFail) (teslaIdentityEncrypt iv privateKey) (World.idle d q)
      fun _ r w' => w' = World.idle d q ∧ (r = none → Faulty mayFail) := by
  simp only [teslaIdentityEncrypt, hal_eq, Program.call_bind, Program.done_bind,
    Program.pure_eq]
  intro ensured w h
  rcases h with ⟨rfl, rfl⟩ | ⟨hm, rfl, rfl⟩
  · intro loaded w h
    rcases h with ⟨rfl, rfl⟩ | ⟨hm, rfl, rfl⟩
    · intro r w h
      obtain ⟨success, encrypted⟩ := r
      rcases h with ⟨rfl, ⟨⟩⟩ | ⟨hm, hr, rfl⟩
      · intro unloaded w h
        rcases h with ⟨rfl, rfl⟩ | ⟨hm, rfl, rfl⟩
        · exact ⟨rfl, nofun⟩
        · intro _ w h
          rcases h with rfl | ⟨-, ⟨⟩, -⟩
          exact ⟨rfl, fun _ => ⟨_, hm⟩⟩
      · obtain rfl : success = false := hr
        intro _ w h
        rcases h with rfl | ⟨-, ⟨⟩, -⟩
        intro unloaded w h
        rcases h with ⟨rfl, rfl⟩ | ⟨hm', rfl, rfl⟩
        · exact ⟨rfl, fun _ => ⟨_, hm⟩⟩
        · exact ⟨rfl, fun _ => ⟨_, hm⟩⟩
    · intro _ w h
      rcases h with rfl | ⟨-, ⟨⟩, -⟩
      exact ⟨rfl, fun _ => ⟨_, hm⟩⟩
  · intro _ w h
    rcases h with rfl | ⟨-, ⟨⟩, -⟩
    exact ⟨rfl, fun _ => ⟨_, hm⟩⟩

theorem writeStaged_spec (record : TeslaIdentityRecord) :
    Always (faultyEnv D mayFail) (writeStaged record) (World.staging d none q) fun _ r w' =>
      ∃ d', w' = World.idle d' q ∧ (r = false → Faulty mayFail) := by
  simp only [writeStaged, hal_eq, Program.call_bind, Program.done_bind, Program.pure_eq,
    Bool.false_eq_true, if_false]
  have hclose {w w' : World} {closed : Bool} {d' : Disk} {f : OpenFile}
      (hw : w = ⟨d', some f, none, q⟩)
      (hE : faultyEnv D mayFail w .storageFileClose closed w') : w' = World.idle d' q := by
    subst hw
    rcases hE with ⟨rfl, -⟩ | ⟨-, -, rfl⟩ <;> rfl
  intro written w hwrite
  rcases hwrite with ⟨hw, rfl⟩ | ⟨hm, hshort, n, hw⟩
  · have hw := hw.trans (World.write_staging d none q _)
    simp only [record.pack.length_eq, if_true]
    intro synced w₂ h
    rcases h with ⟨rfl, rfl⟩ | ⟨hm, rfl, rfl⟩
    · intro closed w₃ hE
      obtain rfl := hclose hw hE
      subst hw
      intro error w₄ h
      rcases h with hworks | ⟨hm, hr, rfl⟩
      · simp only [Works, World.idle, Disk.write_same, reduceCtorEq, if_false] at hworks
        obtain ⟨rfl, rfl⟩ := hworks
        exact ⟨_, rfl, fun h => absurd h.symm Bool.false_ne_true⟩
      · exact ⟨_, rfl, fun _ => ⟨_, hm⟩⟩
    · intro closed w₃ hE
      exact ⟨_, hclose hw hE, fun _ => ⟨_, hm⟩⟩
  · have hw := hw.trans (World.write_staging d none q _)
    have hlen : written ≠ 96 := by
      simp only [Refused, record.pack.length_eq] at hshort
      exact Nat.ne_of_lt hshort
    simp only [if_neg hlen]
    intro closed w₃ hE
    exact ⟨_, hclose hw hE, fun _ => ⟨_, hm⟩⟩

theorem store_spec (record : TeslaIdentityRecord) :
    Always (faultyEnv D mayFail) (teslaIdentityStore record) (World.idle d q) fun _ r w' =>
      ∃ d', w' = World.idle d' q ∧ (r = false → Faulty mayFail) := by
  have hremove {w w' : World} {r : FsError} {d' : Disk} (hw : w = World.idle d' q)
      (hE : faultyEnv D mayFail w (.storageCommonRemove .tmp) r w') :
      ∃ d'', w' = World.idle d'' q := by
    subst hw
    rcases hE with ⟨rfl, -⟩ | ⟨-, -, rfl⟩
    · exact ⟨_, rfl⟩
    · exact ⟨_, rfl⟩
  simp only [teslaIdentityStore, hal_eq, Program.call_bind, Program.done_bind, Program.pure_eq]
  intro removed w₁ hE
  obtain ⟨d', rfl⟩ := hremove rfl hE
  intro opened w₂ h
  rcases h with ⟨rfl, rfl⟩ | ⟨hm, rfl, rfl⟩
  · apply (writeStaged_spec (d := d') record).bind
    intro _ written w₃ h
    obtain ⟨d'', rfl, hf⟩ := h
    rcases written with _ | _
    · intro removed w₄ hE
      obtain ⟨_, rfl⟩ := hremove rfl hE
      exact ⟨_, rfl, fun _ => hf rfl⟩
    · exact ⟨_, rfl, nofun⟩
  · intro removed w₃ hE
    obtain ⟨d'', rfl⟩ := hremove rfl hE
    exact ⟨_, rfl, fun _ => ⟨_, hm⟩⟩

theorem save_spec (identity : TeslaIdentity) :
    Always (faultyEnv D mayFail) (teslaIdentitySave identity) (World.idle d q) fun _ r w' =>
      ∃ d', w' = World.idle d' q ∧ (r = false → Faulty mayFail) := by
  simp only [teslaIdentitySave, hal_eq, Program.call_bind, Program.done_bind, Program.pure_eq]
  intro iv w₁ h
  rcases h with rfl | ⟨-, ⟨⟩, -⟩
  apply (encrypt_spec iv identity.privateKey).bind
  intro _ encrypted w₂ h
  obtain ⟨rfl, hf⟩ := h
  rcases encrypted with _ | encrypted
  · exact ⟨_, rfl, fun _ => hf rfl⟩
  apply (calculateMac_spec _).bind
  intro _ r w₃ h
  obtain ⟨calculated, mac⟩ := r
  rcases h with ⟨rfl, ⟨⟨⟩⟩ | ⟨hr, hf⟩⟩
  · exact (store_spec _).mono fun _ _ _ h => h
  · obtain rfl : calculated = false := hr
    intro _ w₄ h
    rcases h with rfl | ⟨-, ⟨⟩, -⟩
    exact ⟨_, rfl, fun _ => hf⟩

end

theorem exists_save (D : Device) (identity : TeslaIdentity) (d : Disk)
    (q : List TeslaKeyCardNfcEvent) :
    ∃ t w', Executes (faultyEnv D noFailure) (teslaIdentitySave identity) (World.idle d q) t
      true w' := by
  obtain ⟨t, r, w', hx⟩ := exists_works (D := D)
    (teslaIdentitySave identity) (World.idle d q)
  obtain ⟨-, -, hf⟩ := always_iff.mp (save_spec identity) _ _ _ hx
  cases r with
  | false => exact absurd (hf rfl) not_faulty_noFailure
  | true => exact ⟨t, w', hx⟩

theorem referenceLoad_saved (D : Device) (identity : TeslaIdentity) (iv : Bytes 16) :
    referenceLoad D (Disk.binOnly (newRecord D identity iv).pack.toList) =
      (.ok, identity, Disk.binOnly (newRecord D identity iv).pack.toList) := by
  have hvalid : ValidRecord D (newRecord D identity iv).pack.toList :=
    .inl (newRecord_valid D identity iv)
  have hbin := storedIdentity_bind_eq_some (p := .bin)
    (d := Disk.binOnly (newRecord D identity iv).pack.toList) rfl hvalid
  simp only [referenceLoad, hbin, newRecord_identityAt]

end FlipperApps.Tesla
