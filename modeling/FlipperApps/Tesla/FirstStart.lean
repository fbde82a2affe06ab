import FlipperApps.Tesla.Integrity
import FlipperApps.Tesla.PowerLoss
import FlipperApps.Tesla.Startup

/-!
# A first start that is cut off

Wherever the power goes while the first identity is made, the files are still
empty, hold a prefix of the record as the staged file, or hold the identity
file. Only a proper prefix keeps the next start from succeeding.
-/

namespace FlipperApps.Tesla
open Calls

def Disk.Partial (d : Disk) : Prop := d .bin = none ∧ ∃ F, d .tmp = some F ∧ F.length < 96

def Disk.tmpOnly (record : List UInt8) : Disk
  | .bin => none
  | .tmp => some record

theorem Disk.empty_write_tmp (record : List UInt8) :
    Disk.empty.write .tmp (some record) = Disk.tmpOnly record := by
  funext p
  cases p <;> simp [Disk.write, Disk.empty, Disk.tmpOnly]

theorem Disk.recovered_tmpOnly (record : List UInt8) :
    (Disk.tmpOnly record).recovered = Disk.binOnly record := by
  rw [Disk.recovered, ← Disk.empty_write_tmp, Disk.rename_staged]

inductive StoringDisk (record : List UInt8) : Disk → Prop
  | empty : StoringDisk record Disk.empty
  | staged (n : ℕ) : StoringDisk record (Disk.tmpOnly (record.take n))
  | stored : StoringDisk record (Disk.binOnly record)

section
variable {D : Device} {mayFail : HalCall → Prop} {q : List TeslaKeyCardNfcEvent}
  {record : List UInt8} {d : Disk} {c : HalCall}

theorem Disk.empty_remove (p : IdentityPath) : Disk.empty.write p none = Disk.empty :=
  Function.update_eq_self p Disk.empty

theorem StoringDisk.staged_all : StoringDisk record (Disk.tmpOnly record) := by
  have hall : StoringDisk record (Disk.tmpOnly (record.take record.length)) := .staged _
  rwa [List.take_length] at hall

theorem StoringDisk.remove (h : StoringDisk record d) :
    StoringDisk record (d.write .tmp none) := by
  cases h with
  | empty =>
    rw [Disk.empty_remove]
    exact .empty
  | staged n =>
    have hempty : (Disk.tmpOnly (record.take n)).write .tmp none = Disk.empty := by
      rw [← Disk.empty_write_tmp, Disk.write, Disk.write, Function.update_idem]
      exact Disk.empty_remove .tmp
    rw [hempty]
    exact .empty
  | stored =>
    have hsame : (Disk.binOnly record).write .tmp none = Disk.binOnly record :=
      Function.update_eq_self IdentityPath.tmp (Disk.binOnly record)
    rw [hsame]
    exact .stored

theorem writeStaged_throughout (record : TeslaIdentityRecord) :
    Throughout (faultyEnv D mayFail) powerLoss (writeStaged record)
      (World.staging Disk.empty none q) fun w => StoringDisk record.pack.toList w.disk := by
  have hwritten (data : List UInt8) :
      ((World.staging Disk.empty none q).write ⟨.tmp, 0⟩ data).disk = Disk.tmpOnly data := by
    rw [World.write_staging, Disk.empty_write_tmp]
  have hprefix (n : ℕ) : StoringDisk record.pack.toList
      ((World.staging Disk.empty none q).write ⟨.tmp, 0⟩ (record.pack.toList.take n)).disk := by
    rw [hwritten]
    exact .staged n
  simp only [writeStaged, hal_eq, Program.call_bind, Program.done_bind, Program.pure_eq,
    Bool.false_eq_true, if_false]
  refine ⟨?_, ?_, ?_⟩
  · change StoringDisk _ (Disk.empty.write .tmp (some []))
    rw [Disk.empty_write_tmp]
    exact .staged 0
  · intro w' h
    obtain ⟨n, rfl⟩ := h
    exact hprefix n
  intro written w₁ hwrite
  have hstaged : StoringDisk record.pack.toList w₁.disk := by
    rcases hwrite with ⟨rfl, -⟩ | ⟨-, -, n, rfl⟩
    · rw [hwritten]
      exact .staged_all
    · exact hprefix n
  dsimp only
  split_ifs with hlen
  · have hall : w₁.disk = Disk.tmpOnly record.pack.toList := by
      rcases hwrite with ⟨rfl, -⟩ | ⟨-, hshort, -⟩
      · exact hwritten _
      · simp [Refused, hlen] at hshort
    refine throughout_call_keepsDisk trivial hstaged fun synced w₂ h₂ => ?_
    refine throughout_call_keepsDisk trivial (h₂ ▸ hstaged) fun _ w₃ h₃ => ?_
    have hdisk : w₃.disk = Disk.tmpOnly record.pack.toList := (h₃.trans h₂).trans hall
    have hstaged : StoringDisk record.pack.toList w₃.disk := hdisk ▸ .staged_all
    split_ifs
    · refine ⟨hstaged, fun _ hd => hd.elim, fun error w₄ hrename => ?_⟩
      rcases hrename with hworks | ⟨-, -, rfl⟩
      · simp only [Works, hdisk, Disk.tmpOnly, reduceCtorEq, if_false] at hworks
        obtain ⟨rfl, -⟩ := hworks
        change StoringDisk _ (Disk.tmpOnly record.pack.toList).recovered
        rw [Disk.recovered_tmpOnly]
        exact .stored
      · exact hstaged
    · exact hstaged
  · refine throughout_call_keepsDisk trivial hstaged fun _ w₂ h₂ => ?_
    change StoringDisk _ w₂.disk
    rwa [h₂]

theorem store_throughout (record : TeslaIdentityRecord) :
    Throughout (faultyEnv D mayFail) powerLoss (teslaIdentityStore record)
      (World.idle Disk.empty q) fun w => StoringDisk record.pack.toList w.disk := by
  have hremove {w w' : World} {r : FsError} (hs : StoringDisk record.pack.toList w.disk)
      (hE : faultyEnv D mayFail w (.storageCommonRemove .tmp) r w') :
      StoringDisk record.pack.toList w'.disk := by
    rcases hE with ⟨rfl, -⟩ | ⟨-, -, rfl⟩
    · exact hs.remove
    · exact hs
  simp only [teslaIdentityStore, hal_eq, Program.call_bind, Program.done_bind, Program.pure_eq]
  refine ⟨.empty, fun _ hd => hd.elim, fun removed w₁ hE => ?_⟩
  obtain rfl : w₁ = World.idle Disk.empty q := by
    rcases hE with ⟨rfl, -⟩ | ⟨-, -, rfl⟩
    · simp only [World.idle, Disk.empty_remove]
    · rfl
  refine ⟨.empty, fun _ hd => hd.elim, fun opened w₂ hopen => ?_⟩
  rcases hopen with ⟨rfl, rfl⟩ | ⟨-, hrefused, rfl⟩
  · refine (writeStaged_throughout record).bind (writeStaged_throughout record).final ?_
    intro _ written w₃ hstoring
    rcases written with _ | _
    · exact ⟨hstoring, fun _ hd => hd.elim, fun _ w₄ hE => hremove hstoring hE⟩
    · exact hstoring
  · obtain rfl : opened = false := hrefused
    exact ⟨.empty, fun _ hd => hd.elim, fun _ w₃ hE => hremove .empty hE⟩

/-- The files during a first start: a record being stored is one of an
identity whose key will be accepted. -/
inductive FirstDisk (D : Device) : Disk → Prop
  | empty : FirstDisk D Disk.empty
  | storing {identity : TeslaIdentity} (iv : Bytes 16) {d : Disk}
      (hkey : Accepts D identity.privateKey)
      (h : StoringDisk (newRecord D identity iv).pack.toList d) : FirstDisk D d

theorem save_throughout {identity : TeslaIdentity} (hkey : Accepts D identity.privateKey) :
    Throughout (faultyEnv D mayFail) powerLoss (teslaIdentitySave identity)
      (World.idle Disk.empty q) fun w => FirstDisk D w.disk := by
  simp only [teslaIdentitySave, hal_eq, Program.call_bind, Program.done_bind, Program.pure_eq]
  refine ⟨.empty, fun _ hd => hd.elim, ?_⟩
  intro iv w₁ h
  rcases h with rfl | ⟨-, ⟨⟩, -⟩
  refine (throughout_keepsDisk .empty ((encrypt_uses _ _).mono fun _ => ReadCall.keepsDisk)).bind
    ((encrypt_spec iv _).and (encrypt_value (reported_failing mayFail) iv _)) ?_
  intro _ encrypted w₂ h
  obtain ⟨⟨rfl, -⟩, hencrypted⟩ := h
  rcases encrypted with _ | encrypted
  · exact .empty
  obtain rfl := hencrypted _ rfl
  refine (throughout_keepsDisk .empty ((calculateMac_uses _).mono fun _ => ReadCall.keepsDisk)).bind
    (calculateMac_spec _) ?_
  intro _ r w₃ h
  obtain ⟨calculated, mac⟩ := r
  rcases h with ⟨rfl, ⟨⟨⟩⟩ | ⟨hr, -⟩⟩
  · exact (store_throughout _).mono fun _ h => .storing iv hkey h
  · obtain rfl : calculated = false := hr
    exact throughout_call_keepsDisk trivial .empty fun _ w₄ h₄ => by
      change FirstDisk D w₄.disk
      rw [h₄]
      exact .empty

theorem load_throughout (identity : TeslaIdentity) :
    Throughout (faultyEnv D mayFail) powerLoss (teslaIdentityLoad identity)
      (World.idle Disk.empty q) fun w => w.disk = Disk.empty := by
  refine throughout_of_uses (Q := fun w : World => w.disk = Disk.empty) rfl ?_ ?_
    (load_uses (fun _ => ReadCall.loading) (.inr rfl) identity)
  · intro w c w' h _ hd
    rcases h with hc | rfl
    · exact absurd hd hc.not_powerLoss
    · exact hd.elim
  · intro w c r w' h hw hE
    rcases h with hc | rfl
    · exact (hc.disk_eq hE).trans hw
    · have hnone : w.disk .tmp = none := by rw [hw]; rfl
      rcases hE with hworks | ⟨-, -, rfl⟩
      · simp only [Works, hnone, if_true] at hworks
        obtain ⟨rfl, -⟩ := hworks
        exact hw
      · exact hw

theorem prepare_throughout {crypto : TeslaCrypto} (hload : crypto.Loaded D)
    (identity : TeslaIdentity) :
    Throughout (faultyEnv D mayFail) powerLoss (teslaKeyCardPrepareIdentity crypto identity)
      (World.idle Disk.empty q) fun w => FirstDisk D w.disk := by
  refine ((load_throughout identity).mono fun w hw => ?_).bind (load_spec identity) ?_
  · rw [hw]
    exact .empty
  intro _ r w h
  obtain ⟨result, found⟩ := r
  obtain ⟨-, d', rfl, hfound⟩ := h
  have hd : d' = Disk.empty := by
    -- An empty storage has no staged file to recover.
    rcases hfound.disk with rfl | ⟨-, ⟨F, hF, -⟩, -⟩
    · rfl
    · exact nomatch hF
  subst hd
  dsimp only
  split_ifs
  · exact (throughout_keepsDisk .empty ((setPrivateKey_uses _ _).mono
      fun _ => KeyCall.keepsDisk)).bind (setPrivateKey_keeps _ _ _) fun _ _ _ h => h.1 ▸ .empty
  · exact .empty
  · simp only [teslaIdentityGenerateUid, hal_eq, Program.call_bind, Program.done_bind,
      Program.pure_eq]
    refine ⟨.empty, fun _ hd => hd.elim, ?_⟩
    intro uid w h
    rcases h with rfl | ⟨-, ⟨⟩, -⟩
    refine (throughout_keepsDisk .empty (generatePrivateKey_uses (fun _ => KeyCall.keepsDisk)
      (fun _ => trivial) (fun _ => trivial) _ _)).bind
      (generatePrivateKey_spec hload found.privateKey) ?_
    intro _ r w h
    obtain ⟨generated, c, privateKey⟩ := r
    rcases h with ⟨rfl, ⟨hr, -, hkey, -⟩ | ⟨hr, -⟩⟩
    · obtain rfl : generated = true := hr
      simp only [Bool.not_true, Bool.false_eq_true, if_false]
      exact (save_throughout hkey).bind (save_throughout hkey).final fun _ _ _ h => h
    · obtain rfl : generated = false := hr
      exact .empty

theorem referenceLoad_cutOff (D : Device) (identity : TeslaIdentity) (iv : Bytes 16) {n : ℕ}
    (hn : n < 96) :
    let d := Disk.tmpOnly ((newRecord D identity iv).pack.toList.take n)
    referenceLoad D d = (.corrupt, noIdentity, d) := by
  intro d
  have hlen : ((newRecord D identity iv).pack.toList.take n).length = n := by simp; omega
  have hbin : ¬ ValidAt D d .bin := fun ⟨_, h, _⟩ => nomatch h
  have htmp : ¬ ValidAt D d .tmp := by
    intro h
    rcases h with ⟨F, hF, hv | hv⟩
    · obtain rfl := Option.some.inj hF
      exact absurd (hlen.symm.trans hv.1) (Nat.ne_of_lt hn)
    · -- A v1 file has its version at byte 8, where the new record has 2.
      obtain rfl := Option.some.inj hF
      have h68 : n = 68 := hlen.symm.trans hv.1
      have hversion := hv.2.2.1
      rw [h68, List.getElem?_take_of_lt (by decide)] at hversion
      have hrecord := (newRecord_valid D identity iv).2.2.1
      exact nomatch hrecord.symm.trans hversion
  have hload : LoadsTo D noFailure d .corrupt noIdentity d :=
    .corrupt (fun h => nomatch h.2) hbin htmp
  exact hload.reference

theorem referenceLoad_staged (D : Device) (identity : TeslaIdentity) (iv : Bytes 16) :
    referenceLoad D (Disk.tmpOnly (newRecord D identity iv).pack.toList) =
      (.ok, identity, Disk.binOnly (newRecord D identity iv).pack.toList) := by
  have hvalid : ValidRecord D (newRecord D identity iv).pack.toList :=
    .inl (newRecord_valid D identity iv)
  have htmp := storedIdentity_bind_eq_some (p := .tmp)
    (d := Disk.tmpOnly (newRecord D identity iv).pack.toList) rfl hvalid
  rw [newRecord_identityAt] at htmp
  rw [referenceLoad, htmp, ← Disk.recovered_tmpOnly]
  rfl

theorem Disk.not_partial_of_le {record : List UInt8} (h : 96 ≤ record.length) :
    ¬ (Disk.tmpOnly record).Partial := by
  intro h
  obtain ⟨-, F, hF, hlen⟩ := h
  obtain rfl := Option.some.inj hF
  omega

theorem FirstDisk.load {d : Disk} (h : FirstDisk D d) :
    d = Disk.empty ∨
      (∃ found d', referenceLoad D d = (.ok, found, d') ∧ Accepts D found.privateKey ∧
        ¬ d.Partial) ∨
      referenceLoad D d = (.corrupt, noIdentity, d) ∧ d.Partial := by
  cases h with
  | empty => exact .inl rfl
  | @storing identity iv _ hkey h =>
    have hlen : (newRecord D identity iv).pack.toList.length = 96 := by simp
    cases h with
    | empty => exact .inl rfl
    | stored =>
      exact .inr (.inl ⟨_, _, referenceLoad_saved D identity iv, hkey, fun h => nomatch h.1⟩)
    | staged n =>
      by_cases hn : n < 96
      · exact .inr (.inr ⟨referenceLoad_cutOff D identity iv hn, rfl, _, rfl, by simp; omega⟩)
      · rw [List.take_of_length_le (by omega)]
        exact .inr (.inl ⟨_, _, referenceLoad_staged D identity iv, hkey,
          Disk.not_partial_of_le (by omega)⟩)

theorem prepare_after_powerLoss {crypto crypto' : TeslaCrypto} (hload : crypto.Loaded D)
    (hload' : crypto'.Loaded D) (identity identity' : TeslaIdentity)
    (q' : List TeslaKeyCardNfcEvent) {t : List HalEvent} {w : World}
    (hstop : Stops (faultyEnv D mayFail) powerLoss (teslaKeyCardPrepareIdentity crypto identity)
      (World.idle Disk.empty q) t w) :
    (∃ t' r w', Executes (faultyEnv D noFailure) (teslaKeyCardPrepareIdentity crypto' identity')
        (World.idle w.disk q') t' r w') ∧
      Always (faultyEnv D noFailure) (teslaKeyCardPrepareIdentity crypto' identity')
        (World.idle w.disk q') fun t' r w' =>
          (r.1 = true ↔ ¬ w.disk.Partial) ∧
          (r.1 = true → Stored D w.disk r.2.2 ∨ Generated t' r.2.2) ∧
          (r.1 = false → w'.disk = w.disk) := by
  refine ⟨exists_executes (halEnv_total _ _) _ _, ?_⟩
  have hfirst := throughout_iff.mp (prepare_throughout hload identity) t w hstop
  apply (prepareIdentity_spec hload' identity').mono
  intro t' r w' h
  obtain ⟨d', rfl, hprepared⟩ := h
  rcases hfirst.load with hempty | ⟨found, d'', href, hkey, hpart⟩ | ⟨href, hpart⟩
  · obtain ⟨hr, hgen⟩ := hprepared.of_none (by rw [hempty]; exact ⟨rfl, rfl⟩)
    have hpart : ¬ w.disk.Partial := by
      rw [hempty]
      exact fun ⟨_, _, h, _⟩ => nomatch h
    simp [hr, hpart, hgen]
  · obtain ⟨rfl, rfl⟩ := hprepared.of_ok href hkey
    simp [hpart, stored_of_reference href]
  · obtain ⟨rfl, rfl⟩ := hprepared.of_corrupt href
    simp [hpart, World.idle]

end

theorem exists_save_stops (D : Device) (identity : TeslaIdentity)
    (q : List TeslaKeyCardNfcEvent) :
    ∃ t, Stops (faultyEnv D noFailure) powerLoss (teslaIdentitySave identity)
      (World.idle Disk.empty q) t (World.staging Disk.empty none q) := by
  have hstore (record : TeslaIdentityRecord) : ∃ t, Stops (faultyEnv D noFailure) powerLoss
      (teslaIdentityStore record) (World.idle Disk.empty q) t
      (World.staging Disk.empty none q) := by
    simp only [teslaIdentityStore, hal_eq, Program.call_bind, Program.done_bind, Program.pure_eq]
    have hremove : faultyEnv D noFailure (World.idle Disk.empty q) (.storageCommonRemove .tmp)
        .notExist (World.idle Disk.empty q) :=
      .inl ⟨by simp only [World.idle, Disk.empty_remove], rfl⟩
    exact ⟨_, .later hremove (.later (.inl ⟨rfl, rfl⟩) (.here _ _))⟩
  simp only [teslaIdentitySave, hal_eq, Program.call_bind, Program.done_bind, Program.pure_eq]
  obtain ⟨t₁, encrypted, w, hencrypt⟩ := exists_works (D := D)
    (teslaIdentityEncrypt (Bytes.zero 16) identity.privateKey) (World.idle Disk.empty q)
  obtain ⟨rfl, hf⟩ := always_iff.mp (encrypt_spec _ _) _ _ _ hencrypt
  cases encrypted with
  | none => exact absurd (hf rfl) not_faulty_noFailure
  | some encrypted =>
    obtain ⟨t₂, ⟨calculated, mac⟩, w, hmac⟩ := exists_works (D := D)
      (teslaIdentityCalculateMac (newFields identity.uid (Bytes.zero 16) encrypted))
      (World.idle Disk.empty q)
    obtain ⟨rfl, hr | hr⟩ := always_iff.mp (calculateMac_spec _) _ _ _ hmac
    · obtain ⟨t₃, hstop⟩ := hstore ⟨newFields identity.uid (Bytes.zero 16) encrypted, mac⟩
      obtain rfl : calculated = true := congrArg Prod.fst hr
      exact ⟨_, .later (.inl rfl) (.after hencrypt (.after hmac hstop))⟩
    · exact absurd hr.2 not_faulty_noFailure

theorem exists_prepare_stops (D : Device) {crypto : TeslaCrypto} (hload : crypto.Loaded D)
    (identity : TeslaIdentity) (q : List TeslaKeyCardNfcEvent) :
    ∃ t, Stops (faultyEnv D noFailure) powerLoss (teslaKeyCardPrepareIdentity crypto identity)
      (World.idle Disk.empty q) t (World.staging Disk.empty none q) := by
  have href : referenceLoad D Disk.empty = (.notFound, noIdentity, Disk.empty) :=
    (LoadsTo.notFound rfl rfl).reference
  obtain ⟨t₁, hloaded⟩ := (load_yields D Disk.empty q identity).exists_trace
  rw [href] at hloaded
  obtain ⟨t₂, ⟨generated, c, privateKey⟩, w, hgenerate⟩ := exists_works (D := D)
    (teslaCryptoGeneratePrivateKey crypto (Bytes.zero 32))
    (World.idle Disk.empty q)
  obtain ⟨rfl, ⟨hr, -⟩ | ⟨-, -, -, hf⟩⟩ :=
    always_iff.mp (generatePrivateKey_spec hload _) _ _ _ hgenerate
  · obtain rfl : generated = true := hr
    obtain ⟨t₃, hstop⟩ := exists_save_stops D ⟨stampUid (Bytes.zero 4), privateKey⟩ q
    have huid : Executes (faultyEnv D noFailure) teslaIdentityGenerateUid
        (World.idle Disk.empty q) [⟨.furiHalRandomFillBuf 4, Bytes.zero 4⟩]
        (stampUid (Bytes.zero 4)) (World.idle Disk.empty q) := .call (.inl rfl) (.done _ _)
    exact ⟨_, .after hloaded (.after huid (.after hgenerate hstop.bind))⟩
  · exact absurd hf not_faulty_noFailure

theorem staging_partial : (World.staging Disk.empty none []).disk.Partial :=
  ⟨rfl, [], rfl, by decide⟩

theorem prepare_after_powerLoss_plainDevice :
    ∃ t w, w.disk.Partial ∧
      Stops (faultyEnv plainDevice noFailure) powerLoss
        (teslaKeyCardPrepareIdentity plainCrypto noIdentity) (World.idle Disk.empty []) t w ∧
      (∃ t' r w', Executes (faultyEnv plainDevice noFailure)
        (teslaKeyCardPrepareIdentity plainCrypto noIdentity) (World.idle w.disk []) t' r w') ∧
      Always (faultyEnv plainDevice noFailure)
        (teslaKeyCardPrepareIdentity plainCrypto noIdentity) (World.idle w.disk [])
        fun t' r w' => (r.1 = true ↔ ¬ w.disk.Partial) ∧
          (r.1 = true → Stored plainDevice w.disk r.2.2 ∨ Generated t' r.2.2) ∧
          (r.1 = false → w'.disk = w.disk) := by
  obtain ⟨t, hstop⟩ := exists_prepare_stops plainDevice plainCrypto_loaded noIdentity []
  exact ⟨t, _, staging_partial, hstop, prepare_after_powerLoss plainCrypto_loaded
    plainCrypto_loaded noIdentity noIdentity [] hstop⟩

/-- The power goes between the creation of the staged file and its write: every
later start fails. -/
theorem powerLoss_not_recovered :
    ∃ t, Stops (faultyEnv plainDevice noFailure) powerLoss
        (teslaKeyCardPrepareIdentity plainCrypto noIdentity) (World.idle Disk.empty []) t
        (World.staging Disk.empty none []) ∧
      Yields (faultyEnv plainDevice noFailure)
        (teslaKeyCardPrepareIdentity plainCrypto noIdentity)
        (World.idle (World.staging Disk.empty none []).disk []) (false, plainCrypto, noIdentity)
        (World.idle (World.staging Disk.empty none []).disk []) := by
  obtain ⟨t, hstop⟩ := exists_prepare_stops plainDevice plainCrypto_loaded noIdentity []
  refine ⟨t, hstop, ((prepareIdentity_spec plainCrypto_loaded noIdentity).mono ?_).yields
    (halEnv_total _ _)⟩
  intro t' r w' h
  obtain ⟨d', rfl, hprepared⟩ := h
  have hstaged : (World.staging Disk.empty none []).disk = Disk.tmpOnly [] :=
    Disk.empty_write_tmp []
  rw [hstaged] at hprepared ⊢
  have href := referenceLoad_cutOff plainDevice sampleIdentity (Bytes.zero 16) (n := 0) (by decide)
  obtain ⟨rfl, rfl⟩ := hprepared.of_corrupt href
  exact ⟨rfl, rfl⟩

end FlipperApps.Tesla
