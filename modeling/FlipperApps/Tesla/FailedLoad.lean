import FlipperApps.Tesla.Recovery

/-!
# What a load leaves in the identity buffer

A load that fails leaves zeros, whatever the firmware replied and whatever a
failing decryption wrote. A load that succeeds takes both the identifier and
the key from one valid file.
-/

namespace FlipperApps.Tesla
open Calls

/-- A buffer that was clean before is clean after every failure. -/
def CleanUnlessOk (r : TeslaIdentityLoadResult × TeslaIdentity) : Prop :=
  r.1 ≠ .ok → r.2 = noIdentity

theorem decryptPrivateKey_clean (iv : Bytes 16) (encrypted : Bytes 32) :
    (teslaIdentityDecryptPrivateKey iv encrypted noIdentity).Returns CleanUnlessOk := by
  simp only [teslaIdentityDecryptPrivateKey, hal_eq, Program.call_bind, Program.done_bind,
    Program.pure_eq]
  intro ensured
  cases ensured with
  | false => exact fun _ => rfl
  | true =>
    intro loaded
    cases loaded with
    | false => exact fun _ => rfl
    | true =>
      -- Whatever the decryption wrote is cleared unless both calls succeed.
      intro decryption unloaded
      by_cases h : (!decryption.1 || !unloaded) = true
      · simp only [h, if_true]
        exact fun _ => rfl
      · simp only [h, Bool.false_eq_true, if_false]
        exact fun hr => absurd rfl hr

theorem decodeFields_clean (fields : RecordFields) :
    (decodeFields fields noIdentity).Returns CleanUnlessOk := by
  apply (decryptPrivateKey_clean fields.iv fields.encryptedPrivateKey).bind
  intro r hr
  dsimp only
  split_ifs
  · exact hr
  · exact fun hne => absurd rfl hne

theorem decodeRecord_clean (record : TeslaIdentityRecord) :
    (teslaIdentityDecodeRecord record noIdentity).Returns CleanUnlessOk := by
  unfold teslaIdentityDecodeRecord
  split_ifs
  · exact fun _ => rfl
  · apply Program.returns_bind
    intro mac
    dsimp only
    split_ifs
    · exact fun _ => rfl
    · exact fun _ => rfl
    · exact decodeFields_clean record.fields

theorem decodeLegacyRecord_clean (record : TeslaIdentityLegacyRecord) :
    (teslaIdentityDecodeLegacyRecord record noIdentity).Returns CleanUnlessOk := by
  unfold teslaIdentityDecodeLegacyRecord
  split_ifs
  · exact fun _ => rfl
  · apply Program.returns_bind
    intro checksum
    split_ifs
    · exact fun _ => rfl
    · exact decodeFields_clean record.fields

theorem loadPath_clean (path : IdentityPath) :
    (teslaIdentityLoadPath path noIdentity).Returns fun r => CleanUnlessOk (r.1, r.2.1) := by
  apply Program.returns_bind
  intro read
  dsimp only
  split_ifs
  · exact (decodeRecord_clean read.2).bind fun r hr => hr
  · exact fun _ => rfl
  · apply Program.returns_bind
    intro readLegacy
    split_ifs
    · exact (decodeLegacyRecord_clean readLegacy.2).bind fun r hr => hr
    · exact fun _ => rfl

theorem recover_clean {result : TeslaIdentityLoadResult} (legacyRecord : Bool) :
    (teslaIdentityRecover result noIdentity legacyRecord).Returns
      fun r => CleanUnlessOk (r.1, r.2.1) := by
  apply (loadPath_clean .tmp).bind
  intro r hr
  dsimp only
  split_ifs with hok
  · apply Program.returns_bind
    intro error
    split_ifs
    · exact fun _ hne => absurd rfl hne
    · exact fun hne => absurd rfl hne
  · exact hr
  · -- The verdict on the identity file is kept, with the buffer of the second attempt.
    exact fun _ => hr hok

theorem load_clean (identity : TeslaIdentity) :
    (teslaIdentityLoad identity).Returns CleanUnlessOk := by
  apply (loadPath_clean .bin).bind
  intro r hr
  have hwarn (r : TeslaIdentityLoadResult × TeslaIdentity × Bool)
      (hr : CleanUnlessOk (r.1, r.2.1)) :
      (teslaIdentityWarnLegacy r.1 r.2.2 >>= fun _ => pure (r.1, r.2.1)).Returns CleanUnlessOk :=
    Program.returns_bind fun _ => hr
  dsimp only
  split_ifs with hrecover
  · have hclean : r.2.1 = noIdentity := hr (by rcases hrecover with h | h <;> simp [h])
    rw [hclean]
    exact (recover_clean r.2.2).bind hwarn
  · exact hwarn r hr

/-- The identity is read off one valid file: its identifier, and its key as the
device decrypts it. -/
def FromOneFile (D : Device) (d : Disk) (identity : TeslaIdentity) : Prop :=
  ∃ p F, d p = some F ∧ ∃ h : ValidRecord D F, identity = identityAt D F h.le_length

theorem LoadsTo.fromOneFile {D : Device} {mayFail : HalCall → Prop} {d d' : Disk}
    {found : TeslaIdentity} (h : LoadsTo D mayFail d .ok found d') : FromOneFile D d found := by
  cases h with
  | bin hbin h => exact ⟨.bin, _, hbin, h, rfl⟩
  | recovered _ htmp h => exact ⟨.tmp, _, htmp, h, rfl⟩
  | retained _ htmp h => exact ⟨.tmp, _, htmp, h, rfl⟩
  | error _ hr => exact absurd rfl hr.1

/-- A load that fails leaves zeros, in any environment whatever; one that
succeeds in spite of failing calls found its identity in one file. -/
theorem load_clears_or_finds (identity : TeslaIdentity) :
    (∀ (σ : Type) (E : Environment HalInterface σ) (s : σ),
      Always E (teslaIdentityLoad identity) s fun _ r _ =>
        r.1 ≠ .ok → r.2 = ⟨Bytes.zero 4, Bytes.zero 32⟩) ∧
    ∀ (D : Device) (mayFail : HalCall → Prop) (d : Disk) (q : List TeslaKeyCardNfcEvent),
      Always (faultyEnv D mayFail) (teslaIdentityLoad identity) (World.idle d q) fun _ r _ =>
        r.1 = .ok → FromOneFile D d r.2 := by
  constructor
  · intro σ E s
    exact always_returns (load_clean identity)
  · intro D mayFail d q
    apply (load_spec identity).mono
    intro t r w h hok
    obtain ⟨-, d', rfl, hload⟩ := h
    exact (hok ▸ hload).fromOneFile

end FlipperApps.Tesla
