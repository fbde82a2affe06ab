import FlipperApps.Tesla.MemoryApp

/-!
# Without its memory each function is the one modelled before

One lemma for each function, in the order of the definitions.
-/

namespace FlipperApps.Tesla.Memory
open Calls Program

theorem deriveMacKey_erase :
    teslaIdentityDeriveMacKey.erase = Tesla.teslaIdentityDeriveMacKey := by
  simp only [teslaIdentityDeriveMacKey, erase_bind, erase_ite]
  rfl

/-- Here the common end of the paths stands behind the condition, not inside it. -/
theorem calculateMac_erase (mac : Secret) (record : RecordFields) :
    (teslaIdentityCalculateMac mac record).erase = Tesla.teslaIdentityCalculateMac record := by
  simp only [teslaIdentityCalculateMac, hmacInto, Tesla.teslaIdentityCalculateMac, erase_bind,
    erase_ite, deriveMacKey_erase, bind_assoc]
  apply bind_congr
  intro mdInfo
  cases mdInfo with
  | false => rfl
  | true =>
    change Tesla.teslaIdentityDeriveMacKey >>= _ >>= _ = Tesla.teslaIdentityDeriveMacKey >>= _
    rw [bind_assoc]
    apply bind_congr
    intro r
    obtain ⟨derived, macKey⟩ := r
    cases derived with
    | false => rfl
    | true =>
      refine congrArg (Program.call (I := HalInterface) (.mdHmac macKey record.pack)) ?_
      funext r
      change (if r.1 = 0 then Program.done (true, r.2) else .done (false, r.2)) >>= _ =
        if r.1 = 0 then _ else _
      split_ifs <;> rfl

theorem readPacked_erase (path : IdentityPath) (buffer : Secret) (n : ℕ) :
    (readPacked path buffer n).erase = Tesla.readPacked path n := by
  simp only [readPacked, erase_bind, erase_ite, apply_dite Program.erase]
  rfl

theorem readRecord_erase (path : IdentityPath) :
    (teslaIdentityReadRecord path).erase = Tesla.teslaIdentityReadRecord path := by
  simp only [teslaIdentityReadRecord, erase_bind, readPacked_erase]
  rfl

theorem readLegacyRecord_erase (path : IdentityPath) :
    (teslaIdentityReadLegacyRecord path).erase = Tesla.teslaIdentityReadLegacyRecord path := by
  simp only [teslaIdentityReadLegacyRecord, erase_bind, readPacked_erase]
  rfl

section
variable (identity : TeslaIdentity)

theorem decryptPrivateKey_erase (iv : Bytes 16) (encryptedPrivateKey : Bytes 32) :
    (teslaIdentityDecryptPrivateKey iv encryptedPrivateKey identity).erase =
      Tesla.teslaIdentityDecryptPrivateKey iv encryptedPrivateKey identity := by
  simp only [teslaIdentityDecryptPrivateKey, erase_bind, erase_ite]
  rfl

theorem decodeFields_erase (record : RecordFields) :
    (decodeFields record identity).erase = Tesla.decodeFields record identity := by
  simp only [decodeFields, erase_bind, erase_ite, decryptPrivateKey_erase]
  rfl

theorem decodeRecord_erase (record : TeslaIdentityRecord) :
    (teslaIdentityDecodeRecord record identity).erase =
      Tesla.teslaIdentityDecodeRecord record identity := by
  simp only [teslaIdentityDecodeRecord, erase_bind, erase_ite, calculateMac_erase,
    decodeFields_erase]
  rfl

theorem decodeLegacyRecord_erase (record : TeslaIdentityLegacyRecord) :
    (teslaIdentityDecodeLegacyRecord record identity).erase =
      Tesla.teslaIdentityDecodeLegacyRecord record identity := by
  simp only [teslaIdentityDecodeLegacyRecord, erase_bind, erase_ite, decodeFields_erase]
  rfl

theorem loadPath_erase (path : IdentityPath) :
    (teslaIdentityLoadPath path identity).erase = Tesla.teslaIdentityLoadPath path identity := by
  simp only [teslaIdentityLoadPath, erase_bind, erase_ite, readRecord_erase, decodeRecord_erase,
    readLegacyRecord_erase, decodeLegacyRecord_erase]
  rfl

theorem recover_erase (result : TeslaIdentityLoadResult) (legacyRecord : Bool) :
    (teslaIdentityRecover result identity legacyRecord).erase =
      Tesla.teslaIdentityRecover result identity legacyRecord := by
  simp only [teslaIdentityRecover, erase_bind, erase_ite, loadPath_erase]
  rfl

theorem load_erase : (teslaIdentityLoad identity).erase = Tesla.teslaIdentityLoad identity := by
  simp only [teslaIdentityLoad, erase_bind, erase_ite, erase_widen, loadPath_erase, recover_erase]
  rfl

theorem encrypt_erase (iv : Bytes 16) (privateKey : Bytes 32) :
    (teslaIdentityEncrypt iv privateKey).erase = Tesla.teslaIdentityEncrypt iv privateKey := by
  simp only [teslaIdentityEncrypt, erase_bind, erase_ite]
  rfl

theorem writeStaged_erase (record : TeslaIdentityRecord) :
    (writeStaged record).erase = Tesla.writeStaged record := by
  simp only [writeStaged, erase_bind, erase_ite]
  rfl

theorem store_erase (record : TeslaIdentityRecord) :
    (teslaIdentityStore record).erase = Tesla.teslaIdentityStore record := by
  simp only [teslaIdentityStore, erase_bind, erase_ite, writeStaged_erase]
  rfl

theorem saveRecord_erase : (saveRecord identity).erase = Tesla.teslaIdentitySave identity := by
  simp only [saveRecord, Tesla.teslaIdentitySave, erase_bind, encrypt_erase]
  change Tesla.hal (.furiHalRandomFillBuf 16) >>= _ = _
  apply bind_congr
  intro iv
  apply bind_congr
  intro encrypted
  cases encrypted with
  | none => rfl
  | some encryptedPrivateKey =>
    simp only [erase_bind, erase_ite, calculateMac_erase, store_erase]
    rfl

theorem save_erase : (teslaIdentitySave identity).erase = Tesla.teslaIdentitySave identity := by
  simp only [teslaIdentitySave, erase_bind, saveRecord_erase]
  exact bind_done _

theorem delete_erase : teslaIdentityDelete.erase = Tesla.teslaIdentityDelete := by
  simp only [teslaIdentityDelete, erase_bind]
  rfl

end

section
variable (crypto : TeslaCrypto) (key : Bytes 32)

theorem cryptoFree_erase (crypto : Option TeslaCrypto) :
    (teslaCryptoFree crypto).erase = Tesla.teslaCryptoFree crypto := by
  cases crypto with
  | none => rfl
  | some crypto => rfl

theorem cryptoAlloc_erase : teslaCryptoAlloc.erase = Tesla.teslaCryptoAlloc := by
  simp only [teslaCryptoAlloc, Tesla.teslaCryptoAlloc, erase_bind]
  apply bind_congr
  intro address
  cases address with
  | none => rfl
  | some address =>
    simp only [erase_bind, erase_ite, cryptoFree_erase]
    rfl

theorem encodePoint_erase (error : ℤ) :
    (teslaCryptoEncodePoint crypto error).erase = Tesla.teslaCryptoEncodePoint crypto error := by
  simp only [teslaCryptoEncodePoint, erase_bind, erase_ite]
  rfl

theorem setPrivateKey_erase :
    (teslaCryptoSetPrivateKey crypto key).erase = Tesla.teslaCryptoSetPrivateKey crypto key := by
  simp only [teslaCryptoSetPrivateKey, erase_bind, erase_ite, erase_widen, encodePoint_erase]
  rfl

theorem generatePrivateKey_erase :
    (teslaCryptoGeneratePrivateKey crypto key).erase =
      Tesla.teslaCryptoGeneratePrivateKey crypto key := by
  simp only [teslaCryptoGeneratePrivateKey, generateScalar, Tesla.teslaCryptoGeneratePrivateKey,
    erase_bind, erase_ite, setPrivateKey_erase, bind_assoc]
  refine congrArg (Program.call (I := HalInterface) (.ecpGenPrivkey crypto.group)) ?_
  funext r
  change (if r.1 = 0 then _ else _) >>= _ = if r.1 = 0 then _ else _
  split_ifs with herror
  · refine congrArg (Program.call (I := HalInterface) (.mpiWriteBinary r.2)) ?_
    funext r
    change (if r.1 ≠ 0 then _ else _) = if r.1 ≠ 0 then _ else _
    split_ifs
    · rfl
    · apply bind_congr
      intro r
      obtain ⟨set, crypto⟩ := r
      cases set <;> rfl
  · change (if r.1 ≠ 0 then _ else _) = if r.1 ≠ 0 then _ else _
    rw [if_pos herror, if_pos herror]
    rfl

theorem nfcAlloc_erase (uid : Bytes 4) :
    (teslaNfcAlloc crypto uid).erase = Tesla.teslaNfcAlloc crypto uid := by
  simp only [teslaNfcAlloc, Tesla.teslaNfcAlloc, erase_bind]
  apply bind_congr
  intro address
  cases teslaCryptoGetPublicKey crypto with
  | none => rfl
  | some publicKey => rfl

theorem nfcFree_erase (nfc : TeslaNfc) : (teslaNfcFree nfc).erase = Tesla.teslaNfcFree nfc := by
  simp only [teslaNfcFree, erase_bind, erase_widen]
  rfl

theorem prepareIdentity_erase (identity : TeslaIdentity) :
    (teslaKeyCardPrepareIdentity crypto identity).erase =
      Tesla.teslaKeyCardPrepareIdentity crypto identity := by
  simp only [teslaKeyCardPrepareIdentity, erase_bind, erase_ite, erase_widen, load_erase,
    setPrivateKey_erase, generatePrivateKey_erase, save_erase]
  rfl

end

section
variable (app : TeslaKeyCardApp)

theorem prepareApp_erase : (prepareApp app).erase = Tesla.prepareApp app := by
  unfold prepareApp Tesla.prepareApp
  cases app.crypto with
  | none => rfl
  | some crypto =>
    simp only [erase_bind, prepareIdentity_erase]
    rfl

theorem freeNfc_erase : (freeNfc app).erase = Tesla.freeNfc app := by
  unfold freeNfc Tesla.freeNfc
  cases app.nfc with
  | none => rfl
  | some nfc =>
    simp only [erase_bind, nfcFree_erase]
    rfl

theorem updateNfc_erase : (teslaKeyCardUpdateNfc app).erase = Tesla.teslaKeyCardUpdateNfc app := by
  simp only [teslaKeyCardUpdateNfc, Tesla.teslaKeyCardUpdateNfc, erase_bind, freeNfc_erase]
  apply bind_congr
  intro app
  cases app.crypto with
  | none => rfl
  | some crypto =>
    simp only [erase_bind, erase_ite, erase_widen, nfcAlloc_erase, nfcFree_erase]
    rfl

theorem resumeNfc_erase : (teslaKeyCardResumeNfc app).erase = Tesla.teslaKeyCardResumeNfc app := by
  unfold teslaKeyCardResumeNfc Tesla.teslaKeyCardResumeNfc
  cases app.nfc with
  | none => rfl
  | some nfc =>
    simp only [erase_bind, erase_ite, erase_widen, nfcFree_erase]
    rfl

theorem rebuildIdentity_erase : (rebuildIdentity app).erase = Tesla.rebuildIdentity app := by
  simp only [rebuildIdentity, erase_bind, erase_ite, freeNfc_erase, cryptoFree_erase,
    cryptoAlloc_erase, prepareApp_erase, updateNfc_erase]
  rfl

theorem resetIdentity_erase :
    (teslaKeyCardResetIdentity app).erase = Tesla.teslaKeyCardResetIdentity app := by
  simp only [teslaKeyCardResetIdentity, erase_bind, erase_ite, erase_widen, delete_erase,
    resumeNfc_erase, rebuildIdentity_erase]
  rfl

theorem customEvent_erase (event : UInt32) :
    (teslaKeyCardCustomEventCallback app event).erase =
      Tesla.teslaKeyCardCustomEventCallback app event := by
  simp only [teslaKeyCardCustomEventCallback, erase_bind, erase_ite, erase_widen, resumeNfc_erase,
    resetIdentity_erase]
  rfl

theorem start_erase : teslaKeyCardStart.erase = Tesla.teslaKeyCardStart := by
  simp only [teslaKeyCardStart, erase_bind, erase_ite, cryptoAlloc_erase, prepareApp_erase,
    updateNfc_erase]
  rfl

theorem appFree_erase : (teslaKeyCardAppFree app).erase = Tesla.teslaKeyCardAppFree app := by
  simp only [teslaKeyCardAppFree, Tesla.teslaKeyCardAppFree, erase_bind, freeNfc_erase,
    cryptoFree_erase, Tesla.freeNfc]
  cases app.nfc with
  | none => exact bind_done (Tesla.teslaCryptoFree app.crypto)
  | some nfc =>
    rw [bind_assoc]
    apply bind_congr
    intro _
    exact bind_done (Tesla.teslaCryptoFree app.crypto)

end
end FlipperApps.Tesla.Memory
