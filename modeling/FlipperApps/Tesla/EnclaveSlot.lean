import FlipperApps.Calls.Monitor
import FlipperApps.Calls.Transition
import FlipperApps.Tesla.Identity

/-!
# The enclave slot while identities are loaded and saved

Four functions load the device key into the one slot of the enclave. A monitor
follows the slot through the calls: whatever they reply, a key is loaded only
into the free slot, used only while it is loaded, and unloaded once. A second
monitor adds the initialization vector that each use is meant for.
-/

namespace FlipperApps.Tesla
open Calls

/-- The vector of the last successful load that no unload has followed. -/
def enclaveSlot (slot : Option (Bytes 16)) : HalEvent → Option (Bytes 16)
  | ⟨.enclaveLoadKey iv, loaded⟩ => if loaded then some iv else slot
  | ⟨.enclaveUnloadKey, _⟩ => none
  | _ => slot

def SlotRule (slot : Option (Bytes 16)) : HalCall → Prop
  | .enclaveLoadKey _ => slot = none
  | .enclaveUnloadKey => slot ≠ none
  | .furiHalCryptoEncrypt _ => slot ≠ none
  | .furiHalCryptoDecrypt _ => slot ≠ none
  | _ => True

def slotMonitor : Monitor HalInterface (Option (Bytes 16)) := ⟨enclaveSlot, SlotRule⟩

inductive IdentityCall
  | load (identity : TeslaIdentity)
  | save (identity : TeslaIdentity)

/-- What the monitor of one call remembers: the last random bytes, the output of
the first encryption and the bytes last read. -/
structure RecordView where
  slot : Option (Bytes 16)
  drawn : List UInt8
  sealedKey : Option (List UInt8)
  read : List UInt8

def RecordView.start : RecordView := ⟨none, [], none, []⟩

def RecordView.observe (m : RecordView) (e : HalEvent) : RecordView where
  slot := enclaveSlot m.slot e
  drawn := match e with
    | ⟨.furiHalRandomFillBuf _, bytes⟩ => bytes.toList
    | _ => m.drawn
  sealedKey := m.sealedKey.or <| match e with
    | ⟨.furiHalCryptoEncrypt _, r⟩ => some r.2.toList
    | _ => none
  read := match e with
    | ⟨.storageFileRead _, bytes⟩ => bytes
    | _ => m.read

/-- The private key is encrypted first, under the vector drawn for the record;
what a load or a save encrypts after that derives the MAC key, under zero. -/
def EncryptRule (call : IdentityCall) (m : RecordView) (input : Bytes 32) : Prop :=
  match call, m.sealedKey with
  | .save identity, none =>
    input = identity.privateKey ∧ m.slot.map Bytes.toList = some m.drawn
  | _, _ => input = teslaIdentityMacDerivation ∧ m.slot = some (Bytes.zero 16)

/-- A load decrypts the key of the record it read, under the vector beside it. -/
def DecryptRule (m : RecordView) (input : Bytes 32) : Prop :=
  m.slot.map Bytes.toList = some ((m.read.drop 16).take 16) ∧
    input.toList = (m.read.drop 32).take 32

def RecordRule (call : IdentityCall) (m : RecordView) : HalCall → Prop
  | .furiHalCryptoEncrypt input => EncryptRule call m input
  | .furiHalCryptoDecrypt input => match call with
    | .load _ => DecryptRule m input
    | .save _ => False
  -- The record put down names the vector its key was encrypted under.
  | .storageFileWrite data => match call with
    | .load _ => False
    | .save _ => (data.drop 16).take 16 = m.drawn ∧ m.sealedKey = some ((data.drop 32).take 32)
  | _ => True

def recordMonitor (call : IdentityCall) : Monitor HalInterface RecordView where
  observe := RecordView.observe
  allows m c := SlotRule m.slot c ∧ RecordRule call m c

def IdentityStep {σ : Type} (E : Environment HalInterface σ) (s : σ) :
    IdentityCall × List HalEvent → σ → Prop
  | (.load identity, t), s' => ∃ r, Executes E (teslaIdentityLoad identity) s t r s'
  | (.save identity, t), s' => ∃ r, Executes E (teslaIdentitySave identity) s t r s'

theorem recordMonitor_weakens (call : IdentityCall) :
    Monitor.Weakens RecordView.slot (recordMonitor call) slotMonitor :=
  ⟨fun _ _ => rfl, fun _ _ h => h.1⟩

def Neutral : HalCall → Prop
  | .furiHalRandomFillBuf _ => False
  | .storageFileRead _ => False
  | .storageFileWrite _ => False
  | .enclaveLoadKey _ => False
  | .enclaveUnloadKey => False
  | .furiHalCryptoEncrypt _ => False
  | .furiHalCryptoDecrypt _ => False
  | _ => True

section
variable {call : IdentityCall} {m : RecordView} {c : HalCall} {α : Type}
  {next : c.Reply → HalProgram α} {Q : α → RecordView → Prop}

theorem observe_neutral (hc : Neutral c) (r : c.Reply) : m.observe ⟨c, r⟩ = m := by
  cases c <;> first | exact hc.elim | simp [RecordView.observe, enclaveSlot]

theorem rules_neutral (hc : Neutral c) : SlotRule m.slot c ∧ RecordRule call m c := by
  cases c <;> first | exact hc.elim | exact ⟨trivial, trivial⟩

theorem accepts_neutral (hc : Neutral c)
    (hnext : ∀ r, (recordMonitor call).Accepts (next r) m Q) :
    (recordMonitor call).Accepts (.call (I := HalInterface) c next) m Q := by
  refine ⟨rules_neutral hc, fun r => ?_⟩
  rw [show (recordMonitor call).observe m ⟨c, r⟩ = m from observe_neutral hc r]
  exact hnext r

theorem accepts_of_uses {p : HalProgram α} (hp : p.Uses Neutral) :
    (recordMonitor call).Accepts p m fun _ m' => m' = m := by
  induction p with
  | done a => rfl
  | call c next ih => exact accepts_neutral hp.1 fun r => ih r (hp.2 r)

theorem accepts_random {size : ℕ} {next : Bytes size → HalProgram α}
    (hnext : ∀ bytes, (recordMonitor call).Accepts (next bytes)
      { m with drawn := bytes.toList } Q) :
    (recordMonitor call).Accepts
      (.call (I := HalInterface) (.furiHalRandomFillBuf size) next) m Q := by
  refine ⟨⟨trivial, trivial⟩, fun bytes => ?_⟩
  simpa [recordMonitor, RecordView.observe, enclaveSlot] using hnext bytes

theorem accepts_read {size : ℕ} {next : List UInt8 → HalProgram α}
    (hnext : ∀ bytes, (recordMonitor call).Accepts (next bytes) { m with read := bytes } Q) :
    (recordMonitor call).Accepts (.call (I := HalInterface) (.storageFileRead size) next) m Q := by
  refine ⟨⟨trivial, trivial⟩, fun bytes => ?_⟩
  simpa [recordMonitor, RecordView.observe, enclaveSlot] using hnext bytes

theorem accepts_loadKey {iv : Bytes 16} {next : Bool → HalProgram α} (hslot : m.slot = none)
    (hrefused : (recordMonitor call).Accepts (next false) m Q)
    (hloaded : (recordMonitor call).Accepts (next true) { m with slot := some iv } Q) :
    (recordMonitor call).Accepts (.call (I := HalInterface) (.enclaveLoadKey iv) next) m Q := by
  refine ⟨⟨hslot, trivial⟩, fun loaded => ?_⟩
  cases loaded with
  | false => simpa [recordMonitor, RecordView.observe, enclaveSlot] using hrefused
  | true => simpa [recordMonitor, RecordView.observe, enclaveSlot] using hloaded

theorem accepts_unloadKey {iv : Bytes 16} {next : Bool → HalProgram α} (hslot : m.slot = some iv)
    (hnext : ∀ unloaded, (recordMonitor call).Accepts (next unloaded) { m with slot := none } Q) :
    (recordMonitor call).Accepts (.call (I := HalInterface) .enclaveUnloadKey next) m Q := by
  refine ⟨⟨by simp [hslot, SlotRule], trivial⟩, fun unloaded => ?_⟩
  simpa [recordMonitor, RecordView.observe, enclaveSlot] using hnext unloaded

theorem accepts_encrypt {iv : Bytes 16} {input : Bytes 32}
    {next : Bool × Bytes 32 → HalProgram α} (hslot : m.slot = some iv)
    (hrule : EncryptRule call m input)
    (hnext : ∀ r, (recordMonitor call).Accepts (next r)
      { m with sealedKey := m.sealedKey.or (some r.2.toList) } Q) :
    (recordMonitor call).Accepts
      (.call (I := HalInterface) (.furiHalCryptoEncrypt input) next) m Q := by
  refine ⟨⟨by simp [hslot, SlotRule], hrule⟩, fun r => ?_⟩
  simpa [recordMonitor, RecordView.observe, enclaveSlot] using hnext r

end

section
variable {call : IdentityCall} {m : RecordView}

def MacPhase (call : IdentityCall) (m : RecordView) : Prop :=
  ∀ identity, call = .save identity → m.sealedKey ≠ none

theorem encryptRule_mac (hm : MacPhase call m) (hslot : m.slot = some (Bytes.zero 16)) :
    EncryptRule call m teslaIdentityMacDerivation := by
  unfold EncryptRule
  split
  · next h => exact absurd h (hm _ rfl)
  · exact ⟨rfl, hslot⟩

structure SlotFreed (m m' : RecordView) : Prop where
  slot : m'.slot = none
  drawn : m'.drawn = m.drawn
  sealedKey : m.sealedKey ≠ none → m'.sealedKey = m.sealedKey
  read : m'.read = m.read

theorem deriveMacKey_accepts (hslot : m.slot = none) (hmac : MacPhase call m) :
    (recordMonitor call).Accepts teslaIdentityDeriveMacKey m fun _ m' => SlotFreed m m' := by
  have hsame : SlotFreed m m := ⟨hslot, rfl, fun _ => rfl, rfl⟩
  simp only [teslaIdentityDeriveMacKey, hal_eq, Program.call_bind, Program.done_bind,
    Program.pure_eq]
  apply accepts_neutral (c := .enclaveEnsureKey) trivial
  intro ensured
  split_ifs
  · exact hsame
  apply accepts_loadKey hslot
  · exact hsame
  simp only [Bool.not_true, Bool.false_eq_true, if_false]
  have hmac' : MacPhase call { m with slot := some (Bytes.zero 16) } := hmac
  apply accepts_encrypt rfl (encryptRule_mac hmac' rfl)
  intro encryption
  apply accepts_unloadKey rfl
  intro unloaded
  have hfreed : SlotFreed m ⟨none, m.drawn, m.sealedKey.or (some encryption.2.toList), m.read⟩ :=
    ⟨rfl, rfl, fun h => by cases hs : m.sealedKey <;> simp_all, rfl⟩
  dsimp only
  split_ifs
  · exact hfreed
  · exact hfreed

theorem calculateMac_accepts (fields : RecordFields) (hslot : m.slot = none)
    (hmac : MacPhase call m) :
    (recordMonitor call).Accepts (teslaIdentityCalculateMac fields) m
      fun _ m' => SlotFreed m m' := by
  simp only [teslaIdentityCalculateMac, hal_eq, Program.call_bind, Program.done_bind,
    Program.pure_eq]
  apply accepts_neutral (c := .mdInfoFromType) trivial
  intro mdInfo
  split_ifs
  · exact ⟨hslot, rfl, fun _ => rfl, rfl⟩
  apply (deriveMacKey_accepts hslot hmac).bind
  intro derived m' hfreed
  split_ifs
  · exact hfreed
  apply accepts_neutral (c := .mdHmac _ _) trivial
  intro hmacReply
  split_ifs
  · exact hfreed
  · exact hfreed

/-! The load. -/

theorem readPacked_accepts (path : IdentityPath) (n : ℕ) (hslot : m.slot = none) :
    (recordMonitor call).Accepts (readPacked path n) m fun r m' =>
      m'.slot = none ∧ (r.1 = .ok → m'.read = r.2.toList) := by
  simp only [readPacked, hal_eq, Program.call_bind, Program.done_bind, Program.pure_eq]
  apply accepts_neutral (c := .storageCommonStat _) trivial
  intro stat
  split_ifs
  · exact ⟨hslot, by simp⟩
  · exact ⟨hslot, by simp⟩
  · exact ⟨hslot, by simp⟩
  apply accepts_neutral (c := .storageFileOpen _ _) trivial
  intro opened
  split_ifs
  · exact ⟨hslot, by simp⟩
  apply accepts_read
  intro bytes
  apply accepts_neutral (c := .storageFileClose) trivial
  intro closed
  split_ifs
  · exact ⟨hslot, fun _ => rfl⟩
  · exact ⟨hslot, by simp⟩

def ReadFields (m : RecordView) (fields : RecordFields) : Prop :=
  fields.iv.toList = (m.read.drop 16).take 16 ∧
    fields.encryptedPrivateKey.toList = (m.read.drop 32).take 32

theorem readFields_unpack {n : ℕ} {b : Bytes n} (h : 64 ≤ n) (hm : m.read = b.toList) :
    ReadFields m (RecordFields.unpack (b.slice 0 64)) := by
  simp [ReadFields, RecordFields.unpack, hm, List.drop_take, List.take_take]

theorem decodeFields_accepts {identity : TeslaIdentity} {fields : RecordFields}
    (found : TeslaIdentity) (hslot : m.slot = none) (hread : ReadFields m fields) :
    (recordMonitor (.load identity)).Accepts (decodeFields fields found) m
      fun _ m' => m'.slot = none := by
  have hdecrypt : (recordMonitor (.load identity)).Accepts
      (teslaIdentityDecryptPrivateKey fields.iv fields.encryptedPrivateKey found) m
      fun _ m' => m'.slot = none := by
    simp only [teslaIdentityDecryptPrivateKey, hal_eq, Program.call_bind, Program.done_bind,
      Program.pure_eq]
    apply accepts_neutral (c := .enclaveEnsureKey) trivial
    intro ensured
    cases ensured with
    | false => exact hslot
    | true =>
      apply accepts_loadKey hslot
      · exact hslot
      simp only [Bool.not_true, Bool.false_eq_true, if_false]
      refine ⟨⟨by simp [SlotRule], ?_⟩, fun decryption => ?_⟩
      · exact ⟨congrArg some hread.1, hread.2⟩
      apply accepts_unloadKey rfl
      intro unloaded
      dsimp only
      split_ifs
      · rfl
      · rfl
  apply hdecrypt.bind
  intro r m' hslot'
  dsimp only
  split_ifs
  · exact hslot'
  · exact hslot'

theorem decodeRecord_accepts {identity : TeslaIdentity} {record : TeslaIdentityRecord}
    (found : TeslaIdentity) (hslot : m.slot = none) (hread : ReadFields m record.fields) :
    (recordMonitor (.load identity)).Accepts (teslaIdentityDecodeRecord record found) m
      fun _ m' => m'.slot = none := by
  unfold teslaIdentityDecodeRecord
  split_ifs
  · exact hslot
  apply (calculateMac_accepts record.fields hslot (by simp [MacPhase])).bind
  intro mac m' hfreed
  dsimp only
  split_ifs
  · exact hfreed.slot
  · exact hfreed.slot
  · exact decodeFields_accepts found hfreed.slot (by rwa [ReadFields, hfreed.read])

theorem decodeLegacyRecord_accepts {identity : TeslaIdentity}
    {record : TeslaIdentityLegacyRecord} (found : TeslaIdentity) (hslot : m.slot = none)
    (hread : ReadFields m record.fields) :
    (recordMonitor (.load identity)).Accepts (teslaIdentityDecodeLegacyRecord record found) m
      fun _ m' => m'.slot = none := by
  unfold teslaIdentityDecodeLegacyRecord
  split_ifs
  · exact hslot
  apply accepts_neutral (c := .crc32CalcBuffer _) trivial
  intro checksum
  dsimp only [Program.bind]
  split_ifs
  · exact hslot
  · exact decodeFields_accepts found hslot hread

theorem readRecord_accepts (path : IdentityPath) (hslot : m.slot = none) :
    (recordMonitor call).Accepts (teslaIdentityReadRecord path) m fun r m' =>
      m'.slot = none ∧ (r.1 = .ok → ReadFields m' r.2.fields) := by
  apply (readPacked_accepts path 96 hslot).bind
  intro r m' h
  exact ⟨h.1, fun hok => readFields_unpack (by omega) (h.2 hok)⟩

theorem readLegacyRecord_accepts (path : IdentityPath) (hslot : m.slot = none) :
    (recordMonitor call).Accepts (teslaIdentityReadLegacyRecord path) m fun r m' =>
      m'.slot = none ∧ (r.1 = .ok → ReadFields m' r.2.fields) := by
  apply (readPacked_accepts path 68 hslot).bind
  intro r m' h
  exact ⟨h.1, fun hok => readFields_unpack (by omega) (h.2 hok)⟩

theorem loadPath_accepts {identity : TeslaIdentity} (path : IdentityPath)
    (found : TeslaIdentity) (hslot : m.slot = none) :
    (recordMonitor (.load identity)).Accepts (teslaIdentityLoadPath path found) m
      fun _ m' => m'.slot = none := by
  apply (readRecord_accepts path hslot).bind
  intro read m₁ h₁
  dsimp only
  split_ifs with hok
  · exact (decodeRecord_accepts found h₁.1 (h₁.2 hok)).bind fun _ _ h => h
  · exact h₁.1
  apply (readLegacyRecord_accepts path h₁.1).bind
  intro readLegacy m₂ h₂
  split_ifs with hlegacy
  · exact (decodeLegacyRecord_accepts found h₂.1 (h₂.2 hlegacy)).bind fun _ _ h => h
  · exact h₂.1

theorem recover_accepts {identity : TeslaIdentity} (result : TeslaIdentityLoadResult)
    (found : TeslaIdentity) (legacyRecord : Bool) (hslot : m.slot = none) :
    (recordMonitor (.load identity)).Accepts (teslaIdentityRecover result found legacyRecord) m
      fun _ m' => m'.slot = none := by
  apply (loadPath_accepts .tmp found hslot).bind
  intro temporary m' h
  dsimp only
  split_ifs
  · apply accepts_neutral (c := .storageCommonRename _ _) trivial
    intro error
    dsimp only [Program.bind]
    split_ifs
    · exact accepts_neutral (c := .furiLog _ _) trivial fun _ => h
    · exact h
  · exact h
  · exact h

theorem load_accepts (identity : TeslaIdentity) (hslot : m.slot = none) :
    (recordMonitor (.load identity)).Accepts (teslaIdentityLoad identity) m
      fun _ m' => m'.slot = none := by
  have hwarn (r : TeslaIdentityLoadResult × TeslaIdentity × Bool) (m : RecordView)
      (hslot : m.slot = none) : (recordMonitor (.load identity)).Accepts
        (teslaIdentityWarnLegacy r.1 r.2.2 >>= fun _ => pure (r.1, r.2.1)) m
        fun _ m' => m'.slot = none := by
    refine Monitor.Accepts.bind (Q := fun _ m' => m' = m) ?_ fun _ m' h => h ▸ hslot
    unfold teslaIdentityWarnLegacy
    split_ifs
    · exact accepts_neutral (c := .furiLog _ _) trivial fun _ => rfl
    · rfl
  apply (loadPath_accepts .bin _ hslot).bind
  intro first m₁ h₁
  dsimp only
  split_ifs
  · exact (recover_accepts _ _ _ h₁).bind hwarn
  · exact hwarn first m₁ h₁

/-! The save. -/

theorem encrypt_accepts {identity : TeslaIdentity} {iv : Bytes 16} (hslot : m.slot = none)
    (hsealed : m.sealedKey = none) (hdrawn : m.drawn = iv.toList) :
    (recordMonitor (.save identity)).Accepts (teslaIdentityEncrypt iv identity.privateKey) m
      fun r m' => m'.slot = none ∧ m'.drawn = iv.toList ∧
        ∀ key, r = some key → m'.sealedKey = some key.toList := by
  simp only [teslaIdentityEncrypt, hal_eq, Program.call_bind, Program.done_bind,
    Program.pure_eq]
  apply accepts_neutral (c := .enclaveEnsureKey) trivial
  intro ensured
  split_ifs
  · exact accepts_neutral (c := .furiLog _ _) trivial fun _ => ⟨hslot, hdrawn, by simp⟩
  apply accepts_loadKey hslot
  · exact accepts_neutral (c := .furiLog _ _) trivial fun _ => ⟨hslot, hdrawn, by simp⟩
  simp only [Bool.not_true, Bool.false_eq_true, if_false]
  apply accepts_encrypt rfl
  · simp [EncryptRule, hsealed, hdrawn]
  intro encryption
  dsimp only
  split_ifs
  · apply accepts_neutral (c := .furiLog _ _) trivial
    intro _
    exact accepts_unloadKey rfl fun _ => ⟨rfl, hdrawn, by simp⟩
  apply accepts_unloadKey rfl
  intro unloaded
  split_ifs
  · exact accepts_neutral (c := .furiLog _ _) trivial fun _ => ⟨rfl, hdrawn, by simp⟩
  · refine ⟨rfl, hdrawn, fun key hkey => ?_⟩
    obtain rfl := Option.some.inj hkey
    simp [hsealed]

theorem writeRule_pack {identity : TeslaIdentity} {record : TeslaIdentityRecord}
    (hdrawn : m.drawn = record.fields.iv.toList)
    (hsealed : m.sealedKey = some record.fields.encryptedPrivateKey.toList) :
    RecordRule (.save identity) m (.storageFileWrite record.pack.toList) := by
  refine ⟨?_, hsealed.trans (congrArg some ?_)⟩
  · rw [hdrawn]
    simp [TeslaIdentityRecord.pack, RecordFields.pack, List.drop_append, List.drop_of_length_le]
  · simp [TeslaIdentityRecord.pack, RecordFields.pack, List.drop_append, List.drop_of_length_le]

theorem writeStaged_accepts {identity : TeslaIdentity} {record : TeslaIdentityRecord}
    (hdrawn : m.drawn = record.fields.iv.toList)
    (hsealed : m.sealedKey = some record.fields.encryptedPrivateKey.toList) :
    (recordMonitor (.save identity)).Accepts (writeStaged record) m fun _ m' => m' = m := by
  have hclose (synced : Bool) : Program.Uses Neutral (do
      let _ ← hal .storageFileClose
      if synced then
        let error ← hal (.storageCommonRename .tmp .bin)
        return error == .ok
      else return false) := by
    refine ⟨trivial, fun _ => ?_⟩
    cases synced with
    | true => exact ⟨trivial, fun _ => trivial⟩
    | false => trivial
  refine ⟨⟨trivial, writeRule_pack hdrawn hsealed⟩, fun bytesWritten => ?_⟩
  have hsame : (recordMonitor (.save identity)).observe m
      ⟨.storageFileWrite record.pack.toList, bytesWritten⟩ = m := by
    simp [recordMonitor, RecordView.observe, enclaveSlot]
  rw [hsame]
  dsimp only [Program.bind]
  split_ifs
  · exact accepts_neutral (c := .storageFileSync) trivial fun synced =>
      accepts_of_uses (hclose synced)
  · exact accepts_of_uses (hclose false)

theorem store_accepts {identity : TeslaIdentity} {record : TeslaIdentityRecord}
    (hdrawn : m.drawn = record.fields.iv.toList)
    (hsealed : m.sealedKey = some record.fields.encryptedPrivateKey.toList) :
    (recordMonitor (.save identity)).Accepts (teslaIdentityStore record) m
      fun _ m' => m' = m := by
  have hfinish (success : Bool) : Program.Uses Neutral (
      if success then return true
      else do
        let _ ← hal (.storageCommonRemove .tmp)
        return false) := by
    cases success with
    | true => trivial
    | false => exact ⟨trivial, fun _ => trivial⟩
  apply accepts_neutral (c := .storageCommonRemove _) trivial
  intro _
  apply accepts_neutral (c := .storageFileOpen _ _) trivial
  intro opened
  cases opened with
  | false => exact accepts_of_uses (hfinish false)
  | true =>
    apply (writeStaged_accepts hdrawn hsealed).bind
    intro success m' h
    subst h
    exact accepts_of_uses (hfinish success)

theorem save_accepts (identity : TeslaIdentity) (hslot : m.slot = none)
    (hsealed : m.sealedKey = none) :
    (recordMonitor (.save identity)).Accepts (teslaIdentitySave identity) m
      fun _ m' => m'.slot = none := by
  simp only [teslaIdentitySave, hal_eq, Program.call_bind, Program.done_bind, Program.pure_eq]
  apply accepts_random
  intro iv
  apply (encrypt_accepts (m := { m with drawn := iv.toList }) hslot hsealed rfl).bind
  intro encrypted m₁ h₁
  cases encrypted with
  | none => exact h₁.1
  | some key =>
    have hmac : MacPhase (.save identity) m₁ := fun _ _ => by simp [h₁.2.2 key rfl]
    apply (calculateMac_accepts _ h₁.1 hmac).bind
    intro mac m₂ hfreed
    split_ifs
    · exact accepts_neutral (c := .furiLog _ _) trivial fun _ => hfreed.slot
    · have hsealed₂ : m₂.sealedKey = some key.toList :=
        (hfreed.sealedKey (by simp [h₁.2.2 key rfl])).trans (h₁.2.2 key rfl)
      apply (store_accepts (hfreed.drawn.trans h₁.2.1) hsealed₂).mono
      intro _ m₃ h₃
      exact h₃ ▸ hfreed.slot

end

section
variable {σ : Type} {E : Environment HalInterface σ} {s s' : σ}

theorem IdentityStep.obeys {call : IdentityCall} {t : List HalEvent}
    (h : IdentityStep E s (call, t) s') :
    (recordMonitor call).Obeyed .start t ∧ slotMonitor.after none t = none := by
  have hslot : (RecordView.start).slot = none := rfl
  have hbridge := (recordMonitor_weakens call).after (m := .start) (t := t)
  cases call with
  | load identity =>
    obtain ⟨r, hx⟩ := h
    have hend := (load_accepts identity hslot).executes hx
    exact ⟨hend.1, hbridge.symm.trans hend.2⟩
  | save identity =>
    obtain ⟨r, hx⟩ := h
    have hend := (save_accepts identity hslot rfl).executes hx
    exact ⟨hend.1, hbridge.symm.trans hend.2⟩

/-- Each successful load of the trace is closed by one unload, with no load and
no other unload in between. -/
def Bracketed (t : List HalEvent) : Prop :=
  ∀ past iv rest, t = past ++ ⟨.enclaveLoadKey iv, true⟩ :: rest →
    ∃ inside unloaded after, rest = inside ++ ⟨.enclaveUnloadKey, unloaded⟩ :: after ∧
      ∀ e ∈ inside, e.1 ≠ .enclaveUnloadKey ∧ ∀ iv', e.1 ≠ .enclaveLoadKey iv'

theorem exists_unload {iv : Bytes 16} {rest : List HalEvent}
    (hobeyed : slotMonitor.Obeyed (some iv) rest)
    (hfree : slotMonitor.after (some iv) rest = none) :
    ∃ inside unloaded after, rest = inside ++ ⟨.enclaveUnloadKey, unloaded⟩ :: after ∧
      ∀ e ∈ inside, e.1 ≠ .enclaveUnloadKey ∧ ∀ iv', e.1 ≠ .enclaveLoadKey iv' := by
  induction rest with
  | nil => cases hfree
  | cons e rest ih =>
    obtain ⟨hallowed, hrest⟩ := Monitor.obeyed_cons.mp hobeyed
    by_cases hunload : e.1 = .enclaveUnloadKey
    · obtain ⟨c, unloaded⟩ := e
      obtain rfl : c = .enclaveUnloadKey := hunload
      exact ⟨[], unloaded, rest, rfl, by simp⟩
    · have hload : ∀ iv', e.1 ≠ .enclaveLoadKey iv' := by
        intro iv' h
        rw [h] at hallowed
        cases hallowed
      -- Any other call leaves the key where it is.
      have hsame : slotMonitor.observe (some iv) e = some iv := by
        obtain ⟨c, r⟩ := e
        cases c <;> first | rfl | exact absurd rfl hunload | exact absurd rfl (hload _)
      rw [hsame] at hrest
      rw [Monitor.after_cons, hsame] at hfree
      obtain ⟨inside, unloaded, after, rfl, hinside⟩ := ih hrest hfree
      refine ⟨e :: inside, unloaded, after, rfl, fun e' he' => ?_⟩
      rcases List.mem_cons.mp he' with rfl | he'
      · exact ⟨hunload, hload⟩
      · exact hinside e' he'

theorem bracketed_of_obeyed {t : List HalEvent} (hobeyed : slotMonitor.Obeyed none t)
    (hfree : slotMonitor.after none t = none) : Bracketed t := by
  intro past iv rest h
  subst h
  rw [Monitor.obeyed_append, Monitor.obeyed_cons] at hobeyed
  rw [Monitor.after_append, Monitor.after_cons] at hfree
  exact exists_unload hobeyed.2.2 hfree

/-- Over any sequence of loads and saves, whatever the calls reply: a key is
loaded into the free slot, used while loaded and unloaded while loaded; within
each load and save the brackets close and every use is under its vector. -/
theorem enclave_slot_discipline {calls : List (IdentityCall × List HalEvent)}
    (h : Run (IdentityStep E) s calls s') :
    slotMonitor.Obeyed none (calls.flatMap Prod.snd) ∧
      slotMonitor.after none (calls.flatMap Prod.snd) = none ∧
      ∀ call t, (call, t) ∈ calls → (recordMonitor call).Obeyed .start t ∧ Bracketed t := by
  apply h.invariant (P := fun calls _ => slotMonitor.Obeyed none (calls.flatMap Prod.snd) ∧
      slotMonitor.after none (calls.flatMap Prod.snd) = none ∧
      ∀ call t, (call, t) ∈ calls → (recordMonitor call).Obeyed .start t ∧ Bracketed t)
  · exact ⟨Monitor.obeyed_nil, rfl, fun _ _ h => absurd h List.not_mem_nil⟩
  · intro calls s l s' h hstep
    obtain ⟨call, t⟩ := l
    obtain ⟨hobeyed, hfree, hcalls⟩ := h
    obtain ⟨hrecord, hend⟩ := hstep.obeys
    have hslot : slotMonitor.Obeyed none t := (recordMonitor_weakens call).obeyed hrecord
    have hflat : (calls ++ [(call, t)]).flatMap Prod.snd = calls.flatMap Prod.snd ++ t := by simp
    rw [hflat, Monitor.obeyed_append, Monitor.after_append, hfree]
    refine ⟨⟨hobeyed, hslot⟩, hend, ?_⟩
    intro call' t' hmem
    rcases List.mem_append.mp hmem with hmem | hmem
    · exact hcalls call' t' hmem
    · obtain ⟨rfl, rfl⟩ := Prod.mk.inj (List.mem_singleton.mp hmem)
      exact ⟨hrecord, bracketed_of_obeyed hslot hend⟩

end

/-- A save whose encryption fails: the slot is unloaded on the way out. -/
def refusedSave : List HalEvent :=
  [⟨.furiHalRandomFillBuf 16, Bytes.zero 16⟩, ⟨.enclaveEnsureKey, true⟩,
    ⟨.enclaveLoadKey (Bytes.zero 16), true⟩,
    ⟨.furiHalCryptoEncrypt noIdentity.privateKey, (false, Bytes.zero 32)⟩,
    ⟨.furiLog "Private-key encryption failed" [], ()⟩, ⟨.enclaveUnloadKey, true⟩]

theorem enclave_slot_discipline_refusedSave :
    slotMonitor.after none refusedSave = none ∧
      (recordMonitor (.save noIdentity)).Obeyed .start refusedSave ∧ Bracketed refusedSave := by
  let anyReply : Environment HalInterface Unit := fun s _ _ s' => s' = s
  have hx : Executes anyReply (teslaIdentitySave noIdentity) () refusedSave false () :=
    .call rfl <| .call rfl <| .call rfl <| .call rfl <| .call rfl <| .call rfl <| .done false ()
  have hrun : Run (IdentityStep anyReply) () [(.save noIdentity, refusedSave)] () :=
    .snoc (.nil ()) ⟨false, hx⟩
  have h := enclave_slot_discipline hrun
  exact ⟨h.2.1, h.2.2 _ _ (List.mem_singleton.mpr rfl)⟩

end FlipperApps.Tesla
