import FlipperApps.Tesla.MemoryErasure

/-!
# Each function gives back what it takes

Whatever the calls reply, a function of the identity or the crypto context leaves
the resources as they were, or as its result says, and its own buffers wiped.
-/

namespace FlipperApps.Tesla.Memory
open Calls Tenancy

structure Idle (s : Finset Resource) : Prop where
  founded : tenancy.Founded s
  slot : .enclaveKey ∉ s
  storage : .storage ∉ s
  file : .file ∉ s
  openFile : .openFile ∉ s
  generated : .generated ∉ s

structure Reading (s : Finset Resource) : Prop where
  founded : tenancy.Founded s
  slot : .enclaveKey ∉ s
  storage : .storage ∈ s
  file : .file ∉ s
  openFile : .openFile ∉ s

section
variable {α : Type} {s : Finset Resource} {f F : Finset Secret}
  {Q : α → Holdings Resource Secret → Prop}

theorem Idle.reading (h : Idle s) : Reading (insert .storage s) where
  founded := h.founded.take trivial
  slot := by simp [h.slot]
  storage := Finset.mem_insert_self _ s
  file := by simp [h.file]
  openFile := by simp [h.openFile]

theorem accepts_plain {c : HalCall} {next : c.Reply → MemoryProgram α} (huses : uses c = [])
    (hbars : bars c = []) (hends : ends c = none) (hgrants : ∀ r, grants c r = none)
    (hnext : ∀ r, tenancy.keeping.Accepts (next r) ⟨s, f⟩ Q) :
    tenancy.keeping.Accepts (hal c >>= next) ⟨s, f⟩ Q :=
  accepts_use hends hgrants (by simp [tenancy, huses]) (by simp [tenancy, hbars]) hnext

theorem accepts_on {c : HalCall} {next : c.Reply → MemoryProgram α} {r : Resource}
    (huses : uses c = [r]) (hbars : bars c = []) (hends : ends c = none)
    (hgrants : ∀ r, grants c r = none) (hr : r ∈ s)
    (hnext : ∀ r, tenancy.keeping.Accepts (next r) ⟨s, f⟩ Q) :
    tenancy.keeping.Accepts (hal c >>= next) ⟨s, f⟩ Q :=
  accepts_use hends hgrants (by simp [tenancy, huses, hr]) (by simp [tenancy, hbars]) hnext

theorem accepts_loadKey {iv : Bytes 16} {next : Bool → MemoryProgram α} (hslot : .enclaveKey ∉ s)
    (hfailed : tenancy.keeping.Accepts (next false) ⟨s, f⟩ Q)
    (hloaded : tenancy.keeping.Accepts (next true) ⟨insert .enclaveKey s, f⟩ Q) :
    tenancy.keeping.Accepts (hal (.enclaveLoadKey iv) >>= next) ⟨s, f⟩ Q := by
  refine accepts_grant rfl (by simp [tenancy, uses]) (by simp [tenancy, bars]) ?_ fun loaded => ?_
  · intro loaded r hr
    cases loaded with
    | false => cases hr
    | true =>
      cases hr
      exact ⟨hslot, trivial⟩
  · cases loaded with
    | false => exact hfailed
    | true => exact hloaded

theorem accepts_unloadKey {next : Bool → MemoryProgram α} (hfounded : tenancy.Founded s)
    (hslot : .enclaveKey ∉ s) (hnext : ∀ r, tenancy.keeping.Accepts (next r) ⟨s, f⟩ Q) :
    tenancy.keeping.Accepts (hal .enclaveUnloadKey >>= next) ⟨insert .enclaveKey s, f⟩ Q := by
  refine accepts_end rfl (fun _ => rfl) rfl (by simp [tenancy, bars])
    (hfounded.mayEnd hslot) fun unloaded => ?_
  rw [Finset.erase_insert hslot]
  exact hnext unloaded

theorem accepts_openFile {path : IdentityPath} {mode : OpenMode} {next : Bool → MemoryProgram α}
    (hfile : .file ∈ s) (hopen : .openFile ∉ s)
    (hfailed : tenancy.keeping.Accepts (next false) ⟨s, f⟩ Q)
    (hopened : tenancy.keeping.Accepts (next true) ⟨insert .openFile s, f⟩ Q) :
    tenancy.keeping.Accepts (hal (.storageFileOpen path mode) >>= next) ⟨s, f⟩ Q := by
  refine accepts_grant rfl (by simp [tenancy, uses, hfile]) (by simp [tenancy, bars]) ?_
    fun opened => ?_
  · intro opened r hr
    cases opened with
    | false => cases hr
    | true =>
      cases hr
      exact ⟨hopen, hfile⟩
  · cases opened with
    | false => exact hfailed
    | true => exact hopened

theorem accepts_closeFile {next : Bool → MemoryProgram α} (hfounded : tenancy.Founded s)
    (hopen : .openFile ∉ s) (hnext : ∀ r, tenancy.keeping.Accepts (next r) ⟨s, f⟩ Q) :
    tenancy.keeping.Accepts (hal .storageFileClose >>= next) ⟨insert .openFile s, f⟩ Q := by
  refine accepts_end rfl (fun _ => rfl) rfl (by simp [tenancy, bars])
    (hfounded.mayEnd hopen) fun closed => ?_
  rw [Finset.erase_insert hopen]
  exact hnext closed

theorem accepts_giveBack {next : Unit → MemoryProgram α} {r : Resource}
    (hfounded : tenancy.Founded s) (hr : r ∉ s)
    (hnext : tenancy.keeping.Accepts (next ()) ⟨s, f⟩ Q) :
    tenancy.keeping.Accepts (finish r >>= next) ⟨insert r s, f⟩ Q := by
  apply accepts_finish (hfounded.mayEnd hr)
  rw [Finset.erase_insert hr]
  exact hnext

theorem deriveMacKey_keeps (hfounded : tenancy.Founded s) (hslot : .enclaveKey ∉ s)
    (h : f ⊆ F) (hmacKey : .macKey ∈ F) :
    tenancy.keeping.Accepts teslaIdentityDeriveMacKey ⟨s, f⟩ fun _ => Stays s F := by
  refine accepts_plain rfl rfl rfl (fun _ => rfl) fun ensured => ?_
  cases ensured with
  | false => exact accepts_wipe ⟨rfl, wipe_subset h _⟩
  | true =>
    apply accepts_loadKey hslot
    · exact accepts_wipe ⟨rfl, wipe_subset h _⟩
    · have hfilled : insert .macKey f ⊆ F := Finset.insert_subset hmacKey h
      apply accepts_fill
      refine accepts_on rfl rfl rfl (fun _ => rfl) (Finset.mem_insert_self _ s) fun r => ?_
      apply accepts_unloadKey hfounded hslot
      intro unloaded
      split_ifs
      · exact ⟨rfl, hfilled⟩
      · exact accepts_wipe ⟨rfl, wipe_subset hfilled _⟩

/-- The key is wiped on every path, and a MAC that was not computed with it. -/
theorem calculateMac_keeps (mac : Secret) (record : RecordFields) (hfounded : tenancy.Founded s)
    (hslot : .enclaveKey ∉ s) (h : f ⊆ F) :
    tenancy.keeping.Accepts (teslaIdentityCalculateMac mac record) ⟨s, f⟩
      fun r => Stays s (if r.1 then insert mac F else F) := by
  have hhmac : tenancy.keeping.Accepts (hmacInto mac record) ⟨s, f⟩
      fun _ => Stays s (insert .macKey (insert mac F)) := by
    have hF : f ⊆ insert .macKey (insert mac F) := fun b hb => by simp [h hb]
    refine accepts_plain rfl rfl rfl (fun _ => rfl) fun mdInfo => ?_
    cases mdInfo with
    | false => exact ⟨rfl, hF⟩
    | true =>
      refine Stays.bind (deriveMacKey_keeps hfounded hslot hF (Finset.mem_insert_self _ _))
        fun r f' hf' => ?_
      obtain ⟨derived, macKey⟩ := r
      cases derived with
      | false => exact ⟨rfl, hf'⟩
      | true =>
        have hfilled : insert mac f' ⊆ insert .macKey (insert mac F) :=
          Finset.insert_subset (by simp) hf'
        apply accepts_fill
        refine accepts_plain rfl rfl rfl (fun _ => rfl) fun r => ?_
        obtain ⟨error, value⟩ := r
        dsimp only
        split_ifs
        · exact ⟨rfl, hfilled⟩
        · exact ⟨rfl, hfilled⟩
  refine Stays.bind hhmac fun r f' hf' => ?_
  obtain ⟨success, value⟩ := r
  have hwiped : f'.erase .macKey ⊆ insert mac F := Finset.subset_insert_iff.mp hf'
  apply accepts_wipe
  cases success with
  | true => exact ⟨rfl, hwiped⟩
  | false => exact accepts_wipe ⟨rfl, Finset.subset_insert_iff.mp hwiped⟩

theorem readPacked_keeps (path : IdentityPath) (buffer : Secret) (n : ℕ) (hs : Reading s)
    (h : f ⊆ F) (hbuffer : buffer ∈ F) :
    tenancy.keeping.Accepts (readPacked path buffer n) ⟨s, f⟩ fun _ => Stays s F := by
  refine accepts_on rfl rfl rfl (fun _ => rfl) hs.storage fun r => ?_
  obtain ⟨statError, size⟩ := r
  dsimp only
  split
  · exact ⟨rfl, h⟩
  split
  · exact ⟨rfl, h⟩
  · have hfile : tenancy.Founded (insert .file s) := hs.founded.take hs.storage
    apply accepts_take ⟨hs.file, hs.storage⟩
    apply accepts_openFile (Finset.mem_insert_self _ s) (by simp [hs.openFile])
    · exact accepts_giveBack hs.founded hs.file ⟨rfl, h⟩
    · have hfilled : insert buffer f ⊆ F := Finset.insert_subset hbuffer h
      apply accepts_fill
      refine accepts_on rfl rfl rfl (fun _ => rfl) (Finset.mem_insert_self _ _) fun bytes => ?_
      apply accepts_closeFile hfile (by simp [hs.openFile])
      intro closed
      apply accepts_giveBack hs.founded hs.file
      split_ifs
      · exact ⟨rfl, hfilled⟩
      · exact ⟨rfl, hfilled⟩

theorem readRecord_keeps (path : IdentityPath) (hs : Reading s) (h : f ⊆ F)
    (hrecord : .record ∈ F) :
    tenancy.keeping.Accepts (teslaIdentityReadRecord path) ⟨s, f⟩ fun _ => Stays s F :=
  (readPacked_keeps path .record 96 hs h hrecord).bind fun _ _ hm => hm

theorem readLegacyRecord_keeps (path : IdentityPath) (hs : Reading s) (h : f ⊆ F)
    (hlegacy : .legacy ∈ F) :
    tenancy.keeping.Accepts (teslaIdentityReadLegacyRecord path) ⟨s, f⟩ fun _ => Stays s F :=
  (readPacked_keeps path .legacy 68 hs h hlegacy).bind fun _ _ hm => hm

section
variable (identity : TeslaIdentity) (hfounded : tenancy.Founded s) (hslot : .enclaveKey ∉ s)
  (h : f ⊆ F) (hkey : .key ∈ F)

include hfounded hslot h hkey

theorem decryptPrivateKey_keeps (iv : Bytes 16) (encryptedPrivateKey : Bytes 32) :
    tenancy.keeping.Accepts (teslaIdentityDecryptPrivateKey iv encryptedPrivateKey identity)
      ⟨s, f⟩ fun _ => Stays s F := by
  refine accepts_plain rfl rfl rfl (fun _ => rfl) fun ensured => ?_
  cases ensured with
  | false => exact ⟨rfl, h⟩
  | true =>
    apply accepts_loadKey hslot
    · exact ⟨rfl, h⟩
    · have hfilled : insert .key f ⊆ F := Finset.insert_subset hkey h
      apply accepts_fill
      refine accepts_on rfl rfl rfl (fun _ => rfl) (Finset.mem_insert_self _ s) fun r => ?_
      apply accepts_unloadKey hfounded hslot
      intro unloaded
      split_ifs
      · exact accepts_wipe ⟨rfl, wipe_subset hfilled _⟩
      · exact ⟨rfl, hfilled⟩

theorem decodeFields_keeps (record : RecordFields) :
    tenancy.keeping.Accepts (decodeFields record identity) ⟨s, f⟩ fun _ => Stays s F := by
  apply (decryptPrivateKey_keeps identity hfounded hslot h hkey _ _).bind
  intro r m hm
  dsimp only
  split_ifs
  · exact hm
  · exact hm

theorem decodeRecord_keeps (record : TeslaIdentityRecord) :
    tenancy.keeping.Accepts (teslaIdentityDecodeRecord record identity) ⟨s, f⟩
      fun _ => Stays s F := by
  unfold teslaIdentityDecodeRecord
  split_ifs
  · exact ⟨rfl, h⟩
  · refine Stays.bind (calculateMac_keeps .calculatedMac _ hfounded hslot h) fun r f' hf' => ?_
    obtain ⟨calculated, mac⟩ := r
    cases calculated with
    | false => exact ⟨rfl, hf'⟩
    | true =>
      have hwiped : f'.erase .calculatedMac ⊆ F := Finset.subset_insert_iff.mp hf'
      simp only [Bool.not_true, Bool.false_eq_true, if_false]
      split_ifs
      · exact accepts_wipe ⟨rfl, hwiped⟩
      · exact accepts_wipe (decodeFields_keeps identity hfounded hslot hwiped hkey _)

theorem decodeLegacyRecord_keeps (record : TeslaIdentityLegacyRecord) :
    tenancy.keeping.Accepts (teslaIdentityDecodeLegacyRecord record identity) ⟨s, f⟩
      fun _ => Stays s F := by
  unfold teslaIdentityDecodeLegacyRecord
  split_ifs
  · exact ⟨rfl, h⟩
  · refine accepts_plain rfl rfl rfl (fun _ => rfl) fun checksum => ?_
    split_ifs
    · exact ⟨rfl, h⟩
    · exact decodeFields_keeps identity hfounded hslot h hkey _

end

theorem loadPath_keeps (path : IdentityPath) (identity : TeslaIdentity) (hs : Reading s)
    (h : f ⊆ F) (hkey : .key ∈ F) :
    tenancy.keeping.Accepts (teslaIdentityLoadPath path identity) ⟨s, f⟩ fun _ => Stays s F := by
  have hkeyin (b : Secret) : .key ∈ insert b F := Finset.mem_insert_of_mem hkey
  have hF : f ⊆ insert .record F := h.trans (Finset.subset_insert _ F)
  refine Stays.bind (readRecord_keeps path hs hF (Finset.mem_insert_self _ F)) fun r f' hf' => ?_
  dsimp only
  split
  · refine Stays.bind (decodeRecord_keeps identity hs.founded hs.slot hf' (hkeyin _) _)
      fun r f'' hf'' => ?_
    exact accepts_wipe ⟨rfl, Finset.subset_insert_iff.mp hf''⟩
  · have hwiped : f'.erase .record ⊆ F := Finset.subset_insert_iff.mp hf'
    apply accepts_wipe
    split
    · exact ⟨rfl, hwiped⟩
    · have hF : f'.erase .record ⊆ insert .legacy F := hwiped.trans (Finset.subset_insert _ F)
      refine Stays.bind (readLegacyRecord_keeps path hs hF (Finset.mem_insert_self _ F))
        fun r f'' hf'' => ?_
      split
      · refine Stays.bind (decodeLegacyRecord_keeps identity hs.founded hs.slot hf'' (hkeyin _) _)
          fun r g hg => ?_
        exact accepts_wipe ⟨rfl, Finset.subset_insert_iff.mp hg⟩
      · exact accepts_wipe ⟨rfl, Finset.subset_insert_iff.mp hf''⟩

theorem recover_keeps (result : TeslaIdentityLoadResult) (identity : TeslaIdentity)
    (legacyRecord : Bool) (hs : Reading s) (h : f ⊆ F) (hkey : .key ∈ F) :
    tenancy.keeping.Accepts (teslaIdentityRecover result identity legacyRecord) ⟨s, f⟩
      fun _ => Stays s F := by
  refine Stays.bind (loadPath_keeps .tmp identity hs h hkey) fun r f' hf' => ?_
  dsimp only
  split
  · refine accepts_on rfl rfl rfl (fun _ => rfl) hs.storage fun error => ?_
    split
    · exact accepts_plain rfl rfl rfl (fun _ => rfl) fun _ => ⟨rfl, hf'⟩
    · exact ⟨rfl, hf'⟩
  split
  · exact ⟨rfl, hf'⟩
  · exact ⟨rfl, hf'⟩

theorem warnLegacy_passive (result : TeslaIdentityLoadResult) (legacyRecord : Bool) :
    (teslaIdentityWarnLegacy result legacyRecord).Uses (tenancy.Passive s) := by
  unfold teslaIdentityWarnLegacy
  split_ifs
  · exact ⟨⟨by simp [tenancy, uses], rfl, rfl, fun _ => rfl⟩, fun _ => trivial⟩
  · trivial

theorem load_keeps (identity : TeslaIdentity) (hs : Idle s) (h : f ⊆ F) (hkey : .key ∈ F) :
    tenancy.keeping.Accepts (teslaIdentityLoad identity) ⟨s, f⟩ fun _ => Stays s F := by
  have hend (r : TeslaIdentityLoadResult × TeslaIdentity × Bool) (f' : Finset Secret)
      (hf' : f' ⊆ F) : tenancy.keeping.Accepts (do
        finish .storage
        (teslaIdentityWarnLegacy r.1 r.2.2).widen
        pure (r.1, r.2.1)) ⟨insert .storage s, f'⟩ fun _ => Stays s F := by
    apply accepts_giveBack hs.founded hs.storage
    apply (accepts_widen (warnLegacy_passive _ _) (Program.returns_true _)).bind
    intro _ m hm
    obtain ⟨-, rfl⟩ := hm
    exact ⟨rfl, hf'⟩
  apply accepts_wipe
  apply accepts_take ⟨hs.storage, trivial⟩
  refine Stays.bind (loadPath_keeps .bin _ hs.reading (wipe_subset h _) hkey) fun r f' hf' => ?_
  dsimp only
  split
  · refine Stays.bind (recover_keeps _ _ _ hs.reading hf' hkey) fun r f' hf' => ?_
    exact hend r f' hf'
  · exact hend r f' hf'

theorem encrypt_keeps (iv : Bytes 16) (privateKey : Bytes 32) (hfounded : tenancy.Founded s)
    (hslot : .enclaveKey ∉ s) (h : f ⊆ F) (hrecord : .newRecord ∈ F) :
    tenancy.keeping.Accepts (teslaIdentityEncrypt iv privateKey) ⟨s, f⟩ fun _ => Stays s F := by
  have hlog (format : String) (f' : Finset Secret) (hf' : f' ⊆ F) : tenancy.keeping.Accepts (do
      let _ ← hal (.furiLog format [])
      return none) ⟨s, f'⟩ fun (_ : Option (Bytes 32)) => Stays s F :=
    accepts_plain rfl rfl rfl (fun _ => rfl) fun _ => ⟨rfl, hf'⟩
  refine accepts_plain rfl rfl rfl (fun _ => rfl) fun ensured => ?_
  cases ensured with
  | false => exact hlog _ f h
  | true =>
    apply accepts_loadKey hslot
    · exact hlog _ f h
    · have hfilled : insert .newRecord f ⊆ F := Finset.insert_subset hrecord h
      apply accepts_fill
      refine accepts_on rfl rfl rfl (fun _ => rfl) (Finset.mem_insert_self _ s) fun r => ?_
      obtain ⟨encrypted, encryptedPrivateKey⟩ := r
      cases encrypted with
      | false =>
        refine accepts_plain rfl rfl rfl (fun _ => rfl) fun _ => ?_
        exact accepts_unloadKey hfounded hslot fun _ => ⟨rfl, hfilled⟩
      | true =>
        apply accepts_unloadKey hfounded hslot
        intro unloaded
        cases unloaded with
        | false => exact hlog _ _ hfilled
        | true => exact ⟨rfl, hfilled⟩

theorem writeStaged_keeps (record : TeslaIdentityRecord) (hs : Reading s)
    (hfounded : tenancy.Founded (insert .file s)) :
    tenancy.keeping.Accepts (writeStaged record) ⟨insert .openFile (insert .file s), f⟩
      fun _ m => m = ⟨insert .file s, f⟩ := by
  have hopen : .openFile ∉ insert .file s := by simp [hs.openFile]
  have hclose (synced : Bool) : tenancy.keeping.Accepts (do
      let _ ← hal .storageFileClose
      if synced then
        let error ← hal (.storageCommonRename .tmp .bin)
        return error == .ok
      else return false) ⟨insert .openFile (insert .file s), f⟩
      fun _ m => m = ⟨insert .file s, f⟩ := by
    apply accepts_closeFile hfounded hopen
    intro _
    cases synced with
    | false => rfl
    | true =>
      refine accepts_on rfl rfl rfl (fun _ => rfl) (Finset.mem_insert_of_mem hs.storage)
        fun _ => rfl
  refine accepts_on rfl rfl rfl (fun _ => rfl) (Finset.mem_insert_self _ _) fun bytesWritten => ?_
  dsimp only
  split
  · exact accepts_on rfl rfl rfl (fun _ => rfl) (Finset.mem_insert_self _ _)
      fun synced => hclose synced
  · exact hclose false

theorem store_keeps (record : TeslaIdentityRecord) (hs : Idle s) :
    tenancy.keeping.Accepts (teslaIdentityStore record) ⟨s, f⟩ fun _ m => m = ⟨s, f⟩ := by
  have hfile : tenancy.Founded (insert .file (insert .storage s)) :=
    hs.reading.founded.take hs.reading.storage
  have hend (success : Bool) : tenancy.keeping.Accepts (do
      finish .file
      if success then
        finish .storage
        return true
      else
        let _ ← hal (.storageCommonRemove .tmp)
        finish .storage
        return false) ⟨insert .file (insert .storage s), f⟩ fun _ m => m = ⟨s, f⟩ := by
    apply accepts_giveBack hs.reading.founded hs.reading.file
    cases success with
    | true => exact accepts_giveBack hs.founded hs.storage rfl
    | false =>
      refine accepts_on rfl rfl rfl (fun _ => rfl) hs.reading.storage fun _ => ?_
      exact accepts_giveBack hs.founded hs.storage rfl
  apply accepts_take ⟨hs.storage, trivial⟩
  refine accepts_on rfl rfl rfl (fun _ => rfl) hs.reading.storage fun _ => ?_
  apply accepts_take ⟨hs.reading.file, hs.reading.storage⟩
  apply accepts_openFile (Finset.mem_insert_self _ _) (by simp [hs.openFile])
  · exact hend false
  · apply (writeStaged_keeps record hs.reading hfile).bind
    intro success m hm
    rw [hm]
    exact hend success

theorem save_keeps (identity : TeslaIdentity) (hs : Idle s) (h : f ⊆ F) :
    tenancy.keeping.Accepts (teslaIdentitySave identity) ⟨s, f⟩ fun _ => Stays s F := by
  have hrecord : .newRecord ∈ insert .newRecord (insert .newMac F) := Finset.mem_insert_self _ _
  have hF : insert .newRecord f ⊆ insert .newRecord (insert .newMac F) :=
    Finset.insert_subset hrecord fun b hb => by simp [h hb]
  have hsaved : tenancy.keeping.Accepts (saveRecord identity) ⟨s, f⟩
      fun _ => Stays s (insert .newRecord (insert .newMac F)) := by
    apply accepts_fill
    refine accepts_plain rfl rfl rfl (fun _ => rfl) fun iv => ?_
    refine Stays.bind (encrypt_keeps iv _ hs.founded hs.slot hF hrecord) fun encrypted f' hf' => ?_
    cases encrypted with
    | none => exact ⟨rfl, hf'⟩
    | some encryptedPrivateKey =>
      refine Stays.bind (calculateMac_keeps .newMac _ hs.founded hs.slot hf') fun r f'' hf'' => ?_
      obtain ⟨calculated, mac⟩ := r
      cases calculated with
      | false => exact accepts_plain rfl rfl rfl (fun _ => rfl) fun _ => ⟨rfl, hf''⟩
      | true =>
        have hstored : f'' ⊆ insert .newRecord (insert .newMac F) :=
          hf''.trans (Finset.insert_subset (by simp) (Finset.Subset.refl _))
        apply (store_keeps _ hs).mono
        intro _ m hm
        rw [hm]
        exact ⟨rfl, hstored⟩
  refine Stays.bind hsaved fun success f' hf' => ?_
  apply accepts_wipe
  apply accepts_wipe
  exact ⟨rfl, Finset.subset_insert_iff.mp (Finset.subset_insert_iff.mp hf')⟩

theorem delete_keeps (hs : Idle s) :
    tenancy.keeping.Accepts teslaIdentityDelete ⟨s, f⟩ fun _ m => m = ⟨s, f⟩ := by
  apply accepts_take ⟨hs.storage, trivial⟩
  refine accepts_on rfl rfl rfl (fun _ => rfl) hs.reading.storage fun error => ?_
  refine accepts_on rfl rfl rfl (fun _ => rfl) hs.reading.storage fun _ => ?_
  exact accepts_giveBack hs.founded hs.storage rfl

end
end FlipperApps.Tesla.Memory
