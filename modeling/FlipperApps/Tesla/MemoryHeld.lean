import FlipperApps.Tesla.MemoryKept
import FlipperApps.Tesla.ObjectProtocol

/-!
# What the app holds

Between its functions the app holds what its fields say: the views and the queue,
the crypto context with its key, the NFC object and its listener.
-/

namespace FlipperApps.Tesla.Memory
open Calls Tenancy

def appHeld : Finset Resource :=
  insert (.shown .reset) <| insert (.shown .main) <| insert .eventQueue <| insert .resetDialog <|
    insert .mainView <| insert .viewDispatcher <| insert .gui <| insert .app ∅

def contextHeld (address : ℕ) : Finset Resource :=
  insert .publicKeyPoint <| insert .privateKey <| insert .group <|
    insert (.crypto address) appHeld

def cryptoHeld : Option TeslaCrypto → Finset Resource
  | none => appHeld
  | some crypto => contextHeld crypto.address

def builtHeld (s : Finset Resource) (address : ℕ) : Finset Resource :=
  insert .txBuffer <| insert .nfcData <| insert .nfcDevice <| insert (.nfc address) s

def listeningHeld (s : Finset Resource) (address : ℕ) : Finset Resource :=
  insert .running <| insert .listener <| builtHeld s address

def nfcHeld (s : Finset Resource) : Option TeslaNfc → Finset Resource
  | none => s
  | some nfc =>
    if nfc.listener then listeningHeld s nfc.address else builtHeld s nfc.address

def heldBy (app : TeslaKeyCardApp) : Finset Resource := nfcHeld (cryptoHeld app.crypto) app.nfc

/-- The buffers that may stay filled. -/
def lasting : Option TeslaCrypto → Finset Secret
  | none => {.key}
  | some _ => {.key, .publicKey, .context}

structure Holds (app : TeslaKeyCardApp) (m : Holdings Resource Secret) : Prop where
  held : m.held = heldBy app
  filled : m.filled ⊆ lasting app.crypto
  context : app.nfc.isSome → app.crypto.isSome

theorem founded_insert {s : Finset Resource} (r : Resource) (h : tenancy.Founded s)
    (hr : r.Rests s) : tenancy.Founded (insert r s) := Founded.take h hr

theorem appHeld_founded : tenancy.Founded appHeld := by
  intro r hr
  simp only [appHeld, Finset.mem_insert, Finset.notMem_empty, or_false] at hr
  rcases hr with rfl | rfl | rfl | rfl | rfl | rfl | rfl | rfl <;>
    simp [tenancy, Resource.Rests, appHeld]

section
variable (address : ℕ)

theorem crypto_founded : tenancy.Founded (insert (.crypto address) appHeld) :=
  founded_insert _ appHeld_founded (by simp [Resource.Rests, appHeld])

theorem group_founded : tenancy.Founded (insert .group (insert (.crypto address) appHeld)) :=
  founded_insert _ (crypto_founded address) ⟨address, Finset.mem_insert_self _ _⟩

theorem privateKey_founded :
    tenancy.Founded (insert .privateKey (insert .group (insert (.crypto address) appHeld))) :=
  founded_insert _ (group_founded address) ⟨address, by simp⟩

theorem contextHeld_founded : tenancy.Founded (contextHeld address) :=
  founded_insert _ (privateKey_founded address) ⟨address, by simp⟩

end

structure Foundation (s : Finset Resource) : Prop where
  founded : tenancy.Founded s
  group : .group ∈ s
  privateKey : .privateKey ∈ s
  publicKeyPoint : .publicKeyPoint ∈ s
  eventQueue : .eventQueue ∈ s
  nfc : ∀ address, .nfc address ∉ s
  nfcDevice : .nfcDevice ∉ s
  nfcData : .nfcData ∉ s
  txBuffer : .txBuffer ∉ s
  listener : .listener ∉ s
  running : .running ∉ s

theorem contextHeld_foundation (address : ℕ) : Foundation (contextHeld address) := by
  refine ⟨contextHeld_founded address, ?_, ?_, ?_, ?_, ?_, ?_, ?_, ?_, ?_, ?_⟩ <;>
    simp [contextHeld, appHeld]

section
variable {s : Finset Resource} {address : ℕ}

theorem builtHeld_founded (h : Foundation s) : tenancy.Founded (builtHeld s address) := by
  have hnfc : tenancy.Founded (insert (.nfc address) s) :=
    founded_insert _ h.founded ⟨h.group, h.privateKey, h.publicKeyPoint⟩
  have hdevice := founded_insert .nfcDevice hnfc ⟨address, Finset.mem_insert_self _ _⟩
  have hdata := founded_insert .nfcData hdevice ⟨address, by simp⟩
  exact founded_insert .txBuffer hdata ⟨address, by simp⟩

end

section
variable {α : Type} {s : Finset Resource} {f F : Finset Secret}
  {Q : α → Holdings Resource Secret → Prop} {address : ℕ}

theorem cryptoFree_keeps {crypto : Option TeslaCrypto} (h : f ⊆ lasting crypto) :
    tenancy.keeping.Accepts (teslaCryptoFree crypto) ⟨cryptoHeld crypto, f⟩
      fun _ => Stays appHeld {.key} := by
  cases crypto with
  | none => exact ⟨rfl, h⟩
  | some crypto =>
    have hwiped : (f.erase .publicKey).erase .context ⊆ {.key} := by
      intro b hb
      have hlasting := h (Finset.mem_of_mem_erase (Finset.mem_of_mem_erase hb))
      simp only [lasting, Finset.mem_insert, Finset.mem_singleton] at hlasting
      rcases hlasting with rfl | rfl | rfl
      · exact Finset.mem_singleton_self _
      · simp at hb
      · simp at hb
    apply accepts_wipe
    apply accepts_giveBack (privateKey_founded _) (by simp [appHeld])
    apply accepts_giveBack (group_founded _) (by simp [appHeld])
    apply accepts_giveBack (crypto_founded _) (by simp [appHeld])
    apply accepts_wipe
    have hfresh : .crypto crypto.address ∉ appHeld := by simp [appHeld]
    refine accepts_end (f := Program.done) rfl (fun _ => rfl) rfl (by simp [tenancy, bars])
      (appHeld_founded.mayEnd hfresh) fun _ => ?_
    exact ⟨Finset.erase_insert hfresh, hwiped⟩

theorem accepts_taken (r : Resource) {next : Unit → MemoryProgram α} (hr : r ∉ s)
    (hrests : r.Rests s) (hnext : tenancy.keeping.Accepts (next ()) ⟨insert r s, f⟩ Q) :
    tenancy.keeping.Accepts (take r >>= next) ⟨s, f⟩ Q := accepts_take ⟨hr, hrests⟩ hnext

theorem cryptoAlloc_keeps (h : f ⊆ {.key}) :
    tenancy.keeping.Accepts teslaCryptoAlloc ⟨appHeld, f⟩
      fun crypto => Stays (cryptoHeld crypto) (lasting crypto) := by
  refine accepts_grant rfl (by simp [tenancy, uses]) (by simp [tenancy, bars]) ?_ fun address => ?_
  · intro address r hr
    cases address with
    | none => cases hr
    | some address =>
      cases hr
      exact ⟨by simp [appHeld], by simp [tenancy, Resource.Rests, appHeld]⟩
  cases address with
  | none => exact ⟨rfl, h⟩
  | some address =>
    have hfilled (crypto : TeslaCrypto) : insert .context f ⊆ lasting (some crypto) :=
      Finset.insert_subset (by simp [lasting]) (h.trans (by simp [lasting]))
    change tenancy.keeping.Accepts _ ⟨insert (.crypto address) appHeld, f⟩ _
    apply accepts_taken .group (by simp [appHeld]) ⟨address, Finset.mem_insert_self _ _⟩
    apply accepts_taken .privateKey (by simp [appHeld]) ⟨address, by simp⟩
    apply accepts_taken .publicKeyPoint (by simp [appHeld]) ⟨address, by simp⟩
    apply accepts_fill
    refine accepts_on rfl rfl rfl (fun _ => rfl) (r := .group) (by simp) fun r => ?_
    obtain ⟨error, group⟩ := r
    dsimp only
    split
    · refine accepts_plain rfl rfl rfl (fun _ => rfl) fun _ => ?_
      apply (cryptoFree_keeps (hfilled { TeslaCrypto.zeroed address with group })).bind
      exact fun _ _ hm => hm
    · exact ⟨rfl, hfilled _⟩

theorem accepts_renew {r : Resource} {next : Unit → Unit → MemoryProgram α} (hr : r ∈ s)
    (hfounded : tenancy.Founded (s.erase r)) (hrests : r.Rests (s.erase r))
    (hnext : tenancy.keeping.Accepts (next () ()) ⟨s, f⟩ Q) :
    tenancy.keeping.Accepts (finish r >>= fun u => take r >>= next u) ⟨s, f⟩ Q := by
  apply accepts_finish ⟨hr, hfounded⟩
  apply accepts_take ⟨Finset.notMem_erase r s, hrests⟩
  rw [show insert r (s.erase r) = s from Finset.insert_erase hr]
  exact hnext

theorem loadScalar_passive (crypto : TeslaCrypto) (key : Bytes 32) :
    (teslaCryptoLoadScalar crypto key).Uses (tenancy.Passive (contextHeld address)) := by
  have hcall (c : HalCall) (huses : ∀ r ∈ uses c, r ∈ contextHeld address)
      (hbars : bars c = []) (hends : ends c = none) (hgrants : ∀ reply, grants c reply = none) :
      tenancy.Passive (contextHeld address) c := ⟨huses, hbars, hends, hgrants⟩
  simp only [teslaCryptoLoadScalar, Tesla.hal_eq, Program.call_bind, Program.done_bind,
    Program.pure_eq]
  refine ⟨hcall _ (by simp [uses, contextHeld]) rfl rfl fun _ => rfl, fun r => ?_⟩
  dsimp only
  split_ifs
  · trivial
  · refine ⟨hcall _ (by simp [uses, contextHeld]) rfl rfl fun _ => rfl, fun error => ?_⟩
    dsimp only
    split_ifs
    · trivial
    · exact ⟨hcall _ (by simp [uses, contextHeld]) rfl rfl fun _ => rfl, fun _ => trivial⟩

theorem loadScalar_address (crypto : TeslaCrypto) (key : Bytes 32) :
    (teslaCryptoLoadScalar crypto key).Returns fun r => r.2.address = crypto.address := by
  simp only [teslaCryptoLoadScalar, Tesla.hal_eq, Program.call_bind, Program.done_bind,
    Program.pure_eq]
  intro r
  dsimp only
  split_ifs
  · rfl
  · intro error
    dsimp only
    split_ifs
    · rfl
    · exact fun _ => rfl

/-- The private key may go while the point stays: nothing rests on either of them. -/
theorem accepts_renewPair {next : MemoryProgram α}
    (hnext : tenancy.keeping.Accepts next ⟨contextHeld address, f⟩ Q) :
    tenancy.keeping.Accepts (do
      finish .privateKey
      take .privateKey
      finish .publicKeyPoint
      take .publicKeyPoint
      next) ⟨contextHeld address, f⟩ Q := by
  have hkey : (contextHeld address).erase .privateKey =
      insert .publicKeyPoint (insert .group (insert (.crypto address) appHeld)) := by
    rw [contextHeld, Finset.erase_insert_of_ne (by simp), Finset.erase_insert (by simp [appHeld])]
  have hpoint : (contextHeld address).erase .publicKeyPoint =
      insert .privateKey (insert .group (insert (.crypto address) appHeld)) :=
    Finset.erase_insert (by simp [appHeld])
  apply accepts_renew (r := .privateKey) (by simp [contextHeld])
  · rw [hkey]
    exact founded_insert _ (group_founded address) ⟨address, by simp⟩
  · rw [hkey]
    exact ⟨address, by simp⟩
  apply accepts_renew (r := .publicKeyPoint) (by simp [contextHeld])
  · rw [hpoint]
    exact privateKey_founded address
  · rw [hpoint]
    exact ⟨address, by simp⟩
  exact hnext

theorem encodePoint_keeps (crypto : TeslaCrypto) (error : ℤ) (hF : .publicKey ∈ F) (h : f ⊆ F) :
    tenancy.keeping.Accepts (teslaCryptoEncodePoint crypto error) ⟨contextHeld address, f⟩
      fun r m => r.2.2.address = crypto.address ∧ Stays (contextHeld address) F m := by
  unfold teslaCryptoEncodePoint
  split
  · exact ⟨rfl, rfl, h⟩
  · apply accepts_fill
    refine accepts_use rfl (fun _ => rfl) (by simp [tenancy, uses, contextHeld])
      (by simp [tenancy, bars]) fun r => ?_
    exact ⟨rfl, rfl, Finset.insert_subset hF h⟩

theorem setPrivateKey_keeps (crypto : TeslaCrypto) (key : Bytes 32)
    (h : f ⊆ lasting (some crypto)) :
    tenancy.keeping.Accepts (teslaCryptoSetPrivateKey crypto key) ⟨contextHeld crypto.address, f⟩
      fun r m => r.2.address = crypto.address ∧
        Stays (contextHeld crypto.address) (lasting (some crypto)) m := by
  unfold teslaCryptoSetPrivateKey
  split
  · exact ⟨rfl, rfl, h⟩
  · apply accepts_wipe
    apply accepts_renewPair
    apply (accepts_widen (loadScalar_passive _ _) (loadScalar_address _ _)).bind
    intro r m hm
    obtain ⟨haddress, rfl⟩ := hm
    apply (encodePoint_keeps r.2 r.1 (by simp [lasting]) (wipe_subset h _)).bind
    intro r' m hm
    obtain ⟨haddress', hstays⟩ := hm
    have hsame : r'.2.2.address = crypto.address := haddress'.trans haddress
    obtain ⟨s', f'⟩ := m
    obtain ⟨rfl, hf'⟩ := hstays
    dsimp only
    split
    · exact accepts_plain rfl rfl rfl (fun _ => rfl) fun _ => ⟨hsame, rfl, hf'⟩
    · exact ⟨hsame, rfl, hf'⟩

theorem generateScalar_keeps (crypto : TeslaCrypto) (key : Bytes 32) (hF : .key ∈ F)
    (h : f ⊆ F) :
    tenancy.keeping.Accepts (generateScalar crypto key) ⟨contextHeld address, f⟩
      fun _ => Stays (contextHeld address) F := by
  have hfresh : .generated ∉ contextHeld address := by simp [contextHeld, appHeld]
  have hend (r : ℤ × Bytes 32) (f' : Finset Secret) (hf' : f' ⊆ F) :
      tenancy.keeping.Accepts (do
        finish .generated
        return r) ⟨insert .generated (contextHeld address), f'⟩
        fun _ => Stays (contextHeld address) F :=
    accepts_giveBack (contextHeld_founded address) hfresh ⟨rfl, hf'⟩
  apply accepts_taken .generated hfresh trivial
  refine accepts_use rfl (fun _ => rfl) (by simp [tenancy, uses, contextHeld])
      (by simp [tenancy, bars]) fun r => ?_
  dsimp only
  split
  · apply accepts_fill
    refine accepts_on rfl rfl rfl (fun _ => rfl) (Finset.mem_insert_self _ _) fun r => ?_
    exact hend r _ (Finset.insert_subset hF h)
  · exact hend _ f h

theorem generatePrivateKey_keeps (crypto : TeslaCrypto) (key : Bytes 32)
    (h : f ⊆ lasting (some crypto)) :
    tenancy.keeping.Accepts (teslaCryptoGeneratePrivateKey crypto key)
      ⟨contextHeld crypto.address, f⟩ fun r m => r.2.1.address = crypto.address ∧
        Stays (contextHeld crypto.address) (lasting (some crypto)) m := by
  refine Stays.bind (generateScalar_keeps crypto key (by simp [lasting]) h) fun r f' hf' => ?_
  dsimp only
  split
  · refine accepts_plain rfl rfl rfl (fun _ => rfl) fun _ => ?_
    exact accepts_wipe ⟨rfl, rfl, wipe_subset hf' _⟩
  · apply (setPrivateKey_keeps crypto r.2 hf').bind
    intro r m hm
    obtain ⟨haddress, hstays⟩ := hm
    obtain ⟨s', f''⟩ := m
    obtain ⟨rfl, hf''⟩ := hstays
    split
    · exact ⟨haddress, rfl, hf''⟩
    · exact accepts_wipe ⟨haddress, rfl, wipe_subset hf'' _⟩

theorem generateUid_passive : teslaIdentityGenerateUid.Uses (tenancy.Passive s) :=
  ⟨⟨by simp [tenancy, uses], rfl, rfl, fun _ => rfl⟩, fun _ => trivial⟩

theorem prepareIdentity_keeps (crypto : TeslaCrypto) (identity : TeslaIdentity)
    (h : f ⊆ lasting (some crypto)) :
    tenancy.keeping.Accepts (teslaKeyCardPrepareIdentity crypto identity)
      ⟨contextHeld crypto.address, f⟩ fun r m => r.2.1.address = crypto.address ∧
        Stays (contextHeld crypto.address) (lasting (some crypto)) m := by
  have hidle : Idle (contextHeld crypto.address) := by
    refine ⟨contextHeld_founded _, ?_, ?_, ?_, ?_, ?_⟩ <;> simp [contextHeld, appHeld]
  refine Stays.bind (load_keeps identity hidle h (by simp [lasting])) fun r f' hf' => ?_
  dsimp only
  split
  · apply (setPrivateKey_keeps crypto _ hf').bind
    exact fun _ _ hm => hm
  split
  · exact ⟨rfl, rfl, hf'⟩
  · apply (accepts_widen generateUid_passive (Program.returns_true _)).bind
    intro uid m hm
    obtain ⟨-, rfl⟩ := hm
    apply (generatePrivateKey_keeps crypto _ hf').bind
    intro r m hm
    obtain ⟨haddress, hstays⟩ := hm
    obtain ⟨s', f''⟩ := m
    obtain ⟨rfl, hf''⟩ := hstays
    split
    · exact ⟨haddress, rfl, hf''⟩
    · refine Stays.bind (save_keeps _ hidle hf'') fun saved g hg => ?_
      exact ⟨haddress, rfl, hg⟩

end

section
variable {s : Finset Resource} {f : Finset Secret} {nfc : TeslaNfc} (hs : Foundation s)

include hs

theorem nfcAlloc_keeps (crypto : TeslaCrypto) (uid : Bytes 4) :
    tenancy.keeping.Accepts (teslaNfcAlloc crypto uid) ⟨s, f⟩
      fun nfc m => m = ⟨nfcHeld s (some nfc), f⟩ := by
  refine accepts_grant rfl (by simp [tenancy, uses]) (by simp [tenancy, bars]) ?_ fun address => ?_
  · intro address r hr
    cases hr
    exact ⟨hs.nfc address, hs.group, hs.privateKey, hs.publicKeyPoint⟩
  change tenancy.keeping.Accepts _ ⟨insert (.nfc address) s, f⟩ _
  apply accepts_taken .nfcDevice (by simp [hs.nfcDevice]) ⟨address, Finset.mem_insert_self _ _⟩
  apply accepts_taken .nfcData (by simp [hs.nfcData]) ⟨address, by simp⟩
  apply accepts_taken .txBuffer (by simp [hs.txBuffer]) ⟨address, by simp⟩
  cases teslaCryptoGetPublicKey crypto with
  | some publicKey => rfl
  | none => exact accepts_plain rfl rfl rfl (fun _ => rfl) fun _ => rfl

theorem listening_founded (address : ℕ) :
    tenancy.Founded (insert .listener (builtHeld s address)) :=
  founded_insert _ (builtHeld_founded hs) ⟨by simp [builtHeld], by simp [builtHeld]⟩

theorem listener_fresh (address : ℕ) : .listener ∉ builtHeld s address := by
  simp [builtHeld, hs.listener]

theorem running_fresh (address : ℕ) : .running ∉ insert .listener (builtHeld s address) := by
  simp [builtHeld, hs.running]

theorem nfcHeld_founded : tenancy.Founded (nfcHeld s (some nfc)) := by
  simp only [nfcHeld]
  split_ifs
  · exact founded_insert .running (listening_founded hs nfc.address)
      ⟨by simp, by simp [builtHeld], by simp [builtHeld, hs.eventQueue]⟩
  · exact builtHeld_founded hs

theorem nfcStop_keeps : tenancy.keeping.Accepts (teslaNfcStop nfc).widen
    ⟨nfcHeld s (some nfc), f⟩ fun nfc' m =>
      nfc' = nfc.stopped ∧ m = ⟨builtHeld s nfc.address, f⟩ := by
  unfold teslaNfcStop
  cases hlistener : nfc.listener with
  | false =>
    rw [nfcHeld, hlistener]
    exact ⟨rfl, rfl⟩
  | true =>
    have hrunning := running_fresh hs nfc.address
    have hallocated := listener_fresh hs nfc.address
    simp only [nfcHeld, hlistener, if_true, Program.widen_bind]
    refine accepts_end rfl (fun _ => rfl) rfl (by simp [tenancy, bars])
      ((listening_founded hs nfc.address).mayEnd hrunning) fun _ => ?_
    refine accepts_end rfl (fun _ => rfl) rfl (by simp [tenancy, bars]) ?_ fun _ => ?_
    · rw [listeningHeld, Finset.erase_insert hrunning]
      exact (builtHeld_founded hs).mayEnd hallocated
    · rw [listeningHeld, Finset.erase_insert hrunning, Finset.erase_insert hallocated]
      exact ⟨rfl, rfl⟩

theorem nfcFree_keeps : tenancy.keeping.Accepts (teslaNfcFree nfc) ⟨nfcHeld s (some nfc), f⟩
    fun _ m => m = ⟨s, f⟩ := by
  have hnfc : tenancy.Founded (insert (.nfc nfc.address) s) :=
    founded_insert _ hs.founded ⟨hs.group, hs.privateKey, hs.publicKeyPoint⟩
  have hdevice := founded_insert .nfcDevice hnfc ⟨nfc.address, Finset.mem_insert_self _ _⟩
  have hdata := founded_insert .nfcData hdevice ⟨nfc.address, by simp⟩
  apply (nfcStop_keeps hs).bind
  intro nfc' m hm
  obtain ⟨rfl, rfl⟩ := hm
  apply accepts_giveBack hdata (by simp [hs.txBuffer])
  apply accepts_giveBack hdevice (by simp [hs.nfcData])
  apply accepts_giveBack hnfc (by simp [hs.nfcDevice])
  refine accepts_end (f := Program.done) rfl (fun _ => rfl) rfl (by simp [tenancy, bars])
    (hs.founded.mayEnd (hs.nfc nfc.address)) fun _ => ?_
  exact congrArg (Holdings.mk · f) (Finset.erase_insert (hs.nfc nfc.address))

theorem nfcStart_keeps : tenancy.keeping.Accepts (teslaNfcStart nfc).widen
    ⟨nfcHeld s (some nfc), f⟩ fun r m => m = ⟨nfcHeld s (some r.2), f⟩ := by
  unfold teslaNfcStart
  cases hlistener : nfc.listener with
  | true => rfl
  | false =>
    have hstopped : nfcHeld s (some nfc) = builtHeld s nfc.address := by
      rw [nfcHeld, hlistener, if_neg Bool.false_ne_true]
    simp only [hstopped, Bool.false_eq_true, if_false, Program.widen_bind]
    refine accepts_grant rfl (by simp [tenancy, uses, builtHeld]) (by simp [tenancy, bars]) ?_
      fun allocated => ?_
    · intro allocated r hr
      cases allocated with
      | false => cases hr
      | true =>
        cases hr
        exact ⟨listener_fresh hs _, by simp [builtHeld], by simp [builtHeld]⟩
    cases allocated with
    | false => rfl
    | true =>
      simp only [Bool.not_true, Bool.false_eq_true, if_false, Program.widen_bind]
      refine accepts_grant rfl ?_ (by simp [tenancy, bars]) ?_ fun _ => rfl
      · intro r hr
        rw [List.mem_singleton.mp hr]
        simp [tenancy, grants, builtHeld]
      · intro _ r hr
        cases hr
        exact ⟨running_fresh hs _, Finset.mem_insert_self _ _, by simp [tenancy, grants, builtHeld],
          by simp [tenancy, grants, builtHeld, hs.eventQueue]⟩

end

theorem cryptoHeld_founded (crypto : Option TeslaCrypto) : tenancy.Founded (cryptoHeld crypto) := by
  cases crypto with
  | none => exact appHeld_founded
  | some crypto => exact contextHeld_founded crypto.address

def Resource.Passing (r : Resource) : Prop :=
  r = .enclaveKey ∨ r = .storage ∨ r = .file ∨ r = .openFile ∨ r = .generated

theorem not_passing_of_mem {app : TeslaKeyCardApp} {r : Resource} (hr : r ∈ heldBy app) :
    ¬ r.Passing := by
  have hcrypto (hr : r ∈ cryptoHeld app.crypto) : ¬ r.Passing := by
    rintro (rfl | rfl | rfl | rfl | rfl) <;> revert hr <;> cases app.crypto <;>
      simp [cryptoHeld, contextHeld, appHeld]
  unfold heldBy at hr
  cases hnfc : app.nfc with
  | none => exact hcrypto (by simpa [hnfc, nfcHeld] using hr)
  | some nfc =>
    rintro (rfl | rfl | rfl | rfl | rfl) <;> simp only [hnfc, nfcHeld] at hr <;>
      split_ifs at hr <;> simp [listeningHeld, builtHeld] at hr <;>
      exact hcrypto hr (by simp [Resource.Passing])

end FlipperApps.Tesla.Memory
