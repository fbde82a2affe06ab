import FlipperApps.Calls.Rounds
import FlipperApps.Calls.Translation
import FlipperApps.Tesla.MemoryHeld

/-!
# The memory of a whole session

A session starts the app, handles any events in any order and frees the app, and
its calls may reply anything. Everything taken is given back, in an order in which
nothing is used or rested on after it is gone, and every secret is wiped.
-/

namespace FlipperApps.Tesla.Memory
open Calls Tenancy

section
variable {m : Holdings Resource Secret} {app : TeslaKeyCardApp} {f : Finset Secret}

theorem Holds.of_context {app' : TeslaKeyCardApp} (h : Holds app m)
    (hcrypto : app'.crypto = app.crypto) (hnfc : app'.nfc = app.nfc) : Holds app' m where
  held := by rw [h.held, heldBy, heldBy, hcrypto, hnfc]
  filled := by rw [hcrypto]; exact h.filled
  context := by rw [hcrypto, hnfc]; exact h.context

theorem Holds.foundation (h : Holds app m) (hnfc : app.nfc.isSome) :
    Foundation (cryptoHeld app.crypto) := by
  obtain ⟨crypto, hcrypto⟩ := Option.isSome_iff_exists.mp (h.context hnfc)
  rw [hcrypto]
  exact contextHeld_foundation crypto.address

theorem prepareApp_keeps (h : Holds app m) (hnfc : app.nfc = none) :
    tenancy.keeping.Accepts (prepareApp app) m fun r m' => r.2.nfc = none ∧ Holds r.2 m' := by
  obtain ⟨model, screen, identity, crypto, nfc⟩ := app
  obtain rfl : nfc = none := hnfc
  obtain ⟨held, filled⟩ := m
  obtain rfl : held = cryptoHeld crypto := h.held
  cases crypto with
  | none => exact ⟨rfl, h⟩
  | some crypto =>
    apply (prepareIdentity_keeps crypto identity h.filled).bind
    intro r m hm
    obtain ⟨haddress, hheld, hfilled⟩ := hm
    refine ⟨rfl, ?_, hfilled, nofun⟩
    rw [hheld, ← haddress]
    rfl

theorem freeNfc_keeps (h : Holds app m) :
    tenancy.keeping.Accepts (freeNfc app) m fun app' m' =>
      app' = { app with nfc := none } ∧ Holds app' m' := by
  obtain ⟨held, filled⟩ := m
  obtain rfl : held = heldBy app := h.held
  unfold freeNfc
  cases hnfc : app.nfc with
  | none =>
    have happ : app = { app with nfc := none } := by rw [← hnfc]
    exact ⟨happ, h⟩
  | some nfc =>
    rw [heldBy, hnfc]
    apply (nfcFree_keeps (h.foundation (by simp [hnfc]))).bind
    intro _ m hm
    rw [hm]
    exact ⟨rfl, rfl, h.filled, nofun⟩

theorem updateNfc_keeps (h : Holds app m) :
    tenancy.keeping.Accepts (teslaKeyCardUpdateNfc app) m fun app' m' => Holds app' m' := by
  obtain ⟨model, screen, identity, crypto, nfc⟩ := app
  apply (freeNfc_keeps h).bind
  intro app' m' h
  obtain ⟨rfl, h⟩ := h
  obtain ⟨held, filled⟩ := m'
  cases crypto with
  | none => exact h
  | some crypto =>
    obtain rfl : held = contextHeld crypto.address := h.held
    have hs := contextHeld_foundation crypto.address
    have hholds (nfc : Option TeslaNfc) : Holds ⟨model, screen, identity, some crypto, nfc⟩
        ⟨nfcHeld (contextHeld crypto.address) nfc, filled⟩ := ⟨rfl, h.filled, fun _ => rfl⟩
    apply (nfcAlloc_keeps hs crypto _).bind
    intro nfc m hm
    rw [hm]
    apply (nfcStart_keeps hs).bind
    intro r m hm
    rw [hm]
    dsimp only
    split
    · apply (nfcFree_keeps hs).bind
      intro _ m hm
      rw [hm]
      exact hholds none
    · exact hholds (some r.2)

theorem resumeNfc_keeps (h : Holds app m) :
    tenancy.keeping.Accepts (teslaKeyCardResumeNfc app) m fun r m' => Holds r.2 m' := by
  obtain ⟨held, filled⟩ := m
  obtain rfl : held = heldBy app := h.held
  unfold teslaKeyCardResumeNfc
  cases hnfc : app.nfc with
  | none => exact h
  | some nfc =>
    have hsome : app.nfc.isSome := by simp [hnfc]
    have hs := h.foundation hsome
    have hholds (nfc : Option TeslaNfc) :
        Holds { app with nfc } ⟨nfcHeld (cryptoHeld app.crypto) nfc, filled⟩ :=
      ⟨rfl, h.filled, fun _ => h.context hsome⟩
    rw [heldBy, hnfc]
    apply (nfcStart_keeps hs).bind
    intro r m hm
    rw [hm]
    dsimp only
    split
    · exact hholds (some r.2)
    · apply (nfcFree_keeps hs).bind
      intro _ m hm
      rw [hm]
      exact hholds none

theorem stopNfc_keeps (h : Holds app m) :
    tenancy.keeping.Accepts (stopNfc app).widen m fun app' m' =>
      app' = { app with nfc := app.nfc.map TeslaNfc.stopped } ∧ Holds app' m' := by
  obtain ⟨held, filled⟩ := m
  obtain rfl : held = heldBy app := h.held
  unfold stopNfc
  cases hnfc : app.nfc with
  | none =>
    have happ : app = { app with nfc := none } := by rw [← hnfc]
    exact ⟨happ, h⟩
  | some nfc =>
    have hsome : app.nfc.isSome := by simp [hnfc]
    rw [heldBy, hnfc, Program.widen_bind]
    apply (nfcStop_keeps (h.foundation hsome)).bind
    intro nfc' m hm
    obtain ⟨rfl, rfl⟩ := hm
    exact ⟨rfl, rfl, h.filled, fun _ => h.context hsome⟩

theorem eventQueue_held (app : TeslaKeyCardApp) : .eventQueue ∈ heldBy app := by
  obtain ⟨model, screen, identity, crypto, nfc⟩ := app
  have hcrypto : .eventQueue ∈ cryptoHeld crypto := by
    cases crypto <;> simp [cryptoHeld, contextHeld, appHeld]
  cases nfc with
  | none => exact hcrypto
  | some nfc =>
    simp only [heldBy, nfcHeld]
    split_ifs
    · simp [listeningHeld, builtHeld, hcrypto]
    · simp [builtHeld, hcrypto]

theorem getEvent_passive (h : Holds app m) : tenancy.Passive m.held .nfcEventQueueGet := by
  refine ⟨fun r hr => ?_, rfl, rfl, fun _ => rfl⟩
  rw [List.mem_singleton.mp hr, h.held]
  exact eventQueue_held app

theorem drain_passive (h : Holds app m) (n : ℕ) :
    (drainNfcEvents n).Uses (tenancy.Passive m.held) := by
  induction n with
  | zero => trivial
  | succ n ih =>
    refine ⟨getEvent_passive h, fun event => ?_⟩
    cases event with
    | none => trivial
    | some event => exact ih

theorem clearEvents_keeps (h : Holds app m) :
    tenancy.keeping.Accepts teslaKeyCardClearNfcEvents.widen m fun _ m' => m' = m :=
  (accepts_widen (drain_passive h 17) (Program.returns_true _)).mono fun _ _ hm => hm.2

theorem takeEvents_keeps (h : Holds app m) (n : ℕ) :
    tenancy.keeping.Accepts (takeNfcEvents n app).widen m fun app' m' => Holds app' m' := by
  induction n generalizing app with
  | zero => exact h
  | succ n ih =>
    have hpassive := getEvent_passive h
    unfold takeNfcEvents
    rw [Program.widen_bind]
    refine accepts_use rfl (fun _ => rfl) hpassive.uses (by simp [tenancy, bars]) fun event => ?_
    cases event with
    | none => exact h
    | some event => exact ih (h.of_context rfl rfl)

theorem rebuildIdentity_keeps (h : Holds app m) :
    tenancy.keeping.Accepts (rebuildIdentity app) m fun r m' => Holds r.2 m' := by
  apply (freeNfc_keeps h).bind
  intro app' m' h
  obtain ⟨rfl, h⟩ := h
  obtain ⟨held, filled⟩ := m'
  obtain rfl : held = cryptoHeld app.crypto := h.held
  refine Stays.bind (cryptoFree_keeps h.filled) fun _ f hf => ?_
  refine Stays.bind (cryptoAlloc_keeps hf) fun crypto f hf => ?_
  apply accepts_wipe
  apply (prepareApp_keeps ⟨rfl, wipe_subset hf _, fun h => absurd h (by simp)⟩ rfl).bind
  intro r m h
  obtain ⟨prepared, app⟩ := r
  obtain ⟨-, h⟩ := h
  cases prepared with
  | false => exact h.of_context rfl rfl
  | true =>
    apply (updateNfc_keeps h).bind
    exact fun app m h => h.of_context rfl rfl

theorem Holds.idle (h : Holds app m) : Idle m.held := by
  have hpassing {r : Resource} (hr : r.Passing) : r ∉ m.held := by
    rw [h.held]
    exact fun hmem => not_passing_of_mem hmem hr
  have hfounded : tenancy.Founded m.held := by
    rw [h.held, heldBy]
    cases hnfc : app.nfc with
    | none => exact cryptoHeld_founded app.crypto
    | some nfc => exact nfcHeld_founded (h.foundation (by simp [hnfc]))
  refine ⟨hfounded, hpassing ?_, hpassing ?_, hpassing ?_, hpassing ?_, hpassing ?_⟩ <;>
    simp [Resource.Passing]

theorem resetIdentity_keeps (h : Holds app m) :
    tenancy.keeping.Accepts (teslaKeyCardResetIdentity app) m fun r m' => Holds r.2 m' := by
  have hresetting : Holds (teslaKeyCardSetModel app .resetting false) m := h.of_context rfl rfl
  apply (stopNfc_keeps hresetting).bind
  intro app' m' h
  obtain ⟨-, h⟩ := h
  apply (clearEvents_keeps h).bind
  intro _ m'' hm
  rw [hm]
  apply (delete_keeps h.idle).bind
  intro deleted m'' hm
  rw [hm]
  cases deleted with
  | false =>
    apply (resumeNfc_keeps h).bind
    exact fun r m h => h.of_context rfl rfl
  | true => exact rebuildIdentity_keeps h

theorem customEvent_keeps (h : Holds app m) (event : UInt32) :
    tenancy.keeping.Accepts (teslaKeyCardCustomEventCallback app event) m
      fun r m' => Holds r.2 m' := by
  have hmain : Holds { app with screen := .main } m := h.of_context rfl rfl
  unfold teslaKeyCardCustomEventCallback
  split_ifs
  · apply (stopNfc_keeps h).bind
    intro app' m' h
    obtain ⟨-, h⟩ := h
    apply (clearEvents_keeps h).bind
    intro _ m'' hm
    rw [hm]
    exact h.of_context rfl rfl
  · apply (resumeNfc_keeps hmain).bind
    exact fun r m h => h.of_context rfl rfl
  · apply (resetIdentity_keeps hmain).bind
    exact fun r m h => h
  · exact h

end

theorem appAlloc_keeps : tenancy.keeping.Accepts teslaKeyCardAppAlloc .none
    fun _ m => m = ⟨appHeld, ∅⟩ := by
  apply accepts_taken .app (by simp) trivial
  apply accepts_taken .gui (by simp) (by simp [Resource.Rests])
  apply accepts_taken .viewDispatcher (by simp) (by simp [Resource.Rests])
  apply accepts_taken .mainView (by simp) (by simp [Resource.Rests])
  apply accepts_taken .resetDialog (by simp) (by simp [Resource.Rests])
  apply accepts_taken .eventQueue (by simp) (by simp [Resource.Rests])
  apply accepts_taken (.shown .main) (by simp) (by simp [Resource.Rests])
  refine accepts_take (f := Program.done) ⟨by simp, by simp [tenancy, Resource.Rests]⟩ ?_
  rfl

theorem start_keeps : tenancy.keeping.Accepts teslaKeyCardStart .none Holds := by
  apply appAlloc_keeps.bind
  intro _ m hm
  rw [hm]
  refine Stays.bind (cryptoAlloc_keeps (Finset.empty_subset _)) fun crypto f hf => ?_
  apply (prepareApp_keeps ⟨rfl, hf, fun h => absurd h (by simp)⟩ rfl).bind
  intro r m h
  obtain ⟨-, h⟩ := h
  dsimp only
  split
  · apply (updateNfc_keeps h).bind
    exact fun app m h => h.of_context rfl rfl
  · exact h.of_context rfl rfl

theorem appHeld_eq : appHeld = insert .eventQueue (insert (.shown .reset) (insert (.shown .main)
    (insert .viewDispatcher (insert .resetDialog (insert .mainView (insert .gui
      (insert .app ∅))))))) := by decide

theorem appFree_keeps {m : Holdings Resource Secret} {app : TeslaKeyCardApp} (h : Holds app m) :
    tenancy.keeping.Accepts (teslaKeyCardAppFree app) m fun _ m' => m' = .none := by
  apply (freeNfc_keeps h).bind
  intro app' m' h
  obtain ⟨rfl, h⟩ := h
  obtain ⟨held, filled⟩ := m'
  obtain rfl : held = cryptoHeld app.crypto := h.held
  refine Stays.bind (cryptoFree_keeps h.filled) fun _ f hf => ?_
  have happ : tenancy.Founded (insert .app ∅) := founded_insert _ (by simp [Founded]) trivial
  have hgui := founded_insert .gui happ (Finset.mem_insert_self _ _)
  have hmain := founded_insert .mainView hgui (by simp [Resource.Rests])
  have hreset := founded_insert .resetDialog hmain (by simp [Resource.Rests])
  have hdispatcher := founded_insert .viewDispatcher hreset (by simp [Resource.Rests])
  have hshown := founded_insert (.shown .main) hdispatcher (by simp [Resource.Rests])
  have hboth := founded_insert (.shown .reset) hshown (by simp [Resource.Rests])
  rw [appHeld_eq]
  apply accepts_wipe
  apply accepts_giveBack hboth (by simp)
  apply accepts_giveBack hshown (by simp)
  apply accepts_giveBack hdispatcher (by simp)
  apply accepts_giveBack hreset (by simp)
  apply accepts_giveBack hmain (by simp)
  apply accepts_giveBack hgui (by simp)
  apply accepts_giveBack happ (by simp)
  refine accepts_finish (f := Program.done) ⟨Finset.mem_insert_self _ _, ?_⟩ ?_
  · simp [Founded]
  · have hnone : f.erase .key = ∅ := by
      rw [Finset.erase_eq_empty_iff]
      exact Finset.subset_singleton_iff.mp hf
    rw [hnone]
    rfl

/-- A tick or a custom event, whatever its calls reply. -/
inductive HandlerStep : TeslaKeyCardApp → List MemoryEvent → TeslaKeyCardApp → Prop
  | tick {app app' : TeslaKeyCardApp} {t : List MemoryEvent}
      (hx : Executes (anyReply MemoryInterface) (teslaKeyCardTickEventCallback app).widen () t
        app' ()) : HandlerStep app t app'
  | custom {app app' : TeslaKeyCardApp} {t : List MemoryEvent} (event : UInt32) {handled : Bool}
      (hx : Executes (anyReply MemoryInterface) (teslaKeyCardCustomEventCallback app event) () t
        (handled, app') ()) : HandlerStep app t app'

inductive Session : List (List MemoryEvent) → Prop
  | ended {start free : List MemoryEvent} {handled : List (List MemoryEvent)}
      {app app' : TeslaKeyCardApp}
      (hstart : Executes (anyReply MemoryInterface) teslaKeyCardStart () start app ())
      (hrun : Run HandlerStep app handled app')
      (hfree : Executes (anyReply MemoryInterface) (teslaKeyCardAppFree app') () free () ()) :
      Session (start :: handled ++ [free])

inductive HalHandlerStep : TeslaKeyCardApp → List HalEvent → TeslaKeyCardApp → Prop
  | tick {app app' : TeslaKeyCardApp} {t : List HalEvent}
      (hx : Executes (anyReply HalInterface) (teslaKeyCardTickEventCallback app) () t app' ()) :
      HalHandlerStep app t app'
  | custom {app app' : TeslaKeyCardApp} {t : List HalEvent} (event : UInt32) {handled : Bool}
      (hx : Executes (anyReply HalInterface) (Tesla.teslaKeyCardCustomEventCallback app event) () t
        (handled, app') ()) : HalHandlerStep app t app'

inductive HalSession : List (List HalEvent) → Prop
  | ended {start free : List HalEvent} {handled : List (List HalEvent)}
      {app app' : TeslaKeyCardApp}
      (hstart : Executes (anyReply HalInterface) Tesla.teslaKeyCardStart () start app ())
      (hrun : Run HalHandlerStep app handled app')
      (hfree : Executes (anyReply HalInterface) (Tesla.teslaKeyCardAppFree app') () free () ()) :
      HalSession (start :: handled ++ [free])

section
variable {m : Holdings Resource Secret} {app app' : TeslaKeyCardApp} {t : List MemoryEvent}
  {rounds : List (List MemoryEvent)}

theorem HandlerStep.keeps (h : HandlerStep app t app') (hm : Holds app m) :
    tenancy.keeping.Obeyed m t ∧ Holds app' (tenancy.keeping.after m t) := by
  cases h with
  | tick hx => exact (takeEvents_keeps hm _).executes hx
  | custom event hx => exact (customEvent_keeps hm event).executes hx

theorem lasting_subset (crypto : Option TeslaCrypto) :
    lasting crypto ⊆ {.key, .publicKey, .context} := by
  cases crypto <;> simp [lasting]

theorem Session.keeps (h : Session rounds) :
    tenancy.keeping.Obeyed .none rounds.flatten ∧
      tenancy.keeping.after .none rounds.flatten = .none ∧
      tenancy.keeping.Between .none (fun m => m.filled ⊆ {.key, .publicKey, .context}) rounds := by
  obtain ⟨hstart, hrun, hfree⟩ := h
  obtain ⟨hobeyed, hholds⟩ := start_keeps.executes hstart
  obtain ⟨hobeyed', hholds', hbetween⟩ :=
    hrun.monitored (fun _ _ _ _ hstep hm => hstep.keeps hm) hholds
  obtain ⟨hobeyed'', hnone⟩ := (appFree_keeps hholds').executes hfree
  have hlasting (m : Holdings Resource Secret) (hm : ∃ app, Holds app m) :
      m.filled ⊆ {.key, .publicKey, .context} := by
    obtain ⟨app, hm⟩ := hm
    exact hm.filled.trans (lasting_subset app.crypto)
  simp only [List.cons_append, List.flatten_cons, List.flatten_append, List.flatten_nil,
    List.append_nil, Monitor.obeyed_append, Monitor.after_append, Monitor.between_cons,
    Monitor.between_append, Monitor.between_nil]
  refine ⟨⟨hobeyed, hobeyed', hobeyed''⟩, hnone, Finset.empty_subset _, hbetween.mono hlasting,
    hlasting _ ⟨_, hholds'⟩, ?_⟩
  rw [hnone]
  exact Finset.empty_subset _

theorem HandlerStep.erased (h : HandlerStep app t app') :
    HalHandlerStep app (t.filterMap Event.outside) app' := by
  cases h with
  | tick hx =>
    have hx' := hx.erase_anyReply
    rw [Program.erase_widen] at hx'
    exact .tick hx'
  | custom event hx =>
    have hx' := hx.erase_anyReply
    rw [customEvent_erase] at hx'
    exact .custom event hx'

theorem run_erased {handled : List (List MemoryEvent)} (h : Run HandlerStep app handled app') :
    Run HalHandlerStep app (handled.map fun t => t.filterMap Event.outside) app' := by
  induction h with
  | nil => exact .nil _
  | snoc _ hstep ih =>
    rw [List.map_append]
    exact ih.snoc hstep.erased

theorem Session.erased (h : Session rounds) :
    HalSession (rounds.map fun t => t.filterMap Event.outside) := by
  obtain ⟨hstart, hrun, hfree⟩ := h
  have hstart' := hstart.erase_anyReply
  have hfree' := hfree.erase_anyReply
  rw [start_erase] at hstart'
  rw [appFree_erase] at hfree'
  rw [List.map_append]
  exact .ended hstart' (run_erased hrun) hfree'

structure InUse (s : Finset Resource) : Prop where
  listener : .listener ∈ s
  buffers : .txBuffer ∈ s ∧ .nfcDevice ∈ s ∧ .nfcData ∈ s ∧ .eventQueue ∈ s
  nfc : ∃ address, .nfc address ∈ s
  key : .group ∈ s ∧ .privateKey ∈ s ∧ .publicKeyPoint ∈ s
  crypto : ∃ address, .crypto address ∈ s
  app : .app ∈ s

theorem inUse_of_founded {s : Finset Resource} (h : tenancy.Founded s) (hrunning : .running ∈ s) :
    InUse s := by
  obtain ⟨hlistener, htx, hqueue⟩ := h _ hrunning
  obtain ⟨hdevice, hdata⟩ := h _ hlistener
  obtain ⟨address, hnfc⟩ := h _ hdevice
  obtain ⟨hgroup, hkey, hpoint⟩ := h _ hnfc
  exact ⟨hlistener, ⟨htx, hdevice, hdata, hqueue⟩, ⟨address, hnfc⟩, ⟨hgroup, hkey, hpoint⟩,
    h _ hgroup, h _ hqueue⟩

/-- Whatever the calls of a session reply: each call finds what it uses, nothing is
taken twice or ended while something rests on it, all that was taken is given back,
a filled buffer is wiped, before the next event unless it is to last, and a listener
runs only on what is there. -/
theorem session_upkeep (h : Session rounds) :
    tenancy.keeping.Obeyed .none rounds.flatten ∧
      (∀ r, tenancy.takings r rounds.flatten = tenancy.endings r rounds.flatten) ∧
      (∀ past b rest, rounds.flatten = past ++ ⟨.inr (.fill b), ()⟩ :: rest →
        (⟨.inr (.wipe b), ()⟩ : MemoryEvent) ∈ rest) ∧
      (∀ past rest, rounds = past ++ rest →
        (tenancy.keeping.after .none past.flatten).filled ⊆ {.key, .publicKey, .context}) ∧
      (∀ past rest, rounds.flatten = past ++ rest →
        .running ∈ (tenancy.keeping.after .none past).held →
        InUse (tenancy.keeping.after .none past).held) ∧
      HalSession (rounds.map fun t => t.filterMap Event.outside) := by
  obtain ⟨hobeyed, hnone, hbetween⟩ := h.keeps
  refine ⟨hobeyed, fun r => ?_, ?_, hbetween, ?_, h.erased⟩
  · have hbalance := balance hobeyed r
    rw [hnone] at hbalance
    simpa [Holdings.none, share] using hbalance
  · intro past b rest heq
    have hempty : b ∉ (tenancy.keeping.after .none
        (past ++ ⟨.inr (.fill b), ()⟩ :: rest)).filled := by
      rw [← heq, hnone]
      simp [Holdings.none]
    exact wiped hempty
  · intro past rest heq hrunning
    have hprefix : tenancy.keeping.Obeyed .none past := by
      rw [heq, Monitor.obeyed_append] at hobeyed
      exact hobeyed.1
    refine inUse_of_founded (Founded.after ?_ hprefix) hrunning
    simp [Founded, Holdings.none]

end

/-- A device without files where every call succeeds. -/
def obliging : (c : HalCall) → c.Reply
  | .furiLog .. => ()
  | .furiHalRandomFillBuf size => Bytes.zero size
  | .storageCommonStat _ => (.notExist, 0)
  | .storageCommonRemove _ => .notExist
  | .storageCommonRename .. => .ok
  | .storageFileOpen .. => true
  | .storageFileRead _ => []
  | .storageFileWrite data => data.length
  | .storageFileSync => true
  | .storageFileClose => true
  | .enclaveEnsureKey => true
  | .enclaveLoadKey _ => true
  | .enclaveUnloadKey => true
  | .furiHalCryptoEncrypt input => (true, input)
  | .furiHalCryptoDecrypt input => (true, input)
  | .mdInfoFromType => true
  | .mdHmac key _ => (0, key)
  | .crc32CalcBuffer _ => 0
  | .mallocCrypto => some 1
  | .ecpGroupLoad => (0, ⟨⟨0, 0, 1⟩, 7⟩)
  | .mpiReadBinary _ => (0, 1)
  | .mpiWriteBinary _ => (0, Bytes.zero 32)
  | .ecpCheckPrivkey .. => 0
  | .ecpMul _ _ point => (0, point)
  | .ecpPointWriteBinary .. => (0, 65, Bytes.zero 65)
  | .ecpGenPrivkey _ => (0, 1)
  | .freeCrypto _ => ()
  | .publicKeyAtNull => Bytes.zero 65
  | .mallocNfc => 2
  | .freeNfc _ => ()
  | .nfcListenerAlloc _ => true
  | .nfcListenerStart _ => ()
  | .nfcListenerStop => ()
  | .nfcListenerFree => ()
  | .nfcEventQueueGet => none

def obligingHandler : Handler MemoryInterface Unit
  | .inl c, u => (obliging c, u)
  | .inr _, u => ((), u)

@[irreducible] def obligingRun {α : Type} (p : MemoryProgram α) : Outcome MemoryInterface Unit α :=
  run obligingHandler p ()

theorem obligingRun_executes {α : Type} (p : MemoryProgram α) :
    Executes (anyReply MemoryInterface) p () (obligingRun p).trace (obligingRun p).value () := by
  unfold obligingRun
  exact (run_executes obligingHandler p ()).mono fun _ _ _ _ _ => trivial

/-- The identity is reset once: the request stops the listener, a new one starts. -/
def startedApp : TeslaKeyCardApp := (obligingRun teslaKeyCardStart).value

def requestedApp : TeslaKeyCardApp :=
  (obligingRun (teslaKeyCardCustomEventCallback startedApp teslaAppEventResetRequest)).value.2

def confirmedApp : TeslaKeyCardApp :=
  (obligingRun (teslaKeyCardCustomEventCallback requestedApp teslaAppEventResetConfirm)).value.2

def resetSession : List (List MemoryEvent) :=
  [(obligingRun teslaKeyCardStart).trace,
    (obligingRun (teslaKeyCardCustomEventCallback startedApp teslaAppEventResetRequest)).trace,
    (obligingRun (teslaKeyCardCustomEventCallback requestedApp teslaAppEventResetConfirm)).trace,
    (obligingRun (teslaKeyCardAppFree confirmedApp)).trace]

theorem obliging_step (app : TeslaKeyCardApp) (event : UInt32) :
    HandlerStep app (obligingRun (teslaKeyCardCustomEventCallback app event)).trace
      (obligingRun (teslaKeyCardCustomEventCallback app event)).value.2 := by
  have hx := obligingRun_executes (teslaKeyCardCustomEventCallback app event)
  generalize obligingRun (teslaKeyCardCustomEventCallback app event) = o at hx ⊢
  exact .custom event hx

theorem resetSession_ends : Session resetSession := by
  have hrequest := obliging_step startedApp teslaAppEventResetRequest
  have hconfirm := obliging_step requestedApp teslaAppEventResetConfirm
  have hrun : Run HandlerStep startedApp _ confirmedApp :=
    (Run.snoc (.nil startedApp) hrequest).snoc hconfirm
  exact .ended (obligingRun_executes teslaKeyCardStart) hrun
    (obligingRun_executes (teslaKeyCardAppFree confirmedApp))

theorem session_upkeep_reset :
    tenancy.keeping.Obeyed .none resetSession.flatten ∧
      tenancy.takings .running resetSession.flatten = 2 ∧
      tenancy.endings .running resetSession.flatten = 2 := by
  obtain ⟨hobeyed, hbalance, -⟩ := session_upkeep resetSession_ends
  have htakings : tenancy.takings .running resetSession.flatten = 2 := by decide +kernel
  exact ⟨hobeyed, htakings, (hbalance _).symm.trans htakings⟩

end FlipperApps.Tesla.Memory
