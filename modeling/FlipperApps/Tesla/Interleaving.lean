import FlipperApps.Calls.Transition
import FlipperApps.Tesla.ListenerAnswers
import FlipperApps.Tesla.ScreenProtocol

/-!
# The app and the NFC worker, interleaved

The handlers run one after the other; beside them, and between their calls, the
worker serves the listener while it runs. A book beside the device numbers the
NFC objects and keeps what each of them has served, queued and had taken.
-/

namespace FlipperApps.Tesla
open Calls

structure NumberedObject where
  number : ℕ
  address : ℕ

/-- A queued event, with the number of the object that emitted it. -/
abbrev OwnedEvent := ℕ × TeslaKeyCardNfcEvent

/-- `served` has, for each callback, the number of its object and its calls. -/
structure Book where
  born : ℕ
  live : Option NumberedObject
  running : Option ℕ
  queue : List OwnedEvent
  taken : List OwnedEvent
  served : List (ℕ × ListenerEvent × List NfcCallEvent)

namespace Book

def empty : Book := ⟨0, none, none, [], [], []⟩

/-- The number of the object at an address; no object has the number 0. -/
def numberAt (b : Book) (address : ℕ) : ℕ :=
  match b.live with
  | none => 0
  | some object => if object.address = address then object.number else 0

def observe (b : Book) : HalEvent → Book
  | ⟨.mallocNfc, address⟩ => { b with born := b.born + 1, live := some ⟨b.born + 1, address⟩ }
  | ⟨.freeNfc _, _⟩ => { b with live := none }
  | ⟨.nfcListenerStart address, _⟩ => { b with running := some (b.numberAt address) }
  | ⟨.nfcListenerStop, _⟩ => { b with running := none }
  | ⟨.nfcEventQueueGet, _⟩ =>
    { b with queue := b.queue.tail, taken := b.taken ++ b.queue.head?.toList }
  | _ => b

end Book

abbrev Site := World × Book

def notified (t : List NfcCallEvent) : List TeslaKeyCardNfcEvent :=
  t.filterMap fun
    | ⟨.notify event cryptoTimeMs, _⟩ => some ⟨event, cryptoTimeMs⟩
    | _ => none

def World.receive (w : World) (events : List TeslaKeyCardNfcEvent) : World :=
  let put queue (e : TeslaKeyCardNfcEvent) := teslaKeyCardNfcEvent queue e.event e.cryptoTimeMs
  { w with events := events.foldl put w.events }

def putOwned (number : ℕ) (queue : List OwnedEvent) (event : TeslaKeyCardNfcEvent) :
    List OwnedEvent :=
  if queue.length < teslaNfcEventQueueSize then queue ++ [(number, event)] else queue

def Book.serve (b : Book) (number : ℕ) (event : ListenerEvent) (t : List NfcCallEvent) : Book :=
  { b with
    queue := (notified t).foldl (putOwned number) b.queue
    served := b.served ++ [(number, event, t)] }

/-- A callback of the running listener, whatever state its object is in. -/
inductive WorkerStep : Site → Site → Prop
  | callback (crypto : TeslaCrypto) {nfc nfc' : TeslaNfc} {event : ListenerEvent} {w : World}
      {b : Book} {number : ℕ} {t : List NfcCallEvent} (hrunning : b.running = some number)
      (hx : Executes (anyReply NfcInterface) (teslaNfcListenerCallback crypto true nfc event) () t
        nfc' ()) :
      WorkerStep (w, b) (w.receive (notified t), b.serve number event t)

def siteEnv (D : Device) (mayFail : HalCall → Prop) : Environment HalInterface Site :=
  (faultyEnv D mayFail).recorded Book.observe

/-- The calls of a handler, with the worker beside them. -/
def appEnv (D : Device) (mayFail : HalCall → Prop) : Environment HalInterface Site :=
  (siteEnv D mayFail).under WorkerStep

inductive AppLabel
  | worker
  | tick (t : List HalEvent)
  | custom (event : UInt32) (handled : Bool) (t : List HalEvent)
  | navigation (request : NavigationRequest)

abbrev AppState := TeslaKeyCardApp × Site

inductive AppStep (D : Device) (mayFail : HalCall → Prop) : AppState → AppLabel → AppState → Prop
  | worker {app : TeslaKeyCardApp} {s s' : Site} (hstep : WorkerStep s s') :
      AppStep D mayFail (app, s) .worker (app, s')
  | tick {app app' : TeslaKeyCardApp} {s s' : Site} {t : List HalEvent}
      (hx : Executes (appEnv D mayFail) (teslaKeyCardTickEventCallback app) s t app' s') :
      AppStep D mayFail (app, s) (.tick t) (app', s')
  | custom {app app' : TeslaKeyCardApp} {s s' : Site} {event : UInt32} {handled : Bool}
      {t : List HalEvent}
      (hx : Executes (appEnv D mayFail) (teslaKeyCardCustomEventCallback app event) s t
        (handled, app') s') :
      AppStep D mayFail (app, s) (.custom event handled t) (app', s')
  | navigation (app : TeslaKeyCardApp) (s : Site) :
      AppStep D mayFail (app, s) (.navigation (teslaKeyCardNavigationCallback app)) (app, s)

def Starts (D : Device) (mayFail : HalCall → Prop) (d : Disk) (t : List HalEvent)
    (a : AppState) : Prop :=
  Executes (appEnv D mayFail) teslaKeyCardStart (World.idle d [], Book.empty) t a.1 a.2

/-- The site is as the monitor describes it, and every queued event belongs to
the object that is alive. -/
structure Tracked (m : NfcStatus) (s : Site) : Prop where
  object : m.object = s.2.live.map NumberedObject.address
  running : m.running = s.2.running.isSome
  runner : ∀ number, s.2.running = some number →
    s.2.live.map NumberedObject.number = some number
  events : s.1.events = s.2.queue.map Prod.snd
  bound : s.2.queue.length ≤ teslaNfcEventQueueSize
  queued : m.running = false → s.2.queue.length ≤ m.queued
  full : m.running = true → m.queued = teslaNfcEventQueueSize
  owned : ∀ e ∈ s.2.queue, s.2.live.map NumberedObject.number = some e.1

section
variable {D : Device} {mayFail : HalCall → Prop} {w w' : World} {c : HalCall}

theorem events_kept {r : c.Reply} (hc : c ≠ .nfcEventQueueGet)
    (hE : faultyEnv D mayFail w c r w') : w'.events = w.events := by
  rcases hE with hw | ⟨-, -, hk⟩
  · cases c with
    | nfcEventQueueGet => exact absurd rfl hc
    | storageCommonRename =>
      simp only [Works] at hw
      split_ifs at hw
      · rw [hw.1]
      · rw [hw.1]
    | storageFileOpen p mode =>
      cases mode with
      | readExisting =>
        simp only [Works] at hw
        split_ifs at hw
        · rw [hw.1]
        · rw [hw.1]
      | createAlways => rw [hw.1]
    | storageFileWrite =>
      simp only [Works] at hw
      split at hw
      · rw [hw.1]
      · rw [hw.1]
        rfl
    | enclaveLoadKey =>
      simp only [Works] at hw
      split at hw
      · rw [hw.1]
      · rw [hw.1]
    | storageFileRead => rw [hw.2]
    | furiLog | furiHalRandomFillBuf | freeCrypto | publicKeyAtNull | mallocNfc | freeNfc |
        nfcListenerStart | nfcListenerStop | nfcListenerFree => rw [show w' = w from hw]
    | _ => rw [hw.1]
  · cases c with
    | storageFileWrite =>
      simp only [Kept] at hk
      split at hk
      · rw [hk]
      · obtain ⟨n, rfl⟩ := hk
        rfl
    | _ =>
      simp only [Kept] at hk
      rw [hk]

theorem take_spec {r : Option TeslaKeyCardNfcEvent}
    (hE : faultyEnv D mayFail w .nfcEventQueueGet r w') :
    w' = { w with events := w.events.tail } ∧ r = w.events.head? :=
  hE.resolve_right fun h => h.2.1

theorem receive_events {number : ℕ} (events : List TeslaKeyCardNfcEvent) {queue : List OwnedEvent}
    (hw : w.events = queue.map Prod.snd) :
    (w.receive events).events = (events.foldl (putOwned number) queue).map Prod.snd := by
  induction events generalizing w queue with
  | nil => exact hw
  | cons e events ih =>
    apply ih (w := { w with events := teslaKeyCardNfcEvent w.events e.event e.cryptoTimeMs })
    simp only [teslaKeyCardNfcEvent, putOwned, hw, List.length_map]
    split_ifs
    · simp
    · rfl

theorem putAll_sublist {number : ℕ} (events : List TeslaKeyCardNfcEvent) (queue : List OwnedEvent) :
    (events.foldl (putOwned number) queue).Sublist (queue ++ events.map (Prod.mk number)) := by
  induction events generalizing queue with
  | nil => simp
  | cons e events ih =>
    have hput : (putOwned number queue e).Sublist (queue ++ [(number, e)]) := by
      unfold putOwned
      split_ifs
      · exact List.Sublist.refl _
      · exact List.sublist_append_left _ _
    rw [List.foldl_cons, List.map_cons, List.append_cons]
    exact (ih _).trans (hput.append_right _)

theorem putAll_owner {number : ℕ} (events : List TeslaKeyCardNfcEvent) {queue : List OwnedEvent}
    {o : OwnedEvent} (h : o ∈ events.foldl (putOwned number) queue) : o ∈ queue ∨ o.1 = number := by
  rcases List.mem_append.mp ((putAll_sublist events queue).mem h) with hold | hnew
  · exact Or.inl hold
  · obtain ⟨e, -, rfl⟩ := List.mem_map.mp hnew
    exact Or.inr rfl

theorem putAll_bound {number : ℕ} (events : List TeslaKeyCardNfcEvent) {queue : List OwnedEvent}
    (h : queue.length ≤ teslaNfcEventQueueSize) :
    (events.foldl (putOwned number) queue).length ≤ teslaNfcEventQueueSize := by
  induction events generalizing queue with
  | nil => exact h
  | cons e events ih =>
    apply ih
    unfold putOwned
    split_ifs with hroom
    · rw [List.length_append, List.length_singleton]
      exact hroom
    · exact h

theorem Tracked.worker {m : NfcStatus} {s s' : Site} (h : Tracked m s) (hstep : WorkerStep s s') :
    Tracked m s' := by
  cases hstep with
  | @callback crypto nfc nfc' event w b number t hrunning hx =>
    have hon : m.running = true := by rw [h.running, hrunning]; rfl
    have hnumber := h.runner number hrunning
    refine ⟨h.object, h.running, h.runner, receive_events _ h.events, putAll_bound _ h.bound,
      fun hoff => absurd (hon.symm.trans hoff) (by decide), h.full, fun o ho => ?_⟩
    rcases putAll_owner _ ho with hold | hnew
    · exact h.owned o hold
    · rw [hnew]
      exact hnumber

theorem Tracked.queue_nil {m : NfcStatus} {s : Site} (h : Tracked m s)
    (hrunning : m.running = false) (hqueue : m.queued = 0) : s.2.queue = [] :=
  List.eq_nil_of_length_eq_zero (Nat.le_zero.mp (hqueue ▸ h.queued hrunning))

theorem Tracked.idle {m : NfcStatus} {s : Site} (h : Tracked m s) (hrunning : m.running = false) :
    s.2.running = none := by
  have hoff := h.running.symm.trans hrunning
  cases hs : s.2.running with
  | none => rfl
  | some number => simp [hs] at hoff

theorem Tracked.take {m : NfcStatus} {s s' : Site} {r : Option TeslaKeyCardNfcEvent}
    (h : Tracked m s) (hE : siteEnv D mayFail s .nfcEventQueueGet r s') :
    Tracked ((nfcProtocol false).observe m ⟨.nfcEventQueueGet, r⟩) s' := by
  obtain ⟨w, b⟩ := s
  obtain ⟨w', b'⟩ := s'
  obtain ⟨hE, rfl⟩ := hE
  obtain ⟨rfl, rfl⟩ := take_spec hE
  have hevents : w.events = b.queue.map Prod.snd := h.events
  have htail : b.queue.tail.length ≤ b.queue.length := by simp
  have hkeep (m' : NfcStatus) (hobject : m'.object = m.object) (hrunning : m'.running = m.running)
      (hqueued : m'.running = false → b.queue.tail.length ≤ m'.queued)
      (hfull : m'.running = true → m'.queued = teslaNfcEventQueueSize) :
      Tracked m' ({ w with events := w.events.tail },
        b.observe ⟨.nfcEventQueueGet, w.events.head?⟩) :=
    ⟨hobject.trans h.object, hrunning.trans h.running, h.runner, by
      change w.events.tail = b.queue.tail.map Prod.snd
      rw [hevents, List.map_tail], htail.trans h.bound, hqueued, hfull,
      fun o ho => h.owned o (List.mem_of_mem_tail ho)⟩
  by_cases hrunning : m.running = true
  · have hobserve : m.observe ⟨.nfcEventQueueGet, w.events.head?⟩ = m := if_pos hrunning
    change Tracked (m.observe ⟨.nfcEventQueueGet, w.events.head?⟩) _
    rw [hobserve]
    exact hkeep m rfl rfl (fun hoff => absurd (hrunning.symm.trans hoff) (by decide)) h.full
  · have hoff : m.running = false := by simpa using hrunning
    have hqueued : b.queue.length ≤ m.queued := h.queued hoff
    change Tracked (m.observe ⟨.nfcEventQueueGet, w.events.head?⟩) _
    rw [NfcStatus.observe_take hoff]
    refine hkeep _ rfl rfl (fun _ => ?_) fun hon => absurd (hoff.symm.trans hon) (by decide)
    dsimp only
    rw [hevents]
    cases hq : b.queue with
    | nil => simp
    | cons o rest =>
      rw [hq, List.length_cons] at hqueued
      rw [if_neg (by simp), List.tail_cons]
      omega

theorem Tracked.start {m : NfcStatus} {s s' : Site} {address : ℕ} (h : Tracked m s)
    (hrunning : m.running = false) (hobject : m.object = some address) (hqueue : m.queued = 0)
    (hE : siteEnv D mayFail s (.nfcListenerStart address) () s') :
    Tracked { m with running := true, queued := teslaNfcEventQueueSize } s' := by
  obtain ⟨w, b⟩ := s
  obtain ⟨w', b'⟩ := s'
  obtain ⟨hE, rfl⟩ := hE
  have hnil := h.queue_nil hrunning hqueue
  obtain ⟨object, hlive, haddress⟩ := Option.map_eq_some_iff.mp (h.object.symm.trans hobject)
  have hnumber : b.numberAt address = object.number := by
    rw [Book.numberAt, show b.live = some object from hlive]
    exact if_pos haddress
  refine ⟨h.object, rfl, fun number hnum => ?_, ?_, h.bound, fun hoff => absurd hoff (by simp),
    fun _ => rfl, h.owned⟩
  · obtain rfl := Option.some.inj hnum
    change b.live.map NumberedObject.number = some (b.numberAt address)
    rw [hnumber, show b.live = some object from hlive]
    rfl
  · exact (events_kept (fun h => by cases h) hE).trans h.events

theorem nfcProtocol_tracks :
    (nfcProtocol false).Tracks Tracked (siteEnv D mayFail) WorkerStep where
  other := fun m s s' h hstep => h.worker hstep
  call := by
    intro m s c r s' hallows h hE
    obtain ⟨w, b⟩ := s
    obtain ⟨w', b'⟩ := s'
    have hE' := hE
    obtain ⟨hE, hbook⟩ := hE
    have hsame (hc : c ≠ .nfcEventQueueGet) (hb : b' = b) : Tracked m (w', b') := by
      subst hb
      exact ⟨h.object, h.running, h.runner, (events_kept hc hE).trans h.events, h.bound, h.queued,
        h.full, h.owned⟩
    cases c with
    | nfcEventQueueGet => exact h.take hE'
    | nfcListenerStart address => exact h.start hallows.1 hallows.2.1 hallows.2.2 hE'
    | nfcListenerStop =>
      obtain rfl := hbook
      refine ⟨h.object, rfl, fun number hnum => ?_, (events_kept (fun h => by cases h) hE).trans
        h.events, h.bound, fun _ => ?_, fun hon => absurd hon (by simp [nfcProtocol,
          NfcStatus.observe]), h.owned⟩
      · cases hnum
      · exact h.bound.trans_eq (h.full hallows).symm
    | mallocNfc =>
      obtain rfl := hbook
      obtain ⟨hrunning, hobject, hqueue⟩ := hallows
      have hnil := h.queue_nil hrunning hqueue
      have hidle := h.idle hrunning
      refine ⟨rfl, h.running, fun number hnum => ?_, (events_kept (fun h => by cases h) hE).trans
        h.events, h.bound, h.queued, h.full, fun o ho => ?_⟩
      · exact absurd (hidle.symm.trans hnum) (by simp)
      · exact absurd (hnil ▸ ho : o ∈ ([] : List OwnedEvent)) (by simp)
    | freeNfc address =>
      obtain rfl := hbook
      obtain ⟨hrunning, hobject, hqueue⟩ := hallows
      have hnil := h.queue_nil hrunning (hqueue.resolve_right (by simp))
      have hidle := h.idle hrunning
      refine ⟨rfl, h.running, fun number hnum => ?_, (events_kept (fun h => by cases h) hE).trans
        h.events, h.bound, h.queued, h.full, fun o ho => ?_⟩
      · exact absurd (hidle.symm.trans hnum) (by simp)
      · exact absurd (hnil ▸ ho : o ∈ ([] : List OwnedEvent)) (by simp)
    | _ => exact hsame (fun h => by cases h) hbook

end

end FlipperApps.Tesla
