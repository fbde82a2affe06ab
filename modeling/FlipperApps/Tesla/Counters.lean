import FlipperApps.Tesla.Accounting
import FlipperApps.Tesla.Screen
import FlipperApps.Tesla.Session

/-!
# The counters belong to one identity

Every queued event was emitted by the NFC object that is alive, also while a handler
is under way. After a successful reset the counters are the numbers of the events
that the new object emitted and the ticks dequeued, up to the next confirmed reset.
-/

namespace FlipperApps.Tesla
open Calls

def QueueOfLive (s : Site) : Prop :=
  ∀ o ∈ s.2.queue, s.2.live.map NumberedObject.number = some o.1

def QueueOfHeld (a : AppState) : Prop :=
  ∀ o ∈ a.2.2.queue, ∃ nfc, a.1.nfc = some nfc ∧ a.2.2.live = some ⟨o.1, nfc.address⟩

def AppLabel.dequeued : AppLabel → List TeslaKeyCardNfcEvent
  | .tick t => Tesla.dequeued t
  | _ => []

/-- The custom event was handled: the screen was the one that it is for. -/
def AppLabel.Handles (custom : UInt32) : AppLabel → Prop
  | .custom event handled _ => event = custom ∧ handled = true
  | _ => False

structure ResetDone (D : Device) (mayFail : HalCall → Prop) (a : AppState) (t : List HalEvent)
    (b : AppState) : Prop where
  screen : a.1.screen = .reset
  executes : Executes (appEnv D mayFail) (teslaKeyCardResetIdentity { a.1 with screen := .main })
    a.2 t (true, b.1) b.2

/-- The app holds a new object, whose listener runs. No event was taken from the queue,
and every event and answer before is that of another object. -/
structure Renews (a b : AppState) (number : ℕ) : Prop where
  held : ∃ nfc, b.1.nfc = some nfc ∧ nfc.listener = true ∧ nfc.uid = b.1.identity.uid ∧
    b.2.2.live = some ⟨number, nfc.address⟩ ∧ b.2.2.running = some number
  taken : b.2.2.taken = a.2.2.taken
  before : (∀ o ∈ a.2.2.taken, o.1 < number) ∧ ∀ x ∈ a.2.2.served, x.1 < number

/-- The events that the ticks of a run dequeued. Nothing else takes events from the
queue but a request of a reset. -/
structure DequeuedBy (s : Site) (labels : List AppLabel) (s' : Site) (events : List OwnedEvent) :
    Prop where
  dequeued : events.map Prod.snd = labels.flatMap AppLabel.dequeued
  taken : ∃ taken, s'.2.taken = s.2.taken ++ taken ∧ events.Sublist taken ∧
    ((∀ l ∈ labels, ¬ l.Handles teslaAppEventResetRequest) → events = taken)

/-- The counters are modulo 2^32. -/
structure CountsOnly (number : ℕ) (a : AppState) (events : List OwnedEvent) : Prop where
  emitted : ∀ o ∈ events, o.1 = number
  sessions : a.1.model.sessions.toNat = events.countP (emittedAs number .select) % 2 ^ 32
  authentications : a.1.model.authentications.toNat =
    events.countP (emittedAs number .authenticate) % 2 ^ 32
  answered : ∀ event, CountedEvent event → events.countP (emittedAs number event) ≤
    a.2.2.served.countP (answeredAs number event)

section
variable {D : Device} {mayFail : HalCall → Prop} {m : NfcStatus} {app : TeslaKeyCardApp}
  {s : Site} {a b c : AppState} {number : ℕ}

theorem takeNfcEvents_accepts {leaving : Bool} {n : ℕ} :
    (nfcProtocol leaving).Accepts (takeNfcEvents n app) m fun _ _ => True := by
  induction n generalizing app m with
  | zero => trivial
  | succ n ih =>
    refine ⟨trivial, fun event => ?_⟩
    cases event with
    | none => trivial
    | some event => exact ih

theorem accepts_queueOfLive {α : Type} {p : HalProgram α} {Q : α → NfcStatus → Prop}
    (h : (nfcProtocol false).Accepts p m Q) (htracked : Tracked m s) :
    Throughout (appEnv D mayFail) (besides WorkerStep) p s QueueOfLive := by
  apply (h.throughout nfcProtocol_tracks htracked).mono
  intro s' h
  obtain ⟨m', htracked'⟩ := h
  exact htracked'.owned

theorem Between.queueOfHeld (h : Between a) : QueueOfHeld a := by
  intro o ho
  obtain ⟨m, -, htracked⟩ := id h
  obtain ⟨object, hlive, hnumber⟩ := Option.map_eq_some_iff.mp (htracked.owned o ho)
  obtain ⟨nfc, hnfc, hobject⟩ := h.held hlive
  refine ⟨nfc, hnfc, ?_⟩
  rw [hlive, ← hnumber]
  exact congrArg some hobject

section
variable {model : TeslaKeyCardViewModel}

theorem handleNfcEvent_counts (event : TeslaNfcEvent) (time : UInt16) :
    (model.handleNfcEvent event time).sessions =
        model.sessions + UInt32.ofNat (if event = .select then 1 else 0) ∧
      (model.handleNfcEvent event time).authentications =
        model.authentications + UInt32.ofNat (if event = .authenticate then 1 else 0) := by
  cases event with
  | select => simp [TeslaKeyCardViewModel.handleNfcEvent]
  | authenticate => simp [TeslaKeyCardViewModel.handleNfcEvent]
  | _ => simp [TeslaKeyCardViewModel.handleNfcEvent]

theorem handleAll_counts (events : List OwnedEvent) (hemitted : ∀ o ∈ events, o.1 = number) :
    (model.handleAll events).sessions =
        model.sessions + UInt32.ofNat (events.countP (emittedAs number .select)) ∧
      (model.handleAll events).authentications =
        model.authentications + UInt32.ofNat (events.countP (emittedAs number .authenticate)) := by
  induction events generalizing model with
  | nil => simp [TeslaKeyCardViewModel.handleAll]
  | cons o events ih =>
    obtain ⟨hsessions, hauthentications⟩ := @ih (model.handleNfcEvent o.2.event o.2.cryptoTimeMs)
      fun o' ho' => hemitted o' (List.mem_cons_of_mem _ ho')
    obtain ⟨hselect, hauthenticate⟩ := @handleNfcEvent_counts model o.2.event o.2.cryptoTimeMs
    have hone (event : TeslaNfcEvent) : (o :: events).countP (emittedAs number event) =
        (if o.2.event = event then 1 else 0) + events.countP (emittedAs number event) := by
      rw [List.countP_cons, Nat.add_comm]
      simp [emittedAs, hemitted o (by simp)]
    rw [hone, hone, UInt32.ofNat_add, UInt32.ofNat_add, ← UInt32.add_assoc, ← UInt32.add_assoc,
      ← hselect, ← hauthenticate]
    exact ⟨hsessions, hauthentications⟩

end

theorem rebuild_renews (h : m.Matches app) (hqueue : m.queued = 0) (htracked : Tracked m s)
    {n : ℕ} (hborn : n ≤ s.2.born) :
    Always (appEnv D mayFail) (rebuildIdentity app) s fun _ _ s' =>
      YoungerThan n s'.2 ∧ s'.2.taken = s.2.taken := by
  have huntaken : Always (appEnv D mayFail) (rebuildIdentity app) s fun _ _ s' =>
      s'.2.taken = s.2.taken :=
    (untaken_invariant s.2.taken).always (rebuild_uses (fun _ h => h.ne_take) (fun _ h =>
      h.outside.ne_take) app) rfl
  apply Always.and _ huntaken
  apply (((freeNfc_accepts h (Or.inl hqueue)).tracked nfcProtocol_tracks htracked).and
    ((born_invariant n).always (Program.uses_true _) hborn)).bind
  intro t app₁ s₁ h₁
  obtain ⟨⟨-, ⟨-, hm⟩, htracked₁⟩, hborn₁⟩ := h₁
  have hnone : s₁.2.live = none := by
    have hobject := htracked₁.object
    rw [hm] at hobject
    exact Option.map_eq_none_iff.mp hobject.symm
  apply (youngerThan_invariant n).always (Program.uses_true _)
  exact ⟨hborn₁, fun object hlive => absurd (hnone.symm.trans hlive) (by simp)⟩

theorem reset_renews (h : m.Matches app) (hbound : m.queued ≤ teslaNfcEventQueueSize)
    (htracked : Tracked m s) {n : ℕ} {taken : List OwnedEvent} (hs : Silent n taken s.2) :
    Always (appEnv D mayFail) (teslaKeyCardResetIdentity app) s fun _ r s' => r.1 = true →
      YoungerThan n s'.2 ∧ s'.2.taken = taken := by
  have hmodel : m.Matches (teslaKeyCardSetModel app .resetting false) := ⟨h.object, h.running⟩
  apply (((stopNfc_accepts hmodel).tracked nfcProtocol_tracks htracked).and
    ((silent_invariant _ _).always ((stopNfc_uses _).mono fun _ => StopCall.noStart) hs)).bind
  intro t₁ app₁ s₁ h₁
  obtain ⟨⟨-, ⟨rfl, hm₁⟩, htracked₁⟩, hs₁⟩ := h₁
  rw [hm₁] at htracked₁
  have hroom : m.queued ≤ 17 := Nat.le_succ_of_le hbound
  apply (((drain_accepts (m := { m with running := false }) rfl hroom).tracked nfcProtocol_tracks
    htracked₁).and ((silent_invariant _ _).always drain_noStart hs₁)).bind
  intro t₂ _ s₂ h₂
  obtain ⟨⟨-, hm₂, htracked₂⟩, hs₂⟩ := h₂
  rw [hm₂] at htracked₂
  have hdelete : (nfcProtocol false).Accepts teslaIdentityDelete
      { m with running := false, queued := 0 } fun _ m' =>
        m' = { m with running := false, queued := 0 } :=
    ⟨rfl, fun _ => ⟨rfl, fun _ => rfl⟩⟩
  apply ((hdelete.tracked nfcProtocol_tracks htracked₂).and ((silent_invariant _ _).always
    (delete_uses.mono fun _ => OutsideCall.noStart) hs₂)).bind
  intro t₃ deleted s₃ h₃
  obtain ⟨⟨-, hm₃, htracked₃⟩, hs₃⟩ := h₃
  rw [hm₃] at htracked₃
  cases deleted with
  | false =>
    apply Always.bind (always_returns (Program.returns_true _))
    intro t₄ r s₄ _ hfalse
    exact absurd hfalse (by simp)
  | true =>
    have hmatch := h.stopped 0 (teslaKeyCardSetModel app .resetting false).model app.screen
    apply (rebuild_renews hmatch rfl htracked₃ hs₃.born).mono
    intro t₄ r s₄ h₄ _
    exact ⟨h₄.1, h₄.2.trans hs₃.taken⟩

theorem ResetDone.step {t : List HalEvent} (h : ResetDone D mayFail a t b) :
    AppStep D mayFail a (.custom teslaAppEventResetConfirm true t) b :=
  confirm_step h.screen h.executes

theorem ResetDone.rebuilt {t : List HalEvent} (h : ResetDone D mayFail a t b) (ha : Between a) :
    Between b ∧ b.1.model.sessions = 0 ∧ b.1.model.authentications = 0 ∧
      ∃ nfc, b.1.nfc = some nfc ∧ nfc.listener = true ∧ nfc.uid = b.1.identity.uid := by
  obtain ⟨m, hsettled, htracked⟩ := ha
  have hmatch : m.Matches { a.1 with screen := .main } :=
    ⟨hsettled.agrees.object, hsettled.agrees.running⟩
  obtain ⟨-, hreset, htracked'⟩ := always_iff.mp
    ((reset_accepts hmatch hsettled.bound).tracked nfcProtocol_tracks htracked) _ _ _ h.executes
  refine ⟨⟨_, hreset.settled rfl, htracked'⟩, ?_⟩
  clear htracked'
  obtain ⟨app, s⟩ := b
  generalize (nfcProtocol false).after m t = m' at hreset
  cases hreset with
  | rebuilt hrebuilt =>
    cases hrebuilt with
    | served => exact ⟨rfl, rfl, _, rfl, rfl, rfl⟩

theorem ResetDone.renews {t : List HalEvent} (h : ResetDone D mayFail a t b) (ha : Between a)
    (hnumbered : Numbered a.2.2) : ∃ number, Renews a b number := by
  obtain ⟨hbetween, -, -, nfc, hnfc, hlistener, huid⟩ := h.rebuilt ha
  obtain ⟨m, hsettled, htracked⟩ := ha
  have hrunning := hsettled.reset h.screen
  have hsilent : Silent a.2.2.born a.2.2.taken a.2.2 :=
    ⟨htracked.idle hrunning, htracked.queue_nil hrunning (hsettled.empty hrunning), rfl,
      Nat.le_refl _⟩
  have hmatch : m.Matches { a.1 with screen := .main } :=
    ⟨hsettled.agrees.object, hsettled.agrees.running⟩
  obtain ⟨⟨-, hyounger⟩, htaken⟩ := always_iff.mp
    (reset_renews hmatch hsettled.bound htracked hsilent) _ _ _ h.executes rfl
  have hmain : b.1.screen = .main := by
    obtain ⟨m', hsettled', -⟩ := id hbetween
    apply hsettled'.screen_main
    rw [hsettled'.agrees.running, hnfc]
    exact hlistener
  obtain ⟨nfc', number, hnfc', -, hlive, hrun⟩ := hbetween.serves (by rw [hnfc]; rfl) hmain
  obtain rfl := Option.some.inj (hnfc.symm.trans hnfc')
  have hnew : a.2.2.born < number := hyounger _ hlive
  refine ⟨number, ⟨nfc, hnfc, hlistener, huid, hlive, hrun⟩, htaken, fun o ho => ?_, fun x hx => ?_⟩
  · exact (hnumbered.events o (List.mem_append_left _ ho)).trans_lt hnew
  · exact (hnumbered.served x hx).trans_lt hnew

structure Counting (number : ℕ) (b : AppState) (labels : List AppLabel) (c : AppState)
    (events : List OwnedEvent) : Prop where
  dequeued : DequeuedBy b.2 labels c.2 events
  emitted : ∀ o ∈ events, o.1 = number
  sessions : c.1.model.sessions = UInt32.ofNat (events.countP (emittedAs number .select))
  authentications :
    c.1.model.authentications = UInt32.ofNat (events.countP (emittedAs number .authenticate))
  live : ∀ object, c.2.2.live = some object → object.number = number

theorem DequeuedBy.snoc {s s' s'' : Site} {labels : List AppLabel} {l : AppLabel}
    {events new taken : List OwnedEvent} (h : DequeuedBy s labels s' events)
    (hnew : new.map Prod.snd = l.dequeued) (htaken : s''.2.taken = s'.2.taken ++ taken)
    (hsub : new.Sublist taken) (hall : ¬ l.Handles teslaAppEventResetRequest → new = taken) :
    DequeuedBy s (labels ++ [l]) s'' (events ++ new) := by
  obtain ⟨before, hbefore, hsublist, hsame⟩ := h.taken
  refine ⟨?_, before ++ taken, ?_, hsublist.append hsub, fun hlabels => ?_⟩
  · rw [List.map_append, h.dequeued, hnew]
    simp
  · rw [htaken, hbefore, List.append_assoc]
  · rw [hsame fun l' hl' => hlabels l' (by simp [hl']), hall (hlabels l (by simp))]

theorem Counting.uncounted {labels : List AppLabel} {l : AppLabel} {events : List OwnedEvent}
    {c' : AppState} (h : Counting number b labels c events) (hl : l.dequeued = [])
    (hsessions : c'.1.model.sessions = c.1.model.sessions)
    (hauthentications : c'.1.model.authentications = c.1.model.authentications)
    (hlive : ∀ object, c'.2.2.live = some object → object.number = number)
    (htaken : c.2.2.taken <+: c'.2.2.taken)
    (hall : ¬ l.Handles teslaAppEventResetRequest → c'.2.2.taken = c.2.2.taken) :
    Counting number b (labels ++ [l]) c' events := by
  obtain ⟨taken, htaken⟩ := htaken
  have hnext : DequeuedBy b.2 (labels ++ [l]) c'.2 (events ++ []) := by
    apply DequeuedBy.snoc h.dequeued _ htaken.symm (List.nil_sublist _)
    · intro hrequest
      have hsame := htaken.trans (hall hrequest)
      exact (List.append_right_eq_self.mp hsame).symm
    · rw [hl, List.map_nil]
  rw [List.append_nil] at hnext
  exact ⟨hnext, h.emitted, hsessions.trans h.sessions,
    hauthentications.trans h.authentications, hlive⟩

theorem customEvent_counters {event : UInt32}
    (h : ¬ (event = teslaAppEventResetConfirm ∧ app.screen = .reset)) :
    (teslaKeyCardCustomEventCallback app event).Returns fun r =>
      r.2.model.sessions = app.model.sessions ∧
        r.2.model.authentications = app.model.authentications := by
  by_cases hrequest : event = teslaAppEventResetRequest ∧ app.screen = .main
  · obtain ⟨rfl, hscreen⟩ := hrequest
    apply (request_returns hscreen).mono
    intro r hr
    rw [hr]
    exact ⟨rfl, rfl⟩
  unfold teslaKeyCardCustomEventCallback
  rw [if_neg hrequest]
  by_cases hcancel : event = teslaAppEventResetCancel ∧ app.screen = .reset
  · rw [if_pos hcancel]
    apply (resumeNfc_returns _).bind
    intro r hr
    obtain ⟨ready, app'⟩ := r
    obtain ⟨nfc, rfl, -⟩ := hr
    exact ⟨rfl, rfl⟩
  · rw [if_neg hcancel, if_neg h]
    exact ⟨rfl, rfl⟩

theorem Counting.step {labels : List AppLabel} {l : AppLabel} {events : List OwnedEvent}
    {c' : AppState} (h : Counting number b labels c events) (hbetween : Between c)
    (hstep : AppStep D mayFail c l c') (hl : ¬ l.Handles teslaAppEventResetConfirm) :
    ∃ events', Counting number b (labels ++ [l]) c' events' := by
  obtain ⟨m, hsettled, htracked⟩ := hbetween
  cases hstep with
  | @worker app s s' hworker =>
    have hkeep := workers_undisturbed (.single hworker)
    refine ⟨events, h.uncounted rfl rfl rfl (fun object hlive => ?_) ?_ fun _ => hkeep.taken⟩
    · exact h.live object (hkeep.live.symm.trans hlive)
    · exact List.prefix_iff_eq_append.mpr (by simp [hkeep.taken])
  | @tick app app' s s' t hx =>
    obtain ⟨-, -, new, hticked, hnew⟩ :=
      always_iff.mp (takeNfcEvents_spec hsettled htracked) _ _ _ hx
    have hemitted (o : OwnedEvent) (ho : o ∈ new) : o.1 = number := by
      obtain ⟨object, hlive, hnumber⟩ := Option.map_eq_some_iff.mp (hticked.owned o ho)
      rw [← hnumber]
      exact h.live object hlive
    obtain ⟨hsessions, hauthentications⟩ := @handleAll_counts number app.model new hemitted
    refine ⟨events ++ new, h.dequeued.snoc hnew hticked.taken (.refl _) fun _ => rfl,
      fun o ho => ?_, ?_, ?_, fun object hlive => h.live object (hticked.live.symm.trans hlive)⟩
    · exact (List.mem_append.mp ho).elim (h.emitted o) (hemitted o)
    · rw [hticked.app_eq, List.countP_append, UInt32.ofNat_add, ← h.sessions]
      exact hsessions
    · rw [hticked.app_eq, List.countP_append, UInt32.ofNat_add, ← h.authentications]
      exact hauthentications
  | @custom app app' s s' event handled t hx =>
    have hconfirm : ¬ (event = teslaAppEventResetConfirm ∧ app.screen = .reset) := by
      intro hconfirm
      obtain ⟨rfl, hscreen⟩ := hconfirm
      exact hl ⟨rfl, (executes_handled hx).trans (handles_confirm hscreen)⟩
    obtain ⟨hsessions, hauthentications⟩ :=
      always_iff.mp (always_returns (customEvent_counters hconfirm)) _ _ _ hx
    have hobject : (teslaKeyCardCustomEventCallback app event).Uses
        fun c : HalCall => c ≠ .mallocNfc :=
      customEvent_uses (fun _ => ListenerCall.ne_malloc) (fun _ => by simp) hconfirm
    have hlive := always_iff.mp ((sameObject_invariant number).always hobject h.live) _ _ _ hx
    have htaken := always_iff.mp ((taken_invariant s.2.taken).always (Program.uses_true _)
      (List.prefix_refl _)) _ _ _ hx
    refine ⟨events, h.uncounted rfl hsessions hauthentications hlive htaken fun hrequest => ?_⟩
    have htake : (teslaKeyCardCustomEventCallback app event).Uses
        fun c : HalCall => c ≠ .nfcEventQueueGet := by
      apply customEvent_uses (fun _ h => h.object.ne_take) _ hconfirm
      intro hmain
      obtain ⟨rfl, hscreen⟩ := hmain
      have hreturned := always_iff.mp (always_returns (request_returns hscreen)) _ _ _ hx
      exact absurd ⟨rfl, (Prod.mk.inj hreturned).1⟩ hrequest
    exact always_iff.mp ((untaken_invariant s.2.taken).always htake rfl) _ _ _ hx
  | navigation =>
    exact ⟨events, h.uncounted rfl rfl rfl h.live (List.prefix_refl _) fun _ => rfl⟩

theorem Counting.countsOnly {labels : List AppLabel} {events : List OwnedEvent}
    (h : Counting number b labels c events) (haccounted : Accounted c.2.2) :
    CountsOnly number c events := by
  refine ⟨h.emitted, ?_, ?_, fun event hcounted => ?_⟩
  · rw [h.sessions, UInt32.toNat_ofNat']
  · rw [h.authentications, UInt32.toNat_ofNat']
  · obtain ⟨taken, htaken, hsublist, -⟩ := h.dequeued.taken
    have hall : events.Sublist (c.2.2.taken ++ c.2.2.queue) := by
      rw [htaken]
      exact (hsublist.trans (List.sublist_append_right _ _)).trans (List.sublist_append_left _ _)
    exact hall.countP_le.trans (haccounted number event hcounted)

theorem run_counts {labels : List AppLabel} (hb : Between b)
    (hstart : Counting number b [] b []) (hrun : Run (AppStep D mayFail) b labels c)
    (hlabels : ∀ l ∈ labels, ¬ l.Handles teslaAppEventResetConfirm) :
    ∃ events, Counting number b labels c events := by
  have hall : Between c ∧ ((∀ l ∈ labels, ¬ l.Handles teslaAppEventResetConfirm) →
      ∃ events, Counting number b labels c events) := by
    apply hrun.invariant (P := fun labels c => Between c ∧
      ((∀ l ∈ labels, ¬ l.Handles teslaAppEventResetConfirm) →
        ∃ events, Counting number b labels c events))
    · exact ⟨hb, fun _ => ⟨[], hstart⟩⟩
    · intro labels c l c' ih hstep
      refine ⟨hstep.between ih.1, fun hnone => ?_⟩
      obtain ⟨events, hcounting⟩ := ih.2 fun l' hl' => hnone l' (by simp [hl'])
      exact hcounting.step ih.1 hstep (hnone l (by simp))
  exact hall.2 hlabels

theorem ResetDone.counting {t : List HalEvent} (h : ResetDone D mayFail a t b) (ha : Between a)
    (hnew : Renews a b number) : Counting number b [] b [] := by
  obtain ⟨-, hsessions, hauthentications, -⟩ := h.rebuilt ha
  obtain ⟨nfc, -, -, -, hlive, -⟩ := hnew.held
  refine ⟨⟨rfl, [], (List.append_nil _).symm, .refl _, fun _ => rfl⟩, by simp, hsessions,
    hauthentications, fun object hobject => ?_⟩
  rw [hlive] at hobject
  rw [← Option.some.inj hobject]

theorem counters_never_mix {d : Disk} {t₀ : List HalEvent} {a₀ : AppState} {labels : List AppLabel}
    (hstart : Starts D mayFail d t₀ a₀) (hrun : Run (AppStep D mayFail) a₀ labels a) :
    Throughout (appEnv D mayFail) (besides WorkerStep) teslaKeyCardStart
      (World.idle d [], Book.empty) QueueOfLive ∧
    QueueOfHeld a ∧
    (∀ event, Throughout (appEnv D mayFail) (besides WorkerStep)
      (teslaKeyCardCustomEventCallback a.1 event) a.2 QueueOfLive) ∧
    Throughout (appEnv D mayFail) (besides WorkerStep) (teslaKeyCardTickEventCallback a.1) a.2
      QueueOfLive ∧
    ∀ t b, ResetDone D mayFail a t b → ∃ number, Renews a b number ∧
      ∀ labels c, Run (AppStep D mayFail) b labels c →
        (∀ l ∈ labels, ¬ l.Handles teslaAppEventResetConfirm) →
        ∃ events, DequeuedBy b.2 labels c.2 events ∧ CountsOnly number c events := by
  have hbetween := run_between hrun hstart.between
  have haccounted := accounted_invariant.reached accounted_empty hstart hrun
  have hnumbered := numbered_invariant.reached numbered_empty hstart hrun
  obtain ⟨m, hsettled, htracked⟩ := id hbetween
  refine ⟨accepts_queueOfLive start_accepts (tracked_empty d), hbetween.queueOfHeld,
    fun event => accepts_queueOfLive (customEvent_accepts hsettled event) htracked,
    accepts_queueOfLive takeNfcEvents_accepts htracked, fun t b hreset => ?_⟩
  obtain ⟨number, hnew⟩ := hreset.renews hbetween hnumbered
  refine ⟨number, hnew, fun labels' c hrun' hlabels => ?_⟩
  have hb := hreset.step.between hbetween
  obtain ⟨events, hcounting⟩ := run_counts hb (hreset.counting hbetween hnew) hrun' hlabels
  have hc : Accounted c.2.2 := by
    apply hrun'.invariant (P := fun _ c => Accounted c.2.2)
    · exact accounted_invariant.step haccounted hreset.step
    · exact fun _ _ _ _ h hstep => accounted_invariant.step h hstep
  exact ⟨events, hcounting.dequeued, hcounting.countsOnly hc⟩

theorem observeAll_queue (t : List HalEvent) {b : Book} (hb : b.queue = []) :
    (t.foldl Book.observe b).queue = [] := by
  induction t generalizing b with
  | nil => exact hb
  | cons e t ih =>
    apply ih
    obtain ⟨c, r⟩ := e
    cases c with
    | nfcEventQueueGet =>
      change b.queue.tail = []
      rw [hb]
      rfl
    | _ => exact hb

end

theorem selectTesla_served {w : World} {b : Book} {number : ℕ}
    (hrunning : b.running = some number) :
    WorkerStep (w, b) (w.receive [⟨.select, 0⟩], b.serve number (.receivedData selectTesla)
      [⟨.sendBlock [0x90, 0x00], .none⟩, ⟨.notify .select 0, ()⟩]) := by
  have reply {c : NfcCall} {r : c.Reply} : anyReply NfcInterface () c r () := trivial
  have hx : Executes (anyReply NfcInterface) (teslaNfcListenerCallback (TeslaCrypto.zeroed 0) true
      (runningNfc false) (.receivedData selectTesla)) ()
      [⟨.sendBlock [0x90, 0x00], .none⟩, ⟨.notify .select 0, ()⟩] (runningNfc true) () :=
    .call reply (.call reply (.done _ ()))
  exact .callback _ hrunning hx

theorem tick_takes {D : Device} {mayFail : HalCall → Prop} {app : TeslaKeyCardApp} {w : World}
    {b : Book} {event : TeslaKeyCardNfcEvent} (hevents : w.events = [event]) :
    ∃ app' s', AppStep D mayFail (app, w, b)
      (.tick [⟨.nfcEventQueueGet, some event⟩, ⟨.nfcEventQueueGet, none⟩]) (app', s') := by
  let w₁ : World := { w with events := [] }
  let b₁ : Book := b.observe ⟨.nfcEventQueueGet, some event⟩
  have hfirst : siteEnv D mayFail (w, b) .nfcEventQueueGet (some event) (w₁, b₁) :=
    ⟨.inl ⟨by rw [hevents]; rfl, by rw [hevents]; rfl⟩, rfl⟩
  have hsecond : siteEnv D mayFail (w₁, b₁) .nfcEventQueueGet none
      (w₁, b₁.observe ⟨.nfcEventQueueGet, none⟩) := ⟨.inl ⟨rfl, rfl⟩, rfl⟩
  have htick : Executes (siteEnv D mayFail) (teslaKeyCardTickEventCallback app) (w, b)
      [⟨.nfcEventQueueGet, some event⟩, ⟨.nfcEventQueueGet, none⟩]
      (teslaKeyCardHandleNfcEvent app event.event event.cryptoTimeMs)
      (w₁, b₁.observe ⟨.nfcEventQueueGet, none⟩) := .call hfirst (.call hsecond (.done _ _))
  exact ⟨_, _, .tick htick.under⟩

/-- After a reset of the app that serves its stored identity, the vehicle selects the
card and a tick counts it. -/
theorem counters_never_mix_select :
    ∃ t₀ a₀ t₁ a t₂ b number t₃ c events, Starts plainDevice noFailure twinDisk t₀ a₀ ∧
      AppStep plainDevice noFailure a₀ (.custom teslaAppEventResetRequest true t₁) a ∧
      QueueOfHeld a ∧ ResetDone plainDevice noFailure a t₂ b ∧ Renews a b number ∧
      Run (AppStep plainDevice noFailure) b [.worker, .tick t₃] c ∧
      DequeuedBy b.2 [.worker, .tick t₃] c.2 events ∧ CountsOnly number c events ∧
      c.1.model.sessions = 1 := by
  obtain ⟨t₀, a₀, hstart, -, hnfc, hrest⟩ := exists_starts_twin
  obtain ⟨t₁, s, hrequest, hrest₁⟩ := @exists_request plainDevice noFailure twinDisk a₀.1 a₀.2
    hstart.screen_main hrest
  let app : TeslaKeyCardApp :=
    { a₀.1 with screen := .reset, nfc := a₀.1.nfc.map TeslaNfc.stopped }
  have hrun : Run (AppStep plainDevice noFailure) a₀ [.custom teslaAppEventResetRequest true t₁]
      (app, s) := .snoc (.nil a₀) hrequest
  obtain ⟨-, hheld, -, -, hresets⟩ := counters_never_mix hstart hrun
  obtain ⟨t₂, app', w, hreset⟩ := @exists_reset plainDevice noFailure twinDisk s
    { app with screen := .main } hrest₁
  have hdone : ResetDone plainDevice noFailure (app, s) t₂ (app', w, t₂.foldl Book.observe s.2) :=
    ⟨rfl, hreset⟩
  obtain ⟨number, hnew, hcounts⟩ := hresets _ _ hdone
  obtain ⟨nfc, -, -, -, -, hrunning⟩ := hnew.held
  obtain ⟨m, hsettled, htracked⟩ := hrequest.between hstart.between
  have hidle := hsettled.reset rfl
  have hqueue := observeAll_queue t₂ (htracked.queue_nil hidle (hsettled.empty hidle))
  obtain ⟨m', -, htracked'⟩ := hdone.step.between ⟨m, hsettled, htracked⟩
  have hevents : w.events = [] := htracked'.events.trans (by rw [hqueue]; rfl)
  obtain ⟨app'', s'', htick⟩ := @tick_takes plainDevice noFailure app'
    (w.receive [⟨.select, 0⟩]) _ ⟨.select, 0⟩ (by rw [World.receive, hevents]; rfl)
  have hrun' := Run.snoc (Run.snoc (Run.nil _) (.worker (selectTesla_served hrunning))) htick
  obtain ⟨events, hdequeued, honly⟩ := hcounts _ _ hrun' (by simp [AppLabel.Handles])
  refine ⟨t₀, a₀, t₁, _, t₂, _, number, _, _, events, hstart, hrequest, hheld, hdone, hnew, hrun',
    hdequeued, honly, ?_⟩
  obtain ⟨o, rfl, ho⟩ := List.map_eq_singleton_iff.mp hdequeued.dequeued
  have hone : [o].countP (emittedAs number .select) = 1 := by
    rw [List.countP_singleton, if_pos]
    simp [emittedAs, honly.emitted o (by simp), ho]
  exact UInt32.toNat_inj.mp (honly.sessions.trans (by rw [hone]; rfl))

end FlipperApps.Tesla
