import FlipperApps.Tesla.Interleaving

/-!
# What holds between two events of the app

A tick takes events only from a running listener, and handles them in order; so
it keeps the app settled, as every other step does.
-/

namespace FlipperApps.Tesla
open Calls

def TeslaKeyCardViewModel.handleAll (model : TeslaKeyCardViewModel) (events : List OwnedEvent) :
    TeslaKeyCardViewModel :=
  events.foldl (fun model e => model.handleNfcEvent e.2.event e.2.cryptoTimeMs) model

def dequeued (t : List HalEvent) : List TeslaKeyCardNfcEvent :=
  t.filterMap fun
    | ⟨.nfcEventQueueGet, event⟩ => event
    | _ => none

structure Undisturbed (s s' : Site) : Prop where
  disk : s'.1.disk = s.1.disk
  file : s'.1.file = s.1.file
  enclave : s'.1.enclave = s.1.enclave
  born : s'.2.born = s.2.born
  live : s'.2.live = s.2.live
  running : s'.2.running = s.2.running
  taken : s'.2.taken = s.2.taken

theorem Undisturbed.refl (s : Site) : Undisturbed s s := ⟨rfl, rfl, rfl, rfl, rfl, rfl, rfl⟩

theorem Undisturbed.trans {s₁ s₂ s₃ : Site} (h : Undisturbed s₁ s₂) (h' : Undisturbed s₂ s₃) :
    Undisturbed s₁ s₃ :=
  ⟨h'.disk.trans h.disk, h'.file.trans h.file, h'.enclave.trans h.enclave, h'.born.trans h.born,
    h'.live.trans h.live, h'.running.trans h.running, h'.taken.trans h.taken⟩

theorem workers_undisturbed {s s' : Site} (h : Relation.ReflTransGen WorkerStep s s') :
    Undisturbed s s' := by
  apply stable_star _ (Undisturbed.refl s) h
  intro s₁ s₂ h₁ hstep
  apply h₁.trans
  cases hstep with
  | callback => exact ⟨rfl, rfl, rfl, rfl, rfl, rfl, rfl⟩

section
variable {D : Device} {mayFail : HalCall → Prop} {m : NfcStatus} {app : TeslaKeyCardApp} {s : Site}

theorem Settled.screen_main (h : Settled m app) (hrunning : m.running = true) :
    app.screen = .main := by
  cases hscreen : app.screen with
  | main => rfl
  | reset => exact absurd (hrunning.symm.trans (h.reset hscreen)) (by decide)

theorem Settled.nfc_isSome (h : Settled m app) (hrunning : m.running = true) :
    app.nfc.isSome = true := by
  have happ := h.agrees.running
  cases hnfc : app.nfc with
  | none =>
    rw [hnfc] at happ
    exact absurd (hrunning.symm.trans happ) (by simp)
  | some nfc => rfl

theorem Settled.withModel (h : Settled m app) (hrunning : m.running = true)
    (model : TeslaKeyCardViewModel) : Settled m { app with model } :=
  ⟨⟨h.agrees.object, h.agrees.running⟩, h.bound, h.empty, h.main, h.reset,
    fun _ _ => h.nfc_isSome hrunning⟩

structure Ticked (app : TeslaKeyCardApp) (s : Site) (app' : TeslaKeyCardApp) (s' : Site)
    (events : List OwnedEvent) : Prop where
  app_eq : app' = { app with model := app.model.handleAll events }
  taken : s'.2.taken = s.2.taken ++ events
  disk : s'.1.disk = s.1.disk
  file : s'.1.file = s.1.file
  enclave : s'.1.enclave = s.1.enclave
  born : s'.2.born = s.2.born
  live : s'.2.live = s.2.live
  owned : ∀ e ∈ events, s.2.live.map NumberedObject.number = some e.1

/-- A take under the worker: from the stopped listener of a settled app there is
nothing to take. -/
theorem take_tracked {s' : Site} {r : Option TeslaKeyCardNfcEvent} (htracked : Tracked m s)
    (hempty : m.running = false → m.queued = 0)
    (hE : appEnv D mayFail s .nfcEventQueueGet r s') :
    Tracked m s' ∧ Ticked app s app s' [] ∧ r = none ∨
      m.running = true ∧ Tracked m s' ∧ ∃ e : OwnedEvent, r = some e.2 ∧
        Ticked app s { app with model := app.model.handleAll [e] } s' [e] := by
  obtain ⟨s₁, hstar, hE⟩ := hE
  have htracks : (nfcProtocol false).Tracks Tracked (siteEnv D mayFail) WorkerStep :=
    nfcProtocol_tracks
  have h₁ := htracks.star htracked hstar
  have hkeep := workers_undisturbed hstar
  have htake := h₁.take hE
  obtain ⟨w₁, b₁⟩ := s₁
  obtain ⟨w', b'⟩ := s'
  obtain ⟨hfaulty, rfl⟩ := hE
  obtain ⟨rfl, rfl⟩ := take_spec hfaulty
  have hevents : w₁.events = b₁.queue.map Prod.snd := h₁.events
  have hobserve (hq : m.running = true ∨ b₁.queue = []) :
      (nfcProtocol false).observe m ⟨.nfcEventQueueGet, w₁.events.head?⟩ = m := by
    by_cases hrunning : m.running = true
    · exact if_pos hrunning
    · have hoff : m.running = false := by simpa using hrunning
      change m.observe ⟨.nfcEventQueueGet, w₁.events.head?⟩ = m
      rw [NfcStatus.observe_take hoff, hevents, hq.resolve_left hrunning, ← hempty hoff]
      rfl
  cases hq : b₁.queue with
  | nil =>
    refine Or.inl ⟨hobserve (Or.inr hq) ▸ htake, ?_, by rw [hevents, hq]; rfl⟩
    refine ⟨rfl, ?_, hkeep.disk, hkeep.file, hkeep.enclave, hkeep.born, hkeep.live, by simp⟩
    change b₁.taken ++ b₁.queue.head?.toList = s.2.taken ++ []
    rw [hq, show b₁.taken = s.2.taken from hkeep.taken]
    rfl
  | cons e rest =>
    have hrunning : m.running = true := by
      by_contra hoff
      have hoff : m.running = false := by simpa using hoff
      have hnil : b₁.queue = [] := h₁.queue_nil hoff (hempty hoff)
      exact absurd (hq.symm.trans hnil) (by simp)
    refine Or.inr ⟨hrunning, hobserve (Or.inl hrunning) ▸ htake, e, by rw [hevents, hq]; rfl, ?_⟩
    refine ⟨rfl, ?_, hkeep.disk, hkeep.file, hkeep.enclave, hkeep.born, hkeep.live, ?_⟩
    · change b₁.taken ++ b₁.queue.head?.toList = s.2.taken ++ [e]
      rw [hq, show b₁.taken = s.2.taken from hkeep.taken]
      rfl
    · intro o ho
      rw [List.mem_singleton.mp ho, ← hkeep.live]
      exact h₁.owned e (by rw [show b₁.queue = _ from hq]; simp)

theorem Ticked.trans {app' app'' : TeslaKeyCardApp} {s' s'' : Site}
    {events events' : List OwnedEvent} (h : Ticked app s app' s' events)
    (h' : Ticked app' s' app'' s'' events') : Ticked app s app'' s'' (events ++ events') where
  app_eq := by
    rw [h'.app_eq, h.app_eq, TeslaKeyCardViewModel.handleAll, TeslaKeyCardViewModel.handleAll,
      TeslaKeyCardViewModel.handleAll, List.foldl_append]
  taken := by rw [h'.taken, h.taken, List.append_assoc]
  disk := h'.disk.trans h.disk
  file := h'.file.trans h.file
  enclave := h'.enclave.trans h.enclave
  born := h'.born.trans h.born
  live := h'.live.trans h.live
  owned := by
    intro e he
    rcases List.mem_append.mp he with he | he
    · exact h.owned e he
    · rw [← h.live]
      exact h'.owned e he

theorem takeNfcEvents_spec {n : ℕ} (hsettled : Settled m app) (htracked : Tracked m s) :
    Always (appEnv D mayFail) (takeNfcEvents n app) s fun t app' s' =>
      Settled m app' ∧ Tracked m s' ∧ ∃ events, Ticked app s app' s' events ∧
        events.map Prod.snd = dequeued t := by
  induction n generalizing app s with
  | zero =>
    exact ⟨hsettled, htracked, [], ⟨rfl, by simp, rfl, rfl, rfl, rfl, rfl, by simp⟩, rfl⟩
  | succ n ih =>
    intro r s' hE
    rcases @take_tracked D mayFail m app s s' r htracked hsettled.empty hE with
      ⟨h', hticked, rfl⟩ | ⟨hrunning, h', e, rfl, hticked⟩
    · exact ⟨hsettled, h', [], hticked, rfl⟩
    · have hmodel := hsettled.withModel hrunning (app.model.handleAll [e])
      apply (ih hmodel h').mono
      intro t app' s'' hrest
      obtain ⟨hsettled', htracked', events, hevents, hdequeued⟩ := hrest
      refine ⟨hsettled', htracked', e :: events, hticked.trans hevents, ?_⟩
      rw [List.map_cons, hdequeued]
      rfl

def Between (a : AppState) : Prop := ∃ m, Settled m a.1 ∧ Tracked m a.2

theorem tracked_empty (d : Disk) : Tracked .absent (World.idle d [], Book.empty) where
  object := rfl
  running := rfl
  runner := fun _ h => absurd h (by simp [Book.empty])
  events := rfl
  bound := Nat.zero_le _
  queued := fun _ => Nat.le_refl _
  full := fun h => absurd h (by decide)
  owned := fun _ h => absurd h (by simp [Book.empty])

theorem Starts.between {d : Disk} {t : List HalEvent} {a : AppState}
    (h : Starts D mayFail d t a) : Between a := by
  obtain ⟨-, hsettled, htracked⟩ := always_iff.mp
    (start_accepts.tracked nfcProtocol_tracks (tracked_empty d)) _ _ _ h
  exact ⟨_, hsettled, htracked⟩

theorem AppStep.between {a a' : AppState} {l : AppLabel} (h : AppStep D mayFail a l a')
    (ha : Between a) : Between a' := by
  obtain ⟨m, hsettled, htracked⟩ := ha
  cases h with
  | worker hstep => exact ⟨m, hsettled, htracked.worker hstep⟩
  | tick hx =>
    obtain ⟨hsettled', htracked', -⟩ :=
      always_iff.mp (takeNfcEvents_spec hsettled htracked) _ _ _ hx
    exact ⟨m, hsettled', htracked'⟩
  | custom hx =>
    obtain ⟨-, hsettled', htracked'⟩ := always_iff.mp
      ((customEvent_accepts hsettled _).tracked nfcProtocol_tracks htracked) _ _ _ hx
    exact ⟨_, hsettled', htracked'⟩
  | navigation => exact ⟨m, hsettled, htracked⟩

theorem run_between {a₀ a : AppState} {labels : List AppLabel}
    (h : Run (AppStep D mayFail) a₀ labels a) (ha : Between a₀) : Between a :=
  h.invariant (P := fun _ a => Between a) ha fun _ _ _ _ hbetween hstep => hstep.between hbetween

end

end FlipperApps.Tesla
