import FlipperApps.Tesla.Progress

/-!
# What the screen says about NFC

While the reset dialog is shown nothing is served and nothing is queued; a main
screen that says the card may be used has its listener running; and only a
confirmed reset changes the stored files.
-/

namespace FlipperApps.Tesla
open Calls

def AppLabel.ChangesFiles : AppLabel → Prop
  | .worker => False
  | .tick t => ∃ e ∈ t, ¬ KeepsDisk e.1
  | .custom _ _ t => ∃ e ∈ t, ¬ KeepsDisk e.1
  | .navigation _ => False

/-- The NFC object of the app is alive, and its listener is the one that runs. -/
def Serves (a : AppState) : Prop :=
  ∃ nfc number, a.1.nfc = some nfc ∧ nfc.listener = true ∧
    a.2.2.live = some ⟨number, nfc.address⟩ ∧ a.2.2.running = some number

section
variable {D : Device} {mayFail : HalCall → Prop} {a a' : AppState} {l : AppLabel}

theorem ObjectCall.keepsDisk {c : HalCall} (h : ObjectCall c) : KeepsDisk c := by
  cases c with
  | storageFileOpen | storageCommonRemove | storageCommonRename | storageFileWrite => exact h.elim
  | _ => trivial

theorem customEvent_uses {allowed : HalCall → Prop} {app : TeslaKeyCardApp} {event : UInt32}
    (hlistener : ∀ c, ListenerCall c → allowed c)
    (htake : event = teslaAppEventResetRequest ∧ app.screen = .main → allowed .nfcEventQueueGet)
    (h : ¬ (event = teslaAppEventResetConfirm ∧ app.screen = .reset)) :
    (teslaKeyCardCustomEventCallback app event).Uses allowed := by
  unfold teslaKeyCardCustomEventCallback
  by_cases hrequest : event = teslaAppEventResetRequest ∧ app.screen = .main
  · rw [if_pos hrequest]
    apply Program.uses_bind ((stopNfc_uses app).mono fun c h => hlistener c h.listener)
    intro app'
    have hdrain : teslaKeyCardClearNfcEvents.Uses allowed := by
      apply drain_takes.mono
      intro c hc
      rw [hc]
      exact htake hrequest
    exact Program.uses_bind hdrain fun _ => trivial
  rw [if_neg hrequest]
  by_cases hcancel : event = teslaAppEventResetCancel ∧ app.screen = .reset
  · rw [if_pos hcancel]
    exact Program.uses_bind ((resumeNfc_uses _).mono hlistener) fun _ => trivial
  rw [if_neg hcancel, if_neg h]
  trivial

theorem executes_handled {app app' : TeslaKeyCardApp} {event : UInt32} {s s' : Site}
    {t : List HalEvent} {handled : Bool}
    (hx : Executes (appEnv D mayFail) (teslaKeyCardCustomEventCallback app event) s t
      (handled, app') s') : handled = app.handles event :=
  (always_iff.mp (always_returns (customEvent_returns app event)) _ _ _ hx).1

theorem AppStep.changesFiles (h : AppStep D mayFail a l a') (hl : l.ChangesFiles) :
    a.1.screen = .reset ∧ ∃ t, l = .custom teslaAppEventResetConfirm true t := by
  cases h with
  | worker => exact hl.elim
  | navigation => exact hl.elim
  | tick hx =>
    obtain ⟨e, he, hchanges⟩ := hl
    have htake := always_iff.mp (always_uses takeNfcEvents_takes) _ _ _ hx e he
    rw [htake] at hchanges
    exact absurd trivial hchanges
  | @custom app app' s s' event handled t hx =>
    obtain ⟨e, he, hchanges⟩ := hl
    by_cases hconfirm : event = teslaAppEventResetConfirm ∧ app.screen = .reset
    · obtain ⟨rfl, hscreen⟩ := hconfirm
      exact ⟨hscreen, t, by rw [executes_handled hx, handles_confirm hscreen]⟩
    · have huses : (teslaKeyCardCustomEventCallback app event).Uses KeepsDisk :=
        customEvent_uses (fun _ h => h.object.keepsDisk) (fun _ => trivial) hconfirm
      exact absurd (always_iff.mp (always_uses huses) _ _ _ hx e he) hchanges

theorem Between.held (h : Between a) {object : NumberedObject} (hlive : a.2.2.live = some object) :
    ∃ nfc, a.1.nfc = some nfc ∧ object = ⟨object.number, nfc.address⟩ := by
  obtain ⟨m, hsettled, htracked⟩ := h
  have hobject : a.1.nfc.map TeslaNfc.address = some object.address := by
    rw [← hsettled.agrees.object, htracked.object, hlive]
    rfl
  obtain ⟨nfc, hnfc, haddress⟩ := Option.map_eq_some_iff.mp hobject
  exact ⟨nfc, hnfc, by rw [haddress]⟩

theorem Between.serves (h : Between a) (hnfc : a.1.nfc.isSome = true)
    (hscreen : a.1.screen = .main) : Serves a := by
  obtain ⟨m, hsettled, htracked⟩ := id h
  have hrunning := hsettled.main hscreen hnfc
  obtain ⟨number, hnumber⟩ := Option.isSome_iff_exists.mp (htracked.running ▸ hrunning)
  obtain ⟨object, hlive, hsame⟩ := Option.map_eq_some_iff.mp (htracked.runner number hnumber)
  obtain ⟨nfc, happ, hobject⟩ := h.held hlive
  have hlistener : m.running = nfc.listener := by
    rw [hsettled.agrees.running, happ]
    rfl
  refine ⟨nfc, number, happ, hlistener ▸ hrunning, ?_, hnumber⟩
  rw [hlive, ← hsame]
  exact congrArg some hobject

theorem screen_is_true {d : Disk} {t : List HalEvent} {a₀ : AppState} {labels : List AppLabel}
    (hstart : Starts D mayFail d t a₀) (hrun : Run (AppStep D mayFail) a₀ labels a) :
    (a.1.screen = .reset → a.2.2.running = none ∧ a.2.1.events = []) ∧
    (a.1.screen = .main → a.1.model.state.Serving → Serves a) ∧
    ∀ l a', AppStep D mayFail a l a' → l.ChangesFiles →
      a.1.screen = .reset ∧ ∃ t, l = .custom teslaAppEventResetConfirm true t := by
  have hbetween := run_between hrun hstart.between
  refine ⟨fun hscreen => ?_, fun hscreen hstate => ?_, fun l a' hstep => hstep.changesFiles⟩
  · obtain ⟨m, hsettled, htracked⟩ := hbetween
    have hrunning := hsettled.reset hscreen
    have hnil := htracked.queue_nil hrunning (hsettled.empty hrunning)
    refine ⟨htracked.idle hrunning, ?_⟩
    rw [htracked.events, hnil]
    rfl
  · obtain ⟨m, hsettled, -⟩ := id hbetween
    exact hbetween.serves (hsettled.shows hscreen hstate) hscreen

end

theorem screen_is_true_request :
    ∃ t a₀ t' a, Starts plainDevice noFailure twinDisk t a₀ ∧ Serves a₀ ∧
      AppStep plainDevice noFailure a₀ (.custom teslaAppEventResetRequest true t') a ∧
      a.1.screen = .reset ∧
      (a.1.screen = .reset → a.2.2.running = none ∧ a.2.1.events = []) ∧
      (a.1.screen = .main → a.1.model.state.Serving → Serves a) ∧
      ∀ l a', AppStep plainDevice noFailure a l a' → l.ChangesFiles →
        a.1.screen = .reset ∧ ∃ t, l = .custom teslaAppEventResetConfirm true t := by
  obtain ⟨t, a₀, hstart, -, hnfc, hrest⟩ := exists_starts_twin
  have hscreen := hstart.screen_main
  obtain ⟨t', s, hstep, -⟩ := @exists_request plainDevice noFailure twinDisk a₀.1 a₀.2 hscreen hrest
  exact ⟨t, a₀, t', _, hstart, hstart.between.serves hnfc hscreen, hstep, rfl,
    screen_is_true hstart (.snoc (.nil a₀) hstep)⟩

end FlipperApps.Tesla
