import FlipperApps.MfcNdef.App

/-!
# One format run at a time

While a run has not been reported the popup is shown, as long as no Format is
handled with a return to the menu still queued. Such a leftover event takes the
popup away from a run that is under way.
-/

namespace FlipperApps.MfcNdef
open Calls

def WorkerPhase.unreported : WorkerPhase → Bool
  | .formatting _ => true
  | .notifying _ => true
  | .reporting => true
  | .returning => false
  | .finished => false

def unreported : Option Worker → ℕ
  | none => 0
  | some worker => if worker.phase.unreported then 1 else 0

def MfcNdefApp.Pending (app : MfcNdefApp) : Prop := app.doneHandled < app.started

def StartsFormat (app : MfcNdefApp) : Action → Prop
  | .handleInput .format => app.shownView = .submenu ∧ app.inputs.head? = some .ok
  | _ => False

def GuardedStep (app : MfcNdefApp) (action : Action) (app' : MfcNdefApp) : Prop :=
  step app action = some app' ∧ (StartsFormat app action → .backToMenu ∉ app.events)

/-- The popup is shown, and no queued event will leave it. -/
def Held (app : MfcNdefApp) : Prop := app.currentView = .popup ∧ .backToMenu ∉ app.events

structure Behind (app : MfcNdefApp) : Prop where
  shown : app.shownView = app.currentView
  counted : app.started = app.doneHandled + app.events.count .done + unreported app.worker
  single : app.started ≤ app.doneHandled + 1
  held : app.Pending → Held app
  latest : .done ∈ app.events → app.resultRun = app.started
  worker : ∀ w, app.worker = some w → w.run = app.started ∧
    (w.phase = .reporting → app.resultRun = app.started)
  starting : app.gui = .joining .start → ¬ app.Pending ∧ Held app

namespace Behind
variable {app app' : MfcNdefApp}

theorem initial : Behind MfcNdefApp.initial where
  shown := rfl
  counted := rfl
  single := Nat.zero_le _
  held h := absurd h (Nat.lt_irrefl 0)
  latest := nofun
  worker := nofun
  starting := nofun

theorem quiet (h : Behind app) (hp : ¬ app.Pending) :
    app.started = app.doneHandled ∧ .done ∉ app.events ∧ unreported app.worker = 0 := by
  have hcounted := h.counted
  have hle : app.started ≤ app.doneHandled := Nat.not_lt.mp hp
  exact ⟨by omega, List.count_eq_zero.mp (by omega), by omega⟩

theorem not_pending (h : Behind app) (hview : app.currentView ≠ .popup) : ¬ app.Pending :=
  fun hp => hview (h.held hp).1

theorem launch (h : Behind app) (hp : ¬ app.Pending) (hheld : Held app) :
    Behind (launchWorker app) := by
  obtain ⟨hstarted, hdone, -⟩ := h.quiet hp
  have hcount : app.events.count .done = 0 := List.count_eq_zero.mpr hdone
  constructor
  · exact h.shown
  · simp only [launchWorker, unreported, WorkerPhase.unreported, if_true]
    omega
  · simp only [launchWorker]
    omega
  · exact fun _ => hheld
  · exact fun hmem => absurd hmem hdone
  · intro w h
    cases h
    exact ⟨rfl, nofun⟩
  · exact nofun

theorem cosmetic (h : Behind app) (popup : Popup) (widget : Widget) (inputs : List InputKey)
    (stopRequested : Bool) (progressBlock : ℕ) :
    Behind { app with popup, widget, inputs, stopRequested, progressBlock } :=
  ⟨h.shown, h.counted, h.single, h.held, h.latest, h.worker, h.starting⟩

theorem switchToView (h : Behind app) (hp : ¬ app.Pending) (hgui : app.gui = .dispatching)
    (view : MfcNdefViewId) : Behind (app.switchToView view) where
  shown := rfl
  counted := h.counted
  single := h.single
  held hp' := absurd hp' hp
  latest := h.latest
  worker := h.worker
  starting hgui' := nomatch hgui.symm.trans hgui'

theorem gui (h : Behind app) (gui : GuiThread)
    (hstart : gui = .joining .start → ¬ app.Pending ∧ Held app) : Behind { app with gui } :=
  ⟨h.shown, h.counted, h.single, h.held, h.latest, h.worker, hstart⟩

theorem resume (h : Behind app) {next : AfterJoin}
    (hstart : next = .start → ¬ app.Pending ∧ Held app) : Behind (next.resume app) := by
  cases next with
  | start => exact h.launch (hstart rfl).1 (hstart rfl).2
  | exit => exact h.gui _ nofun

theorem workerStop (h : Behind app) {next : AfterJoin}
    (hstart : next = .start → ¬ app.Pending ∧ Held app) :
    Behind (mfcNdefWorkerStop app next) := by
  cases hworker : app.worker with
  | none =>
    simp only [mfcNdefWorkerStop, hworker]
    exact h.resume hstart
  | some worker =>
    have hstop := (h.cosmetic app.popup app.widget app.inputs true app.progressBlock).gui
      (.joining next) fun hgui => hstart (GuiThread.joining.inj hgui)
    simpa only [mfcNdefWorkerStop, hworker] using hstop

theorem join (h : Behind app) {next : AfterJoin} {run : ℕ} (hgui : app.gui = .joining next)
    (hworker : app.worker = some ⟨run, .finished⟩) :
    Behind (next.resume { app with worker := none }) := by
  have hcounted := h.counted
  rw [hworker] at hcounted
  have hfree : Behind { app with worker := none } :=
    ⟨h.shown, hcounted, h.single, h.held, h.latest, nofun, h.starting⟩
  refine hfree.resume ?_
  intro h
  subst h
  exact h.starting hgui

theorem pop (h : Behind app) {event : MfcNdefCustomEvent} {rest : List MfcNdefCustomEvent}
    (hgui : app.gui = .dispatching) (hevents : app.events = event :: rest) :
    Behind { app with
      events := rest
      doneHandled := if event = .done then app.doneHandled + 1 else app.doneHandled } := by
  have hcounted := h.counted
  have hsingle := h.single
  rw [hevents, List.count_cons] at hcounted
  have hmem {e : MfcNdefCustomEvent} (he : e ∈ rest) : e ∈ app.events := by
    rw [hevents]
    exact List.mem_cons_of_mem _ he
  refine ⟨h.shown, ?_, ?_, fun hp => ?_, fun he => h.latest (hmem he), h.worker, fun hgui' => ?_⟩
  · cases event with
    | done =>
      simp only [beq_self_eq_true, if_true] at hcounted ⊢
      omega
    | progress | backToMenu => exact hcounted
  · cases event with
    | done => exact Nat.le_succ_of_le hsingle
    | progress | backToMenu => exact hsingle
  · have hheld : Held app := h.held <| by
      cases event with
      | done => exact Nat.lt_of_succ_lt hp
      | progress | backToMenu => exact hp
    exact ⟨hheld.1, fun he => hheld.2 (hmem he)⟩
  · exact nomatch hgui.symm.trans hgui'

theorem customEvent (h : Behind app) {event : MfcNdefCustomEvent}
    {rest : List MfcNdefCustomEvent} (hgui : app.gui = .dispatching)
    (hevents : app.events = event :: rest) :
    Behind (mfcNdefCustomEventCallback { app with
      events := rest
      doneHandled := if event = .done then app.doneHandled + 1 else app.doneHandled } event) := by
  have hpop := h.pop hgui hevents
  cases event with
  | progress => exact hpop.cosmetic _ app.widget app.inputs app.stopRequested app.progressBlock
  | done =>
    have hwidget := hpop.cosmetic app.popup (resultWidget app.result app.failBlock) app.inputs
      app.stopRequested app.progressBlock
    exact hwidget.switchToView (Nat.not_lt.mpr h.single) hgui .widget
  | backToMenu =>
    -- With a run pending no such event is queued.
    refine hpop.switchToView (fun hp => ?_) hgui .submenu
    refine (h.held hp).2 ?_
    rw [hevents]
    exact List.mem_cons_self

theorem sendBack (h : Behind app) (hp : ¬ app.Pending) (hgui : app.gui = .dispatching) :
    Behind (app.sendCustomEvent .backToMenu) := by
  refine ⟨h.shown, ?_, h.single, fun hp' => absurd hp' hp, fun he => h.latest ?_, h.worker,
    fun hgui' => nomatch hgui.symm.trans hgui'⟩
  · have hcounted := h.counted
    simpa [MfcNdefApp.sendCustomEvent] using hcounted
  · simpa [MfcNdefApp.sendCustomEvent] using he

theorem handleKey (h : Behind app) (hgui : app.gui = .dispatching) (choice : MfcNdefMenuIndex)
    (key : InputKey) (hguard : app.shownView = .submenu → key = .ok → choice = .format →
      .backToMenu ∉ app.events) : Behind (handleKey app choice key) := by
  cases key with
  | ok =>
    cases hview : app.shownView with
    | popup => simpa only [MfcNdef.handleKey, hview] using h
    | submenu =>
      have hp : ¬ app.Pending := h.not_pending (by rw [← h.shown, hview]; nofun)
      cases choice with
      | about =>
        simp only [MfcNdef.handleKey, hview]
        exact (h.cosmetic app.popup aboutWidget app.inputs app.stopRequested
          app.progressBlock).switchToView hp hgui .widget
      | format =>
        simp only [MfcNdef.handleKey, hview]
        have hpopup := (h.cosmetic ⟨"Formatting", "Hold card still\non the back..."⟩ app.widget
          app.inputs app.stopRequested app.progressBlock).switchToView hp hgui .popup
        exact hpopup.workerStop fun _ => ⟨hp, rfl, hguard hview rfl rfl⟩
    | widget =>
      have hp : ¬ app.Pending := h.not_pending (by rw [← h.shown, hview]; nofun)
      simp only [MfcNdef.handleKey, hview]
      split_ifs
      · exact h.sendBack hp hgui
      · exact h
  | back =>
    cases hview : app.currentView with
    | popup =>
      simp only [MfcNdef.handleKey, mfcNdefNavigationCallback, hview, if_true]
      have hstop := h.cosmetic app.popup app.widget app.inputs true app.progressBlock
      simpa only [hview] using hstop
    | widget =>
      simp only [MfcNdef.handleKey, mfcNdefNavigationCallback, hview, if_true]
      exact h.switchToView (h.not_pending (by rw [hview]; nofun)) hgui .submenu
    | submenu =>
      simp only [MfcNdef.handleKey, mfcNdefNavigationCallback, hview, Bool.false_eq_true,
        if_false]
      exact h.workerStop nofun

theorem advance (h : Behind app) {run : ℕ} {phase phase' : WorkerPhase}
    (hworker : app.worker = some ⟨run, phase⟩) (hphase : phase'.unreported = phase.unreported)
    (hreporting : phase' = .reporting → app.resultRun = app.started) :
    Behind { app with worker := some ⟨run, phase'⟩ } := by
  have hcounted := h.counted
  rw [hworker, unreported, ← hphase] at hcounted
  refine ⟨h.shown, hcounted, h.single, h.held, h.latest, ?_, h.starting⟩
  intro w h
  cases h
  exact ⟨(h.worker _ hworker).1, hreporting⟩

theorem store (h : Behind app) {run : ℕ} {rest : FormatProgram (MfcNdefResult × MfcNdefFormat)}
    (hworker : app.worker = some ⟨run, .formatting rest⟩) (result : MfcNdefResult)
    (failBlock : ℕ) :
    Behind { app with
      result, failBlock, resultRun := run, worker := some ⟨run, .reporting⟩ } := by
  have hrun : run = app.started := (h.worker _ hworker).1
  have hstored : Behind { app with result, failBlock, resultRun := run } := by
    refine ⟨h.shown, h.counted, h.single, h.held, fun _ => hrun, fun w hw => ?_, h.starting⟩
    exact ⟨(h.worker w hw).1, fun _ => hrun⟩
  exact hstored.advance hworker rfl fun _ => hrun

theorem sendProgress (h : Behind app) : Behind (app.sendCustomEvent .progress) := by
  have hheld : Held app → Held (app.sendCustomEvent .progress) := by
    simp [Held, MfcNdefApp.sendCustomEvent]
  refine ⟨h.shown, ?_, h.single, fun hp => ?_, fun he => h.latest ?_, h.worker, fun hgui => ?_⟩
  · have hcounted := h.counted
    simpa [MfcNdefApp.sendCustomEvent] using hcounted
  · exact hheld (h.held hp)
  · simpa [MfcNdefApp.sendCustomEvent] using he
  · exact (h.starting hgui).imp id hheld

theorem report (h : Behind app) {run : ℕ} (hworker : app.worker = some ⟨run, .reporting⟩) :
    Behind { app.sendCustomEvent .done with worker := some ⟨run, .returning⟩ } := by
  have hcounted := h.counted
  rw [hworker] at hcounted
  simp only [unreported, WorkerPhase.unreported, if_true] at hcounted
  have hpending : app.Pending := by
    rw [MfcNdefApp.Pending]
    omega
  have hrun := h.worker _ hworker
  refine ⟨h.shown, ?_, h.single, fun _ => ?_, fun _ => hrun.2 rfl, ?_, fun hgui => ?_⟩
  · simp [MfcNdefApp.sendCustomEvent, unreported, WorkerPhase.unreported]
    omega
  · simpa [Held, MfcNdefApp.sendCustomEvent] using h.held hpending
  · intro w h
    cases h
    exact ⟨hrun.1, nofun⟩
  · exact absurd hpending (h.starting hgui).1

theorem work (h : Behind app) {reply : (c : FormatCall) → c.Reply} {worker : Worker}
    (hworker : app.worker = some worker) (hstep : mfcNdefWorker reply worker app = some app') :
    Behind app' := by
  obtain ⟨run, phase⟩ := worker
  cases phase with
  | formatting rest =>
    cases rest with
    | done r =>
      cases hstep
      exact h.store hworker r.1 r.2.failBlock
    | call c next =>
      cases c with
      | progress block =>
        cases hstep
        exact (h.cosmetic app.popup app.widget app.inputs app.stopRequested block).advance
          hworker rfl nofun
      | readStop | detectType | auth | writeBlock =>
        cases hstep
        exact h.advance hworker rfl nofun
  | notifying rest =>
    cases hstep
    exact h.sendProgress.advance hworker rfl nofun
  | reporting =>
    cases hstep
    exact h.report hworker
  | returning =>
    cases hstep
    exact h.advance hworker rfl nofun
  | finished => exact nomatch hstep

theorem step {action : Action} (h : Behind app) (hstep : GuardedStep app action app') :
    Behind app' := by
  obtain ⟨hstep, hguard⟩ := hstep
  cases action with
  | press key =>
    cases hstep
    exact h.cosmetic _ _ _ _ _
  | handleInput choice =>
    simp only [MfcNdef.step] at hstep
    split at hstep
    · next key rest hgui hinputs =>
      cases hstep
      refine (h.cosmetic app.popup app.widget rest app.stopRequested
        app.progressBlock).handleKey hgui choice key ?_
      intro hview h h'
      subst h
      subst h'
      exact hguard ⟨hview, by rw [hinputs]; rfl⟩
    · exact nomatch hstep
  | handleEvent =>
    simp only [MfcNdef.step] at hstep
    split at hstep
    · next event rest hgui hevents =>
      cases hstep
      exact h.customEvent hgui hevents
    · exact nomatch hstep
  | join =>
    simp only [MfcNdef.step] at hstep
    split at hstep
    · next next run hgui hworker =>
      cases hstep
      exact h.join hgui hworker
    · exact nomatch hstep
  | work reply =>
    obtain ⟨worker, hworker, hstep⟩ := Option.bind_eq_some_iff.mp hstep
    exact h.work hworker hstep

theorem run {actions : List Action} (hrun : Run GuardedStep MfcNdefApp.initial actions app) :
    Behind app :=
  hrun.invariant (P := fun _ => Behind) initial fun _ _ _ _ => step

end Behind

/-- A run in which no Format is handled with a return to the menu queued. -/
theorem format_behind_popup {actions : List Action} {app : MfcNdefApp}
    (h : Run GuardedStep MfcNdefApp.initial actions app) :
    (app.Pending → app.currentView = .popup) ∧
      (∀ action, StartsFormat app action → unreported app.worker = 0) ∧
      ∀ app', step app .handleEvent = some app' → app.events.head? = some .done →
        app.resultRun = app.started ∧ app'.widget = resultWidget app.result app.failBlock := by
  have hbehind := Behind.run h
  refine ⟨fun hp => (hbehind.held hp).1, fun action hstart => ?_, fun app' hstep hhead => ?_⟩
  · cases action with
    | handleInput choice =>
      cases choice with
      | format =>
        have hview : app.currentView ≠ .popup := by
          rw [← hbehind.shown, hstart.1]
          nofun
        exact (hbehind.quiet (hbehind.not_pending hview)).2.2
      | about => exact hstart.elim
    | press | handleEvent | join | work => exact hstart.elim
  · refine ⟨hbehind.latest (List.mem_of_mem_head? hhead), ?_⟩
    simp only [step] at hstep
    split at hstep
    · next event rest hgui hevents =>
      cases hstep
      obtain rfl : event = .done := by simpa [hevents] using hhead
      rfl
    · exact nomatch hstep

def firstRun : MfcNdefApp := handleKey MfcNdefApp.initial .format .ok

theorem format_behind_popup_firstRun :
    firstRun.Pending ∧ (firstRun.Pending → firstRun.currentView = .popup) ∧
      (∀ action, StartsFormat firstRun action → unreported firstRun.worker = 0) ∧
      ∀ app', step firstRun .handleEvent = some app' → firstRun.events.head? = some .done →
        firstRun.resultRun = firstRun.started ∧
          app'.widget = resultWidget firstRun.result firstRun.failBlock :=
  ⟨Nat.zero_lt_one, format_behind_popup
    (((Run.nil MfcNdefApp.initial).snoc (l := .press .ok) ⟨rfl, nofun⟩).snoc
      (l := .handleInput .format) ⟨rfl, fun _ => nofun⟩)⟩

def noCardReply : (c : FormatCall) → c.Reply
  | .detectType => (.notPresent, .type1k)
  | .auth .. => .notPresent
  | .writeBlock .. => .notPresent
  | .readStop => false
  | .progress _ => ()

/-- A run that finds no card. Of three presses of OK on its result, two queue a
return to the menu; the third is handled by the menu, as its Format. -/
def impatientUser : List Action :=
  [.press .ok, .handleInput .format, .work noCardReply, .work noCardReply, .work noCardReply,
    .work noCardReply, .handleEvent, .press .ok, .press .ok, .handleInput .format, .press .ok,
    .handleInput .format, .handleEvent, .handleInput .format, .join, .handleEvent]

theorem menu_over_running_format :
    ∃ app, Run (fun app action app' => step app action = some app') MfcNdefApp.initial
      impatientUser app ∧ app.Pending ∧ app.currentView = .submenu := by
  have hend : (impatientUser.foldlM step MfcNdefApp.initial).map
      (fun app => (app.currentView, app.doneHandled, app.started)) = some (.submenu, 1, 2) := rfl
  obtain ⟨app, hrun, happ⟩ := Option.map_eq_some_iff.mp hend
  simp only [Prod.mk.injEq] at happ
  obtain ⟨hview, hdone, hstarted⟩ := happ
  refine ⟨app, run_of_foldlM hrun, ?_, hview⟩
  rw [MfcNdefApp.Pending, hdone, hstarted]
  decide

end FlipperApps.MfcNdef
