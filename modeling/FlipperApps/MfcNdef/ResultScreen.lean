import FlipperApps.MfcNdef.AppEnds
import FlipperApps.MfcNdef.WriteDiscipline
import FlipperApps.Text.Printf

/-!
# What the user is told is what the run did

The calls of every run are recorded, with the replies that its worker got. In any
order of presses, events and steps of the two threads a result on the screen is that
of a whole run of `mfc_ndef_format_run`, and not of one reported before; the number
on the popup is that of a block which a run not yet reported has announced.
-/

namespace FlipperApps.MfcNdef
open Calls Text

def replyOf (app : MfcNdefApp) (reply : (c : FormatCall) → c.Reply) : (c : FormatCall) → c.Reply
  | .readStop => app.stopRequested
  | c => reply c

def workerEvent (app : MfcNdefApp) : Action → Option (ℕ × FormatEvent)
  | .work reply => match app.worker with
    | some ⟨run, .formatting (.call c _)⟩ => some (run, ⟨c, replyOf app reply c⟩)
    | _ => none
  | _ => none

abbrev Record := List (ℕ × FormatEvent)

def RecordedStep (s : MfcNdefApp × Record) (action : Action) (s' : MfcNdefApp × Record) : Prop :=
  step s.1 action = some s'.1 ∧ s'.2 = s.2 ++ (workerEvent s.1 action).toList

def callsOf (run : ℕ) (past : Record) : List FormatEvent :=
  (past.filter fun e => e.1 = run).map Prod.snd

/-- These are the calls of a whole run that ended so. -/
def Ran (t : List FormatEvent) (result : MfcNdefResult) (failBlock : ℕ) : Prop :=
  ∃ fmt, fmt.failBlock = failBlock ∧
    Executes (anyReply FormatInterface) workerRun () t (result, fmt) ()

def ReportedBy (past : Record) (least block : ℕ) : Prop :=
  ∃ run b, least ≤ run ∧ block = b.val ∧ b ∈ progressed (callsOf run past)

def holdText : String := "Hold card still\non the back..."

inductive PopupTells (past : Record) (least : ℕ) (popup : Popup) : Prop
  | waiting (h : popup.text = "" ∨ popup.text = holdText)
  | block {block : ℕ} (hreported : ReportedBy past least block)
      (h : popup.text = "Block " ++ toString block ++ " / 63")

inductive WidgetTells (past : Record) (least most : ℕ) (widget : Widget) : Prop
  | blank (h : widget = ⟨"", "", false⟩)
  | about (h : widget = aboutWidget)
  | result {run failBlock : ℕ} {result : MfcNdefResult} (hleast : least ≤ run) (hmost : run ≤ most)
      (hran : Ran (callsOf run past) result failBlock) (h : widget = resultWidget result failBlock)

def computing : Option Worker → ℕ
  | some ⟨_, .formatting _⟩ => 1
  | some ⟨_, .notifying _⟩ => 1
  | _ => 0

def WorkerPhase.CameBy (t : List FormatEvent) : WorkerPhase → Prop
  | .formatting rest => workerRun.Leads t rest
  | .notifying rest => workerRun.Leads t rest
  | _ => True

structure Reports (app : MfcNdefApp) (past : Record) : Prop where
  counted : app.started = app.doneHandled + app.events.count .done + unreported app.worker
  stored : app.resultRun + computing app.worker = app.started
  recorded : ∀ e ∈ past, e.1 ≤ app.started
  worker : ∀ w, app.worker = some w → w.run = app.started ∧ w.phase.CameBy (callsOf w.run past)
  notifying : ∀ run rest, app.worker = some ⟨run, .notifying rest⟩ →
    ReportedBy past app.started app.progressBlock
  progress : ∀ before after, app.events = before ++ .progress :: after →
    ReportedBy past (app.doneHandled + before.count .done + 1) app.progressBlock
  ended : 1 ≤ app.resultRun → Ran (callsOf app.resultRun past) app.result app.failBlock
  popup : app.shownView = .popup → PopupTells past (app.doneHandled + 1) app.popup
  widget : WidgetTells past app.doneHandled app.resultRun app.widget

section
variable {past : Record} {e : ℕ × FormatEvent} {run least least' most block : ℕ}

theorem callsOf_snoc : callsOf run (past ++ [e]) =
    callsOf run past ++ if e.1 = run then [e.2] else [] := by
  unfold callsOf
  rw [List.filter_append, List.map_append]
  split_ifs with h
  · simp [h]
  · simp [h]

theorem callsOf_other (h : e.1 ≠ run) : callsOf run (past ++ [e]) = callsOf run past := by
  rw [callsOf_snoc, if_neg h, List.append_nil]

theorem callsOf_future (h : ∀ e ∈ past, e.1 ≤ most) (hrun : most < run) :
    callsOf run past = [] := by
  unfold callsOf
  rw [List.map_eq_nil_iff, List.filter_eq_nil_iff]
  intro e he
  have hle := h e he
  simp only [decide_eq_true_eq]
  omega

theorem ReportedBy.mono (h : ReportedBy past least block) (hle : least' ≤ least) :
    ReportedBy past least' block := by
  obtain ⟨run, b, hrun, hblock, hb⟩ := h
  exact ⟨run, b, hle.trans hrun, hblock, hb⟩

theorem ReportedBy.snoc (h : ReportedBy past least block) :
    ReportedBy (past ++ [e]) least block := by
  obtain ⟨run, b, hrun, hblock, hb⟩ := h
  refine ⟨run, b, hrun, hblock, ?_⟩
  rw [callsOf_snoc, progressed_append]
  exact List.mem_append_left _ hb

theorem PopupTells.snoc {popup : Popup} (h : PopupTells past least popup) :
    PopupTells (past ++ [e]) least popup := by
  cases h with
  | waiting h => exact .waiting h
  | block hreported h => exact .block hreported.snoc h

theorem WidgetTells.mono {widget : Widget} (h : WidgetTells past least most widget)
    {most' : ℕ} (hle : most ≤ most') : WidgetTells past least most' widget := by
  cases h with
  | blank h => exact .blank h
  | about h => exact .about h
  | result hleast hmost hran h => exact .result hleast (hmost.trans hle) hran h

theorem WidgetTells.snoc {widget : Widget} (h : WidgetTells past least most widget)
    (he : most < e.1) : WidgetTells (past ++ [e]) least most widget := by
  cases h with
  | blank h => exact .blank h
  | about h => exact .about h
  | @result run _ _ hleast hmost hran h =>
    exact .result hleast hmost (by rwa [callsOf_other (by omega)]) h

end

theorem computing_le (worker : Option Worker) : computing worker ≤ unreported worker := by
  cases worker with
  | none => exact Nat.le_refl _
  | some worker =>
    obtain ⟨run, phase⟩ := worker
    cases phase with
    | formatting | notifying => exact Nat.le_refl 1
    | reporting => exact Nat.zero_le 1
    | returning | finished => exact Nat.le_refl 0

namespace Reports
variable {app app' : MfcNdefApp} {past : Record}

theorem initial : Reports MfcNdefApp.initial [] where
  counted := rfl
  stored := rfl
  recorded := nofun
  worker := nofun
  notifying := nofun
  progress before after h := by simp [MfcNdefApp.initial] at h
  ended h := absurd h (by decide)
  popup _ := .waiting (.inl rfl)
  widget := .blank rfl

theorem cosmetic (h : Reports app past) (stopRequested : Bool) (inputs : List InputKey)
    (gui : GuiThread) : Reports { app with stopRequested, inputs, gui } past :=
  ⟨h.counted, h.stored, h.recorded, h.worker, h.notifying, h.progress, h.ended, h.popup, h.widget⟩

theorem show_popup (h : Reports app past) (header : String) :
    Reports ({ app with popup := ⟨header, holdText⟩ }.switchToView .popup) past :=
  ⟨h.counted, h.stored, h.recorded, h.worker, h.notifying, h.progress, h.ended,
    fun _ => .waiting (.inr rfl), h.widget⟩

theorem show_menu (h : Reports app past) : Reports (app.switchToView .submenu) past :=
  ⟨h.counted, h.stored, h.recorded, h.worker, h.notifying, h.progress, h.ended, (nomatch ·),
    h.widget⟩

theorem show_about (h : Reports app past) :
    Reports ({ app with widget := aboutWidget }.switchToView .widget) past :=
  ⟨h.counted, h.stored, h.recorded, h.worker, h.notifying, h.progress, h.ended, (nomatch ·),
    .about rfl⟩

theorem launch (h : Reports app past) (hworker : app.worker = none) :
    Reports (launchWorker app) past := by
  have hcounted := h.counted
  have hstored := h.stored
  rw [hworker] at hcounted hstored
  refine ⟨?_, ?_, fun e he => (h.recorded e he).trans (Nat.le_succ _), ?_, nofun, h.progress,
    h.ended, h.popup, h.widget⟩
  · simp only [launchWorker, unreported, WorkerPhase.unreported, if_true] at hcounted ⊢
    omega
  · simp only [launchWorker, computing] at hstored ⊢
    omega
  · intro w hw
    cases hw
    refine ⟨rfl, ?_⟩
    rw [callsOf_future h.recorded (Nat.lt_succ_self _)]
    exact .nil _

theorem resume (h : Reports app past) (next : AfterJoin) (hworker : app.worker = none) :
    Reports (next.resume app) past := by
  cases next with
  | start => exact h.launch hworker
  | exit => exact h.cosmetic app.stopRequested app.inputs .exited

theorem workerStop (h : Reports app past) (next : AfterJoin) :
    Reports (mfcNdefWorkerStop app next) past := by
  cases hworker : app.worker with
  | none =>
    simp only [mfcNdefWorkerStop, hworker]
    exact h.resume next hworker
  | some worker =>
    simp only [mfcNdefWorkerStop, hworker]
    exact hworker ▸ h.cosmetic true app.inputs (.joining next)

theorem join (h : Reports app past) (next : AfterJoin) {run : ℕ}
    (hworker : app.worker = some ⟨run, .finished⟩) :
    Reports (next.resume { app with worker := none }) past := by
  have hcounted := h.counted
  have hstored := h.stored
  rw [hworker] at hcounted hstored
  have hfree : Reports { app with worker := none } past :=
    ⟨hcounted, hstored, h.recorded, nofun, nofun, h.progress, h.ended, h.popup, h.widget⟩
  exact hfree.resume next rfl

theorem send (h : Reports app past) {event : MfcNdefCustomEvent} (hdone : event ≠ .done)
    (hprogress : event = .progress →
      ReportedBy past (app.doneHandled + app.events.count .done + 1) app.progressBlock) :
    Reports (app.sendCustomEvent event) past := by
  refine ⟨?_, h.stored, h.recorded, h.worker, h.notifying, ?_, h.ended, h.popup, h.widget⟩
  · have hcounted := h.counted
    simpa [MfcNdefApp.sendCustomEvent, List.count_append, hdone] using hcounted
  · intro before after hsplit
    rcases snoc_split hsplit with ⟨rfl, hevent, -⟩ | ⟨init, hinit, -⟩
    · exact hprogress hevent
    · exact h.progress before init hinit

theorem handleKey (h : Reports app past) (choice : MfcNdefMenuIndex) (key : InputKey) :
    Reports (handleKey app choice key) past := by
  cases key with
  | ok =>
    cases hview : app.shownView with
    | popup => simpa only [MfcNdef.handleKey, hview] using h
    | submenu =>
      simp only [MfcNdef.handleKey, hview]
      cases choice with
      | format => exact (h.show_popup "Formatting").workerStop .start
      | about => exact h.show_about
    | widget =>
      simp only [MfcNdef.handleKey, hview]
      split_ifs
      · exact h.send (by decide) (absurd · (by decide))
      · exact h
  | back =>
    cases hview : app.currentView with
    | popup =>
      simp only [MfcNdef.handleKey, mfcNdefNavigationCallback, hview, if_true]
      exact hview ▸ h.cosmetic true app.inputs app.gui
    | widget =>
      simp only [MfcNdef.handleKey, mfcNdefNavigationCallback, hview, if_true]
      exact h.show_menu
    | submenu =>
      simp only [MfcNdef.handleKey, mfcNdefNavigationCallback, hview, Bool.false_eq_true,
        if_false]
      exact h.workerStop .exit

theorem pop (h : Reports app past) {event : MfcNdefCustomEvent} {rest : List MfcNdefCustomEvent}
    (hevents : app.events = event :: rest) (hdone : event ≠ .done) :
    Reports { app with events := rest } past := by
  have hcounted := h.counted
  rw [hevents, List.count_cons_of_ne hdone] at hcounted
  refine ⟨hcounted, h.stored, h.recorded, h.worker, h.notifying, fun before after hsplit => ?_,
    h.ended, h.popup, h.widget⟩
  have hsplit' : app.events = (event :: before) ++ .progress :: after :=
    hevents.trans (congrArg (event :: ·) hsplit)
  have hreported := h.progress _ _ hsplit'
  rwa [List.count_cons_of_ne hdone] at hreported

/-- The result that is shown is not one of a run whose end was handled before. -/
theorem done (h : Reports app past) {rest : List MfcNdefCustomEvent}
    (hevents : app.events = .done :: rest) :
    Reports (mfcNdefShowResult { app with
      events := rest
      doneHandled := app.doneHandled + 1 }) past := by
  have hcounted := h.counted
  have hstored := h.stored
  have hcomputing := computing_le app.worker
  rw [hevents, List.count_cons_self] at hcounted
  refine ⟨?_, h.stored, h.recorded, h.worker, h.notifying, fun before after hsplit => ?_,
    h.ended, (nomatch ·), ?_⟩
  · simp only [mfcNdefShowResult, MfcNdefApp.switchToView]
    omega
  · have hsplit' : app.events = (.done :: before) ++ .progress :: after :=
      hevents.trans (congrArg (.done :: ·) hsplit)
    have hreported := h.progress _ _ hsplit'
    rw [List.count_cons_self] at hreported
    exact hreported.mono (by simp only [mfcNdefShowResult, MfcNdefApp.switchToView]; omega)
  · have hleast : app.doneHandled + 1 ≤ app.resultRun := by omega
    exact .result hleast (Nat.le_refl _) (h.ended (by omega)) rfl

theorem popup_progress (h : Reports app past) {rest : List MfcNdefCustomEvent}
    (hevents : app.events = .progress :: rest) :
    ReportedBy past (app.doneHandled + 1) app.progressBlock := h.progress [] rest hevents

theorem customEvent (h : Reports app past) {event : MfcNdefCustomEvent}
    {rest : List MfcNdefCustomEvent} (hevents : app.events = event :: rest) :
    Reports (mfcNdefCustomEventCallback { app with
      events := rest
      doneHandled := if event = .done then app.doneHandled + 1 else app.doneHandled } event)
      past := by
  cases event with
  | done => exact h.done hevents
  | backToMenu => exact (h.pop hevents (nomatch ·)).show_menu
  | progress =>
    have hpop := h.pop hevents (nomatch ·)
    exact ⟨hpop.counted, hpop.stored, hpop.recorded, hpop.worker, hpop.notifying, hpop.progress,
      hpop.ended, fun _ => .block (h.popup_progress hevents) rfl, hpop.widget⟩

theorem call (h : Reports app past) {run : ℕ} {c : FormatCall}
    {next : c.Reply → FormatProgram (MfcNdefResult × MfcNdefFormat)} (r : c.Reply)
    (hworker : app.worker = some ⟨run, .formatting (.call c next)⟩) :
    Reports { app with worker := some ⟨run, .formatting (next r)⟩ } (past ++ [(run, ⟨c, r⟩)]) := by
  have hcounted := h.counted
  have hstored := h.stored
  obtain ⟨hrun, hcame⟩ := h.worker _ hworker
  rw [hworker] at hcounted hstored
  simp only [computing] at hstored
  simp only at hrun
  refine ⟨hcounted, hstored, fun e he => ?_, fun w hw => ?_, nofun,
    fun before after hsplit => (h.progress before after hsplit).snoc, fun hended => ?_,
    fun hshown => (h.popup hshown).snoc, h.widget.snoc (by simp only; omega)⟩
  · rcases List.mem_append.mp he with hold | hnew
    · exact h.recorded e hold
    · rw [List.mem_singleton.mp hnew]
      exact hrun.le
  · cases hw
    refine ⟨hrun, ?_⟩
    rw [callsOf_snoc, if_pos rfl]
    exact hcame.snoc r
  · rw [callsOf_other (by simp only; omega)]
    exact h.ended hended

theorem advance (h : Reports app past) {run : ℕ} {phase phase' : WorkerPhase}
    (hworker : app.worker = some ⟨run, phase⟩)
    (hunreported : phase'.unreported = phase.unreported)
    (hcomputing : computing (some ⟨run, phase'⟩) = computing (some ⟨run, phase⟩))
    (hcame : ∀ t, phase.CameBy t → phase'.CameBy t) (hphase : ∀ rest, phase' ≠ .notifying rest) :
    Reports { app with worker := some ⟨run, phase'⟩ } past := by
  have hcounted := h.counted
  have hstored := h.stored
  obtain ⟨hrun, hcalls⟩ := h.worker _ hworker
  rw [hworker, unreported, ← hunreported] at hcounted
  rw [hworker, ← hcomputing] at hstored
  refine ⟨hcounted, hstored, h.recorded, fun w hw => ?_, fun run' rest hw => ?_, h.progress,
    h.ended, h.popup, h.widget⟩
  · cases hw
    exact ⟨hrun, hcame _ hcalls⟩
  · cases hw
    exact absurd rfl (hphase rest)

theorem announce (h : Reports app past) {run : ℕ} {b : Fin 64}
    {rest : FormatProgram (MfcNdefResult × MfcNdefFormat)}
    (hworker : app.worker = some ⟨run, .formatting rest⟩)
    (hreported : ReportedBy past app.started b) :
    Reports { app with progressBlock := b, worker := some ⟨run, .notifying rest⟩ } past := by
  have hcounted := h.counted
  have hstored := h.stored
  rw [hworker] at hcounted hstored
  refine ⟨hcounted, hstored, h.recorded, fun w hw => ?_, fun _ _ _ => hreported,
    fun before after hsplit => hreported.mono ?_, h.ended, h.popup, h.widget⟩
  · cases hw
    have hcame := h.worker _ hworker
    exact hcame
  · have hcount : before.count .done ≤ app.events.count .done := by
      rw [show app.events = before ++ .progress :: after from hsplit, List.count_append]
      exact Nat.le_add_right _ _
    simp only [unreported, WorkerPhase.unreported, if_true] at hcounted ⊢
    omega

theorem notified (h : Reports app past) {run : ℕ}
    {rest : FormatProgram (MfcNdefResult × MfcNdefFormat)}
    (hworker : app.worker = some ⟨run, .notifying rest⟩) :
    Reports { app.sendCustomEvent .progress with worker := some ⟨run, .formatting rest⟩ } past := by
  have hcounted := h.counted
  rw [hworker] at hcounted
  have hsent : Reports (app.sendCustomEvent .progress) past := by
    apply h.send (by decide)
    intro _
    apply (h.notifying run rest hworker).mono
    simp only [unreported, WorkerPhase.unreported, if_true] at hcounted
    omega
  refine hsent.advance hworker rfl rfl (fun _ hcame => hcame) fun rest' hphase => ?_
  cases hphase

theorem store (h : Reports app past) {run : ℕ} {result : MfcNdefResult} {fmt : MfcNdefFormat}
    (hworker : app.worker = some ⟨run, .formatting (.done (result, fmt))⟩) :
    Reports { app with
      result
      failBlock := fmt.failBlock
      resultRun := run
      worker := some ⟨run, .reporting⟩ } past := by
  have hcounted := h.counted
  have hstored := h.stored
  obtain ⟨hrun, hcame⟩ := h.worker _ hworker
  rw [hworker] at hcounted hstored
  simp only [computing] at hstored
  simp only at hrun
  have hran : Ran (callsOf run past) result fmt.failBlock := by
    have hx := Program.Leads.executes hcame (.done (result, fmt) ())
    rw [List.append_nil] at hx
    exact ⟨fmt, rfl, hx⟩
  refine ⟨hcounted, ?_, h.recorded, fun w hw => ?_, nofun, h.progress, fun _ => hran, h.popup,
    h.widget.mono (by simp only; omega)⟩
  · simp only [computing]
    omega
  · cases hw
    exact ⟨hrun, trivial⟩

theorem report (h : Reports app past) {run : ℕ} (hworker : app.worker = some ⟨run, .reporting⟩) :
    Reports { app.sendCustomEvent .done with worker := some ⟨run, .returning⟩ } past := by
  have hcounted := h.counted
  have hstored := h.stored
  rw [hworker] at hcounted hstored
  refine ⟨?_, hstored, h.recorded, fun w hw => ?_, nofun, fun before after hsplit => ?_, h.ended,
    h.popup, h.widget⟩
  · simp only [MfcNdefApp.sendCustomEvent, unreported, WorkerPhase.unreported, if_true,
      Bool.false_eq_true, if_false, List.count_append, List.count_singleton_self] at hcounted ⊢
    omega
  · cases hw
    exact ⟨(h.worker _ hworker).1, trivial⟩
  · rcases snoc_split hsplit with ⟨-, hevent, -⟩ | ⟨init, hinit, -⟩
    · cases hevent
    · exact h.progress before init hinit

theorem work (h : Reports app past) {reply : (c : FormatCall) → c.Reply} {worker : Worker}
    (hworker : app.worker = some worker) (hstep : mfcNdefWorker reply worker app = some app') :
    Reports app' (past ++ (workerEvent app (.work reply)).toList) := by
  obtain ⟨run, phase⟩ := worker
  unfold workerEvent
  rw [hworker]
  cases phase with
  | formatting rest =>
    cases rest with
    | done v =>
      obtain ⟨result, fmt⟩ := v
      cases hstep
      simpa using h.store hworker
    | call c next =>
      have hcall := h.call (replyOf app reply c) hworker
      cases c with
      | progress b =>
        cases hstep
        obtain ⟨hrun, -⟩ := h.worker _ hworker
        refine hcall.announce rfl ⟨run, b, hrun.ge, rfl, ?_⟩
        rw [callsOf_snoc, if_pos rfl, progressed_append]
        exact List.mem_append_right _ List.mem_cons_self
      | detectType | auth | writeBlock | readStop =>
        cases hstep
        exact hcall
  | notifying rest =>
    cases hstep
    simpa using h.notified hworker
  | reporting =>
    cases hstep
    simpa using h.report hworker
  | returning =>
    cases hstep
    have hfinished := @advance app past h run .returning .finished hworker rfl rfl
      (fun _ _ => trivial) fun _ => nofun
    simpa using hfinished
  | finished => cases hstep

theorem step {s s' : MfcNdefApp × Record} {action : Action} (h : Reports s.1 s.2)
    (hstep : RecordedStep s action s') : Reports s'.1 s'.2 := by
  obtain ⟨app, past⟩ := s
  obtain ⟨app', past'⟩ := s'
  obtain ⟨hstep, rfl⟩ := hstep
  have hquiet (hevent : workerEvent app action = none) (happ : Reports app' past) :
      Reports app' (past ++ (workerEvent app action).toList) := by
    rw [hevent, Option.toList_none, List.append_nil]
    exact happ
  cases action with
  | press key =>
    cases hstep
    exact hquiet rfl (h.cosmetic app.stopRequested _ app.gui)
  | handleInput choice =>
    simp only [MfcNdef.step] at hstep
    split at hstep
    · next key rest hgui hinputs =>
      cases hstep
      exact hquiet rfl ((h.cosmetic app.stopRequested rest app.gui).handleKey choice key)
    · cases hstep
  | handleEvent =>
    simp only [MfcNdef.step] at hstep
    split at hstep
    · next event rest hgui hevents =>
      cases hstep
      exact hquiet rfl (h.customEvent hevents)
    · cases hstep
  | join =>
    simp only [MfcNdef.step] at hstep
    split at hstep
    · next next run hgui hworker =>
      cases hstep
      exact hquiet rfl (h.join next hworker)
    · cases hstep
  | work reply =>
    obtain ⟨worker, hworker, hstep⟩ := Option.bind_eq_some_iff.mp hstep
    exact h.work hworker hstep

theorem run {actions : List Action} {app : MfcNdefApp} {past : Record}
    (h : Run RecordedStep (MfcNdefApp.initial, []) actions (app, past)) : Reports app past :=
  @Run.invariant _ _ _ _ _ _ (fun _ s => Reports s.1 s.2) h initial
    fun _ _ _ _ hs hstep => step hs hstep

end Reports

/-- All before this block was written and announced, and then both attempts on it failed,
the last one with this error. -/
structure StoppedAt (t : List FormatEvent) (b : Fin 64) (werr : MfClassicError) : Prop where
  ne_zero : b ≠ 0
  handled : Handled ⟨true, true, 0⟩ t b
  refused : ∃ before error, attempts t = before ++
    [templateAttempt (probed t) b error .b, templateAttempt (probed t) b werr .a] ∧
      error ≠ .none ∧ werr ≠ .none

section
variable {app : MfcNdefApp} {past : Record} {run failBlock : ℕ} {result : MfcNdefResult}
  {t : List FormatEvent}

theorem failureResult_ne_notClassic1k (werr : MfClassicError) :
    failureResult werr ≠ .notClassic1k := by
  unfold failureResult
  split_ifs <;> decide

theorem Ran.ends (h : Ran t result failBlock) :
    ∃ fmt, fmt.failBlock = failBlock ∧ RunEnds ⟨true, true, 0⟩ t (result, fmt) := by
  obtain ⟨fmt, hfail, hx⟩ := h
  exact ⟨fmt, hfail, always_iff.mp formatRun_ends _ _ _ hx⟩

theorem Ran.discipline (h : Ran t result failBlock) :
    ∃ fmt, WriteDiscipline ⟨true, true, 0⟩ t (result, fmt) := by
  obtain ⟨fmt, -, hends⟩ := h.ends
  exact ⟨fmt, hends.discipline⟩

theorem Ran.stopped (h : Ran t result failBlock)
    (hresult : result = .writeFailed ∨ result = .noCard ∧ foundType t ≠ none) :
    ∃ (b : Fin 64) (werr : MfClassicError), failBlock = b ∧ StoppedAt t b werr ∧
      result = failureResult werr := by
  obtain ⟨fmt, rfl, hends⟩ := h.ends
  cases hends with
  | undetected herror =>
    rcases hresult with hresult | ⟨-, hfound⟩
    · exact nomatch hresult
    · exact absurd (if_neg herror) hfound
  | unsupported | finished => simp at hresult
  | ended hended =>
    cases hended with
    | canceled => simp at hresult
    | @failed t u b werr hb hwerr hwritten htried hprogress =>
      obtain ⟨error, herror, hu⟩ := htried.refused hwerr
      have haccepted : accepted u = [] := htried.accepts.trans (if_neg hwerr)
      refine ⟨b, werr, rfl, ⟨hb, (hwritten.handled.append haccepted hprogress).detected,
        attempts t, error, ?_, herror, hwerr⟩, rfl⟩
      change attempts (t ++ u) = _
      rw [attempts_append, hu]
      rfl

theorem Ran.unsupported (h : Ran t .notClassic1k failBlock) :
    ∃ type, type ≠ .type1k ∧ foundType t = some type := by
  obtain ⟨fmt, -, hends⟩ := h.ends
  generalize hv : (MfcNdefResult.notClassic1k, fmt) = v at hends
  have hresult := congrArg Prod.fst hv
  cases hends with
  | unsupported htype => exact ⟨_, htype, rfl⟩
  | undetected | finished => exact nomatch hresult
  | ended hended =>
    cases hended with
    | canceled => exact nomatch hresult
    | failed => exact absurd hresult.symm (failureResult_ne_notClassic1k _)

end

end FlipperApps.MfcNdef
