import FlipperApps.MfcNdef.AppRuns
import FlipperApps.MfcNdef.Cancel

/-!
# Stopping the worker

A worker that was asked to stop is done after a bounded number of its own steps,
in any run of the app over an event queue of any size. A GUI thread that waits for
it can only be stuck on a full queue, and the app does not exit over a worker that
is alive.
-/

namespace FlipperApps.MfcNdef
open Calls

abbrev AppRun := Run fun app action app' => step app action = some app'

def workerRun : FormatProgram (MfcNdefResult × MfcNdefFormat) := mfcNdefFormatRun ⟨true, true, 0⟩

def Action.Works : Action → Prop
  | .work _ => True
  | _ => False

instance : DecidablePred Action.Works
  | .work _ => isTrue trivial
  | .press _ | .handleInput _ | .handleEvent | .join => isFalse id

def workSteps (actions : List Action) : ℕ := actions.countP fun action => decide action.Works

def ReadsAs (stop : Bool) : FormatEvent → Prop
  | ⟨.readStop, r⟩ => r = stop
  | _ => True

inductive Advances (stop : Bool) : WorkerPhase → WorkerPhase → Prop
  | call {c : FormatCall} {next : c.Reply → FormatProgram (MfcNdefResult × MfcNdefFormat)}
      (r : c.Reply) (hr : ReadsAs stop ⟨c, r⟩) (hc : ∀ b, c ≠ .progress b) :
      Advances stop (.formatting (.call c next)) (.formatting (next r))
  | progress {b : Fin 64} {next : Unit → FormatProgram (MfcNdefResult × MfcNdefFormat)} :
      Advances stop (.formatting (.call (FormatCall.progress b) next)) (.notifying (next ()))
  | notified (rest : FormatProgram (MfcNdefResult × MfcNdefFormat)) :
      Advances stop (.notifying rest) (.formatting rest)
  | stored (v : MfcNdefResult × MfcNdefFormat) : Advances stop (.formatting (.done v)) .reporting
  | reported : Advances stop .reporting .returning
  | returned : Advances stop .returning .finished

inductive Effect (app : MfcNdefApp) (action : Action) (app' : MfcNdefApp) : Prop
  | keeps (hquiet : ¬ action.Works) (hgui : app'.gui = app.gui) (hworker : app'.worker = app.worker)
      (hstop : app.stopRequested = true → app'.stopRequested = true)
      (hstarted : app'.started = app.started)
  | asks {worker : Worker} (next : AfterJoin) (hquiet : ¬ action.Works)
      (hdispatching : app.gui = .dispatching) (hgui : app'.gui = .joining next)
      (halive : app.worker = some worker) (hworker : app'.worker = app.worker)
      (hstop : app'.stopRequested = true) (hstarted : app'.started = app.started)
  | launches (hquiet : ¬ action.Works) (hgui : app'.gui = .dispatching)
      (hworker : app'.worker = some ⟨app.started + 1, .formatting workerRun⟩)
      (hstarted : app'.started = app.started + 1)
  | exits (hquiet : ¬ action.Works) (hgui : app'.gui = .exited) (hworker : app'.worker = none)
      (hstop : app'.stopRequested = app.stopRequested) (hstarted : app'.started = app.started)
  | works {run : ℕ} {phase phase' : WorkerPhase} (hwork : action.Works)
      (halive : app.worker = some ⟨run, phase⟩) (hworker : app'.worker = some ⟨run, phase'⟩)
      (hadvance : Advances app.stopRequested phase phase') (hgui : app'.gui = app.gui)
      (hstop : app'.stopRequested = app.stopRequested) (hstarted : app'.started = app.started)

section
variable {app app₁ app' : MfcNdefApp} {action : Action} {next : AfterJoin}

structure SameThreads (app app' : MfcNdefApp) : Prop where
  gui : app'.gui = app.gui
  worker : app'.worker = app.worker
  stop : app'.stopRequested = app.stopRequested
  started : app'.started = app.started

theorem SameThreads.keeps (h : SameThreads app app') (hquiet : ¬ action.Works) :
    Effect app action app' :=
  .keeps hquiet h.gui h.worker (fun hstop => h.stop.trans hstop) h.started

theorem workerStop_effect (h : SameThreads app app₁) (hgui : app.gui = .dispatching)
    (hquiet : ¬ action.Works) : Effect app action (mfcNdefWorkerStop app₁ next) := by
  unfold mfcNdefWorkerStop
  cases hworker : app₁.worker with
  | none =>
    cases next with
    | start => exact .launches hquiet rfl (by rw [← h.started]; rfl) (by rw [← h.started]; rfl)
    | exit => exact .exits hquiet rfl hworker h.stop h.started
  | some worker =>
    exact .asks next hquiet hgui rfl (h.worker.symm.trans hworker) (hworker.symm.trans h.worker)
      rfl h.started

theorem handleKey_effect {choice : MfcNdefMenuIndex} {key : InputKey}
    (h : SameThreads app app₁) (hgui : app.gui = .dispatching) (hquiet : ¬ action.Works) :
    Effect app action (handleKey app₁ choice key) := by
  have hshown (view : MfcNdefViewId) (popup : Popup) (widget : Widget) :
      SameThreads app ({ app₁ with popup, widget }.switchToView view) :=
    ⟨h.gui, h.worker, h.stop, h.started⟩
  cases key with
  | ok =>
    cases hview : app₁.shownView with
    | submenu =>
      simp only [handleKey, hview]
      cases choice with
      | format => exact workerStop_effect (hshown .popup _ app₁.widget) hgui hquiet
      | about => exact (hshown .widget app₁.popup _).keeps hquiet
    | popup =>
      simp only [handleKey, hview]
      exact h.keeps hquiet
    | widget =>
      simp only [handleKey, hview]
      split_ifs
      · exact SameThreads.keeps ⟨h.gui, h.worker, h.stop, h.started⟩ hquiet
      · exact h.keeps hquiet
  | back =>
    cases hview : app₁.currentView with
    | submenu =>
      simp only [handleKey, mfcNdefNavigationCallback, hview, Bool.false_eq_true, if_false]
      exact workerStop_effect h hgui hquiet
    | popup =>
      simp only [handleKey, mfcNdefNavigationCallback, hview, if_true]
      exact .keeps hquiet h.gui h.worker (fun _ => rfl) h.started
    | widget =>
      simp only [handleKey, mfcNdefNavigationCallback, hview, if_true]
      exact (hshown .submenu app₁.popup app₁.widget).keeps hquiet

theorem customEvent_same {event : MfcNdefCustomEvent} (h : SameThreads app app₁) :
    SameThreads app (mfcNdefCustomEventCallback app₁ event) := by
  cases event <;> exact ⟨h.gui, h.worker, h.stop, h.started⟩

theorem worker_effect {reply : (c : FormatCall) → c.Reply} {worker : Worker}
    (halive : app.worker = some worker) (h : mfcNdefWorker reply worker app = some app') :
    Effect app (.work reply) app' := by
  obtain ⟨run, phase⟩ := worker
  cases phase with
  | formatting rest =>
    cases rest with
    | done v =>
      cases h
      exact .works trivial halive rfl (.stored v) rfl rfl rfl
    | call c next =>
      cases c with
      | progress b =>
        cases h
        exact .works trivial halive rfl .progress rfl rfl rfl
      | readStop =>
        cases h
        exact .works trivial halive rfl (.call _ rfl (by simp)) rfl rfl rfl
      | detectType | auth | writeBlock =>
        cases h
        exact .works trivial halive rfl (.call _ trivial (by simp)) rfl rfl rfl
  | notifying rest =>
    cases h
    exact .works trivial halive rfl (.notified rest) rfl rfl rfl
  | reporting =>
    cases h
    exact .works trivial halive rfl .reported rfl rfl rfl
  | returning =>
    cases h
    exact .works trivial halive rfl .returned rfl rfl rfl
  | finished => exact nomatch h

theorem step_effect (h : step app action = some app') : Effect app action app' := by
  cases action with
  | press key =>
    cases h
    exact SameThreads.keeps ⟨rfl, rfl, rfl, rfl⟩ id
  | handleInput choice =>
    simp only [step] at h
    split at h
    · next key rest hgui hinputs =>
      cases h
      exact handleKey_effect ⟨rfl, rfl, rfl, rfl⟩ hgui id
    · cases h
  | handleEvent =>
    simp only [step] at h
    split at h
    · next event rest hgui hevents =>
      cases h
      exact SameThreads.keeps (customEvent_same ⟨rfl, rfl, rfl, rfl⟩) id
    · cases h
  | join =>
    simp only [step] at h
    split at h
    · next next run hgui hworker =>
      cases h
      cases next with
      | start => exact .launches id rfl rfl rfl
      | exit => exact .exits id rfl rfl rfl rfl
    · cases h
  | work reply =>
    obtain ⟨worker, hworker, h⟩ := Option.bind_eq_some_iff.mp h
    exact worker_effect hworker h

end

def WorkerPhase.Follows : WorkerPhase → Prop
  | .formatting rest => workerRun.Residual rest
  | .notifying rest => ∃ b next, workerRun.Residual (.call (FormatCall.progress b) next) ∧
      rest = next ()
  | _ => True

/-- What the worker's steps are charged. The report of a block is two steps: the store of
its number and the event. -/
structure Tariff where
  calls : Prices
  store : ℕ
  send : ℕ
  leave : ℕ

namespace Tariff

def run (k : Tariff) : Prices := { k.calls with progress := k.calls.progress + k.send }

def report (k : Tariff) : ℕ := k.store + k.send + k.leave

def next (k : Tariff) : WorkerPhase → ℕ
  | .formatting (.call c _) => k.calls.of c
  | .formatting (.done _) => k.store
  | .notifying _ => k.send
  | .reporting => k.send
  | .returning => k.leave
  | .finished => 0

def steps : Tariff := ⟨⟨1, 1, 1, 1, 1⟩, 1, 1, 1⟩

def sends : Tariff := ⟨⟨0, 0, 0, 0, 0⟩, 0, 1, 0⟩

end Tariff

/-- All that a worker does after it sees the flag is charged `n` at most. -/
def WorkerPhase.EndsIn (k : Tariff) (n : ℕ) : WorkerPhase → Prop
  | .formatting rest => ∃ m, Within k.run.of StopSeen m rest ∧ m + k.report ≤ n
  | .notifying rest => ∃ m, Within k.run.of StopSeen m rest ∧ k.send + m + k.report ≤ n
  | .reporting => k.send + k.leave ≤ n
  | .returning => k.leave ≤ n
  | .finished => True

section
variable {phase phase' : WorkerPhase} {k : Tariff} {n : ℕ}

theorem WorkerPhase.Follows.advance {stop : Bool} (h : phase.Follows)
    (hadvance : Advances stop phase phase') : phase'.Follows := by
  cases hadvance with
  | call r => exact Program.Residual.next h r
  | @progress b next => exact ⟨b, next, h, rfl⟩
  | notified =>
    obtain ⟨b, next, hnext, rfl⟩ := h
    exact hnext.next ()
  | stored => trivial
  | reported => trivial
  | returned => trivial

theorem WorkerPhase.Follows.endsIn (h : phase.Follows) (hk : k.run.Covers n) :
    phase.EndsIn k (n + k.report) := by
  have hrest {q : FormatProgram (MfcNdefResult × MfcNdefFormat)} (hq : workerRun.Residual q) :
      Within k.run.of StopSeen n q := formatRun_residual_within rfl hk hq
  cases phase with
  | formatting rest => exact ⟨n, hrest h, Nat.le_refl _⟩
  | notifying rest =>
    obtain ⟨b, next, hnext, rfl⟩ := h
    obtain ⟨m, hm, hwithin⟩ := (hrest hnext).next (r := ()) trivial stopSeen_reply
    have hprice : k.run.of (.progress b) = k.calls.progress + k.send := rfl
    exact ⟨m, hwithin, by omega⟩
  | reporting => exact (by simp only [Tariff.report]; omega : k.send + k.leave ≤ n + k.report)
  | returning => exact (by simp only [Tariff.report]; omega : k.leave ≤ n + k.report)
  | finished => trivial

theorem WorkerPhase.EndsIn.advance (h : phase.EndsIn k n) (hadvance : Advances true phase phase') :
    ∃ m, k.next phase + m ≤ n ∧ phase'.EndsIn k m := by
  cases hadvance with
  | @call c next r hr hc =>
    obtain ⟨m, hm, hn⟩ := h
    have hseen : StopSeen ⟨c, r⟩ := by
      cases c with
      | readStop => exact hr
      | _ => trivial
    have hprice : k.run.of c = k.calls.of c := by
      cases c with
      | progress b => exact absurd rfl (hc b)
      | _ => rfl
    obtain ⟨m', hm', hwithin⟩ := hm.next hseen stopSeen_reply
    rw [hprice] at hm'
    exact ⟨m' + k.report, by simp only [Tariff.next]; omega, m', hwithin, Nat.le_refl _⟩
  | @progress b next =>
    obtain ⟨m, hm, hn⟩ := h
    obtain ⟨m', hm', hwithin⟩ := hm.next (r := ()) trivial stopSeen_reply
    have hprice : k.run.of (.progress b) = k.calls.of (.progress b) + k.send := rfl
    exact ⟨k.send + m' + k.report, by simp only [Tariff.next]; omega, m', hwithin, Nat.le_refl _⟩
  | notified =>
    obtain ⟨m, hm, hn⟩ := h
    exact ⟨m + k.report, by simp only [Tariff.next]; omega, m, hm, Nat.le_refl _⟩
  | stored =>
    obtain ⟨m, -, hn⟩ := h
    refine ⟨k.send + k.leave, ?_, Nat.le_refl _⟩
    simp only [Tariff.next, Tariff.report] at hn ⊢
    omega
  | reported => exact ⟨k.leave, h, Nat.le_refl _⟩
  | returned => exact ⟨0, h, trivial⟩

end

theorem Advances.steps {stop : Bool} {phase phase' : WorkerPhase}
    (h : Advances stop phase phase') : Tariff.steps.next phase = 1 := by
  cases h with
  | @call c => cases c <;> rfl
  | progress | notified | stored | reported | returned => rfl

structure Orderly (app : MfcNdefApp) : Prop where
  follows : ∀ w, app.worker = some w → w.phase.Follows
  joining : ∀ next, app.gui = .joining next → app.stopRequested = true ∧ app.worker ≠ none
  exited : app.gui = .exited → app.worker = none

section
variable {app app' : MfcNdefApp} {action : Action} {actions : List Action}

theorem Orderly.initial : Orderly MfcNdefApp.initial := ⟨nofun, nofun, nofun⟩

theorem Orderly.step (h : Orderly app) (hstep : Effect app action app') : Orderly app' := by
  cases hstep with
  | keeps _ hgui hworker hstop _ =>
    refine ⟨?_, ?_, ?_⟩
    · rw [hworker]
      exact h.follows
    · rw [hgui, hworker]
      exact fun next hnext => (h.joining next hnext).imp hstop id
    · rw [hgui, hworker]
      exact h.exited
  | asks next _ _ hgui halive hworker hstop _ =>
    refine ⟨?_, fun _ _ => ⟨hstop, ?_⟩, fun hexit => ?_⟩
    · rw [hworker]
      exact h.follows
    · rw [hworker, halive]
      nofun
    · exact nomatch hgui.symm.trans hexit
  | launches _ hgui hworker _ =>
    refine ⟨fun w hw => ?_, fun next hnext => ?_, fun hexit => ?_⟩
    · obtain rfl := Option.some.inj (hworker.symm.trans hw)
      exact Program.Residual.refl _
    · exact nomatch hgui.symm.trans hnext
    · exact nomatch hgui.symm.trans hexit
  | exits _ hgui hworker _ _ =>
    refine ⟨fun w hw => ?_, fun next hnext => ?_, fun _ => hworker⟩
    · exact nomatch hworker.symm.trans hw
    · exact nomatch hgui.symm.trans hnext
  | works _ halive hworker hadvance hgui hstop _ =>
    refine ⟨fun w hw => ?_, fun next hnext => ⟨?_, ?_⟩, fun hexit => ?_⟩
    · obtain rfl := Option.some.inj (hworker.symm.trans hw)
      exact (h.follows _ halive).advance hadvance
    · exact hstop.trans (h.joining next (hgui.symm.trans hnext)).1
    · rw [hworker]
      nofun
    · exact nomatch halive.symm.trans (h.exited (hgui.symm.trans hexit))

theorem orderly_run (hrun : AppRun MfcNdefApp.initial actions app) : Orderly app :=
  hrun.invariant (P := fun _ => Orderly) .initial fun _ _ _ _ h hstep => h.step (step_effect hstep)

structure Stopping (app₀ : MfcNdefApp) (actions : List Action) (app : MfcNdefApp) : Prop where
  grows : app₀.started ≤ app.started
  ends : app.started = app₀.started → app.stopRequested = true ∧
    ∃ n, workSteps actions + n ≤ 8 ∧ ∀ w, app.worker = some w → w.phase.EndsIn .steps n

theorem workSteps_works (hwork : action.Works) :
    workSteps (actions ++ [action]) = workSteps actions + 1 := by
  simp [workSteps, hwork]

theorem workSteps_quiet (hquiet : ¬ action.Works) :
    workSteps (actions ++ [action]) = workSteps actions := by
  simp [workSteps, hquiet]

theorem Stopping.step {app₀ : MfcNdefApp} (h : Stopping app₀ actions app)
    (hstep : Effect app action app') : Stopping app₀ (actions ++ [action]) app' := by
  have hgrows := h.grows
  cases hstep with
  | keeps hquiet _ hworker hstop hstarted =>
    refine ⟨hstarted ▸ hgrows, fun hsame => ?_⟩
    rw [workSteps_quiet hquiet, hworker]
    exact (h.ends (hstarted.symm.trans hsame)).imp hstop id
  | asks _ hquiet _ _ _ hworker hstop hstarted =>
    refine ⟨hstarted ▸ hgrows, fun hsame => ⟨hstop, ?_⟩⟩
    rw [workSteps_quiet hquiet, hworker]
    exact (h.ends (hstarted.symm.trans hsame)).2
  | launches _ _ _ hstarted => exact ⟨by omega, fun hsame => by omega⟩
  | exits hquiet _ hworker hstop hstarted =>
    refine ⟨hstarted ▸ hgrows, fun hsame => ?_⟩
    obtain ⟨hasked, n, hn, -⟩ := h.ends (hstarted.symm.trans hsame)
    rw [workSteps_quiet hquiet]
    exact ⟨hstop.trans hasked, n, hn, fun w hw => nomatch hworker.symm.trans hw⟩
  | @works run phase phase' hwork halive hworker hadvance _ hstop hstarted =>
    refine ⟨hstarted ▸ hgrows, fun hsame => ?_⟩
    obtain ⟨hasked, n, hn, hends⟩ := h.ends (hstarted.symm.trans hsame)
    have hends : phase.EndsIn .steps n := hends _ halive
    rw [hasked] at hadvance
    obtain ⟨m, hm, hends'⟩ := hends.advance hadvance
    rw [hadvance.steps] at hm
    refine ⟨hstop.trans hasked, m, by rw [workSteps_works hwork]; omega, fun w hw => ?_⟩
    obtain rfl := Option.some.inj (hworker.symm.trans hw)
    exact hends'

theorem Orderly.workSteps_le (h : Orderly app) (hstop : app.stopRequested = true)
    (hrun : AppRun app actions app') (hsame : app'.started = app.started) :
    workSteps actions ≤ 8 := by
  have hstart : Stopping app [] app :=
    ⟨Nat.le_refl _, fun _ => ⟨hstop, 8, Nat.le_refl _,
      fun w hw => (h.follows w hw).endsIn (n := 5) ⟨by decide, by decide⟩⟩⟩
  have hend : Stopping app actions app' :=
    hrun.invariant hstart fun _ _ _ _ h hstep => h.step (step_effect hstep)
  obtain ⟨-, n, hn, -⟩ := hend.ends hsame
  omega

theorem joining_cases {next : AfterJoin} (hgui : app.gui = .joining next) (hjoin : action ≠ .join)
    (h : MfcNdef.step app action = some app') :
    (∃ inputs, app' = { app with inputs }) ∨
      ∃ reply worker, action = .work reply ∧ app.worker = some worker ∧
        mfcNdefWorker reply worker app = some app' := by
  cases action with
  | press key =>
    cases h
    exact .inl ⟨_, rfl⟩
  | handleInput | handleEvent =>
    simp only [MfcNdef.step, hgui] at h
    cases h
  | join => exact absurd rfl hjoin
  | work reply =>
    obtain ⟨worker, hworker, h⟩ := Option.bind_eq_some_iff.mp h
    exact .inr ⟨reply, worker, rfl, hworker, h⟩

theorem worker_sends {reply : (c : FormatCall) → c.Reply} {worker : Worker}
    (h : mfcNdefWorker reply worker app = some app') :
    app'.events.length = app.events.length + Tariff.sends.next worker.phase := by
  obtain ⟨run, phase⟩ := worker
  cases phase with
  | formatting rest =>
    cases rest with
    | done v =>
      cases h
      rfl
    | call c next =>
      cases c with
      | detectType | auth | writeBlock | readStop | progress =>
        cases h
        rfl
  | notifying | reporting =>
    cases h
    exact List.length_append
  | returning =>
    cases h
    rfl
  | finished => exact nomatch h

end

/-- A step over an event queue of so many slots: a send waits until one is free. -/
def queueStep (slots : ℕ) (app : MfcNdefApp) (action : Action) : Option MfcNdefApp :=
  (step app action).filter fun app' => decide (app'.events.length ≤ slots)

abbrev QueueRun (slots : ℕ) := Run fun app action app' => queueStep slots app action = some app'

def GoesOn (slots : ℕ) (app : MfcNdefApp) : Prop :=
  (∀ reply, ∃ app', queueStep slots app (.work reply) = some app') ∨
    ∃ app', queueStep slots app .join = some app'

def Blocked (slots : ℕ) (app : MfcNdefApp) : Prop :=
  app.events.length = slots ∧ ∃ worker, app.worker = some worker ∧
    Tariff.sends.next worker.phase = 1

section
variable {slots : ℕ} {app app' : MfcNdefApp} {action : Action} {actions : List Action}
  {next : AfterJoin}

theorem queueStep_eq_some : queueStep slots app action = some app' ↔
    step app action = some app' ∧ app'.events.length ≤ slots := by
  simp [queueStep, Option.filter_eq_some_iff]

theorem QueueRun.appRun (h : QueueRun slots app actions app') : AppRun app actions app' := by
  induction h with
  | nil => exact .nil _
  | snoc _ hstep ih => exact ih.snoc (queueStep_eq_some.mp hstep).1

theorem QueueRun.fits (h : QueueRun slots app actions app') (hfits : app.events.length ≤ slots) :
    app'.events.length ≤ slots := by
  cases h with
  | nil => exact hfits
  | snoc _ hstep => exact (queueStep_eq_some.mp hstep).2

structure Waiting (slots : ℕ) (next : AfterJoin) (app : MfcNdefApp) : Prop where
  orderly : Orderly app
  gui : app.gui = .joining next
  free : ∃ n, app.events.length + n ≤ slots ∧
    ∀ w, app.worker = some w → w.phase.EndsIn .sends n

theorem joining_step (hgui : app.gui = .joining next) (hjoin : action ≠ .join)
    (h : step app action = some app') :
    app'.gui = .joining next ∧ app'.started = app.started := by
  rcases joining_cases hgui hjoin h with ⟨inputs, rfl⟩ | ⟨reply, worker, rfl, hworker, hwork⟩
  · exact ⟨hgui, rfl⟩
  · cases worker_effect hworker hwork with
    | works _ _ _ _ hgui' _ hstarted => exact ⟨hgui'.trans hgui, hstarted⟩
    | keeps hquiet | asks _ hquiet | launches hquiet | exits hquiet => exact absurd trivial hquiet

theorem Waiting.step (h : Waiting slots next app) (hjoin : action ≠ .join)
    (hstep : step app action = some app') : Waiting slots next app' := by
  refine ⟨h.orderly.step (step_effect hstep), (joining_step h.gui hjoin hstep).1, ?_⟩
  obtain ⟨n, hfree, hends⟩ := h.free
  rcases joining_cases h.gui hjoin hstep with ⟨inputs, rfl⟩ | ⟨reply, worker, rfl, hworker, hwork⟩
  · exact ⟨n, hfree, hends⟩
  · have hsent := worker_sends hwork
    cases worker_effect hworker hwork with
    | @works run phase phase' _ halive hworker' hadvance _ _ _ =>
      obtain rfl : worker = ⟨run, phase⟩ := Option.some.inj (hworker.symm.trans halive)
      rw [(h.orderly.joining next h.gui).1] at hadvance
      have hends : phase.EndsIn .sends n := hends _ hworker
      obtain ⟨m, hm, hends'⟩ := hends.advance hadvance
      refine ⟨m, by simp only at hsent; omega, fun w hw => ?_⟩
      obtain rfl := Option.some.inj (hworker'.symm.trans hw)
      exact hends'
    | keeps hquiet | asks _ hquiet | launches hquiet | exits hquiet => exact absurd trivial hquiet

theorem joining_run {P : MfcNdefApp → Prop} (hrun : QueueRun slots app actions app')
    (hjoin : .join ∉ actions) (hp : P app)
    (hstep : ∀ app action app', P app → action ≠ .join → step app action = some app' → P app') :
    P app' := by
  induction hrun with
  | nil => exact hp
  | snoc _ hlast ih =>
    simp only [List.mem_append, List.mem_singleton, not_or] at hjoin
    exact hstep _ _ _ (ih hjoin.1) (Ne.symm hjoin.2) (queueStep_eq_some.mp hlast).1

theorem Orderly.goesOn (h : Orderly app) (hgui : app.gui = .joining next)
    (hfits : app.events.length ≤ slots) : GoesOn slots app ∨ Blocked slots app := by
  obtain ⟨⟨run, phase⟩, hworker⟩ := Option.ne_none_iff_exists'.mp (h.joining next hgui).2
  have hstep (reply : (c : FormatCall) → c.Reply) :
      MfcNdef.step app (.work reply) = mfcNdefWorker reply ⟨run, phase⟩ app := by
    simp only [MfcNdef.step, hworker, Option.bind_some]
  by_cases hfree : app.events.length + Tariff.sends.next phase ≤ slots
  · have hgoes (hworks : ∀ reply, ∃ app', mfcNdefWorker reply ⟨run, phase⟩ app = some app') :
        GoesOn slots app := by
      refine .inl fun reply => ?_
      obtain ⟨app', happ'⟩ := hworks reply
      refine ⟨app', queueStep_eq_some.mpr ⟨(hstep reply).trans happ', ?_⟩⟩
      rwa [worker_sends happ']
    left
    cases phase with
    | formatting rest =>
      cases rest with
      | done v => exact hgoes fun _ => ⟨_, rfl⟩
      | call c next => exact hgoes fun _ => by cases c <;> exact ⟨_, rfl⟩
    | notifying | reporting | returning => exact hgoes fun _ => ⟨_, rfl⟩
    | finished =>
      refine .inr ⟨next.resume { app with worker := none }, queueStep_eq_some.mpr ⟨?_, ?_⟩⟩
      · simp only [MfcNdef.step, hgui, hworker]
      · cases next <;> exact hfits
  · have hone : Tariff.sends.next phase ≤ 1 := by
      cases phase with
      | formatting rest =>
        cases rest with
        | done => exact Nat.zero_le 1
        | call c => cases c <;> exact Nat.zero_le 1
      | notifying | reporting => exact Nat.le_refl 1
      | returning | finished => exact Nat.zero_le 1
    exact .inr ⟨by omega, ⟨run, phase⟩, hworker, by simp only; omega⟩

theorem Waiting.goesOn (h : Waiting slots next app) : GoesOn slots app := by
  obtain ⟨n, hfree, hends⟩ := h.free
  rcases @Orderly.goesOn slots _ _ h.orderly h.gui (by omega) with hgoes | ⟨hfull, w, hw, hsend⟩
  · exact hgoes
  · have hn : 1 ≤ n := by
      have hleft := hends w hw
      obtain ⟨run, phase⟩ := w
      cases phase with
      | formatting rest =>
        cases rest with
        | done => exact nomatch hsend
        | call c => cases c <;> exact nomatch hsend
      | notifying =>
        obtain ⟨m, -, hm⟩ := hleft
        simp only [Tariff.sends, Tariff.report] at hm
        omega
      | reporting => exact hleft
      | returning | finished => exact nomatch hsend
    omega

theorem Orderly.waiting (h : Orderly app) (hgui : app.gui = .joining next)
    (hfree : app.events.length + 2 ≤ slots) : Waiting slots next app :=
  ⟨h, hgui, 2, hfree, fun w hw => (h.follows w hw).endsIn (n := 1) ⟨by decide, by decide⟩⟩

/-- In every run of the app over a queue of any size, whatever is pressed and whatever
the poller answers: a worker that was asked to stop takes eight steps more at most;
the GUI thread only waits for a worker that was asked, is only stuck where the worker
sends into a full queue, and not at all if two slots were free; and past the exit
there is no worker and nothing happens but key presses. -/
theorem worker_stops (hrun : QueueRun slots MfcNdefApp.initial actions app) :
    (app.stopRequested = true → ∀ later app', QueueRun slots app later app' →
      app'.started = app.started → workSteps later ≤ 8) ∧
    (∀ next, app.gui = .joining next → ∀ later app', QueueRun slots app later app' →
      .join ∉ later → workSteps later ≤ 8 ∧ (GoesOn slots app' ∨ Blocked slots app') ∧
        (app.events.length + 2 ≤ slots → GoesOn slots app')) ∧
    (app.gui = .exited → app.worker = none ∧
      ∀ action app', step app action = some app' → ∃ key, action = .press key) := by
  have h := orderly_run (QueueRun.appRun hrun)
  have hfits := QueueRun.fits hrun (Nat.zero_le slots)
  refine ⟨fun hstop later app' hlater hsame => h.workSteps_le hstop (QueueRun.appRun hlater) hsame,
    fun next hgui later app' hlater hjoin => ?_, fun hgui => ?_⟩
  · have hwaits := joining_run (P := fun app' => app'.gui = .joining next ∧
      app'.started = app.started ∧ Orderly app') hlater hjoin ⟨hgui, rfl, h⟩
      fun _ _ _ h hne hstep => ⟨(joining_step h.1 hne hstep).1,
        (joining_step h.1 hne hstep).2.trans h.2.1, h.2.2.step (step_effect hstep)⟩
    refine ⟨h.workSteps_le (h.joining next hgui).1 (QueueRun.appRun hlater) hwaits.2.1,
      hwaits.2.2.goesOn hwaits.1 (QueueRun.fits hlater hfits), fun hfree => ?_⟩
    exact (joining_run hlater hjoin (h.waiting hgui hfree)
      fun _ _ _ h hne hstep => h.step hne hstep).goesOn
  · have hnone := h.exited hgui
    refine ⟨hnone, fun action app' hstep => ?_⟩
    cases action with
    | press key => exact ⟨key, rfl⟩
    | handleInput | handleEvent | join =>
      simp only [step, hgui] at hstep
      cases hstep
    | work reply =>
      simp only [step, hnone, Option.bind_none] at hstep
      cases hstep

end

/-- A run that finds no card. Its result is left and Format is chosen again before the
worker has returned. -/
def hastyUser : List Action :=
  [.press .ok, .handleInput .format, .work noCardReply, .work noCardReply, .work noCardReply,
    .handleEvent, .press .ok, .handleInput .format, .handleEvent, .press .ok, .handleInput .format]

theorem worker_stops_hastyUser :
    ∃ app, QueueRun 16 MfcNdefApp.initial hastyUser app ∧ app.gui = .joining .start ∧
      app.events.length + 2 ≤ 16 ∧ ∀ later app', QueueRun 16 app later app' →
        .join ∉ later → workSteps later ≤ 8 ∧ GoesOn 16 app' := by
  have hend : (hastyUser.foldlM (queueStep 16) MfcNdefApp.initial).map
      (fun app => (app.gui, app.events)) = some (.joining .start, []) := rfl
  obtain ⟨app, hrun, happ⟩ := Option.map_eq_some_iff.mp hend
  obtain ⟨hgui, hevents⟩ := Prod.mk.inj happ
  have hfree : app.events.length + 2 ≤ 16 := by rw [hevents]; decide
  refine ⟨app, run_of_foldlM hrun, hgui, hfree, fun later app' hlater hjoin => ?_⟩
  obtain ⟨-, hwaits, -⟩ := worker_stops (run_of_foldlM hrun)
  obtain ⟨hsteps, -, hgoes⟩ := hwaits _ hgui later app' hlater hjoin
  exact ⟨hsteps, hgoes hfree⟩

end FlipperApps.MfcNdef
