import FlipperApps.Calls.Transition
import FlipperApps.MfcNdef.Format

/-!
# The app of `mfc_ndef_format.c`

The GUI thread handles key presses and custom events from two queues. A worker
thread runs the format and sends its progress and its end as custom events.
-/

namespace FlipperApps.MfcNdef
open Calls

inductive MfcNdefViewId
  | submenu
  | popup
  | widget
  deriving DecidableEq

inductive MfcNdefMenuIndex
  | format
  | about
  deriving DecidableEq

inductive MfcNdefCustomEvent
  | progress
  | done
  | backToMenu
  deriving DecidableEq

inductive InputKey
  | ok
  | back
  deriving DecidableEq

structure Popup where
  header : String
  text : String

structure Widget where
  primary : String
  text : String
  okButton : Bool

/-- Where `mfc_ndef_worker` is: in the format run, about to send a progress
event, about to send its end, or past that. -/
inductive WorkerPhase
  | formatting (rest : FormatProgram (MfcNdefResult × MfcNdefFormat))
  | notifying (rest : FormatProgram (MfcNdefResult × MfcNdefFormat))
  | reporting
  | returning
  | finished

structure Worker where
  run : ℕ
  phase : WorkerPhase

inductive AfterJoin
  | start
  | exit

inductive GuiThread
  | dispatching
  | joining (next : AfterJoin)
  | exited

/-- The last three fields only count: the runs started, their ends handled, and
the run that stored the result. -/
structure MfcNdefApp where
  currentView : MfcNdefViewId
  shownView : MfcNdefViewId
  popup : Popup
  widget : Widget
  worker : Option Worker
  stopRequested : Bool
  progressBlock : ℕ
  result : MfcNdefResult
  failBlock : ℕ
  inputs : List InputKey
  events : List MfcNdefCustomEvent
  gui : GuiThread
  started : ℕ
  doneHandled : ℕ
  resultRun : ℕ

namespace MfcNdefApp

def initial : MfcNdefApp where
  currentView := .submenu
  shownView := .submenu
  popup := ⟨"", ""⟩
  widget := ⟨"", "", false⟩
  worker := none
  stopRequested := false
  progressBlock := 0
  result := .ok
  failBlock := 0
  inputs := []
  events := []
  gui := .dispatching
  started := 0
  doneHandled := 0
  resultRun := 0

/-- A send that finds a free slot; one that waits for it is no step yet. -/
def sendCustomEvent (app : MfcNdefApp) (event : MfcNdefCustomEvent) : MfcNdefApp :=
  { app with events := app.events ++ [event] }

def switchToView (app : MfcNdefApp) (view : MfcNdefViewId) : MfcNdefApp :=
  { app with currentView := view, shownView := view }

end MfcNdefApp

def launchWorker (app : MfcNdefApp) : MfcNdefApp :=
  { app with
    stopRequested := false
    worker := some ⟨app.started + 1, .formatting (mfcNdefFormatRun ⟨true, true, 0⟩)⟩
    gui := .dispatching
    started := app.started + 1 }

def AfterJoin.resume (app : MfcNdefApp) : AfterJoin → MfcNdefApp
  | .start => launchWorker app
  | .exit => { app with gui := .exited }

def mfcNdefWorkerStop (app : MfcNdefApp) (next : AfterJoin) : MfcNdefApp :=
  match app.worker with
  | none => next.resume app
  | some _ => { app with stopRequested := true, gui := .joining next }

def mfcNdefWorkerStart (app : MfcNdefApp) : MfcNdefApp := mfcNdefWorkerStop app .start

def mfcNdefShowMenu (app : MfcNdefApp) : MfcNdefApp := app.switchToView .submenu

def mfcNdefStartFormat (app : MfcNdefApp) : MfcNdefApp :=
  let app := { app with popup := ⟨"Formatting", "Hold card still\non the back..."⟩ }
  mfcNdefWorkerStart (app.switchToView .popup)

def mfcNdefResultOkButton (app : MfcNdefApp) : MfcNdefApp := app.sendCustomEvent .backToMenu

def resultWidget (result : MfcNdefResult) (failBlock : ℕ) : Widget :=
  match result with
  | .ok => ⟨"Success!", "Card formatted as an\nempty NDEF (NFC) tag.", true⟩
  | .noCard => ⟨"No card", "Card not found or was\nremoved. Try again.", true⟩
  | .notClassic1k =>
    ⟨"Unsupported", "Not a MIFARE Classic 1K.\nOnly 1K is supported.", true⟩
  | .writeFailed => ⟨"Write failed", "Block " ++ toString failBlock ++
      " could not be\nwritten. Unknown key\nor protected card.", true⟩
  | .canceled =>
    ⟨"Canceled", "Formatting stopped.\nThe card may be\npartially written.", true⟩

def mfcNdefShowResult (app : MfcNdefApp) : MfcNdefApp :=
  { app with widget := resultWidget app.result app.failBlock }.switchToView .widget

def aboutWidget : Widget where
  primary := ""
  text := "\x1b#MFC NDEF Format\x1b#\nFormats a MIFARE Classic\n1K into an empty NDEF\n" ++
    "(NFC) tag.\n \nWrites the MAD and an\nempty NDEF record using\ndefault, MAD and NDEF\n" ++
    "keys, like Proxmark's\n'hf mf ndefformat'.\n \nUse on blank or already\n" ++
    "NDEF-formatted 1K cards."
  okButton := false

def mfcNdefShowAbout (app : MfcNdefApp) : MfcNdefApp :=
  { app with widget := aboutWidget }.switchToView .widget

def mfcNdefSubmenuCallback (app : MfcNdefApp) : MfcNdefMenuIndex → MfcNdefApp
  | .format => mfcNdefStartFormat app
  | .about => mfcNdefShowAbout app

def mfcNdefCustomEventCallback (app : MfcNdefApp) : MfcNdefCustomEvent → MfcNdefApp
  | .progress => { app with popup :=
      { app.popup with text := "Block " ++ toString app.progressBlock ++ " / 63" } }
  | .done => mfcNdefShowResult app
  -- Handled in every view, also in the popup of a run.
  | .backToMenu => mfcNdefShowMenu app

/-- False: not consumed, the dispatcher exits the app. -/
def mfcNdefNavigationCallback (app : MfcNdefApp) : Bool × MfcNdefApp :=
  match app.currentView with
  | .popup => (true, { app with stopRequested := true })
  | .widget => (true, mfcNdefShowMenu app)
  | .submenu => (false, app)

def handleKey (app : MfcNdefApp) (choice : MfcNdefMenuIndex) : InputKey → MfcNdefApp
  | .ok => match app.shownView with
    | .submenu => mfcNdefSubmenuCallback app choice
    | .popup => app
    | .widget => if app.widget.okButton then mfcNdefResultOkButton app else app
  | .back =>
    let (consumed, app) := mfcNdefNavigationCallback app
    if consumed then app else mfcNdefWorkerStop app .exit

def mfcNdefWorker (reply : (c : FormatCall) → c.Reply) (worker : Worker) (app : MfcNdefApp) :
    Option MfcNdefApp :=
  match worker.phase with
  | .formatting (.call (FormatCall.progress block) next) => some { app with
      progressBlock := block
      worker := some { worker with phase := .notifying (next ()) } }
  | .formatting (.call FormatCall.readStop next) => some { app with
      worker := some { worker with phase := .formatting (next app.stopRequested) } }
  | .formatting (.call c next) => some { app with
      worker := some { worker with phase := .formatting (next (reply c)) } }
  | .formatting (.done (result, fmt)) => some { app with
      result
      failBlock := fmt.failBlock
      resultRun := worker.run
      worker := some { worker with phase := .reporting } }
  | .notifying rest => some { app.sendCustomEvent .progress with
      worker := some { worker with phase := .formatting rest } }
  | .reporting => some { app.sendCustomEvent .done with
      worker := some { worker with phase := .returning } }
  | .returning => some { app with worker := some { worker with phase := .finished } }
  | .finished => none

/-- The user presses a key, or one of the two threads goes on. `choice` is the
item that the submenu has selected. -/
inductive Action
  | press (key : InputKey)
  | handleInput (choice : MfcNdefMenuIndex)
  | handleEvent
  | join
  | work (reply : (c : FormatCall) → c.Reply)

def step (app : MfcNdefApp) : Action → Option MfcNdefApp
  | .press key => some { app with inputs := app.inputs ++ [key] }
  | .handleInput choice => match app.gui, app.inputs with
    | .dispatching, key :: rest => some (handleKey { app with inputs := rest } choice key)
    | _, _ => none
  | .handleEvent => match app.gui, app.events with
    | .dispatching, event :: rest =>
      let doneHandled := if event = .done then app.doneHandled + 1 else app.doneHandled
      some (mfcNdefCustomEventCallback { app with events := rest, doneHandled } event)
    | _, _ => none
  | .join => match app.gui, app.worker with
    | .joining next, some ⟨_, .finished⟩ => some (next.resume { app with worker := none })
    | _, _ => none
  | .work reply => app.worker.bind fun worker => mfcNdefWorker reply worker app

end FlipperApps.MfcNdef
