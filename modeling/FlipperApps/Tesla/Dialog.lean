import FlipperApps.Tesla.Screen

/-!
# The keys and the reset dialog of `tesla_key_card.c`

The callbacks of the two views post custom events, which wait in the queue of the
view dispatcher until a handler takes them. The main view has the keys while the
main screen is shown, the dialog while the reset screen is.
-/

namespace FlipperApps.Tesla
open Calls

inductive InputKey
  | up
  | down
  | right
  | left
  | ok
  | back
  deriving DecidableEq

inductive InputType
  | press
  | release
  | short
  | long
  | repeat
  deriving DecidableEq

structure InputEvent where
  key : InputKey
  type : InputType

inductive DialogExResult
  | left
  | center
  | right
  | pressLeft
  | pressCenter
  | pressRight
  | releaseLeft
  | releaseCenter
  | releaseRight
  deriving DecidableEq

/-- Whether the event was taken, and what was posted. -/
def teslaKeyCardMainInputCallback (event : InputEvent) : Bool × List UInt32 :=
  if event.type = .short ∧ event.key = .ok then (true, [teslaAppEventResetRequest])
  else (false, [])

def teslaKeyCardResetDialogCallback (result : DialogExResult) : List UInt32 :=
  if result = .left then [teslaAppEventResetCancel]
  else if result = .right then [teslaAppEventResetConfirm]
  else []

/-- A custom event that waits, with the number of the dialog it answers. -/
structure Posted where
  dialog : Option ℕ
  event : UInt32

/-- The app and the event queue of the view dispatcher. Beside them stand the number of
dialogs opened so far, the answers given in each and, for each dialog closed, the posted
event that closed it. -/
structure Desk where
  app : AppState
  queue : List Posted
  stopped : Bool
  opened : ℕ
  answers : List (ℕ × UInt32)
  closed : List (ℕ × Posted)

def Desk.start (a : AppState) : Desk := ⟨a, [], false, 0, [], []⟩

def Desk.answer (desk : Desk) (events : List UInt32) : Desk :=
  { desk with
    queue := desk.queue ++ events.map fun event => ⟨some desk.opened, event⟩
    answers := desk.answers ++ events.map fun event => (desk.opened, event) }

def Desk.handled (desk : Desk) (posted : Posted) (rest : List Posted) (a : AppState) : Desk :=
  { desk with
    app := a
    queue := rest
    opened := if desk.app.1.screen = .main ∧ a.1.screen = .reset then desk.opened + 1
      else desk.opened
    closed := if desk.app.1.screen = .reset ∧ a.1.screen = .main then
        desk.closed ++ [(desk.opened, posted)]
      else desk.closed }

inductive DeskLabel
  | input (event : InputEvent)
  | result (result : DialogExResult)
  | back
  | event (l : AppLabel)
  | beside (l : AppLabel)

inductive DeskStep (D : Device) (mayFail : HalCall → Prop) : Desk → DeskLabel → Desk → Prop
  | input {desk : Desk} (event : InputEvent) (hscreen : desk.app.1.screen = .main) :
      DeskStep D mayFail desk (.input event) { desk with
        queue := desk.queue ++ (teslaKeyCardMainInputCallback event).2.map fun e => ⟨none, e⟩ }
  | result {desk : Desk} (result : DialogExResult) (hscreen : desk.app.1.screen = .reset) :
      DeskStep D mayFail desk (.result result)
        (desk.answer (teslaKeyCardResetDialogCallback result))
  | back {desk : Desk} :
      DeskStep D mayFail desk .back
        (match teslaKeyCardNavigationCallback desk.app.1 with
        | .sendCustomEvent event => desk.answer [event]
        | .stop => { desk with stopped := true })
  | event {desk : Desk} {posted : Posted} {rest : List Posted} {handled : Bool}
      {t : List HalEvent} {a : AppState} (hqueue : desk.queue = posted :: rest)
      (hstep : AppStep D mayFail desk.app (.custom posted.event handled t) a) :
      DeskStep D mayFail desk (.event (.custom posted.event handled t))
        (desk.handled posted rest a)
  | worker {desk : Desk} {a : AppState} (hstep : AppStep D mayFail desk.app .worker a) :
      DeskStep D mayFail desk (.beside .worker) { desk with app := a }
  | tick {desk : Desk} {t : List HalEvent} {a : AppState}
      (hstep : AppStep D mayFail desk.app (.tick t) a) :
      DeskStep D mayFail desk (.beside (.tick t)) { desk with app := a }

section
variable {D : Device} {mayFail : HalCall → Prop} {a a' : AppState}

theorem AppStep.customScreen {event : UInt32} {handled : Bool} {t : List HalEvent}
    (h : AppStep D mayFail a (.custom event handled t) a') :
    a'.1.screen = screenAfter a.1.screen event := by
  cases h with
  | custom hx => exact (always_iff.mp (always_returns (customEvent_returns _ event)) _ _ _ hx).2.1

theorem AppStep.besideScreen {l : AppLabel} (h : AppStep D mayFail a l a')
    (hl : ∀ event handled t, l ≠ .custom event handled t) : a'.1.screen = a.1.screen := by
  cases h with
  | worker => rfl
  | tick hx =>
    obtain ⟨model, rfl, -⟩ := always_iff.mp (always_returns (takeNfcEvents_returns _ _)) _ _ _ hx
    rfl
  | custom => exact absurd rfl (hl _ _ _)
  | navigation => rfl

end

end FlipperApps.Tesla
