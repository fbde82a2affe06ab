import FlipperApps.Tesla.Dialog

/-!
# The first answer decides the dialog

A reset dialog is closed by the first answer given while it was shown, in the
order in which dialogs were opened, and never by one that was meant for an earlier
dialog: such an answer is taken from the queue before the next dialog opens.
-/

namespace FlipperApps.Tesla
open Calls

def IsAnswer (event : UInt32) : Prop :=
  event = teslaAppEventResetCancel ∨ event = teslaAppEventResetConfirm

def postedRequest : Posted := ⟨none, teslaAppEventResetRequest⟩

def postedAnswer (answer : ℕ × UInt32) : Posted := ⟨some answer.1, answer.2⟩

def Desk.current (desk : Desk) : List (ℕ × UInt32) :=
  desk.answers.filter fun answer => answer.1 = desk.opened

def Desk.firstAnswer (desk : Desk) (dialog : ℕ) : Option (ℕ × UInt32) :=
  desk.answers.find? fun answer => answer.1 = dialog

/-- What waits: on the main screen late answers and then requests, in a dialog
late requests and then its own answers. -/
inductive Waits (desk : Desk) : Prop
  | main (late : List (ℕ × UInt32)) (requests : ℕ) (hscreen : desk.app.1.screen = .main)
      (hlate : ∀ answer ∈ late, IsAnswer answer.2)
      (hqueue : desk.queue = late.map postedAnswer ++ List.replicate requests postedRequest)
  | dialog (requests : ℕ) (hscreen : desk.app.1.screen = .reset)
      (hqueue : desk.queue =
        List.replicate requests postedRequest ++ desk.current.map postedAnswer)

def Desk.done (desk : Desk) : ℕ :=
  if desk.app.1.screen = .reset then desk.opened - 1 else desk.opened

structure Orderly (desk : Desk) : Prop where
  waits : Waits desk
  numbers : ∀ answer ∈ desk.answers, answer.1 ≤ desk.opened
  answers : ∀ answer ∈ desk.answers, IsAnswer answer.2
  opened : desk.app.1.screen = .reset → 1 ≤ desk.opened
  closed : desk.closed.map Prod.fst = List.range' 1 desk.done
  first : ∀ c ∈ desk.closed,
    c.2.dialog = some c.1 ∧ desk.firstAnswer c.1 = some (c.1, c.2.event)

def DeskLabel.ChangesFiles : DeskLabel → Prop
  | .event l => l.ChangesFiles
  | .beside l => l.ChangesFiles
  | .input _ => False
  | .result _ => False
  | .back => False

section
variable {D : Device} {mayFail : HalCall → Prop} {desk desk' : Desk} {l : DeskLabel}

theorem IsAnswer.ne_request {event : UInt32} (h : IsAnswer event) :
    event ≠ teslaAppEventResetRequest := by
  rintro rfl
  rcases h with h | h
  · exact absurd h (by decide)
  · exact absurd h (by decide)

theorem screenAfter_request (screen : TeslaKeyCardScreen) :
    screenAfter screen teslaAppEventResetRequest = .reset := by
  cases screen with
  | main => rfl
  | reset => decide

theorem screenAfter_answer {event : UInt32} (h : IsAnswer event) (screen : TeslaKeyCardScreen) :
    screenAfter screen event = .main := by
  unfold screenAfter
  rw [if_neg fun hrequest => h.ne_request hrequest.1]
  cases screen with
  | main => exact if_neg fun hreset => nomatch hreset.2
  | reset => exact if_pos ⟨h, rfl⟩

theorem resetDialog_answers (result : DialogExResult) :
    ∀ event ∈ teslaKeyCardResetDialogCallback result, IsAnswer event := by
  unfold teslaKeyCardResetDialogCallback
  split_ifs
  · simp [IsAnswer]
  · simp [IsAnswer]
  · simp

theorem Waits.late (h : Waits desk) (hscreen : desk.app.1.screen = .main) :
    ∃ (late : List (ℕ × UInt32)) (requests : ℕ), (∀ answer ∈ late, IsAnswer answer.2) ∧
      desk.queue = late.map postedAnswer ++ List.replicate requests postedRequest := by
  cases h with
  | main late requests _ hlate hqueue => exact ⟨late, requests, hlate, hqueue⟩
  | dialog _ hreset => exact nomatch hscreen.symm.trans hreset

theorem Waits.own (h : Waits desk) (hscreen : desk.app.1.screen = .reset) :
    ∃ requests, desk.queue =
      List.replicate requests postedRequest ++ desk.current.map postedAnswer := by
  cases h with
  | main _ _ hmain => exact nomatch hscreen.symm.trans hmain
  | dialog requests _ hqueue => exact ⟨requests, hqueue⟩

theorem Desk.current_head {answer : ℕ × UInt32} {rest : List (ℕ × UInt32)}
    (h : desk.current = answer :: rest) :
    answer.1 = desk.opened ∧ desk.firstAnswer desk.opened = some answer := by
  have hmem : answer ∈ desk.current := h ▸ List.mem_cons_self
  refine ⟨by simpa using (List.mem_filter.mp hmem).2, ?_⟩
  rw [Desk.firstAnswer, ← List.head?_filter]
  exact congrArg List.head? h

theorem Orderly.input (h : Orderly desk) (event : InputEvent)
    (hscreen : desk.app.1.screen = .main) :
    Orderly { desk with
      queue := desk.queue ++ (teslaKeyCardMainInputCallback event).2.map fun e => ⟨none, e⟩ } := by
  obtain ⟨late, requests, hlate, hqueue⟩ := h.waits.late hscreen
  have hwaits : ∃ n, (teslaKeyCardMainInputCallback event).2.map (fun e => Posted.mk none e) =
      List.replicate n postedRequest := by
    unfold teslaKeyCardMainInputCallback
    split_ifs
    · exact ⟨1, rfl⟩
    · exact ⟨0, rfl⟩
  obtain ⟨n, hn⟩ := hwaits
  refine ⟨.main late (requests + n) hscreen hlate ?_, h.numbers, h.answers, h.opened, h.closed,
    h.first⟩
  rw [hn, hqueue, List.append_assoc, List.replicate_append_replicate]

theorem Orderly.answer (h : Orderly desk) {events : List UInt32}
    (hevents : ∀ event ∈ events, IsAnswer event) (hscreen : desk.app.1.screen = .reset) :
    Orderly (desk.answer events) := by
  obtain ⟨requests, hqueue⟩ := h.waits.own hscreen
  have hnew : (desk.answer events).current =
      desk.current ++ events.map fun event => (desk.opened, event) := by
    have hall : (events.map fun event => (desk.opened, event)).filter
        (fun answer => answer.1 = desk.opened) = events.map fun event => (desk.opened, event) :=
      List.filter_eq_self.mpr (by simp)
    change (desk.answers ++ events.map fun event => (desk.opened, event)).filter
      (fun answer => answer.1 = desk.opened) = _
    rw [List.filter_append, hall]
    rfl
  refine ⟨.dialog requests hscreen ?_, ?_, ?_, h.opened, h.closed, fun closed hclosed => ?_⟩
  · rw [hnew, List.map_append, ← List.append_assoc, ← hqueue, List.map_map]
    rfl
  · intro answer hanswer
    rcases List.mem_append.mp hanswer with hold | hmem
    · exact h.numbers answer hold
    · obtain ⟨event, -, rfl⟩ := List.mem_map.mp hmem
      exact Nat.le_refl _
  · intro answer hanswer
    rcases List.mem_append.mp hanswer with hold | hmem
    · exact h.answers answer hold
    · obtain ⟨event, hevent, rfl⟩ := List.mem_map.mp hmem
      exact hevents event hevent
  · obtain ⟨htag, hfirst⟩ := h.first closed hclosed
    refine ⟨htag, ?_⟩
    unfold Desk.firstAnswer at hfirst ⊢
    simp only [Desk.answer, List.find?_append, hfirst, Option.some_or]

theorem Desk.handled_stay {posted : Posted} {rest : List Posted} {a : AppState}
    (hscreen : a.1.screen = desk.app.1.screen) :
    desk.handled posted rest a = { desk with app := a, queue := rest } := by
  unfold Desk.handled
  rw [hscreen]
  cases desk.app.1.screen with
  | main => simp
  | reset => simp

theorem Desk.handled_opens {posted : Posted} {rest : List Posted} {a : AppState}
    (hmain : desk.app.1.screen = .main) (hreset : a.1.screen = .reset) :
    desk.handled posted rest a =
      { desk with app := a, queue := rest, opened := desk.opened + 1 } := by
  simp [Desk.handled, hmain, hreset]

theorem Desk.handled_closes {posted : Posted} {rest : List Posted} {a : AppState}
    (hreset : desk.app.1.screen = .reset) (hmain : a.1.screen = .main) :
    desk.handled posted rest a =
      { desk with
        app := a
        queue := rest
        closed := desk.closed ++ [(desk.opened, posted)] } := by
  simp [Desk.handled, hmain, hreset]

theorem Orderly.stay (h : Orderly desk) {a : AppState} {rest : List Posted}
    (hscreen : a.1.screen = desk.app.1.screen)
    (hwaits : Waits { desk with app := a, queue := rest }) :
    Orderly { desk with app := a, queue := rest } := by
  refine ⟨hwaits, h.numbers, h.answers, fun hreset => h.opened (hscreen ▸ hreset), ?_, h.first⟩
  rw [Desk.done, hscreen]
  exact h.closed

theorem Orderly.opens (h : Orderly desk) {a : AppState} {requests : ℕ}
    (hmain : desk.app.1.screen = .main) (hreset : a.1.screen = .reset) :
    Orderly (desk.handled postedRequest (List.replicate requests postedRequest) a) := by
  have hdone : desk.done = desk.opened := if_neg (by simp [hmain])
  rw [Desk.handled_opens hmain hreset]
  refine ⟨.dialog requests hreset ?_, fun answer hanswer => ?_, h.answers,
    fun _ => Nat.succ_pos _, ?_, h.first⟩
  · have hnone : desk.answers.filter (fun answer => answer.1 = desk.opened + 1) = [] := by
      rw [List.filter_eq_nil_iff]
      intro answer hanswer
      have hle := h.numbers answer hanswer
      simp only [decide_eq_true_eq]
      omega
    simp only [Desk.current, hnone, List.map_nil, List.append_nil]
  · exact Nat.le_succ_of_le (h.numbers answer hanswer)
  · simp only [Desk.done, hreset, if_true, Nat.add_sub_cancel]
    rw [h.closed, hdone]

/-- The first of its own answers closes the dialog; the others come too late. -/
theorem Orderly.closes (h : Orderly desk) {a : AppState} {answer : ℕ × UInt32}
    {rest : List (ℕ × UInt32)} (hreset : desk.app.1.screen = .reset)
    (hmain : a.1.screen = .main) (hcurrent : desk.current = answer :: rest) :
    Orderly (desk.handled (postedAnswer answer) (rest.map postedAnswer) a) := by
  obtain ⟨hnumber, hfirst⟩ := Desk.current_head hcurrent
  have hdone : desk.done = desk.opened - 1 := if_pos hreset
  have hpos := h.opened hreset
  rw [Desk.handled_closes hreset hmain]
  refine ⟨.main rest 0 hmain (fun late hlate => ?_) ?_, h.numbers, h.answers,
    (fun hreset' => nomatch hmain.symm.trans hreset'), ?_, fun closed hmem => ?_⟩
  · have hmem : late ∈ desk.current := hcurrent ▸ List.mem_cons_of_mem _ hlate
    exact h.answers late (List.mem_of_mem_filter hmem)
  · simp
  · have hrange : List.range' 1 desk.opened = List.range' 1 (desk.opened - 1) ++ [desk.opened] := by
      obtain ⟨n, hn⟩ := Nat.exists_eq_add_of_le' hpos
      rw [hn, List.range'_concat]
      simp [Nat.add_comm]
    simp only [Desk.done, hmain, reduceCtorEq, if_false, List.map_append, List.map_cons,
      List.map_nil]
    rw [h.closed, hdone, hrange]
  · rcases List.mem_append.mp hmem with hold | hnew
    · exact h.first closed hold
    · obtain rfl := List.mem_singleton.mp hnew
      refine ⟨congrArg some hnumber, ?_⟩
      change desk.firstAnswer desk.opened = some (desk.opened, answer.2)
      rw [hfirst, ← hnumber]

theorem Orderly.event (h : Orderly desk) {posted : Posted} {rest : List Posted} {a : AppState}
    (hqueue : desk.queue = posted :: rest)
    (hscreen : a.1.screen = screenAfter desk.app.1.screen posted.event) :
    Orderly (desk.handled posted rest a) := by
  cases hshown : desk.app.1.screen with
  | main =>
    rw [hshown] at hscreen
    obtain ⟨late, requests, hlate, hwaiting⟩ := h.waits.late hshown
    rw [hwaiting] at hqueue
    cases late with
    | cons answer late =>
      obtain ⟨rfl, rfl⟩ := List.cons.inj hqueue
      have hanswer := hlate answer List.mem_cons_self
      rw [postedAnswer, screenAfter_answer hanswer] at hscreen
      rw [Desk.handled_stay (hscreen.trans hshown.symm)]
      exact h.stay (hscreen.trans hshown.symm) (.main late requests hscreen
        (fun later hlater => hlate later (List.mem_cons_of_mem _ hlater)) rfl)
    | nil =>
      cases requests with
      | zero => exact nomatch hqueue
      | succ requests =>
        obtain ⟨rfl, rfl⟩ := List.cons.inj hqueue
        exact h.opens hshown (hscreen.trans (screenAfter_request .main))
  | reset =>
    rw [hshown] at hscreen
    obtain ⟨requests, hwaiting⟩ := h.waits.own hshown
    rw [hwaiting] at hqueue
    cases requests with
    | succ requests =>
      obtain ⟨rfl, rfl⟩ := List.cons.inj hqueue
      have hsame := hscreen.trans (screenAfter_request .reset)
      rw [Desk.handled_stay (hsame.trans hshown.symm)]
      exact h.stay (hsame.trans hshown.symm) (.dialog requests hsame rfl)
    | zero =>
      cases hcurrent : desk.current with
      | nil =>
        rw [hcurrent] at hqueue
        exact nomatch hqueue
      | cons answer later =>
        rw [hcurrent] at hqueue
        obtain ⟨rfl, rfl⟩ := List.cons.inj hqueue
        have hmem : answer ∈ desk.current := hcurrent ▸ List.mem_cons_self
        have hanswer := h.answers answer (List.mem_of_mem_filter hmem)
        exact h.closes hshown (hscreen.trans (screenAfter_answer hanswer _)) hcurrent

theorem Orderly.step (h : Orderly desk) (hstep : DeskStep D mayFail desk l desk') :
    Orderly desk' := by
  have hbeside {a : AppState} {l : AppLabel} (hstep : AppStep D mayFail desk.app l a)
      (hl : ∀ event handled t, l ≠ .custom event handled t) : Orderly { desk with app := a } := by
    have hscreen := hstep.besideScreen hl
    refine @Orderly.stay desk h a desk.queue hscreen ?_
    cases h.waits with
    | main late requests hmain hlate hqueue =>
      exact .main late requests (hscreen.trans hmain) hlate hqueue
    | dialog requests hreset hqueue => exact .dialog requests (hscreen.trans hreset) hqueue
  cases hstep with
  | input event hscreen => exact h.input event hscreen
  | result result hscreen => exact h.answer (resetDialog_answers result) hscreen
  | back =>
    cases hscreen : desk.app.1.screen with
    | main =>
      simp only [teslaKeyCardNavigationCallback, hscreen, reduceCtorEq, if_false]
      exact ⟨by
        cases h.waits with
        | main late requests hmain hlate hqueue => exact .main late requests hmain hlate hqueue
        | dialog requests hreset hqueue => exact .dialog requests hreset hqueue,
        h.numbers, h.answers, h.opened, h.closed, h.first⟩
    | reset =>
      simp only [teslaKeyCardNavigationCallback, hscreen, if_true]
      exact h.answer (by simp [IsAnswer]) hscreen
  | event hqueue hstep => exact h.event hqueue hstep.customScreen
  | worker hstep => exact hbeside hstep fun _ _ _ => nofun
  | tick hstep => exact hbeside hstep fun _ _ _ => nofun

theorem Orderly.start {d : Disk} {t : List HalEvent} {a₀ : AppState}
    (h : Starts D mayFail d t a₀) : Orderly (Desk.start a₀) := by
  have hscreen : a₀.1.screen = .main :=
    (always_iff.mp (always_returns start_returns) _ _ _ h).1
  refine ⟨.main [] 0 hscreen (by simp) rfl, by simp [Desk.start], by simp [Desk.start],
    (fun hreset => nomatch hscreen.symm.trans hreset), ?_, by simp [Desk.start]⟩
  simp [Desk.start, Desk.done, hscreen]

theorem Orderly.changesFiles (h : Orderly desk) (hstep : DeskStep D mayFail desk l desk')
    (hl : l.ChangesFiles) :
    desk.app.1.screen = .reset ∧
      desk.firstAnswer desk.opened = some (desk.opened, teslaAppEventResetConfirm) := by
  cases hstep with
  | input => exact hl.elim
  | result => exact hl.elim
  | back => exact hl.elim
  | worker hstep => exact nomatch (hstep.changesFiles hl).2.choose_spec
  | tick hstep => exact nomatch (hstep.changesFiles hl).2.choose_spec
  | @event posted rest _ _ _ hqueue hstep =>
    obtain ⟨hreset, t, heq⟩ := hstep.changesFiles hl
    have hconfirm : posted.event = teslaAppEventResetConfirm := by
      injection heq
    refine ⟨hreset, ?_⟩
    obtain ⟨requests, hwaiting⟩ := h.waits.own hreset
    rw [hwaiting] at hqueue
    cases requests with
    | succ requests =>
      obtain ⟨rfl, -⟩ := List.cons.inj hqueue
      exact absurd hconfirm (by decide)
    | zero =>
      cases hcurrent : desk.current with
      | nil =>
        rw [hcurrent] at hqueue
        exact nomatch hqueue
      | cons answer later =>
        rw [hcurrent] at hqueue
        obtain ⟨rfl, -⟩ := List.cons.inj hqueue
        obtain ⟨hnumber, hfirst⟩ := Desk.current_head hcurrent
        rw [hfirst, ← hnumber, ← hconfirm]
        rfl

theorem dialogs_decided_by_first_answer {d : Disk} {t : List HalEvent} {a₀ : AppState}
    {labels : List DeskLabel} (hstart : Starts D mayFail d t a₀)
    (hrun : Run (DeskStep D mayFail) (Desk.start a₀) labels desk) :
    desk.closed.map Prod.fst = List.range' 1 desk.done ∧
    (∀ c ∈ desk.closed, c.2.dialog = some c.1 ∧
      desk.firstAnswer c.1 = some (c.1, c.2.event)) ∧
    (desk.app.1.screen = .reset → desk.queue = [] → desk.firstAnswer desk.opened = none) ∧
    ∀ l desk', DeskStep D mayFail desk l desk' → l.ChangesFiles →
      desk.app.1.screen = .reset ∧
        desk.firstAnswer desk.opened = some (desk.opened, teslaAppEventResetConfirm) := by
  have horderly : Orderly desk := by
    apply @Run.invariant _ _ _ _ _ _ (fun _ => Orderly) hrun (Orderly.start hstart)
    intro _ _ _ _ h hstep
    exact h.step hstep
  refine ⟨horderly.closed, horderly.first, fun hreset hqueue => ?_,
    fun l desk' hstep => horderly.changesFiles hstep⟩
  obtain ⟨requests, hwaiting⟩ := horderly.waits.own hreset
  have hnone : desk.current = [] := by
    rw [hqueue] at hwaiting
    exact List.map_eq_nil_iff.mp (List.append_eq_nil_iff.mp hwaiting.symm).2
  rw [Desk.firstAnswer, ← List.head?_filter]
  exact congrArg List.head? hnone

end

/-- In the first dialog Cancel is pressed and then Reset; the late Reset is taken before the
second dialog opens, and that one is closed by its own. -/
theorem dialogs_decided_by_first_answer_twoDialogs :
    ∃ t a₀ labels desk, Starts plainDevice noFailure twinDisk t a₀ ∧
      Run (DeskStep plainDevice noFailure) (Desk.start a₀) labels desk ∧
      desk.answers = [(1, teslaAppEventResetCancel), (1, teslaAppEventResetConfirm),
        (2, teslaAppEventResetConfirm)] ∧
      desk.closed = [(1, ⟨some 1, teslaAppEventResetCancel⟩),
        (2, ⟨some 2, teslaAppEventResetConfirm⟩)] ∧
      desk.closed.map Prod.fst = List.range' 1 desk.done ∧
      (∀ c ∈ desk.closed, c.2.dialog = some c.1 ∧
        desk.firstAnswer c.1 = some (c.1, c.2.event)) ∧
      (desk.app.1.screen = .reset → desk.queue = [] → desk.firstAnswer desk.opened = none) ∧
      ∀ l desk', DeskStep plainDevice noFailure desk l desk' → l.ChangesFiles →
        desk.app.1.screen = .reset ∧
          desk.firstAnswer desk.opened = some (desk.opened, teslaAppEventResetConfirm) := by
  obtain ⟨t, a₀, t₁, a₁, hstart, -, -, -, hrequest, hscreen₁, hnfc₁, hrest₁⟩ :=
    exists_request_twin
  obtain ⟨t₂, app₂, s₂, hcancel, hmain₂, hnfc₂, hrest₂⟩ :=
    @exists_cancel plainDevice noFailure twinDisk a₁.1 a₁.2 hscreen₁ hnfc₁ hrest₁
  have hlate : AppStep plainDevice noFailure (app₂, s₂)
      (.custom teslaAppEventResetConfirm false []) (app₂, s₂) :=
    ignored_step (by rw [TeslaKeyCardApp.handles, hmain₂]; rfl)
  obtain ⟨t₃, a₃, hrequest₃, hscreen₃, hrest₃⟩ : ∃ t₃ a₃, AppStep plainDevice noFailure
      (app₂, s₂) (.custom teslaAppEventResetRequest true t₃) a₃ ∧ a₃.1.screen = .reset ∧
      AtRest twinDisk a₃.2 := by
    obtain ⟨t₃, s₃, hstep, hrest⟩ :=
      @exists_request plainDevice noFailure twinDisk _ _ hmain₂ hrest₂
    exact ⟨t₃, _, hstep, rfl, hrest⟩
  obtain ⟨t₄, app₄, s₄, hconfirm, hmain₄, -⟩ :=
    @exists_confirm plainDevice noFailure twinDisk a₃.1 a₃.2 hscreen₃ hrest₃
  let first : List (ℕ × UInt32) :=
    [(1, teslaAppEventResetCancel), (1, teslaAppEventResetConfirm)]
  let canceled : ℕ × Posted := (1, ⟨some 1, teslaAppEventResetCancel⟩)
  have hkey : DeskStep plainDevice noFailure (Desk.start a₀) (.input ⟨.ok, .short⟩)
      ⟨a₀, [postedRequest], false, 0, [], []⟩ := .input _ hstart.screen_main
  have hopened := @DeskStep.event _ _ ⟨a₀, [postedRequest], false, 0, [], []⟩ _ _ _ _ _ rfl hrequest
  rw [Desk.handled_opens hstart.screen_main hscreen₁] at hopened
  have hanswered : Run (DeskStep plainDevice noFailure) (Desk.start a₀)
      [.input ⟨.ok, .short⟩, .event (.custom teslaAppEventResetRequest true t₁), .result .left,
        .result .right] ⟨a₁, first.map postedAnswer, false, 1, first, []⟩ :=
    ((((Run.nil _).snoc hkey).snoc hopened).snoc (.result .left hscreen₁)).snoc
      (.result .right hscreen₁)
  have hclosed := @DeskStep.event _ _ ⟨a₁, first.map postedAnswer, false, 1, first, []⟩ _ _ _ _ _
    rfl hcancel
  rw [Desk.handled_closes hscreen₁ hmain₂] at hclosed
  have hagain : DeskStep plainDevice noFailure
      ⟨(app₂, s₂), [⟨some 1, teslaAppEventResetConfirm⟩], false, 1, first, [canceled]⟩
      (.input ⟨.ok, .short⟩) ⟨(app₂, s₂), [⟨some 1, teslaAppEventResetConfirm⟩, postedRequest],
        false, 1, first, [canceled]⟩ := .input _ hmain₂
  have hignored := @DeskStep.event _ _ ⟨(app₂, s₂),
    [⟨some 1, teslaAppEventResetConfirm⟩, postedRequest], false, 1, first, [canceled]⟩ _ _ _ _ _
    rfl hlate
  rw [Desk.handled_stay rfl] at hignored
  have hreopened := @DeskStep.event _ _ ⟨(app₂, s₂), [postedRequest], false, 1, first,
    [canceled]⟩ _ _ _ _ _ rfl hrequest₃
  rw [Desk.handled_opens hmain₂ hscreen₃] at hreopened
  have hconfirmed := @DeskStep.event _ _ ⟨a₃, [⟨some 2, teslaAppEventResetConfirm⟩], false, 2,
    first ++ [(2, teslaAppEventResetConfirm)], [canceled]⟩ _ _ _ _ _ rfl hconfirm
  rw [Desk.handled_closes hscreen₃ hmain₄] at hconfirmed
  have hasked := ((hanswered.snoc hclosed).snoc hagain).snoc hignored
  have hrun := ((hasked.snoc hreopened).snoc (.result .right hscreen₃)).snoc hconfirmed
  exact ⟨t, a₀, _, _, hstart, hrun, rfl, rfl, dialogs_decided_by_first_answer hstart hrun⟩

end FlipperApps.Tesla
