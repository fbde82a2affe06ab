import FlipperApps.Calls.Transition
import FlipperApps.Tesla.ListenerAnswers

/-!
# Runs of the NFC object

Requests, the end of the field, halts, stops and starts in any order. A closing
step leaves the session closed, and only a successful SELECT opens it again.
-/

namespace FlipperApps.Tesla
open Calls

inductive NfcLabel
  | event (event : ListenerEvent) (t : List NfcCallEvent)
  | stop
  | start (t : List HalEvent)

/-- A request comes in only while the listener runs, and the callback for
notifications is set. Every call may give every reply. -/
inductive NfcStep : TeslaNfc → NfcLabel → TeslaNfc → Prop
  | event (crypto : TeslaCrypto) {nfc nfc' : TeslaNfc} {event : ListenerEvent}
      {t : List NfcCallEvent} :
      (∀ request, event = .receivedData request → nfc.listener = true) →
      Executes (anyReply NfcInterface) (teslaNfcListenerCallback crypto true nfc event) () t
        nfc' () →
      NfcStep nfc (.event event t) nfc'
  | stop {nfc nfc' : TeslaNfc} {t : List HalEvent} :
      Executes (anyReply HalInterface) (teslaNfcStop nfc) () t nfc' () → NfcStep nfc .stop nfc'
  | start {nfc nfc' : TeslaNfc} {started : Bool} {t : List HalEvent} :
      Executes (anyReply HalInterface) (teslaNfcStart nfc) () t (started, nfc') () →
      NfcStep nfc (.start t) nfc'

/-- One block of at most 67 bytes that ends in its status word, and one notification
that matches it. -/
def AnsweredOnce (request : List UInt8) (t : List NfcCallEvent) : Prop :=
  ∃ (computing : List NfcCallEvent) (data : List UInt8) (statusWord : UInt16)
    (sendError : Iso14443Error) (event : TeslaNfcEvent) (time : UInt16),
    t = computing ++ [⟨.sendBlock (data ++ [highByte statusWord, lowByte statusWord]), sendError⟩,
      ⟨.notify event time, ()⟩] ∧
    (∀ e ∈ computing, ComputeCall e.1) ∧ data.length ≤ 65 ∧
    (statusWord = swWrongLength → WrongLength request) ∧
    (sendError ≠ .none → event = .transmitError) ∧
    (sendError = .none → (event = .protocolError ↔ statusWord ≠ swSuccess)) ∧
    (sendError = .none → statusWord = swSuccess → requestEvent request = some event)

namespace NfcLabel

def Closes : NfcLabel → Prop
  | .event (.receivedData _) _ => False
  | .event .fieldOff _ => True
  | .event .halted _ => True
  | .stop => True
  | .start t => ∃ e ∈ t, ∃ context, e.1 = .nfcListenerStart context

def Selects : NfcLabel → Prop
  | .event (.receivedData request) t =>
    SelectRequest request ∧ ∃ sendError, ⟨.sendBlock [0x90, 0x00], sendError⟩ ∈ t
  | _ => False

/-- The answer has more than a status word, or something was computed for it. -/
def Discloses : NfcLabel → Prop
  | .event _ t => ∃ e ∈ t, ComputeCall e.1 ∨ ∃ block, e.1 = .sendBlock block ∧ 2 < block.length
  | _ => False

def Answered : NfcLabel → Prop
  | .event (.receivedData request) t => AnsweredOnce request t
  | .event .fieldOff t => ∃ time, t = [⟨.notify .fieldOff time, ()⟩]
  | .event .halted t => ∃ time, t = [⟨.notify .halted time, ()⟩]
  | _ => True

end NfcLabel

/-- No SELECT succeeded since some closing step. -/
def ClosedSince (labels : List NfcLabel) : Prop :=
  ∃ before l after, labels = before ++ l :: after ∧ l.Closes ∧ ∀ l' ∈ after, ¬ l'.Selects

theorem closedSince_snoc {labels : List NfcLabel} {l : NfcLabel} :
    ClosedSince (labels ++ [l]) → l.Closes ∨ ClosedSince labels ∧ ¬ l.Selects := by
  intro h
  obtain ⟨before, l', after, heq, hcloses, hafter⟩ := h
  rcases snoc_split heq with ⟨-, rfl, -⟩ | ⟨init, rfl, rfl⟩
  · exact Or.inl hcloses
  · exact Or.inr ⟨⟨before, l', init, rfl, hcloses, fun x hx => hafter x (by simp [hx])⟩,
      hafter l (by simp)⟩

section
variable {selected : Bool} {request : List UInt8} {t : List NfcCallEvent}

theorem Received.answeredOnce (h : Received selected request t) : AnsweredOnce request t := by
  obtain ⟨event, hevent, htransmit, hprotocol, hcommand⟩ :=
    h.answers.event h.sendError (h.data.length + 2)
  obtain rfl : event = h.event := Option.some.inj (hevent.symm.trans h.notified)
  exact ⟨h.computing, h.data, h.statusWord, h.sendError, h.event, h.time, h.trace_eq, h.computes,
    h.answers.length_le, h.answers.wrongLength, htransmit, hprotocol, hcommand⟩

theorem Received.not_discloses (h : Received false request t) :
    ¬ (NfcLabel.event (.receivedData request) t).Discloses := by
  intro hdiscloses
  obtain ⟨e, he, hbad⟩ := hdiscloses
  rw [h.trace_eq, h.closed rfl, h.answers.closed] at he
  simp only [List.nil_append, List.mem_cons, List.not_mem_nil, or_false] at he
  rcases he with rfl | rfl
  · rcases hbad with hcompute | ⟨block, hblock, hlong⟩
    · exact hcompute
    · cases hblock
      simp at hlong
  · rcases hbad with hcompute | ⟨block, hblock, -⟩
    · exact hcompute
    · cases hblock

theorem Received.selects (h : Received selected request t) (hsel : SelectRequest request)
    (hopens : OpensSession request) : (NfcLabel.event (.receivedData request) t).Selects := by
  obtain ⟨computing, command, statusWord, data, sendError, event, time, hanswer, -, -, -, rfl⟩ := h
  obtain ⟨rfl, rfl⟩ := hanswer.of_select hsel hopens
  refine ⟨hsel, sendError, ?_⟩
  rw [List.mem_append, List.mem_cons]
  exact Or.inr (Or.inl rfl)

end

theorem callback_completes {crypto : TeslaCrypto} {nfc : TeslaNfc} {event : ListenerEvent} :
    (teslaNfcListenerCallback crypto true nfc event).Uses Completes := by
  have notify (nfc : TeslaNfc) (event : TeslaNfcEvent) :
      (teslaNfcNotify true nfc event).Uses Completes := ⟨trivial, fun _ => trivial⟩
  cases event with
  | receivedData request =>
    have hvalue := returns_of_always ((nfcProcess_spec (anyReply _) crypto nfc request ()).mono
      fun _ _ _ h => h.2.2)
    apply (nfcProcess_uses.mono fun _ => ComputeCall.completes).bind_returns hvalue
    intro a h
    obtain ⟨a, time⟩ := a
    obtain ⟨command, statusWord, data, hanswer, rfl⟩ := h
    dsimp only
    rw [appendBytes_answer hanswer.length_le]
    refine ⟨trivial, fun sendError => ?_⟩
    obtain ⟨event, hevent, -⟩ := hanswer.event sendError (data.length + 2)
    dsimp only [Program.bind]
    rw [hevent]
    exact Program.uses_bind (notify ..) fun _ => trivial
  | fieldOff => exact Program.uses_bind (notify ..) fun _ => trivial
  | halted => exact Program.uses_bind (notify ..) fun _ => trivial

theorem stop_closes (nfc : TeslaNfc) (u : Unit) :
    Always (anyReply HalInterface) (teslaNfcStop nfc) u fun _ nfc' _ =>
      nfc'.apdu.selected = false := by
  unfold teslaNfcStop
  split_ifs
  · intro _ _ _ _ _ _
    rfl
  · rfl

theorem start_closes (nfc : TeslaNfc) (u : Unit) :
    Always (anyReply HalInterface) (teslaNfcStart nfc) u fun t a _ =>
      t = [] ∧ a.2 = nfc ∨ a.2.apdu.selected = false := by
  unfold teslaNfcStart
  split_ifs
  · exact Or.inl ⟨rfl, rfl⟩
  · intro allocated _ _
    cases allocated with
    | false => exact Or.inr rfl
    | true =>
      intro _ _ _
      exact Or.inr rfl

section
variable {nfc nfc' : TeslaNfc} {l : NfcLabel}

theorem NfcStep.answered (h : NfcStep nfc l nfc') : l.Answered := by
  cases h with
  | @event _ _ _ event _ _ hx =>
    cases event with
    | receivedData request =>
      obtain ⟨⟨hreceived⟩, -⟩ := always_iff.mp (receivedData_spec _ _ nfc request ()) _ _ _ hx
      exact hreceived.answeredOnce
    | fieldOff => exact ⟨_, (always_iff.mp (endSession_spec _ nfc .fieldOff ()) _ _ _ hx).2⟩
    | halted => exact ⟨_, (always_iff.mp (endSession_spec _ nfc .halted ()) _ _ _ hx).2⟩
  | stop => trivial
  | start => trivial

theorem NfcStep.not_discloses (h : NfcStep nfc l nfc') (hclosed : nfc.apdu.selected = false) :
    ¬ l.Discloses := by
  cases h with
  | @event _ _ _ event _ _ hx =>
    cases event with
    | receivedData request =>
      obtain ⟨⟨hreceived⟩, -⟩ := always_iff.mp (receivedData_spec _ _ nfc request ()) _ _ _ hx
      rw [hclosed] at hreceived
      exact hreceived.not_discloses
    | fieldOff =>
      obtain ⟨-, rfl⟩ := always_iff.mp (endSession_spec _ nfc .fieldOff ()) _ _ _ hx
      simp [NfcLabel.Discloses, ComputeCall]
    | halted =>
      obtain ⟨-, rfl⟩ := always_iff.mp (endSession_spec _ nfc .halted ()) _ _ _ hx
      simp [NfcLabel.Discloses, ComputeCall]
  | stop => exact id
  | start => exact id

theorem NfcStep.closed (h : NfcStep nfc l nfc')
    (hclosed : l.Closes ∨ nfc.apdu.selected = false ∧ ¬ l.Selects) :
    nfc'.apdu.selected = false := by
  cases h with
  | @event _ _ _ event _ _ hx =>
    cases event with
    | receivedData request =>
      obtain ⟨⟨hreceived⟩, time, rfl⟩ :=
        always_iff.mp (receivedData_spec _ _ nfc request ()) _ _ _ hx
      obtain ⟨hselected, hselects⟩ := hclosed.resolve_left id
      dsimp only [afterRequest]
      split_ifs with hsel
      · rw [decide_eq_false_iff_not]
        exact fun hopens => hselects (hreceived.selects hsel hopens)
      · exact hselected
    | fieldOff =>
      obtain ⟨rfl, -⟩ := always_iff.mp (endSession_spec _ nfc .fieldOff ()) _ _ _ hx
      rfl
    | halted =>
      obtain ⟨rfl, -⟩ := always_iff.mp (endSession_spec _ nfc .halted ()) _ _ _ hx
      rfl
  | stop hx =>
    exact always_iff.mp (stop_closes nfc ()) _ _ _ hx
  | start hx =>
    obtain hkept | hreset := always_iff.mp (start_closes nfc ()) _ _ _ hx
    · obtain ⟨rfl, rfl⟩ := hkept
      rcases hclosed with ⟨e, he, -⟩ | ⟨hselected, -⟩
      · simp at he
      · exact hselected
    · exact hreset

end

/-- Every event gets its one answer and its one notification, with no access
outside a buffer; and a closed session stays closed up to a successful SELECT. -/
theorem listener_answers_once {nfc nfc' : TeslaNfc} {labels : List NfcLabel}
    (h : Run NfcStep nfc labels nfc') :
    (∀ before l after, labels = before ++ l :: after →
      l.Answered ∧ (ClosedSince before → ¬ l.Discloses)) ∧
    ∀ crypto event, (teslaNfcListenerCallback crypto true nfc' event).Uses Completes := by
  refine ⟨?_, fun crypto event => callback_completes⟩
  apply (h.each (P := fun ls nfc => ClosedSince ls → nfc.apdu.selected = false)
    (R := fun ls l => l.Answered ∧ (ClosedSince ls → ¬ l.Discloses)) ?_ ?_).2
  · intro hclosed
    obtain ⟨before, l, after, heq, -⟩ := hclosed
    simp at heq
  · intro ls nfc l nfc' ih hstep
    refine ⟨fun hclosed => hstep.closed ?_, hstep.answered, fun hclosed => ?_⟩
    · exact (closedSince_snoc hclosed).imp id fun hbefore => ⟨ih hbefore.1, hbefore.2⟩
    · exact hstep.not_discloses (ih hclosed)

def runningNfc (selected : Bool) : TeslaNfc :=
  ⟨1, 0, Bytes.zero 4, true, ⟨selected, Bytes.zero 65, some (), 1⟩, 0⟩

/-- The field ends, and the reader asks for the public key again: 6999. -/
def lostFieldRun : List NfcLabel :=
  [.event .fieldOff [⟨.notify .fieldOff 0, ()⟩],
    .event (.receivedData [0x80, 0x04, 0x00, 0x00])
      [⟨.sendBlock [0x69, 0x99], .none⟩, ⟨.notify .protocolError 0, ()⟩]]

theorem listener_answers_once_lostField :
    (∀ before l after, lostFieldRun = before ++ l :: after →
      l.Answered ∧ (ClosedSince before → ¬ l.Discloses)) ∧
    ∀ crypto event, (teslaNfcListenerCallback crypto true (runningNfc false) event).Uses
      Completes := by
  have reply {c : NfcCall} {r : c.Reply} : anyReply NfcInterface () c r () := trivial
  have hfield : NfcStep (runningNfc true) (.event .fieldOff [⟨.notify .fieldOff 0, ()⟩])
      (runningNfc false) :=
    .event (TeslaCrypto.zeroed 0) (fun _ _ => rfl) (.call reply (.done _ ()))
  have hrequest : NfcStep (runningNfc false) (.event (.receivedData [0x80, 0x04, 0x00, 0x00])
      [⟨.sendBlock [0x69, 0x99], .none⟩, ⟨.notify .protocolError 0, ()⟩]) (runningNfc false) :=
    .event (TeslaCrypto.zeroed 0) (fun _ _ => rfl) (.call reply (.call reply (.done _ ())))
  exact listener_answers_once (.snoc (.snoc (.nil (runningNfc true)) hfield) hrequest)

end FlipperApps.Tesla
