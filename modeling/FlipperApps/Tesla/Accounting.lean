import FlipperApps.Tesla.ListenerRuns
import FlipperApps.Tesla.Outcomes

/-!
# What the book accounts for

Every SELECT or AUTHENTICATE event that is queued or was taken stands for an answer
that its object sent, and no object of the book is younger than the last one built.
-/

namespace FlipperApps.Tesla
open Calls

def sentSuccess (t : List NfcCallEvent) : Bool :=
  t.any fun
    | ⟨.sendBlock block, error⟩ => error == .none && [0x90, 0x00].isSuffixOf block
    | _ => false

def answeredAs (number : ℕ) (event : TeslaNfcEvent) : ℕ × ListenerEvent × List NfcCallEvent → Bool
  | (owner, .receivedData request, t) =>
    decide (owner = number ∧ requestEvent request = some event) && sentSuccess t
  | _ => false

def emittedAs (number : ℕ) (event : TeslaNfcEvent) (o : OwnedEvent) : Bool :=
  decide (o.1 = number ∧ o.2.event = event)

def CountedEvent (event : TeslaNfcEvent) : Prop := event = .select ∨ event = .authenticate

structure BookInvariant (allowed : HalCall → Prop) (P : Book → Prop) : Prop where
  call : ∀ b c r, allowed c → P b → P (b.observe ⟨c, r⟩)
  worker : ∀ s s', P s.2 → WorkerStep s s' → P s'.2

def Accounted (b : Book) : Prop :=
  ∀ number event, CountedEvent event →
    (b.taken ++ b.queue).countP (emittedAs number event) ≤
      b.served.countP (answeredAs number event)

structure Numbered (b : Book) : Prop where
  live : ∀ object, b.live = some object → object.number ≤ b.born
  running : ∀ number, b.running = some number → number ≤ b.born
  events : ∀ o ∈ b.taken ++ b.queue, o.1 ≤ b.born
  served : ∀ x ∈ b.served, x.1 ≤ b.born

def YoungerThan (n : ℕ) (b : Book) : Prop :=
  n ≤ b.born ∧ ∀ object, b.live = some object → n < object.number

section
variable {α : Type} {D : Device} {mayFail : HalCall → Prop} {allowed : HalCall → Prop}
  {P : Book → Prop} {p : HalProgram α} {s : Site} {a a' : AppState}

theorem BookInvariant.always (h : BookInvariant allowed P) (hp : p.Uses allowed) (hs : P s.2) :
    Always (appEnv D mayFail) p s fun _ _ s' => P s'.2 :=
  always_record h.call h.worker hp hs

theorem BookInvariant.step {l : AppLabel} (h : BookInvariant (fun _ => True) P) (ha : P a.2.2)
    (hstep : AppStep D mayFail a l a') : P a'.2.2 := by
  cases hstep with
  | worker hstep => exact h.worker _ _ ha hstep
  | tick hx => exact always_iff.mp (h.always (Program.uses_true _) ha) _ _ _ hx
  | custom hx => exact always_iff.mp (h.always (Program.uses_true _) ha) _ _ _ hx
  | navigation => exact ha

theorem BookInvariant.reached {d : Disk} {t : List HalEvent} {labels : List AppLabel}
    (h : BookInvariant (fun _ => True) P) (hempty : P Book.empty) (hstart : Starts D mayFail d t a)
    (hrun : Run (AppStep D mayFail) a labels a') : P a'.2.2 := by
  have hfirst : P a.2.2 := always_iff.mp (h.always (s := (World.idle d [], Book.empty))
    (Program.uses_true _) hempty) _ _ _ hstart
  exact hrun.invariant (P := fun _ a => P a.2.2) hfirst fun _ _ _ _ ha hstep => h.step ha hstep

end

section
variable {b : Book} {c : HalCall} {r : c.Reply}

@[simp] theorem observe_served : (b.observe ⟨c, r⟩).served = b.served := by
  cases c with
  | _ => rfl

theorem observe_born : b.born ≤ (b.observe ⟨c, r⟩).born := by
  cases c with
  | mallocNfc => exact Nat.le_succ _
  | _ => exact Nat.le_refl _

theorem observe_live {object : NumberedObject} (h : (b.observe ⟨c, r⟩).live = some object) :
    b.live = some object ∨
      c = .mallocNfc ∧ object.number = b.born + 1 ∧ (b.observe ⟨c, r⟩).born = b.born + 1 := by
  cases c with
  | mallocNfc =>
    obtain rfl := Option.some.inj h
    exact Or.inr ⟨rfl, rfl, rfl⟩
  | freeNfc => exact absurd h (by simp [Book.observe])
  | _ => exact Or.inl h

theorem observe_running {number : ℕ} (h : (b.observe ⟨c, r⟩).running = some number) :
    b.running = some number ∨ number = 0 ∨
      ∃ object, b.live = some object ∧ number = object.number := by
  cases c with
  | nfcListenerStart address =>
    obtain rfl := Option.some.inj h
    unfold Book.numberAt
    cases b.live with
    | none => exact Or.inr (Or.inl rfl)
    | some object =>
      dsimp only
      split_ifs
      · exact Or.inr (Or.inr ⟨object, rfl, rfl⟩)
      · exact Or.inr (Or.inl rfl)
  | nfcListenerStop => exact absurd h (by simp [Book.observe])
  | _ => exact Or.inl h

theorem observe_events :
    (b.observe ⟨c, r⟩).taken ++ (b.observe ⟨c, r⟩).queue = b.taken ++ b.queue := by
  cases c with
  | nfcEventQueueGet =>
    change (b.taken ++ b.queue.head?.toList) ++ b.queue.tail = b.taken ++ b.queue
    cases b.queue with
    | nil => simp
    | cons o rest => simp
  | _ => rfl

theorem observe_taken : b.taken <+: (b.observe ⟨c, r⟩).taken := by
  cases c with
  | nfcEventQueueGet => exact List.prefix_append _ _
  | _ => exact List.prefix_refl _

theorem observe_untaken (hc : c ≠ .nfcEventQueueGet) : (b.observe ⟨c, r⟩).taken = b.taken := by
  cases c with
  | nfcEventQueueGet => exact absurd rfl hc
  | _ => rfl

end

section
variable {t : List NfcCallEvent} {request : List UInt8} {number : ℕ}

theorem notified_computing (h : ∀ e ∈ t, ComputeCall e.1) : notified t = [] := by
  apply List.filterMap_eq_nil_iff.mpr
  intro e he
  obtain ⟨c, r⟩ := e
  cases c with
  | notify => exact (h _ he).elim
  | _ => rfl

theorem AnsweredOnce.notified (h : AnsweredOnce request t) :
    ∃ event time, notified t = [⟨event, time⟩] ∧
      (CountedEvent event → requestEvent request = some event ∧ sentSuccess t = true) := by
  obtain ⟨computing, data, statusWord, sendError, event, time, rfl, hcomputes, -, -, htransmit,
    hprotocol, hcommand⟩ := h
  refine ⟨event, time, ?_, fun hcounted => ?_⟩
  · rw [Tesla.notified, List.filterMap_append]
    change Tesla.notified computing ++ [⟨event, time⟩] = _
    rw [notified_computing hcomputes, List.nil_append]
  · have hsent : sendError = .none := by
      by_contra herror
      rcases hcounted with rfl | rfl
      · exact absurd (htransmit herror) (by decide)
      · exact absurd (htransmit herror) (by decide)
    have hsuccess : statusWord = swSuccess := by
      by_contra hstatus
      rcases hcounted with rfl | rfl
      · exact absurd ((hprotocol hsent).mpr hstatus) (by decide)
      · exact absurd ((hprotocol hsent).mpr hstatus) (by decide)
    subst hsent hsuccess
    refine ⟨hcommand rfl rfl, List.any_eq_true.mpr
      ⟨⟨.sendBlock (data ++ [highByte swSuccess, lowByte swSuccess]), .none⟩, by simp, ?_⟩⟩
    have hsuffix : [0x90, 0x00] <:+ data ++ [highByte swSuccess, lowByte swSuccess] :=
      List.suffix_append _ _
    simpa using hsuffix

theorem callback_accounted {crypto : TeslaCrypto} {nfc nfc' : TeslaNfc} {event : ListenerEvent}
    {owner : ℕ} {counted : TeslaNfcEvent}
    (hx : Executes (anyReply NfcInterface) (teslaNfcListenerCallback crypto true nfc event) () t
      nfc' ()) (hcounted : CountedEvent counted) :
    ((notified t).map (Prod.mk owner)).countP (emittedAs number counted) ≤
      [(owner, event, t)].countP (answeredAs number counted) := by
  have hended (end_ : TeslaNfcEvent) (time : UInt16) (hne : ¬ CountedEvent end_) :
      [(owner, (⟨end_, time⟩ : TeslaKeyCardNfcEvent))].countP (emittedAs number counted) = 0 := by
    rw [List.countP_singleton, if_neg]
    intro hemitted
    obtain ⟨-, rfl⟩ : owner = number ∧ end_ = counted := by simpa [emittedAs] using hemitted
    exact hne hcounted
  cases event with
  | receivedData request =>
    obtain ⟨⟨hreceived⟩, -⟩ := always_iff.mp (receivedData_spec _ _ nfc request ()) _ _ _ hx
    obtain ⟨raised, time, hnotified, hanswer⟩ := hreceived.answeredOnce.notified
    rw [hnotified, List.map_singleton, List.countP_singleton, List.countP_singleton]
    split_ifs with hemitted hanswered
    · exact Nat.le_refl _
    · obtain ⟨rfl, rfl⟩ : owner = number ∧ raised = counted := by simpa [emittedAs] using hemitted
      obtain ⟨hrequest, hsent⟩ := hanswer hcounted
      exact absurd (by simp [answeredAs, hrequest, hsent]) hanswered
    · exact Nat.zero_le _
    · exact Nat.zero_le _
  | fieldOff =>
    obtain ⟨-, rfl⟩ := always_iff.mp (endSession_spec _ nfc .fieldOff ()) _ _ _ hx
    exact (hended .fieldOff _ (by simp [CountedEvent])).trans_le (Nat.zero_le _)
  | halted =>
    obtain ⟨-, rfl⟩ := always_iff.mp (endSession_spec _ nfc .halted ()) _ _ _ hx
    exact (hended .halted _ (by simp [CountedEvent])).trans_le (Nat.zero_le _)

end

theorem accounted_invariant : BookInvariant (fun _ => True) Accounted where
  call := by
    intro b c r _ h number event hcounted
    rw [observe_events, observe_served]
    exact h number event hcounted
  worker := by
    intro s s' h hstep number event hcounted
    cases hstep with
    | @callback crypto nfc nfc' served w b owner t hrunning hx =>
      have hput := (@putAll_sublist owner (notified t) b.queue).append_left b.taken
      have hqueue := hput.countP_le (p := emittedAs number event)
      have hbefore : (b.taken ++ b.queue).countP (emittedAs number event) ≤
        b.served.countP (answeredAs number event) := h number event hcounted
      have hnew := @callback_accounted _ number _ _ _ _ owner _ hx hcounted
      calc (b.taken ++ (notified t).foldl (putOwned owner) b.queue).countP (emittedAs number event)
          ≤ (b.taken ++ (b.queue ++ (notified t).map (Prod.mk owner))).countP
              (emittedAs number event) := hqueue
        _ = (b.taken ++ b.queue).countP (emittedAs number event) +
              ((notified t).map (Prod.mk owner)).countP (emittedAs number event) := by
            rw [← List.append_assoc, List.countP_append]
        _ ≤ b.served.countP (answeredAs number event) +
              [(owner, served, t)].countP (answeredAs number event) := Nat.add_le_add hbefore hnew
        _ = (b.served ++ [(owner, served, t)]).countP (answeredAs number event) :=
            List.countP_append.symm

theorem numbered_invariant : BookInvariant (fun _ => True) Numbered where
  call := by
    intro b c r _ h
    refine ⟨fun object hlive => ?_, fun number hrunning => ?_, fun o ho => ?_, fun x hx => ?_⟩
    · rcases observe_live hlive with hold | ⟨-, hnumber, hborn⟩
      · exact (h.live object hold).trans observe_born
      · rw [hnumber, hborn]
    · rcases observe_running hrunning with hold | rfl | ⟨object, hlive, rfl⟩
      · exact (h.running number hold).trans observe_born
      · exact Nat.zero_le _
      · exact (h.live object hlive).trans observe_born
    · rw [observe_events] at ho
      exact (h.events o ho).trans observe_born
    · rw [observe_served] at hx
      exact (h.served x hx).trans observe_born
  worker := by
    intro s s' h hstep
    cases hstep with
    | @callback crypto nfc nfc' served w b owner t hrunning hx =>
      have howner : owner ≤ b.born := h.running owner hrunning
      refine ⟨h.live, h.running, fun o ho => ?_, fun x hx => ?_⟩
      · rcases List.mem_append.mp ho with htaken | hqueued
        · exact h.events o (List.mem_append_left _ htaken)
        · rcases putAll_owner _ hqueued with hold | rfl
          · exact h.events o (List.mem_append_right _ hold)
          · exact howner
      · rcases List.mem_append.mp hx with hold | hnew
        · exact h.served x hold
        · rw [List.mem_singleton.mp hnew]
          exact howner

theorem youngerThan_invariant (n : ℕ) : BookInvariant (fun _ => True) (YoungerThan n) where
  call := by
    intro b c r _ h
    refine ⟨h.1.trans observe_born, fun object hlive => ?_⟩
    rcases observe_live hlive with hold | ⟨-, hnumber, -⟩
    · exact h.2 object hold
    · rw [hnumber]
      exact Nat.lt_succ_of_le h.1
  worker := by
    intro s s' h hstep
    cases hstep with
    | callback => exact h

theorem sameObject_invariant (number : ℕ) : BookInvariant (· ≠ .mallocNfc) fun b =>
    ∀ object, b.live = some object → object.number = number where
  call := by
    intro b c r hc h object hlive
    rcases observe_live hlive with hold | ⟨hmalloc, -⟩
    · exact h object hold
    · exact absurd hmalloc hc
  worker := by
    intro s s' h hstep
    cases hstep with
    | callback => exact h

theorem taken_invariant (taken : List OwnedEvent) :
    BookInvariant (fun _ => True) fun b => taken <+: b.taken where
  call := fun _ _ _ _ h => h.trans observe_taken
  worker := by
    intro s s' h hstep
    cases hstep with
    | callback => exact h

theorem untaken_invariant (taken : List OwnedEvent) :
    BookInvariant (· ≠ .nfcEventQueueGet) fun b => b.taken = taken where
  call := fun _ _ _ hc h => (observe_untaken hc).trans h
  worker := by
    intro s s' h hstep
    cases hstep with
    | callback => exact h

/-- With the listener stopped and the queue empty there is nothing to take. -/
structure Silent (n : ℕ) (taken : List OwnedEvent) (b : Book) : Prop where
  idle : b.running = none
  queue : b.queue = []
  taken : b.taken = taken
  born : n ≤ b.born

theorem silent_invariant (n : ℕ) (taken : List OwnedEvent) :
    BookInvariant NoStart (Silent n taken) where
  call := by
    intro b c r hc h
    have hborn : n ≤ (b.observe ⟨c, r⟩).born := h.born.trans observe_born
    cases c with
    | nfcListenerStart => exact hc.elim
    | nfcListenerStop => exact ⟨rfl, h.queue, h.taken, hborn⟩
    | nfcEventQueueGet =>
      refine ⟨h.idle, ?_, ?_, hborn⟩
      · change b.queue.tail = []
        rw [h.queue]
        rfl
      · change b.taken ++ b.queue.head?.toList = taken
        rw [h.queue, h.taken]
        exact List.append_nil taken
    | _ => exact ⟨h.idle, h.queue, h.taken, hborn⟩
  worker := by
    intro s s' h hstep
    cases hstep with
    | callback crypto hrunning => exact absurd (h.idle.symm.trans hrunning) (by simp)

theorem born_invariant (n : ℕ) : BookInvariant (fun _ => True) fun b => n ≤ b.born where
  call := fun _ _ _ _ h => h.trans observe_born
  worker := by
    intro s s' h hstep
    cases hstep with
    | callback => exact h

theorem accounted_empty : Accounted Book.empty := fun _ _ _ => Nat.le_refl _

theorem numbered_empty : Numbered Book.empty :=
  ⟨fun _ h => absurd h (by simp [Book.empty]), fun _ h => absurd h (by simp [Book.empty]),
    fun _ h => absurd h (by simp [Book.empty]), fun _ h => absurd h (by simp [Book.empty])⟩

end FlipperApps.Tesla
