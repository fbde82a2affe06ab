import FlipperApps.Calls.Transition
import FlipperApps.Tesla.ApduAnswers

/-!
# Sessions over traces of requests and resets

The `selected` flag summarizes the trace: it is set exactly when the last SELECT
or reset is a SELECT that opened the session. Nothing but the two status bytes
leaves the applet outside an open session.
-/

namespace FlipperApps.Tesla
open Calls
variable {κ χ σ : Type}

/-- A call of the applet as seen from outside: what goes in, the callbacks made,
what comes out. -/
inductive SessionEvent (κ χ : Type)
  | process (request response : List UInt8) (callbacks : List (Event (ApduInterface κ χ)))
      (result : TeslaApduResult) (written : List UInt8)
  | resetSession

inductive SessionStep (E : Environment (ApduInterface κ χ) σ) :
    TeslaApdu κ χ × σ → SessionEvent κ χ → TeslaApdu κ χ × σ → Prop where
  | process {apdu apdu' : TeslaApdu κ χ} {s s' : σ} {request response written : List UInt8}
      {callbacks : List (Event (ApduInterface κ χ))} {result : TeslaApduResult} :
      Executes E (teslaApduProcess apdu request response) s callbacks
        (apdu', result, written) s' →
      SessionStep E (apdu, s) (.process request response callbacks result written) (apdu', s')
  | resetSession (apdu : TeslaApdu κ χ) (s : σ) :
      SessionStep E (apdu, s) .resetSession (teslaApduResetSession apdu, s)

namespace SessionEvent

def Decides : SessionEvent κ χ → Prop
  | .process request .. => SelectRequest request
  | .resetSession => True

def Opens : SessionEvent κ χ → Prop
  | .process request .. => SelectRequest request ∧ OpensSession request
  | .resetSession => False

/-- The callback is invoked, or a byte beyond the status word is returned. -/
def Discloses : SessionEvent κ χ → Prop
  | .process _ _ callbacks result _ => callbacks ≠ [] ∨ 2 < result.responseSize
  | .resetSession => False

end SessionEvent

/-- The last SELECT or reset is a SELECT that opened the session. -/
def SessionOpen (events : List (SessionEvent κ χ)) : Prop :=
  ∃ before e after, events = before ++ e :: after ∧ e.Opens ∧ ∀ e' ∈ after, ¬ e'.Decides

theorem not_sessionOpen_nil : ¬ SessionOpen ([] : List (SessionEvent κ χ)) := by
  intro h
  obtain ⟨before, e, after, h, -⟩ := h
  simp at h

theorem sessionOpen_snoc {events : List (SessionEvent κ χ)} {e : SessionEvent κ χ} :
    SessionOpen (events ++ [e]) ↔ e.Opens ∨ ¬ e.Decides ∧ SessionOpen events := by
  constructor
  · intro h
    obtain ⟨before, e', after, heq, hopen, hafter⟩ := h
    rcases snoc_split heq with ⟨-, rfl, -⟩ | ⟨init, rfl, rfl⟩
    · exact .inl hopen
    · exact .inr ⟨hafter e (by simp), before, e', init, rfl, hopen,
        fun x hx => hafter x (by simp [hx])⟩
  · intro h
    rcases h with hopen | ⟨hnot, before, e', after, rfl, hopen, hafter⟩
    · exact ⟨events, e, [], by simp, hopen, by simp⟩
    · refine ⟨before, e', after ++ [e], by simp, hopen, fun x hx => ?_⟩
      rcases List.mem_append.mp hx with hx | hx
      · exact hafter x hx
      · rwa [List.mem_singleton.mp hx]

theorem frame_nil_size_le (command : TeslaApduCommand) (statusWord : UInt16)
    (response : List UInt8) : (frame command statusWord [] response).1.responseSize ≤ 2 := by
  unfold frame
  split_ifs <;> simp

theorem process_spec (E : Environment (ApduInterface κ χ) σ) (apdu : TeslaApdu κ χ)
    (request response : List UInt8) (s : σ) :
    Always E (teslaApduProcess apdu request response) s fun t a _ =>
      a.1 = afterRequest apdu request ∧
        (apdu.selected = false → t = [] ∧ a.2.1.responseSize ≤ 2) := by
  rw [process_eq]
  unfold afterRequest
  split_ifs with hlen hsel hsel _ hclosed
  · exact absurd hsel.1 (by omega)
  · exact ⟨rfl, fun _ => ⟨rfl, frame_nil_size_le ..⟩⟩
  · exact ⟨rfl, fun _ => ⟨rfl, frame_nil_size_le ..⟩⟩
  · exact ⟨rfl, fun _ => ⟨rfl, frame_nil_size_le ..⟩⟩
  · exact ⟨rfl, fun _ => ⟨rfl, frame_nil_size_le ..⟩⟩
  · exact ⟨rfl, fun _ => ⟨rfl, frame_nil_size_le ..⟩⟩
  · refine always_bind.mpr (always_iff.mpr fun t a s' _ => ?_)
    exact ⟨rfl, fun h => absurd h hclosed⟩

section
variable {E : Environment (ApduInterface κ χ) σ} {apdu apdu' : TeslaApdu κ χ} {s s' : σ}
  {e : SessionEvent κ χ} {events : List (SessionEvent κ χ)}

theorem SessionStep.selected_iff (h : SessionStep E (apdu, s) e (apdu', s')) :
    apdu'.selected = true ↔ e.Opens ∨ ¬ e.Decides ∧ apdu.selected = true := by
  cases h with
  | process hx =>
    obtain ⟨rfl, -⟩ := always_iff.mp (process_spec E ..) _ _ _ hx
    unfold afterRequest
    split_ifs with hsel
    · simp [SessionEvent.Opens, SessionEvent.Decides, hsel]
    · simp [SessionEvent.Opens, SessionEvent.Decides, hsel]
  | resetSession => simp [teslaApduResetSession, SessionEvent.Opens, SessionEvent.Decides]

theorem SessionStep.discloses (h : SessionStep E (apdu, s) e (apdu', s')) (he : e.Discloses) :
    apdu.selected = true := by
  cases h with
  | process hx =>
    obtain ⟨-, hclosed⟩ := always_iff.mp (process_spec E ..) _ _ _ hx
    by_contra hsel
    obtain ⟨ht, hsize⟩ := hclosed (by simpa using hsel)
    rcases he with he | he
    · exact he ht
    · exact absurd hsize (Nat.not_le.mpr he)
  | resetSession => exact absurd he id

theorem SessionStep.frame (h : SessionStep E (apdu, s) e (apdu', s')) (he : ¬ e.Decides) :
    apdu' = apdu := by
  cases h with
  | process hx =>
    obtain ⟨rfl, -⟩ := always_iff.mp (process_spec E ..) _ _ _ hx
    exact if_neg he
  | resetSession => exact absurd trivial he

theorem selected_iff_sessionOpen {a b : TeslaApdu κ χ × σ}
    (h : Run (SessionStep E) a events b) (ha : a.1.selected = false) :
    b.1.selected = true ↔ SessionOpen events := by
  refine h.invariant (P := fun events b => b.1.selected = true ↔ SessionOpen events) ?_ ?_
  · simp [ha, not_sessionOpen_nil]
  · intro events a e a' ih hstep
    obtain ⟨apdu, s⟩ := a
    obtain ⟨apdu', s'⟩ := a'
    rw [hstep.selected_iff, sessionOpen_snoc, ih]

end

theorem session_gating (E : Environment (ApduInterface κ χ) σ) (publicKey : Bytes 65)
    (callback : Option κ) (context : χ) {s₀ s : σ} {apdu : TeslaApdu κ χ}
    {events : List (SessionEvent κ χ)}
    (h : Run (SessionStep E) (teslaApduInit publicKey callback context, s₀) events (apdu, s)) :
    (apdu.selected = true ↔ SessionOpen events) ∧
      ∀ e apdu' s', SessionStep E (apdu, s) e (apdu', s') →
        (e.Discloses → SessionOpen events) ∧ (¬ e.Decides → apdu' = apdu) := by
  have hsel := selected_iff_sessionOpen h rfl
  exact ⟨hsel, fun e apdu' s' hstep => ⟨fun he => hsel.mp (hstep.discloses he), hstep.frame⟩⟩

def selectTesla : List UInt8 := [0x00, 0xA4, 0x04, 0x00, 0x0A] ++ teslaAid

def selectTeslaEvent : SessionEvent Unit Unit :=
  .process selectTesla (List.replicate 67 0) [] ⟨.select, swSuccess, 2⟩
    (0x90 :: 0x00 :: List.replicate 65 0)

theorem session_gating_selectTesla :
    let E : Environment (ApduInterface Unit Unit) Unit := fun _ _ _ _ => True
    let apdu : TeslaApdu Unit Unit := ⟨true, Bytes.zero 65, some (), ()⟩
    (apdu.selected = true ↔ SessionOpen [selectTeslaEvent]) ∧
      ∀ e apdu' s', SessionStep E (apdu, ()) e (apdu', s') →
        (e.Discloses → SessionOpen [selectTeslaEvent]) ∧ (¬ e.Decides → apdu' = apdu) :=
  session_gating _ (Bytes.zero 65) (some ()) () (.snoc (.nil (_, ())) (.process (.done _ ())))

end FlipperApps.Tesla
