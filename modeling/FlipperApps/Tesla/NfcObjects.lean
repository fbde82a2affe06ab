import FlipperApps.Tesla.KeyCard
import FlipperApps.Tesla.KeyPair

/-!
# Building and tearing down the NFC object

These calls touch neither the files nor the random numbers. The NFC object that
an update leaves carries the app's identity, unless a call fails.
-/

namespace FlipperApps.Tesla
open Calls

def ObjectCall : HalCall → Prop
  | .furiLog .. => True
  | .mallocCrypto => True
  | .ecpGroupLoad => True
  | .freeCrypto _ => True
  | .publicKeyAtNull => True
  | .mallocNfc => True
  | .freeNfc _ => True
  | .nfcListenerAlloc _ => True
  | .nfcListenerStart _ => True
  | .nfcListenerStop => True
  | .nfcListenerFree => True
  | _ => False

/-- The calls that build and free a crypto context. -/
def ContextCall : HalCall → Prop
  | .furiLog .. => True
  | .mallocCrypto => True
  | .ecpGroupLoad => True
  | .freeCrypto _ => True
  | _ => False

def ListenerCall : HalCall → Prop
  | .freeNfc _ => True
  | .nfcListenerAlloc _ => True
  | .nfcListenerStart _ => True
  | .nfcListenerStop => True
  | .nfcListenerFree => True
  | _ => False

def StopCall : HalCall → Prop
  | .freeNfc _ => True
  | .nfcListenerStop => True
  | .nfcListenerFree => True
  | _ => False

section
variable {D : Device} {mayFail : HalCall → Prop} {w w' : World} {c : HalCall}

theorem ObjectCall.keeps {r : c.Reply} (h : ObjectCall c) (hE : faultyEnv D mayFail w c r w') :
    w' = w := by
  cases c with
  | mallocCrypto => exact hE.elim (·.1) (·.2.2)
  | ecpGroupLoad => exact hE.elim (·.1) (·.2.2)
  | nfcListenerAlloc => exact hE.elim (·.1) (·.2.2)
  | furiLog | freeCrypto | publicKeyAtNull | mallocNfc | freeNfc | nfcListenerStart |
      nfcListenerStop | nfcListenerFree => exact hE.elim id (·.2.2)
  | _ => exact h.elim

theorem always_object {α : Type} {p : HalProgram α} (hp : p.Uses ObjectCall) :
    Always (faultyEnv D mayFail) p w fun t _ w' => w' = w ∧ ∀ e ∈ t, ObjectCall e.1 :=
  always_frame (fun _ _ _ _ hc hE => hc.keeps hE) hp

theorem ContextCall.object {c : HalCall} (h : ContextCall c) : ObjectCall c := by
  cases c with
  | furiLog | mallocCrypto | ecpGroupLoad | freeCrypto => trivial
  | _ => exact h.elim

theorem ListenerCall.object {c : HalCall} (h : ListenerCall c) : ObjectCall c := by
  cases c with
  | freeNfc | nfcListenerAlloc | nfcListenerStart | nfcListenerStop | nfcListenerFree => trivial
  | _ => exact h.elim

theorem StopCall.listener {c : HalCall} (h : StopCall c) : ListenerCall c := by
  cases c with
  | freeNfc | nfcListenerStop | nfcListenerFree => trivial
  | _ => exact h.elim

theorem StopCall.object {c : HalCall} (h : StopCall c) : ObjectCall c := h.listener.object

theorem cryptoAlloc_uses : teslaCryptoAlloc.Uses ContextCall := by
  simp only [teslaCryptoAlloc, hal_eq, Program.call_bind, Program.done_bind, Program.pure_eq]
  refine ⟨trivial, fun address => ?_⟩
  cases address with
  | none => trivial
  | some address =>
    refine ⟨trivial, fun r => ?_⟩
    dsimp only
    split_ifs
    · exact ⟨trivial, fun _ => ⟨trivial, fun _ => trivial⟩⟩
    · trivial

theorem cryptoFree_uses (crypto : Option TeslaCrypto) :
    (teslaCryptoFree crypto).Uses ContextCall := by
  cases crypto with
  | none => trivial
  | some crypto => exact ⟨trivial, fun _ => trivial⟩

theorem nfcStop_uses (nfc : TeslaNfc) : (teslaNfcStop nfc).Uses StopCall := by
  unfold teslaNfcStop
  split_ifs
  · exact ⟨trivial, fun _ => ⟨trivial, fun _ => trivial⟩⟩
  · trivial

theorem nfcFree_uses (nfc : TeslaNfc) : (teslaNfcFree nfc).Uses StopCall :=
  Program.uses_bind (nfcStop_uses nfc) fun _ => ⟨trivial, fun _ => trivial⟩

theorem nfcAlloc_uses (crypto : TeslaCrypto) (uid : Bytes 4) :
    (teslaNfcAlloc crypto uid).Uses ObjectCall := by
  refine ⟨trivial, fun address => ?_⟩
  cases teslaCryptoGetPublicKey crypto with
  | none => exact ⟨trivial, fun _ => trivial⟩
  | some publicKey => trivial

theorem nfcStart_uses (nfc : TeslaNfc) : (teslaNfcStart nfc).Uses ListenerCall := by
  unfold teslaNfcStart
  split_ifs
  · trivial
  · simp only [hal_eq, Program.call_bind, Program.done_bind, Program.pure_eq]
    refine ⟨trivial, fun allocated => ?_⟩
    dsimp only
    split_ifs
    · trivial
    · exact ⟨trivial, fun _ => trivial⟩

theorem freeNfc_uses (app : TeslaKeyCardApp) : (freeNfc app).Uses StopCall := by
  unfold freeNfc
  cases app.nfc with
  | none => trivial
  | some nfc => exact Program.uses_bind (nfcFree_uses nfc) fun _ => trivial

theorem stopNfc_uses (app : TeslaKeyCardApp) : (stopNfc app).Uses StopCall := by
  unfold stopNfc
  cases app.nfc with
  | none => trivial
  | some nfc => exact Program.uses_bind (nfcStop_uses nfc) fun _ => trivial

theorem resumeNfc_uses (app : TeslaKeyCardApp) :
    (teslaKeyCardResumeNfc app).Uses ListenerCall := by
  unfold teslaKeyCardResumeNfc
  cases app.nfc with
  | none => trivial
  | some nfc =>
    apply Program.uses_bind (nfcStart_uses nfc)
    intro r
    dsimp only
    split_ifs
    · trivial
    · exact Program.uses_bind ((nfcFree_uses _).mono fun _ => StopCall.listener) fun _ => trivial

theorem updateNfc_uses (app : TeslaKeyCardApp) : (teslaKeyCardUpdateNfc app).Uses ObjectCall := by
  refine Program.uses_bind ((freeNfc_uses app).mono fun _ => StopCall.object) fun app => ?_
  dsimp only
  cases app.crypto with
  | none => trivial
  | some crypto =>
    refine Program.uses_bind (nfcAlloc_uses crypto _) fun nfc => ?_
    apply Program.uses_bind ((nfcStart_uses nfc).mono fun _ => ListenerCall.object)
    intro r
    obtain ⟨started, nfc⟩ := r
    dsimp only
    split_ifs
    · exact Program.uses_bind ((nfcFree_uses nfc).mono fun _ => StopCall.object) fun _ => trivial
    · trivial

theorem always_true {α : Type} (p : HalProgram α) :
    Always (faultyEnv D mayFail) p w fun _ _ _ => True :=
  always_iff.mpr fun _ _ _ _ => trivial

theorem freeNfc_value (app : TeslaKeyCardApp) :
    Always (faultyEnv D mayFail) (freeNfc app) w fun _ app' _ =>
      app' = { app with nfc := none } := by
  unfold freeNfc
  cases hnfc : app.nfc with
  | none =>
    obtain ⟨model, screen, identity, crypto, nfc⟩ := app
    obtain rfl : nfc = none := hnfc
    rfl
  | some nfc => exact (always_true _).bind fun _ _ _ _ => rfl

theorem nfcStart_value (nfc : TeslaNfc) :
    Always (faultyEnv D mayFail) (teslaNfcStart nfc) w fun _ r _ =>
      r.1 = true ∨ Faulty mayFail := by
  unfold teslaNfcStart
  split_ifs
  · exact .inl rfl
  · simp only [hal_eq, Program.call_bind, Program.done_bind, Program.pure_eq]
    intro allocated w₁ h
    rcases h with ⟨rfl, rfl⟩ | ⟨hm, rfl, rfl⟩
    · exact fun _ _ _ => .inl rfl
    · exact .inr ⟨_, hm⟩

theorem updateNfc_value (app : TeslaKeyCardApp) :
    Always (faultyEnv D mayFail) (teslaKeyCardUpdateNfc app) w fun _ app' _ =>
      app'.identity = app.identity ∧
        (app.crypto.isSome → app'.nfc.isSome ∨ Faulty mayFail) := by
  apply (freeNfc_value app).bind
  intro _ _ w₁ h
  subst h
  dsimp only
  cases app.crypto with
  | none => exact ⟨rfl, nofun⟩
  | some crypto =>
    refine (always_true _).bind fun _ nfc w₂ _ => ?_
    apply (nfcStart_value nfc).bind
    intro _ r w₃ hstarted
    obtain ⟨started, nfc⟩ := r
    cases started with
    | false =>
      refine (always_true _).bind fun _ _ w₄ _ => ⟨rfl, fun _ => .inr ?_⟩
      exact hstarted.resolve_left nofun
    | true => exact ⟨rfl, fun _ => .inl rfl⟩

end

end FlipperApps.Tesla
