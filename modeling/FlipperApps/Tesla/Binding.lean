import FlipperApps.Tesla.Progress

/-!
# The NFC object is bound to its context and its identity

An NFC object that is alive shows the public key of the context it refers to,
which holds the private key of the app's identity. No context is freed or given
another key while an NFC object is alive.
-/

namespace FlipperApps.Tesla
open Calls

structure BoundTo (D : Device) (app : TeslaKeyCardApp) (nfc : TeslaNfc) (crypto : TeslaCrypto) :
    Prop where
  context : nfc.crypto = crypto.address
  ready : crypto.keyReady = true
  key : crypto.privateKey = app.identity.privateKey.beValue
  publicKey : nfc.apdu.publicKey = (D.mul crypto.privateKey D.group.g).uncompressed
  uid : nfc.uid = app.identity.uid

def Binds (D : Device) (app : TeslaKeyCardApp) : Prop :=
  ∀ nfc, app.nfc = some nfc → ∃ crypto, app.crypto = some crypto ∧ BoundTo D app nfc crypto

def CallsBack (nfc nfc' : TeslaNfc) : Prop :=
  ∃ crypto event t, Executes (anyReply NfcInterface)
    (teslaNfcListenerCallback crypto true nfc event) () t nfc' ()

/-- The NFC object that is alive, by its address. While there is one, no context
is freed and no private key is read into one. -/
def contextProtocol : Monitor HalInterface (Option ℕ) where
  observe
    | _, ⟨.mallocNfc, address⟩ => some address
    | _, ⟨.freeNfc _, _⟩ => none
    | object, _ => object
  allows
    | _, .publicKeyAtNull => False
    | object, .freeCrypto _ => object = none
    | object, .mpiReadBinary _ => object = none
    | _, _ => True

section
variable {D : Device} {mayFail : HalCall → Prop} {leaving : Bool} {m : NfcStatus}
  {app app' : TeslaKeyCardApp} {nfc nfc' : TeslaNfc} {t : List HalEvent}

theorem nfcProtocol_weakens :
    Monitor.Weakens NfcStatus.object (nfcProtocol leaving) contextProtocol where
  observe := by
    intro m e
    obtain ⟨c, r⟩ := e
    cases c with
    | nfcEventQueueGet =>
      by_cases hrunning : m.running = true
      · exact congrArg NfcStatus.object (if_pos hrunning)
      · change (m.observe ⟨.nfcEventQueueGet, r⟩).object = m.object
        rw [NfcStatus.observe_take (by simpa using hrunning)]
    | _ => rfl
  allows := by
    intro m c h
    cases c with
    | publicKeyAtNull => exact h
    | freeCrypto => exact h.2
    | mpiReadBinary => exact h.2
    | _ => trivial

theorem contextProtocol_takes {object : Option ℕ} (ht : ∀ e ∈ t, e.1 = .nfcEventQueueGet) :
    contextProtocol.Obeyed object t ∧ contextProtocol.after object t = object := by
  induction t with
  | nil => exact ⟨Monitor.obeyed_nil, rfl⟩
  | cons e t ih =>
    obtain ⟨hobeyed, hafter⟩ := ih fun e he => ht e (List.mem_cons_of_mem _ he)
    obtain ⟨c, r⟩ := e
    obtain rfl : c = .nfcEventQueueGet := ht _ List.mem_cons_self
    exact ⟨Monitor.obeyed_cons.mpr ⟨trivial, hobeyed⟩, hafter⟩

theorem CallsBack.sameObject (h : CallsBack nfc nfc') : nfc'.SameObject nfc := by
  obtain ⟨crypto, event, t, hx⟩ := h
  cases event with
  | receivedData request =>
    obtain ⟨-, time, rfl⟩ := always_iff.mp (receivedData_spec _ crypto nfc request ()) _ _ _ hx
    refine ⟨rfl, rfl, rfl, ?_⟩
    dsimp only [afterRequest]
    split_ifs
    · rfl
    · rfl
  | fieldOff =>
    obtain ⟨rfl, -⟩ := always_iff.mp (endSession_spec _ nfc .fieldOff ()) _ _ _ hx
    exact ⟨rfl, rfl, rfl, rfl⟩
  | halted =>
    obtain ⟨rfl, -⟩ := always_iff.mp (endSession_spec _ nfc .halted ()) _ _ _ hx
    exact ⟨rfl, rfl, rfl, rfl⟩

theorem BoundTo.of_sameObject {crypto : TeslaCrypto} (h : BoundTo D app nfc crypto)
    (hsame : nfc'.SameObject nfc) : BoundTo D app nfc' crypto :=
  ⟨hsame.crypto.trans h.context, h.ready, h.key, hsame.publicKey.trans h.publicKey,
    hsame.uid.trans h.uid⟩

theorem BoundTo.callbacks {crypto : TeslaCrypto} (h : BoundTo D app nfc crypto)
    (hstar : Relation.ReflTransGen CallsBack nfc nfc') : BoundTo D app nfc' crypto := by
  apply stable_star (P := fun nfc => BoundTo D app nfc crypto) _ h hstar
  intro nfc₁ nfc₂ hbound hcall
  exact hbound.of_sameObject hcall.sameObject

theorem Keeps.binds (h : Keeps app app') (hbinds : Binds D app) : Binds D app' := by
  intro nfc' hnfc'
  obtain ⟨nfc, hnfc, hsame⟩ := h.nfc nfc' hnfc'
  obtain ⟨crypto, hcrypto, hbound⟩ := hbinds nfc hnfc
  refine ⟨crypto, h.crypto.trans hcrypto, ?_⟩
  obtain ⟨hcontext, hready, hkey, hpublic, huid⟩ := hbound.of_sameObject hsame
  exact ⟨hcontext, hready, by rw [h.identity]; exact hkey, hpublic, by rw [h.identity]; exact huid⟩

theorem Provides.binds {d d' : Disk} (h : Provides D mayFail d app d') : Binds D app := by
  obtain ⟨t, crypto, c, hload, hprepared, hcrypto, address, hnfc⟩ := h
  intro nfc hsome
  obtain rfl := Option.some.inj (hnfc.symm.trans hsome)
  obtain rfl := hprepared.keyReady
  exact ⟨_, hcrypto, rfl, rfl, rfl, rfl, rfl⟩

theorem binds_of_none (h : app.nfc = none) : Binds D app := by
  intro nfc hnfc
  exact absurd (h.symm.trans hnfc) (by simp)

theorem Leaves.binds {d d' : Disk} (h : Leaves D mayFail app d t app' d') (hbinds : Binds D app) :
    Binds D app' := by
  cases h with
  | kept hkeeps => exact hkeeps.binds hbinds
  | undeleted hkeeps => exact hkeeps.binds hbinds
  | unserved hnone => exact binds_of_none hnone
  | renewed hprovides => exact hprovides.binds

structure BoundBetween (D : Device) (t : List HalEvent) (a : AppState) : Prop where
  tracked : ∃ m, Settled m a.1 ∧ Tracked m a.2 ∧ contextProtocol.after none t = m.object
  obeyed : contextProtocol.Obeyed none t
  rest : ∃ d, AtRest d a.2
  binds : Binds D a.1

theorem BoundBetween.between {a : AppState} (h : BoundBetween D t a) : Between a := by
  obtain ⟨m, hsettled, htracked, -⟩ := h.tracked
  exact ⟨m, hsettled, htracked⟩

theorem Starts.bound {d : Disk} {a : AppState} (h : Starts D mayFail d t a) :
    BoundBetween D t a := by
  obtain ⟨hobeyed, hsettled, htracked⟩ := always_iff.mp
    (start_accepts.tracked nfcProtocol_tracks (tracked_empty d)) _ _ _ h
  have hafter : contextProtocol.after none t = ((nfcProtocol false).after .absent t).object :=
    (nfcProtocol_weakens.after (m := .absent)).symm
  have hkept : contextProtocol.Obeyed none t := nfcProtocol_weakens.obeyed hobeyed
  obtain ⟨d', hrest, hnone | hprovides⟩ :=
    always_iff.mp (start_leaves (stopped_empty d)) _ _ _ h
  · exact ⟨⟨_, hsettled, htracked, hafter⟩, hkept, ⟨d', hrest⟩, binds_of_none hnone⟩
  · exact ⟨⟨_, hsettled, htracked, hafter⟩, hkept, ⟨d', hrest⟩, hprovides.binds⟩

theorem AppStep.bound {a a' : AppState} {l : AppLabel} (hstep : AppStep D mayFail a l a')
    (h : BoundBetween D t a) : BoundBetween D (t ++ l.trace) a' := by
  obtain ⟨d, hrest⟩ := h.rest
  obtain ⟨d', hrest', hleaves⟩ := hstep.leaves h.between hrest
  have hbinds := hleaves.binds h.binds
  obtain ⟨m, hsettled, htracked, hafter⟩ := h.tracked
  -- The calls of a step that issues none, or only takes.
  have hkept (t' : List HalEvent) (ht' : ∀ e ∈ t', e.1 = .nfcEventQueueGet) :
      contextProtocol.Obeyed none (t ++ t') ∧ contextProtocol.after none (t ++ t') = m.object := by
    obtain ⟨hobeyed, hsame⟩ : contextProtocol.Obeyed m.object t' ∧
        contextProtocol.after m.object t' = m.object := contextProtocol_takes ht'
    rw [Monitor.obeyed_append, Monitor.after_append, hafter]
    exact ⟨⟨h.obeyed, hobeyed⟩, hsame⟩
  cases hstep with
  | worker hworker =>
    obtain ⟨hobeyed, hobject⟩ := hkept [] (by simp)
    exact ⟨⟨m, hsettled, htracked.worker hworker, hobject⟩, hobeyed, ⟨d', hrest'⟩, hbinds⟩
  | tick hx =>
    obtain ⟨hsettled', htracked', -⟩ :=
      always_iff.mp (takeNfcEvents_spec hsettled htracked) _ _ _ hx
    obtain ⟨hobeyed, hobject⟩ :=
      hkept _ (always_iff.mp (always_uses takeNfcEvents_takes) _ _ _ hx)
    exact ⟨⟨m, hsettled', htracked', hobject⟩, hobeyed, ⟨d', hrest'⟩, hbinds⟩
  | custom hx =>
    obtain ⟨hobeyed, hsettled', htracked'⟩ := always_iff.mp
      ((customEvent_accepts hsettled _).tracked nfcProtocol_tracks htracked) _ _ _ hx
    refine ⟨⟨_, hsettled', htracked', ?_⟩, ?_, ⟨d', hrest'⟩, hbinds⟩
    · rw [nfcProtocol_weakens.after, Monitor.after_append, hafter]
      rfl
    · rw [Monitor.obeyed_append, hafter]
      exact ⟨h.obeyed, nfcProtocol_weakens.obeyed hobeyed⟩
  | navigation =>
    obtain ⟨hobeyed, hobject⟩ := hkept [] (by simp)
    exact ⟨⟨m, hsettled, htracked, hobject⟩, hobeyed, ⟨d', hrest'⟩, hbinds⟩

/-- Wherever an NFC object is alive it is bound to the app's context and identity,
whatever its worker does; and up to the end of the app no context is freed or
given a key beside it. -/
theorem nfc_stays_bound {d : Disk} {a₀ a : AppState} {labels : List AppLabel}
    (hstart : Starts D mayFail d t a₀) (hrun : Run (AppStep D mayFail) a₀ labels a) :
    (∀ nfc nfc', a.1.nfc = some nfc → Relation.ReflTransGen CallsBack nfc nfc' →
      ∃ crypto, a.1.crypto = some crypto ∧ BoundTo D a.1 nfc' crypto) ∧
    contextProtocol.Obeyed none (t ++ labels.flatMap AppLabel.trace) ∧
    ∀ u s, Executes (appEnv D mayFail) (teslaKeyCardAppFree a.1) a.2 u () s →
      contextProtocol.Obeyed none (t ++ labels.flatMap AppLabel.trace ++ u) := by
  have hbound : BoundBetween D (t ++ labels.flatMap AppLabel.trace) a := by
    apply hrun.invariant (P := fun labels a =>
      BoundBetween D (t ++ labels.flatMap AppLabel.trace) a)
    · simpa using hstart.bound
    · intro labels a l a' h hstep
      rw [List.flatMap_append, List.flatMap_singleton, ← List.append_assoc]
      exact hstep.bound h
  refine ⟨fun nfc nfc' hnfc hstar => ?_, hbound.obeyed, fun u s hx => ?_⟩
  · obtain ⟨crypto, hcrypto, h⟩ := hbound.binds nfc hnfc
    exact ⟨crypto, hcrypto, h.callbacks hstar⟩
  · obtain ⟨m, hsettled, -, hafter⟩ := hbound.tracked
    obtain ⟨hobeyed, -⟩ := (appFree_accepts hsettled).executes hx
    rw [Monitor.obeyed_append, hafter]
    exact ⟨hbound.obeyed, nfcProtocol_weakens.obeyed hobeyed⟩

end

theorem nfc_stays_bound_reset :
    ∃ t a₀ t₁ t₂ a, Starts plainDevice noFailure twinDisk t a₀ ∧
      a₀.1.identity = sampleIdentity ∧
      Run (AppStep plainDevice noFailure) a₀ [.custom teslaAppEventResetRequest true t₁,
        .custom teslaAppEventResetConfirm true t₂] a ∧ a.1.nfc.isSome = true ∧
      (∀ nfc nfc', a.1.nfc = some nfc → Relation.ReflTransGen CallsBack nfc nfc' →
        ∃ crypto, a.1.crypto = some crypto ∧ BoundTo plainDevice a.1 nfc' crypto) ∧
      contextProtocol.Obeyed none (t ++ [.custom teslaAppEventResetRequest true t₁,
        .custom teslaAppEventResetConfirm true t₂].flatMap AppLabel.trace) ∧
      ∀ u s, Executes (appEnv plainDevice noFailure) (teslaKeyCardAppFree a.1) a.2 u () s →
        contextProtocol.Obeyed none (t ++ [.custom teslaAppEventResetRequest true t₁,
          .custom teslaAppEventResetConfirm true t₂].flatMap AppLabel.trace ++ u) := by
  obtain ⟨t, a₀, t₁, t₂, a, hstart, hidentity, hrun, -, hnfc⟩ := exists_reset_twin
  exact ⟨t, a₀, t₁, t₂, a, hstart, hidentity, hrun, hnfc, nfc_stays_bound hstart hrun⟩

end FlipperApps.Tesla
