import FlipperApps.Tesla.Durability
import FlipperApps.Tesla.FirstStart

/-!
# Handlers that are cut off

The power may go at any call of any handler, over any files. A load leaves the
files as they were, or has renamed a valid staged file; only the preparation of
an empty storage writes, and only a confirmed reset removes.
-/

namespace FlipperApps.Tesla
open Calls

def appLoss (s : Site) (c : HalCall) (s' : Site) : Prop :=
  ∃ s₁, Relation.ReflTransGen WorkerStep s s₁ ∧
    (s' = s₁ ∨ ∃ w, powerLoss s₁.1 c w ∧ s' = (w, s₁.2))

inductive LoadingDisk (D : Device) (d : Disk) : Disk → Prop
  | same : LoadingDisk D d d
  | recovered (hbin : ¬ ValidAt D d .bin) (htmp : ValidAt D d .tmp) : LoadingDisk D d d.recovered

inductive PreparingDisk (D : Device) (d : Disk) : Disk → Prop
  | loading {d' : Disk} (h : LoadingDisk D d d') : PreparingDisk D d d'
  | first {d' : Disk} (hempty : d = Disk.empty) (h : FirstDisk D d') : PreparingDisk D d d'

/-- The identity file, if there is one, is a complete record. -/
def Intact (D : Device) (d : Disk) : Prop := ∀ F, d .bin = some F → ValidRecord D F

section
variable {α : Type} {D : Device} {mayFail : HalCall → Prop} {d d' : Disk}
  {q : List TeslaKeyCardNfcEvent} {s s' : Site} {p : HalProgram α} {P : Disk → Prop}

theorem NoStart.idle {c : HalCall} {r : c.Reply} (hc : NoStart c) (hs : s.2.running = none)
    (hE : siteEnv D mayFail s c r s') : s'.2.running = none := by
  obtain ⟨-, hbook⟩ := hE
  rw [hbook]
  cases c with
  | nfcListenerStart => exact hc.elim
  | nfcListenerStop => rfl
  | _ => exact hs

theorem idle_workers (hs : s.2.running = none) (hstar : Relation.ReflTransGen WorkerStep s s') :
    s' = s := by
  apply stable_star (P := (· = s)) _ rfl hstar
  rintro s₁ s₂ rfl hstep
  cases hstep with
  | callback crypto hrunning => exact nomatch hs.symm.trans hrunning

/-- While the listener is stopped a handler is cut off as if it were alone. -/
theorem throughout_quiet {Q : World → Prop} (hp : p.Uses NoStart) (hs : s.2.running = none)
    (h : Throughout (faultyEnv D mayFail) powerLoss p s.1 Q) :
    Throughout (appEnv D mayFail) appLoss p s fun s' => Q s'.1 := by
  induction p generalizing s with
  | done a => exact h
  | call c next ih =>
    refine ⟨h.1, fun s' hloss => ?_, fun r s' hE => ?_⟩
    · obtain ⟨s₁, hstar, hcut⟩ := hloss
      obtain rfl := idle_workers hs hstar
      rcases hcut with rfl | ⟨w, hw, rfl⟩
      · exact h.1
      · exact h.2.1 w hw
    · obtain ⟨s₁, hstar, hE⟩ := hE
      obtain rfl := idle_workers hs hstar
      exact ih r (hp.2 r) (hp.1.idle hs hE) (h.2.2 r s'.1 hE.1)

theorem AtRest.throughout (h : AtRest d s) (hp : p.Uses AppCall) (hd : P d) :
    Throughout (appEnv D mayFail) appLoss p s fun s' => P s'.1.disk := by
  have hrest : Throughout (appEnv D mayFail) appLoss p s (AtRest d) := by
    refine throughout_of_uses h ?_ ?_ hp
    · intro s c s' hc hs hloss
      obtain ⟨s₁, hstar, rfl | ⟨w, hw, -⟩⟩ := hloss
      · exact hs.workers hstar
      · have hkeeps : KeepsDisk c := by
          rcases hc with hobject | rfl
          · exact hobject.keepsDisk
          · trivial
        exact absurd hw hkeeps.not_powerLoss
    · intro s c r s' hc hs hE
      obtain ⟨s₁, hstar, hE⟩ := hE
      exact (hs.workers hstar).call hc hE
  exact hrest.mono fun s' hs => hs.disk.symm ▸ hd

theorem LoadOutcome.not_valid {identity found : TeslaIdentity} {file : Option (List UInt8)}
    {r : TeslaIdentityLoadResult} (h : LoadOutcome D mayFail identity file r found)
    (hr : r = .notFound ∨ r = .corrupt) : ¬ ∃ F, file = some F ∧ ValidRecord D F := by
  rintro ⟨F, rfl, hvalid⟩
  cases h with
  | ok => simp at hr
  | corrupt hbad => exact hbad hvalid
  | error _ _ herror => rcases herror with rfl | rfl <;> simp at hr

theorem LoadOutcome.valid {identity found : TeslaIdentity} {file : Option (List UInt8)}
    (h : LoadOutcome D mayFail identity file .ok found) : ∃ F, file = some F ∧ ValidRecord D F := by
  cases h with
  | ok h => exact ⟨_, rfl, h⟩
  | error _ _ herror => simp at herror

theorem loadPath_throughout (path : IdentityPath) (identity : TeslaIdentity) (hd : P d) :
    Throughout (faultyEnv D mayFail) powerLoss (teslaIdentityLoadPath path identity)
      (World.idle d q) fun w => P w.disk :=
  throughout_keepsDisk hd ((loadPath_uses _ _).mono fun _ => ReadCall.keepsDisk)

theorem recover_loading (result : TeslaIdentityLoadResult) (identity : TeslaIdentity)
    (legacyRecord : Bool) (hbin : ¬ ValidAt D d .bin) :
    Throughout (faultyEnv D mayFail) powerLoss
      (teslaIdentityRecover result identity legacyRecord) (World.idle d q)
      fun w => LoadingDisk D d w.disk := by
  refine (loadPath_throughout .tmp identity .same).bind (loadPath_spec .tmp identity) ?_
  intro _ r w h
  obtain ⟨temporary, found, temporaryLegacy⟩ := r
  obtain ⟨rfl, hload⟩ := h
  simp only [hal_eq, Program.call_bind, Program.done_bind, Program.pure_eq]
  split_ifs with hok
  · subst hok
    obtain ⟨F, hfile, hvalid⟩ := hload.valid
    refine ⟨.same, fun _ hloss => hloss.elim, fun error w hE => ?_⟩
    have hrenamed : LoadingDisk D d w.disk := by
      rcases hE with hworks | ⟨-, -, rfl⟩
      · simp only [Works, World.idle, hfile, reduceCtorEq, if_false] at hworks
        obtain ⟨rfl, -⟩ := hworks
        exact .recovered hbin ⟨F, hfile, hvalid⟩
      · exact .same
    dsimp only
    split_ifs
    · refine throughout_call_keepsDisk trivial hrenamed fun _ w' hw' => ?_
      change LoadingDisk D d w'.disk
      rwa [hw']
    · exact hrenamed
  · exact .same
  · exact .same

theorem load_loading (identity : TeslaIdentity) :
    Throughout (faultyEnv D mayFail) powerLoss (teslaIdentityLoad identity) (World.idle d q)
      fun w => LoadingDisk D d w.disk := by
  have hfinish (result : TeslaIdentityLoadResult) (found : TeslaIdentity) (legacyRecord : Bool)
      {w : World} (hw : LoadingDisk D d w.disk) :
      Throughout (faultyEnv D mayFail) powerLoss
        (teslaIdentityWarnLegacy result legacyRecord >>= fun _ => .done (result, found)) w
        fun w => LoadingDisk D d w.disk :=
    throughout_keepsDisk hw (Program.uses_bind
      ((warnLegacy_uses _ _).mono fun _ => ReadCall.keepsDisk) fun _ => trivial)
  refine (loadPath_throughout .bin _ .same).bind (loadPath_spec .bin _) ?_
  intro _ r w h
  obtain ⟨result, found, legacyRecord⟩ := r
  obtain ⟨rfl, hload⟩ := h
  dsimp only
  split_ifs with hresult
  · have hrecover := @recover_loading D mayFail d q result found legacyRecord
      (hload.not_valid hresult)
    exact hrecover.bind hrecover.final fun _ _ _ hw => hfinish _ _ _ hw
  · exact hfinish _ _ _ .same

theorem prepare_preparing {crypto : TeslaCrypto} (hload : crypto.Loaded D)
    (identity : TeslaIdentity) :
    Throughout (faultyEnv D mayFail) powerLoss (teslaKeyCardPrepareIdentity crypto identity)
      (World.idle d q) fun w => PreparingDisk D d w.disk := by
  by_cases hnone : d .bin = none ∧ d .tmp = none
  · obtain rfl : d = Disk.empty := by
      funext path
      cases path with
      | bin => exact hnone.1
      | tmp => exact hnone.2
    exact (prepare_throughout hload identity).mono fun w hw => .first rfl hw
  · have hloading := (@load_loading D mayFail d q identity).mono fun w hw =>
      PreparingDisk.loading hw
    refine hloading.bind (hloading.final.and (load_spec identity)) ?_
    intro _ r w h
    obtain ⟨result, found⟩ := r
    obtain ⟨hw, -, d', rfl, hfound⟩ := h
    dsimp only
    split_ifs with hok hnf
    · exact throughout_keepsDisk hw (Program.uses_bind
        ((setPrivateKey_uses _ _).mono fun _ => KeyCall.keepsDisk) fun _ => trivial)
    · exact hw
    · obtain rfl : result = .notFound := not_not.mp hnf
      exact absurd hfound.notFound_none.2 hnone

theorem prepared_throughout {f : Option TeslaCrypto → TeslaKeyCardApp}
    {g : Bool × TeslaKeyCardApp → HalProgram α} (hf : ∀ crypto, (f crypto).crypto = crypto)
    (hg : ∀ r, (g r).Uses AppCall) (hs : Stopped d s) :
    Throughout (appEnv D mayFail) appLoss
      (teslaCryptoAlloc >>= fun crypto => prepareApp (f crypto) >>= g) s
      fun s' => PreparingDisk D d s'.1.disk := by
  have halloc : teslaCryptoAlloc.Uses AppCall := cryptoAlloc_uses.mono fun _ h => .inl h.object
  refine (hs.rest.throughout halloc (.loading .same)).bind (hs.objects halloc
    (cryptoAlloc_uses.mono fun _ => ContextCall.noStart) alloc_spec) ?_
  intro _ crypto s₁ h
  obtain ⟨⟨-, hcrypto⟩, hs₁, -⟩ := h
  rcases hcrypto with ⟨crypto, rfl, hload, -⟩ | ⟨rfl, -⟩
  · obtain ⟨q, hw⟩ := hs₁.rest
    have hprepare : Throughout (faultyEnv D mayFail) powerLoss (prepareApp (f (some crypto))) s₁.1
        fun w => PreparingDisk D d w.disk := by
      have hprepare := @prepare_preparing D mayFail d q crypto hload (f (some crypto)).identity
      simp only [prepareApp, hf, hw]
      exact hprepare.bind hprepare.final fun _ _ _ hw => hw
    have hquiet := throughout_quiet ((prepareApp_uses _).mono fun _ h => h.outside.noStart)
      hs₁.idle hprepare
    refine hquiet.bind (hquiet.final.and (prepareApp_leaves (hf _) hload hs₁)) ?_
    intro _ r s₂ h
    obtain ⟨hd', d', hs₂, -⟩ := h
    rw [hs₂.rest.disk] at hd'
    exact hs₂.rest.throughout (hg r) hd'
  · simp only [prepareApp, hf, Program.pure_eq, Program.done_bind]
    exact hs₁.rest.throughout (hg _) (.loading .same)

theorem start_preparing (hs : Stopped d s) :
    Throughout (appEnv D mayFail) appLoss teslaKeyCardStart s
      fun s' => PreparingDisk D d s'.1.disk := by
  refine prepared_throughout (f := fun crypto =>
    ⟨⟨.initializing, 0, 0, 0, Bytes.zero 4⟩, .main, noIdentity, crypto, none⟩)
    (fun _ => rfl) (fun r => ?_) hs
  obtain ⟨prepared, app⟩ := r
  cases prepared with
  | false => trivial
  | true => exact Program.uses_bind ((updateNfc_uses app).mono fun _ => .inl) fun _ => trivial

theorem rebuild_preparing (app : TeslaKeyCardApp) (hs : Stopped d s) :
    Throughout (appEnv D mayFail) appLoss (rebuildIdentity app) s
      fun s' => PreparingDisk D d s'.1.disk := by
  have hfree (app : TeslaKeyCardApp) : (freeNfc app).Uses AppCall :=
    (freeNfc_uses app).mono fun _ h => .inl h.object
  have hcrypto (crypto : Option TeslaCrypto) : (teslaCryptoFree crypto).Uses AppCall :=
    (cryptoFree_uses crypto).mono fun _ h => .inl h.object
  refine (hs.rest.throughout (hfree app) (.loading .same)).bind (hs.objects (hfree app)
    ((freeNfc_uses app).mono fun _ => StopCall.noStart) (always_true _)) ?_
  intro _ app₁ s₁ h₁
  obtain ⟨-, hs₁, -⟩ := h₁
  refine (hs₁.rest.throughout (hcrypto _) (.loading .same)).bind (hs₁.objects (hcrypto _)
    ((cryptoFree_uses _).mono fun _ => ContextCall.noStart) (always_true _)) ?_
  intro _ _ s₂ h₂
  obtain ⟨-, hs₂, -⟩ := h₂
  refine prepared_throughout (f := fun crypto =>
    { app₁ with crypto, identity := teslaIdentityClear app₁.identity }) (fun _ => rfl)
    (fun r => ?_) hs₂
  obtain ⟨prepared, app₃⟩ := r
  cases prepared with
  | false => trivial
  | true => exact Program.uses_bind ((updateNfc_uses app₃).mono fun _ => .inl) fun _ => trivial

theorem Intact.recovered (h : ValidAt D d .tmp) : Intact D d.recovered := by
  obtain ⟨F, hF, hvalid⟩ := h
  intro G hG
  rw [Disk.recovered, Disk.rename, Disk.write_ne _ (by decide), Disk.write_same] at hG
  obtain rfl := Option.some.inj (hF.symm.trans hG)
  exact hvalid

theorem Intact.of_none (h : d .bin = none) : Intact D d := fun _ hF => nomatch h.symm.trans hF

theorem FirstDisk.intact (h : FirstDisk D d) : Intact D d := by
  cases h with
  | empty => exact .of_none rfl
  | @storing identity iv _ _ h =>
    cases h with
    | empty => exact .of_none rfl
    | staged => exact .of_none rfl
    | stored =>
      intro F hF
      obtain rfl := Option.some.inj hF
      exact .inl (newRecord_valid D identity iv)

theorem PreparingDisk.intact (h : PreparingDisk D d d') (hd : Intact D d) : Intact D d' := by
  cases h with
  | loading h =>
    cases h with
    | same => exact hd
    | recovered _ htmp => exact .recovered htmp
  | first _ h => exact h.intact

theorem delete_intact (hd : Intact D d) :
    Throughout (faultyEnv D mayFail) powerLoss teslaIdentityDelete (World.idle d q)
      fun w => Intact D w.disk := by
  refine ⟨hd, fun _ hloss => hloss.elim, fun error w hbin => ?_⟩
  obtain ⟨d₁, rfl, hd₁⟩ := remove_spec hbin
  have hintact : Intact D d₁ := by
    rcases hd₁ with ⟨-, rfl⟩ | ⟨-, rfl⟩
    · exact .of_none (Disk.write_same d .bin none)
    · exact hd
  refine ⟨hintact, fun _ hloss => hloss.elim, fun error w htmp => ?_⟩
  obtain ⟨d₂, rfl, hd₂⟩ := remove_spec htmp
  rcases hd₂ with ⟨-, rfl⟩ | ⟨-, rfl⟩
  · intro F hF
    change d₁.write .tmp none .bin = some F at hF
    rw [Disk.write_ne _ (by decide)] at hF
    exact hintact F hF
  · exact hintact

theorem reset_intact {m : NfcStatus} {app : TeslaKeyCardApp} (h : m.Matches app)
    (htracked : Tracked m s) (hrest : AtRest d s) (hd : Intact D d) :
    Throughout (appEnv D mayFail) appLoss (teslaKeyCardResetIdentity app) s
      fun s' => Intact D s'.1.disk := by
  have hmodel : m.Matches (teslaKeyCardSetModel app .resetting false) := ⟨h.object, h.running⟩
  have hstop (app : TeslaKeyCardApp) : (stopNfc app).Uses AppCall :=
    (stopNfc_uses app).mono fun _ h => .inl h.object
  have hresume (app : TeslaKeyCardApp) : (teslaKeyCardResumeNfc app).Uses AppCall :=
    (resumeNfc_uses app).mono fun _ h => .inl h.object
  refine (hrest.throughout (hstop _) hd).bind (stopNfc_leaves hmodel htracked hrest) ?_
  intro _ app₁ s₁ h₁
  obtain ⟨-, hs₁, -⟩ := h₁
  refine (hs₁.rest.throughout (drain_takes.mono fun _ => .inr) hd).bind (drain_leaves hs₁) ?_
  intro _ _ s₂ h₂
  obtain ⟨hs₂, -⟩ := h₂
  obtain ⟨q, hw⟩ := hs₂.rest
  have hdelete : Throughout (appEnv D mayFail) appLoss teslaIdentityDelete s₂
      fun s => Intact D s.1.disk := by
    have hprogram : Throughout (faultyEnv D mayFail) powerLoss teslaIdentityDelete s₂.1
        fun w => Intact D w.disk := hw ▸ delete_intact hd
    exact throughout_quiet (delete_uses.mono fun _ => OutsideCall.noStart) hs₂.idle hprogram
  refine hdelete.bind (hdelete.final.and (delete_leaves hs₂)) ?_
  intro _ deleted s₃ h₃
  obtain ⟨hd₃, d₃, hs₃, -⟩ := h₃
  rw [hs₃.rest.disk] at hd₃
  cases deleted with
  | false => exact hs₃.rest.throughout (Program.uses_bind (hresume _) fun _ => trivial) hd₃
  | true => exact (rebuild_preparing app₁ hs₃).mono fun s' hs' => hs'.intact hd₃

theorem customEvent_unconfirmed {app : TeslaKeyCardApp} {event : UInt32} (hrest : AtRest d s)
    (hevent : ¬ (event = teslaAppEventResetConfirm ∧ app.screen = .reset)) (hd : P d) :
    Throughout (appEnv D mayFail) appLoss (teslaKeyCardCustomEventCallback app event) s
      fun s' => P s'.1.disk :=
  hrest.throughout (customEvent_uses (fun _ h => .inl h.object) (fun _ => .inr rfl)
    hevent) hd

theorem customEvent_intact {m : NfcStatus} {app : TeslaKeyCardApp} (h : Settled m app)
    (htracked : Tracked m s) (hrest : AtRest d s) (event : UInt32) (hd : Intact D d) :
    Throughout (appEnv D mayFail) appLoss (teslaKeyCardCustomEventCallback app event) s
      fun s' => Intact D s'.1.disk := by
  by_cases hconfirm : event = teslaAppEventResetConfirm ∧ app.screen = .reset
  · obtain ⟨rfl, hscreen⟩ := hconfirm
    have hmatch : m.Matches { app with screen := .main } := ⟨h.agrees.object, h.agrees.running⟩
    have hreset := @reset_intact D mayFail d s m _ hmatch htracked hrest hd
    unfold teslaKeyCardCustomEventCallback
    rw [if_neg (by simp [hscreen]), if_neg (by rw [hscreen]; decide), if_pos ⟨rfl, hscreen⟩]
    exact hreset.bind hreset.final fun _ _ _ hs => hs
  · exact customEvent_unconfirmed hrest hconfirm hd

end

end FlipperApps.Tesla
