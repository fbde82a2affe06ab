import FlipperApps.Tesla.AppRuns
import FlipperApps.Tesla.Reset

/-!
# What the handlers leave

Between two events no file is open and the enclave slot is free. Every step of
the app keeps the identity with its context and its NFC object, or leaves no NFC
object, or serves an identity that was prepared from the files.
-/

namespace FlipperApps.Tesla
open Calls

def AtRest (d : Disk) (s : Site) : Prop := ∃ q, s.1 = World.idle d q

/-- Only the listener, the session and the time of the last authentication differ. -/
structure TeslaNfc.SameObject (a b : TeslaNfc) : Prop where
  address : a.address = b.address
  crypto : a.crypto = b.crypto
  uid : a.uid = b.uid
  publicKey : a.apdu.publicKey = b.apdu.publicKey

structure Keeps (app app' : TeslaKeyCardApp) : Prop where
  identity : app'.identity = app.identity
  crypto : app'.crypto = app.crypto
  nfc : ∀ nfc', app'.nfc = some nfc' → ∃ nfc, app.nfc = some nfc ∧ nfc'.SameObject nfc

structure Undeleted (d : Disk) (t : List HalEvent) (d' : Disk) : Prop where
  refused : ∃ error, (⟨.storageCommonRemove .bin, error⟩ : HalEvent) ∈ t ∧
    error ≠ .ok ∧ error ≠ .notExist
  bin : d' .bin = d .bin
  tmp : (⟨.storageCommonRemove .tmp, FsError.ok⟩ : HalEvent) ∈ t ∧ d' .tmp = none ∨
    (⟨.storageCommonRemove .tmp, FsError.ok⟩ : HalEvent) ∉ t ∧ d' .tmp = d .tmp

structure Provides (D : Device) (mayFail : HalCall → Prop) (d : Disk) (app : TeslaKeyCardApp)
    (d' : Disk) : Prop where
  prepared : ∃ t crypto c, crypto.Loaded D ∧
    PreparesTo D mayFail crypto d t (true, c, app.identity) d' ∧ app.crypto = some c ∧
    ∃ address, app.nfc = some (builtNfc c app.identity.uid address).started

inductive Leaves (D : Device) (mayFail : HalCall → Prop) (app : TeslaKeyCardApp) (d : Disk)
    (t : List HalEvent) : TeslaKeyCardApp → Disk → Prop
  | kept {app' : TeslaKeyCardApp} (h : Keeps app app')
      (hremoved : ∀ error, (⟨.storageCommonRemove .bin, error⟩ : HalEvent) ∉ t) :
      Leaves D mayFail app d t app' d
  | undeleted {app' : TeslaKeyCardApp} {d' : Disk} (h : Keeps app app') (hd : Undeleted d t d')
      (hresumed : app'.nfc.isSome = true →
        ∃ uid, (⟨.nfcListenerAlloc uid, true⟩ : HalEvent) ∈ t) :
      Leaves D mayFail app d t app' d'
  | unserved {app' : TeslaKeyCardApp} {d' : Disk} (h : app'.nfc = none) :
      Leaves D mayFail app d t app' d'
  | renewed {app' : TeslaKeyCardApp} {d₁ d' : Disk} (h : Provides D mayFail d₁ app' d')
      (hremoved : ∀ error, (⟨.storageCommonRemove .bin, error⟩ : HalEvent) ∈ t →
        error = .ok ∨ error = .notExist) : Leaves D mayFail app d t app' d'

def AppLabel.trace : AppLabel → List HalEvent
  | .worker => []
  | .tick t => t
  | .custom _ _ t => t
  | .navigation _ => []

def AppCall (c : HalCall) : Prop := ObjectCall c ∨ c = .nfcEventQueueGet

def NoStart : HalCall → Prop
  | .nfcListenerStart _ => False
  | _ => True

section
variable {α : Type} {D : Device} {mayFail : HalCall → Prop} {m : NfcStatus}
  {app : TeslaKeyCardApp} {d : Disk} {s s' : Site} {p : HalProgram α}

theorem not_removed {t : List HalEvent} (ht : ∀ e ∈ t, AppCall e.1) (error : FsError) :
    (⟨.storageCommonRemove .bin, error⟩ : HalEvent) ∉ t := by
  intro hmem
  rcases ht _ hmem with hobject | htake
  · exact hobject
  · cases htake

theorem AtRest.disk (h : AtRest d s) : s.1.disk = d := by
  obtain ⟨q, hs⟩ := h
  rw [hs]
  rfl

theorem AtRest.workers (h : AtRest d s) (hstar : Relation.ReflTransGen WorkerStep s s') :
    AtRest d s' := by
  apply stable_star _ h hstar
  intro s₁ s₂ h₁ hstep
  obtain ⟨q, hs⟩ := h₁
  cases hstep with
  | callback =>
    obtain rfl : _ = World.idle d q := hs
    exact ⟨_, rfl⟩

theorem AtRest.call {c : HalCall} {r : c.Reply} (h : AtRest d s) (hc : AppCall c)
    (hE : siteEnv D mayFail s c r s') : AtRest d s' := by
  obtain ⟨q, hs⟩ := h
  obtain ⟨hE, -⟩ := hE
  rcases hc with hobject | rfl
  · exact ⟨q, (hobject.keeps hE).trans hs⟩
  · obtain ⟨hw, -⟩ := take_spec hE
    rw [AtRest, hw, hs]
    exact ⟨_, rfl⟩

theorem always_atRest (hp : p.Uses AppCall) (h : AtRest d s) :
    Always (appEnv D mayFail) p s fun t _ s' => AtRest d s' ∧ ∀ e ∈ t, AppCall e.1 := by
  apply Always.and _ (always_uses hp)
  apply always_invariant _ hp h
  intro s c r s' hc hs hE
  obtain ⟨s₁, hstar, hE⟩ := hE
  exact (hs.workers hstar).call hc hE

theorem always_quiet {Q : Post HalInterface World α} (hp : p.Uses NoStart)
    (hs : s.2.running = none) (h : Always (faultyEnv D mayFail) p s.1 Q) :
    Always (appEnv D mayFail) p s fun t a s' => Q t a s'.1 ∧ s'.2.running = none := by
  have hrecorded : Always (siteEnv D mayFail) p s fun t a s' =>
      Q t a s'.1 ∧ s'.2 = t.foldl Book.observe s.2 := always_recorded h
  let Quiet : Site → Prop := fun s => s.2.running = none
  apply (@always_under HalInterface Site α _ WorkerStep p s Quiet NoStart _ ?_ ?_ hp hs
    hrecorded).mono
  · intro t a s' h
    exact ⟨h.1.1, h.2⟩
  · intro s s' hidle hstep
    cases hstep with
    | callback crypto hrunning => exact absurd (hidle.symm.trans hrunning) (by simp)
  · intro s c r s' hc hidle hE
    obtain ⟨-, hbook⟩ := hE
    change s'.2.running = none
    rw [hbook]
    cases c with
    | nfcListenerStart => exact hc.elim
    | nfcListenerStop => rfl
    | _ => exact hidle

theorem OutsideCall.noStart {c : HalCall} (h : OutsideCall c) : NoStart c := by
  cases c with
  | nfcListenerStart => exact h.elim
  | _ => trivial

theorem prepareApp_uses (app : TeslaKeyCardApp) : (prepareApp app).Uses PrepareCall := by
  unfold prepareApp
  cases app.crypto with
  | none => trivial
  | some crypto => exact Program.uses_bind (prepareIdentity_uses crypto _) fun _ => trivial

theorem delete_uses : teslaIdentityDelete.Uses OutsideCall :=
  ⟨trivial, fun _ => ⟨trivial, fun _ => trivial⟩⟩

theorem remove_spec {path : IdentityPath} {error : FsError} {q : List TeslaKeyCardNfcEvent}
    {w : World} (hE : faultyEnv D mayFail (World.idle d q) (.storageCommonRemove path) error w) :
    ∃ d', w = World.idle d' q ∧
      (error = .ok ∧ d' = d.write path none ∨ error ≠ .ok ∧ d' = d) := by
  rcases hE with ⟨rfl, rfl⟩ | ⟨-, hr, rfl⟩
  · by_cases hfile : d path = none
    · have hsame : d.write path none = d := by
        rw [← hfile]
        exact Function.update_eq_self path d
      refine ⟨d.write path none, rfl, Or.inr ⟨?_, hsame⟩⟩
      rw [if_pos (show (World.idle d q).disk path = none from hfile)]
      simp
    · exact ⟨d.write path none, rfl, Or.inl ⟨if_neg hfile, rfl⟩⟩
  · exact ⟨d, rfl, Or.inr ⟨hr.1, rfl⟩⟩

theorem delete_undeleted (q : List TeslaKeyCardNfcEvent) :
    Always (faultyEnv D mayFail) teslaIdentityDelete (World.idle d q) fun t deleted w' =>
      ∃ d', w' = World.idle d' q ∧ (deleted = false → Undeleted d t d') ∧
        (deleted = true → ∀ error, (⟨.storageCommonRemove .bin, error⟩ : HalEvent) ∈ t →
          error = .ok ∨ error = .notExist) := by
  intro error w₁ hbin error' w₂ htmp
  obtain ⟨d₁, rfl, h₁⟩ := remove_spec hbin
  obtain ⟨d₂, rfl, h₂⟩ := remove_spec htmp
  refine ⟨d₂, rfl, fun hfalse => ?_, fun htrue error₁ hmem => ?_⟩
  · obtain ⟨hok, hnot⟩ : error ≠ .ok ∧ error ≠ .notExist := by simpa using hfalse
    obtain rfl := (h₁.resolve_left fun h => hok h.1).2
    refine ⟨⟨error, by simp, hok, hnot⟩, ?_, ?_⟩
    · rcases h₂ with ⟨-, rfl⟩ | ⟨-, rfl⟩
      · exact Disk.write_ne _ (by decide) none
      · rfl
    · rcases h₂ with ⟨rfl, rfl⟩ | ⟨herror, rfl⟩
      · exact Or.inl ⟨by simp, Disk.write_same _ _ none⟩
      · refine Or.inr ⟨?_, rfl⟩
        simpa using fun h => herror h.symm
  · have hok : error = .ok ∨ error = .notExist := by simpa using htrue
    have hsame : error₁ = error := by simpa using hmem
    rw [hsame]
    exact hok

structure Stopped (d : Disk) (s : Site) : Prop where
  idle : s.2.running = none
  rest : AtRest d s

theorem StopCall.noStart {c : HalCall} (h : StopCall c) : NoStart c := by
  cases c with
  | nfcListenerStart => exact h.elim
  | _ => trivial

theorem ContextCall.noStart {c : HalCall} (h : ContextCall c) : NoStart c := h.outside.noStart

theorem drain_takes {n : ℕ} :
    (drainNfcEvents n).Uses (I := HalInterface) (· = .nfcEventQueueGet) := by
  induction n with
  | zero => trivial
  | succ n ih =>
    refine ⟨rfl, fun event => ?_⟩
    cases event with
    | none => trivial
    | some event => exact ih

theorem drain_noStart {n : ℕ} : (drainNfcEvents n).Uses NoStart := by
  apply drain_takes.mono
  intro c hc
  rw [hc]
  trivial

theorem ObjectCall.ne_take {c : HalCall} (h : ObjectCall c) : c ≠ .nfcEventQueueGet := by
  intro hc
  subst hc
  exact h

theorem ListenerCall.ne_malloc {c : HalCall} (h : ListenerCall c) : c ≠ .mallocNfc := by
  intro hc
  subst hc
  exact h

theorem OutsideCall.ne_take {c : HalCall} (h : OutsideCall c) : c ≠ .nfcEventQueueGet := by
  intro hc
  subst hc
  exact h

theorem Stopped.objects {Q : Post HalInterface World α} (hs : Stopped d s) (hp : p.Uses AppCall)
    (hquiet : p.Uses NoStart) (h : Always (faultyEnv D mayFail) p s.1 Q) :
    Always (appEnv D mayFail) p s fun t a s' =>
      Q t a s'.1 ∧ Stopped d s' ∧ ∀ e ∈ t, AppCall e.1 := by
  apply ((always_quiet hquiet hs.idle h).and (always_atRest hp hs.rest)).mono
  intro t a s' h
  exact ⟨h.1.1, ⟨h.1.2, h.2.1⟩, h.2.2⟩

theorem stopNfc_leaves (h : m.Matches app) (htracked : Tracked m s) (hrest : AtRest d s) :
    Always (appEnv D mayFail) (stopNfc app) s fun t app' s' =>
      app' = { app with nfc := app.nfc.map TeslaNfc.stopped } ∧ Stopped d s' ∧
        ∀ e ∈ t, AppCall e.1 := by
  apply (((stopNfc_accepts h).tracked nfcProtocol_tracks htracked).and
    (always_atRest ((stopNfc_uses app).mono fun _ h => Or.inl h.object) hrest)).mono
  intro t app' s' hstop
  obtain ⟨⟨-, ⟨rfl, hm⟩, htracked'⟩, hrest', ht⟩ := hstop
  exact ⟨rfl, ⟨htracked'.idle (by rw [hm]), hrest'⟩, ht⟩

theorem drain_leaves {n : ℕ} (hs : Stopped d s) :
    Always (appEnv D mayFail) (drainNfcEvents n) s fun t _ s' =>
      Stopped d s' ∧ ∀ e ∈ t, AppCall e.1 := by
  apply (hs.objects (drain_takes.mono fun _ => Or.inr) drain_noStart (always_true _)).mono
  intro t a s' h
  exact h.2

theorem delete_leaves (hs : Stopped d s) :
    Always (appEnv D mayFail) teslaIdentityDelete s fun t deleted s' => ∃ d', Stopped d' s' ∧
      (deleted = false → Undeleted d t d') ∧
      (deleted = true → ∀ error, (⟨.storageCommonRemove .bin, error⟩ : HalEvent) ∈ t →
        error = .ok ∨ error = .notExist) := by
  obtain ⟨q, hw⟩ := hs.rest
  apply (always_quiet (delete_uses.mono fun _ => OutsideCall.noStart) hs.idle
    (hw ▸ delete_undeleted q)).mono
  intro t deleted s' h
  obtain ⟨⟨d', hw', hdeleted⟩, hidle⟩ := h
  exact ⟨d', ⟨hidle, q, hw'⟩, hdeleted⟩

section
variable {σ : Type} {E : Environment HalInterface σ} {u : σ} {nfc : TeslaNfc}

theorem nfcStart_anew (hstopped : nfc.listener = false) :
    Always E (teslaNfcStart nfc) u fun t r _ => r.1 = true →
      r.2 = nfc.started ∧ ∃ uid, (⟨.nfcListenerAlloc uid, true⟩ : HalEvent) ∈ t := by
  unfold teslaNfcStart
  rw [if_neg (by simp [hstopped])]
  intro allocated u₁ _
  cases allocated with
  | false => exact fun h => absurd h (by simp)
  | true =>
    intro _ u₂ _ _
    exact ⟨rfl, nfc.uid, by simp⟩

theorem resumeNfc_anew (hstopped : ∀ nfc, app.nfc = some nfc → nfc.listener = false) :
    Always E (teslaKeyCardResumeNfc app) u fun t r _ => r.2.nfc = none ∨
      Keeps app r.2 ∧ ∃ uid, (⟨.nfcListenerAlloc uid, true⟩ : HalEvent) ∈ t := by
  unfold teslaKeyCardResumeNfc
  cases happ : app.nfc with
  | none => exact Or.inl happ
  | some nfc =>
    apply (nfcStart_anew (hstopped nfc happ)).bind
    intro t r u₁ hstart
    obtain ⟨started, nfc₁⟩ := r
    cases started with
    | false =>
      apply Always.bind (always_returns (Program.returns_true _))
      intro v _ u₂ _
      exact Or.inl rfl
    | true =>
      obtain ⟨rfl, uid, hmem⟩ := hstart rfl
      refine Or.inr ⟨⟨rfl, rfl, fun nfc' hnfc => ?_⟩, uid, by simpa using hmem⟩
      obtain rfl := Option.some.inj hnfc
      exact ⟨nfc, happ, rfl, rfl, rfl, rfl⟩

end

theorem resumeNfc_leaves (hstopped : ∀ nfc, app.nfc = some nfc → nfc.listener = false)
    (hs : Stopped d s) :
    Always (appEnv D mayFail) (teslaKeyCardResumeNfc app) s fun t r s' => AtRest d s' ∧
      (∀ e ∈ t, AppCall e.1) ∧ (r.2.nfc = none ∨
        Keeps app r.2 ∧ ∃ uid, (⟨.nfcListenerAlloc uid, true⟩ : HalEvent) ∈ t) := by
  apply ((always_atRest ((resumeNfc_uses app).mono fun _ h => Or.inl h.object) hs.rest).and
    (resumeNfc_anew hstopped)).mono
  intro t r s' h
  exact ⟨h.1.1, h.1.2, h.2⟩

theorem PreparesTo.keyReady {crypto c : TeslaCrypto} {identity : TeslaIdentity} {d' : Disk}
    {t : List HalEvent} (h : PreparesTo D mayFail crypto d t (true, c, identity) d') :
    c = crypto.withKey D identity.privateKey.beValue := by
  cases h with
  | restored => rfl
  | fresh => rfl

theorem prepareApp_leaves {crypto : TeslaCrypto} (hcrypto : app.crypto = some crypto)
    (hload : crypto.Loaded D) (hs : Stopped d s) :
    Always (appEnv D mayFail) (prepareApp app) s fun _ r s' => ∃ d', Stopped d' s' ∧
      r.2.nfc = app.nfc ∧ (r.1 = true → ∃ c u, r.2.crypto = some c ∧
        PreparesTo D mayFail crypto d u (true, c, r.2.identity) d') := by
  obtain ⟨q, hw⟩ := hs.rest
  obtain ⟨model, screen, identity, crypto', nfc⟩ := app
  obtain rfl : crypto' = some crypto := hcrypto
  have hspec := @prepareApp_spec D mayFail s.1 _ crypto ⟨model, screen, identity, some crypto, nfc⟩
    (hw ▸ prepareIdentity_spec hload identity)
  have hkeep : Always (faultyEnv D mayFail) (prepareApp ⟨model, screen, identity, some crypto, nfc⟩)
      s.1 fun _ r _ => r.2.nfc = nfc :=
    always_returns (Program.returns_bind fun _ => rfl)
  apply (always_quiet ((prepareApp_uses _).mono fun _ h => h.outside.noStart) hs.idle
    (hspec.and hkeep)).mono
  intro t r s' h
  obtain ⟨⟨⟨c, ⟨d', hw', hprepared⟩, hc⟩, hnfc⟩, hidle⟩ := h
  refine ⟨d', ⟨hidle, q, hw'⟩, hnfc, fun htrue => ⟨c, t, hc, ?_⟩⟩
  rw [htrue] at hprepared
  exact hprepared

theorem updateNfc_leaves {crypto c : TeslaCrypto} {u : List HalEvent} {d' : Disk}
    (hload : crypto.Loaded D)
    (hprepared : PreparesTo D mayFail crypto d u (true, c, app.identity) d')
    (hcrypto : app.crypto = some c) (hnfc : app.nfc = none) (hs : Stopped d' s) :
    Always (appEnv D mayFail) (teslaKeyCardUpdateNfc app) s fun _ app' s' => AtRest d' s' ∧
      (app'.nfc = none ∨ Provides D mayFail d app' d') := by
  have hready : c.keyReady = true := by
    rw [hprepared.keyReady]
    rfl
  have hvalue : Always (appEnv D mayFail) (teslaKeyCardUpdateNfc app) s _ := always_iff.mpr
    fun _ _ _ hx => ((@updateNfc_accepts false app c hcrypto hready hnfc).executes hx).2
  apply (hvalue.and (always_atRest ((updateNfc_uses app).mono fun _ => Or.inl) hs.rest)).mono
  intro t app' s' h
  obtain ⟨hupdated, hrest, -⟩ := h
  refine ⟨hrest, ?_⟩
  rcases hupdated with ⟨address, -, rfl⟩ | ⟨rfl, -⟩
  · exact Or.inr ⟨u, crypto, c, hload, hprepared, hcrypto, address, rfl⟩
  · exact Or.inl rfl

theorem rebuild_uses {allowed : HalCall → Prop} (hobject : ∀ c, ObjectCall c → allowed c)
    (hprepare : ∀ c, PrepareCall c → allowed c) (app : TeslaKeyCardApp) :
    (rebuildIdentity app).Uses allowed := by
  apply Program.uses_bind ((freeNfc_uses app).mono fun c h => hobject c h.object)
  intro app
  apply Program.uses_bind ((cryptoFree_uses app.crypto).mono fun c h => hobject c h.object)
  intro _
  apply Program.uses_bind (cryptoAlloc_uses.mono fun c h => hobject c h.object)
  intro crypto
  apply Program.uses_bind ((prepareApp_uses _).mono hprepare)
  intro r
  dsimp only
  split_ifs
  · trivial
  · exact Program.uses_bind ((updateNfc_uses _).mono hobject) fun _ => trivial

theorem ObjectCall.ne_remove {c : HalCall} (h : ObjectCall c) (path : IdentityPath) :
    c ≠ .storageCommonRemove path := by
  intro hc
  subst hc
  exact h

theorem PrepareCall.ne_remove {c : HalCall} (h : PrepareCall c) :
    c ≠ .storageCommonRemove .bin := by
  intro hc
  subst hc
  cases h

theorem rebuild_leaves (hs : Stopped d s) :
    Always (appEnv D mayFail) (rebuildIdentity app) s fun _ r s' => ∃ d', AtRest d' s' ∧
      (r.2.nfc = none ∨ Provides D mayFail d r.2 d') := by
  have hfree : ((freeNfc app).Uses AppCall) := (freeNfc_uses app).mono fun _ h => Or.inl h.object
  apply (hs.objects hfree ((freeNfc_uses app).mono fun _ => StopCall.noStart)
    (freeNfc_value app)).bind
  intro t₁ app₁ s₁ h₁
  obtain ⟨rfl, hs₁, -⟩ := h₁
  apply (hs₁.objects ((cryptoFree_uses _).mono fun _ h => Or.inl h.object)
    ((cryptoFree_uses _).mono fun _ => ContextCall.noStart) (always_true _)).bind
  intro t₂ _ s₂ h₂
  obtain ⟨-, hs₂, -⟩ := h₂
  apply (hs₂.objects (cryptoAlloc_uses.mono fun _ h => Or.inl h.object)
    (cryptoAlloc_uses.mono fun _ => ContextCall.noStart) alloc_spec).bind
  intro t₃ crypto s₃ h₃
  obtain ⟨⟨-, halloc⟩, hs₃, -⟩ := h₃
  rcases halloc with ⟨crypto, rfl, hload, -⟩ | ⟨rfl, -⟩
  · apply (prepareApp_leaves rfl hload hs₃).bind
    intro t₄ r s₄ h₄
    obtain ⟨prepared, app₄⟩ := r
    obtain ⟨d', hs₄, hnfc, hprepared⟩ := h₄
    cases prepared with
    | false => exact ⟨d', hs₄.rest, Or.inl hnfc⟩
    | true =>
      obtain ⟨c, u, hcrypto, hpre⟩ := hprepared rfl
      apply (updateNfc_leaves hload hpre hcrypto hnfc hs₄).bind
      intro t₅ app₅ s₅ h₅
      obtain ⟨hrest, hprovides⟩ := h₅
      refine ⟨d', hrest, hprovides.imp id fun h => ?_⟩
      exact ⟨h.prepared⟩
  · exact ⟨d, hs₃.rest, Or.inl rfl⟩

theorem Undeleted.mono {t u : List HalEvent} {d' : Disk} (h : Undeleted d t d') (htu : t ⊆ u)
    (hrest : ∀ e ∈ u, e ∈ t ∨ AppCall e.1) : Undeleted d u d' := by
  obtain ⟨⟨error, hmem, herror⟩, hbin, htmp⟩ := h
  refine ⟨⟨error, htu hmem, herror⟩, hbin, ?_⟩
  rcases htmp with ⟨hremoved, hnone⟩ | ⟨hkept, hsame⟩
  · exact Or.inl ⟨htu hremoved, hnone⟩
  · refine Or.inr ⟨fun hmem => ?_, hsame⟩
    rcases hrest _ hmem with hin | hcall | hcall
    · exact hkept hin
    · exact hcall
    · cases hcall

theorem Keeps.trans {app' app'' : TeslaKeyCardApp} (h : Keeps app app') (h' : Keeps app' app'') :
    Keeps app app'' := by
  refine ⟨h'.identity.trans h.identity, h'.crypto.trans h.crypto, fun nfc'' hnfc'' => ?_⟩
  obtain ⟨nfc', hnfc', hsame'⟩ := h'.nfc nfc'' hnfc''
  obtain ⟨nfc, hnfc, hsame⟩ := h.nfc nfc' hnfc'
  exact ⟨nfc, hnfc, hsame'.address.trans hsame.address, hsame'.crypto.trans hsame.crypto,
    hsame'.uid.trans hsame.uid, hsame'.publicKey.trans hsame.publicKey⟩

theorem keeps_stopped (model : TeslaKeyCardViewModel) (screen : TeslaKeyCardScreen) :
    Keeps app { app with model, screen, nfc := app.nfc.map TeslaNfc.stopped } := by
  refine ⟨rfl, rfl, fun nfc' hnfc' => ?_⟩
  obtain ⟨nfc, hnfc, rfl⟩ := Option.map_eq_some_iff.mp hnfc'
  exact ⟨nfc, hnfc, rfl, rfl, rfl, rfl⟩

theorem stopped_listener {nfc : TeslaNfc} (h : app.nfc.map TeslaNfc.stopped = some nfc) :
    nfc.listener = false := by
  obtain ⟨old, -, rfl⟩ := Option.map_eq_some_iff.mp h
  rfl

theorem reset_leaves (h : m.Matches app) (htracked : Tracked m s) (hrest : AtRest d s) :
    Always (appEnv D mayFail) (teslaKeyCardResetIdentity app) s fun t r s' =>
      ∃ d', AtRest d' s' ∧ Leaves D mayFail app d t r.2 d' := by
  have hmodel : m.Matches (teslaKeyCardSetModel app .resetting false) := ⟨h.object, h.running⟩
  apply (stopNfc_leaves hmodel htracked hrest).bind
  intro t₁ app₁ s₁ h₁
  obtain ⟨rfl, hs₁, ht₁⟩ := h₁
  apply (drain_leaves hs₁).bind
  intro t₂ _ s₂ h₂
  obtain ⟨hs₂, ht₂⟩ := h₂
  apply (delete_leaves hs₂).bind
  intro t₃ deleted s₃ h₃
  obtain ⟨d₃, hs₃, hfalse, htrue⟩ := h₃
  cases deleted with
  | false =>
    apply (resumeNfc_leaves (fun _ => stopped_listener) hs₃).bind
    intro t₄ r s₄ h₄
    obtain ⟨resumed, app₄⟩ := r
    obtain ⟨hs₄, ht₄, hnone | ⟨hkeeps, uid, huid⟩⟩ := h₄
    · exact ⟨d₃, hs₄, .unserved hnone⟩
    · have hkept : Keeps app (teslaKeyCardSetModel app₄ .error false) :=
        (keeps_stopped _ _).trans ⟨hkeeps.identity, hkeeps.crypto, hkeeps.nfc⟩
      refine ⟨d₃, hs₄, .undeleted hkept ((hfalse rfl).mono ?_ ?_) fun _ => ⟨uid, by simp [huid]⟩⟩
      · intro e he
        simp [he]
      · intro e he
        simp only [List.append_nil, List.mem_append] at he
        rcases he with he | he | he | he
        · exact Or.inr (ht₁ e he)
        · exact Or.inr (ht₂ e he)
        · exact Or.inl he
        · exact Or.inr (ht₄ e he)
  | true =>
    apply ((rebuild_leaves hs₃).and (always_uses (rebuild_uses (fun _ h => h.ne_remove .bin)
      (fun _ => PrepareCall.ne_remove) _))).mono
    intro t₄ r s₄ h₄
    obtain ⟨⟨d₄, hs₄, hnone | hprovides⟩, ht₄⟩ := h₄
    · exact ⟨d₄, hs₄, .unserved hnone⟩
    · refine ⟨d₄, hs₄, .renewed hprovides fun error hmem => ?_⟩
      simp only [List.mem_append] at hmem
      rcases hmem with he | he | he | he
      · exact absurd (ht₁ _ he) (by simp [AppCall, ObjectCall])
      · exact absurd (ht₂ _ he) (by simp [AppCall, ObjectCall])
      · exact htrue rfl error he
      · exact absurd rfl (ht₄ _ he)

theorem start_leaves (hs : Stopped d s) :
    Always (appEnv D mayFail) teslaKeyCardStart s fun _ app s' => ∃ d', AtRest d' s' ∧
      (app.nfc = none ∨ Provides D mayFail d app d') := by
  apply (hs.objects (cryptoAlloc_uses.mono fun _ h => Or.inl h.object)
    (cryptoAlloc_uses.mono fun _ => ContextCall.noStart) alloc_spec).bind
  intro t₁ crypto s₁ h₁
  obtain ⟨⟨-, halloc⟩, hs₁, -⟩ := h₁
  rcases halloc with ⟨crypto, rfl, hload, -⟩ | ⟨rfl, -⟩
  · apply (prepareApp_leaves rfl hload hs₁).bind
    intro t₂ r s₂ h₂
    obtain ⟨prepared, app₂⟩ := r
    obtain ⟨d', hs₂, hnfc, hprepared⟩ := h₂
    cases prepared with
    | false => exact ⟨d', hs₂.rest, Or.inl hnfc⟩
    | true =>
      obtain ⟨c, u, hcrypto, hpre⟩ := hprepared rfl
      apply (updateNfc_leaves hload hpre hcrypto hnfc hs₂).bind
      intro t₃ app₃ s₃ h₃
      obtain ⟨hrest, hprovides⟩ := h₃
      exact ⟨d', hrest, hprovides.imp id fun h => ⟨h.prepared⟩⟩
  · exact ⟨d, hs₁.rest, Or.inl rfl⟩

theorem customEvent_leaves (h : Settled m app) (htracked : Tracked m s) (hrest : AtRest d s)
    (event : UInt32) :
    Always (appEnv D mayFail) (teslaKeyCardCustomEventCallback app event) s fun t r s' =>
      ∃ d', AtRest d' s' ∧ Leaves D mayFail app d t r.2 d' := by
  unfold teslaKeyCardCustomEventCallback
  by_cases hrequest : event = teslaAppEventResetRequest ∧ app.screen = .main
  · rw [if_pos hrequest]
    apply (stopNfc_leaves h.agrees htracked hrest).bind
    intro t₁ app₁ s₁ h₁
    obtain ⟨rfl, hs₁, ht₁⟩ := h₁
    apply (drain_leaves hs₁).bind
    intro t₂ _ s₂ h₂
    obtain ⟨hs₂, ht₂⟩ := h₂
    refine ⟨d, hs₂.rest, .kept (keeps_stopped _ _) (not_removed fun e he => ?_)⟩
    simp only [List.append_nil, List.mem_append] at he
    rcases he with he | he
    · exact ht₁ e he
    · exact ht₂ e he
  rw [if_neg hrequest]
  by_cases hcancel : event = teslaAppEventResetCancel ∧ app.screen = .reset
  · rw [if_pos hcancel]
    have hrunning := h.reset hcancel.2
    have hlistener (nfc : TeslaNfc) (hnfc : app.nfc = some nfc) : nfc.listener = false := by
      have hmatch := h.agrees.running
      rw [hnfc] at hmatch
      exact hmatch.symm.trans hrunning
    apply (@resumeNfc_leaves D mayFail { app with screen := .main } d s hlistener
      ⟨htracked.idle hrunning, hrest⟩).bind
    intro t r s' hresumed
    obtain ⟨resumed, app'⟩ := r
    obtain ⟨hs', ht, hnone | ⟨hkeeps, -⟩⟩ := hresumed
    · exact ⟨d, hs', .unserved hnone⟩
    · refine ⟨d, hs', .kept ⟨hkeeps.identity, hkeeps.crypto, hkeeps.nfc⟩ (not_removed ?_)⟩
      rw [List.append_nil]
      exact ht
  rw [if_neg hcancel]
  by_cases hconfirm : event = teslaAppEventResetConfirm ∧ app.screen = .reset
  · rw [if_pos hconfirm]
    have hmatch : m.Matches { app with screen := .main } := ⟨h.agrees.object, h.agrees.running⟩
    apply (reset_leaves hmatch htracked hrest).bind
    intro t r s' hreset
    obtain ⟨d', hs', hleaves⟩ := hreset
    refine ⟨d', hs', ?_⟩
    change Leaves D mayFail app d (t ++ []) r.2 d'
    rw [List.append_nil]
    cases hleaves with
    | kept hk hremoved => exact .kept ⟨hk.identity, hk.crypto, hk.nfc⟩ hremoved
    | undeleted hk hd hresumed => exact .undeleted ⟨hk.identity, hk.crypto, hk.nfc⟩ hd hresumed
    | unserved hnone => exact .unserved hnone
    | renewed hp hremoved => exact .renewed hp hremoved
  · rw [if_neg hconfirm]
    exact ⟨d, hrest, .kept ⟨rfl, rfl, fun nfc hnfc => ⟨nfc, hnfc, rfl, rfl, rfl, rfl⟩⟩
      (not_removed (by simp))⟩

theorem Keeps.refl (app : TeslaKeyCardApp) (model : TeslaKeyCardViewModel) :
    Keeps app { app with model } :=
  ⟨rfl, rfl, fun nfc hnfc => ⟨nfc, hnfc, rfl, rfl, rfl, rfl⟩⟩

theorem takeNfcEvents_takes {n : ℕ} :
    (takeNfcEvents n app).Uses (I := HalInterface) (· = .nfcEventQueueGet) := by
  induction n generalizing app with
  | zero => trivial
  | succ n ih =>
    refine ⟨rfl, fun event => ?_⟩
    cases event with
    | none => trivial
    | some event => exact ih

theorem Ticked.atRest {app' : TeslaKeyCardApp} {events : List OwnedEvent}
    (h : Ticked app s app' s' events) (hrest : AtRest d s) : AtRest d s' := by
  obtain ⟨q, hw⟩ := hrest
  obtain ⟨⟨disk, file, enclave, q'⟩, b⟩ := s'
  obtain ⟨rfl, rfl, rfl⟩ : disk = s.1.disk ∧ file = s.1.file ∧ enclave = s.1.enclave :=
    ⟨h.disk, h.file, h.enclave⟩
  exact ⟨q', by rw [hw]; rfl⟩

theorem AppStep.leaves {a a' : AppState} {l : AppLabel} (h : AppStep D mayFail a l a')
    (hbetween : Between a) (hrest : AtRest d a.2) :
    ∃ d', AtRest d' a'.2 ∧ Leaves D mayFail a.1 d l.trace a'.1 d' := by
  obtain ⟨m, hsettled, htracked⟩ := hbetween
  cases h with
  | worker hstep =>
    exact ⟨d, hrest.workers (.single hstep),
      .kept (.refl _ _) (not_removed (by simp [AppLabel.trace]))⟩
  | tick hx =>
    obtain ⟨-, -, events, hticked, -⟩ :=
      always_iff.mp (takeNfcEvents_spec hsettled htracked) _ _ _ hx
    have ht := always_iff.mp (always_uses takeNfcEvents_takes) _ _ _ hx
    exact ⟨d, hticked.atRest hrest, .kept (hticked.app_eq ▸ .refl _ _)
      (not_removed fun e he => Or.inr (ht e he))⟩
  | custom hx =>
    exact always_iff.mp (customEvent_leaves hsettled htracked hrest _) _ _ _ hx
  | navigation => exact ⟨d, hrest, .kept (.refl _ _) (not_removed (by simp [AppLabel.trace]))⟩

theorem stopped_empty (d : Disk) : Stopped d (World.idle d [], Book.empty) := ⟨rfl, [], rfl⟩

end

end FlipperApps.Tesla
