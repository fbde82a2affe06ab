import FlipperApps.Tesla.Frames
import FlipperApps.Tesla.Outcomes

/-!
# Steps that can happen

Calls that work are among the outcomes of every environment: the app can always
start over a stored identity, show the reset dialog and reset the identity, and
the worker may do nothing meanwhile.
-/

namespace FlipperApps.Tesla
open Calls

section
variable {α : Type} {D : Device} {mayFail : HalCall → Prop} {d d' : Disk}
  {q : List TeslaKeyCardNfcEvent} {identity : TeslaIdentity} {app : TeslaKeyCardApp}
  {p : HalProgram α} {w w' : World} {t : List HalEvent} {a : α}

theorem executes_beside (h : Executes (faultyEnv D mayFail) p w t a w') (b : Book) :
    Executes (appEnv D mayFail) p (w, b) t a (w', t.foldl Book.observe b) :=
  (h.recorded b).under

theorem exists_starts (href : referenceLoad D d = (.ok, identity, d'))
    (hkey : Accepts D identity.privateKey) :
    ∃ t a, Starts D mayFail d t a ∧ a.1.identity = identity ∧ a.1.nfc.isSome = true ∧
      AtRest d' a.2 := by
  obtain ⟨t, app, w, hx⟩ := exists_works (D := D) teslaKeyCardStart (World.idle d [])
  obtain ⟨hidentity, hnfc, rfl⟩ := always_iff.mp (start_recovered href hkey) _ _ _ hx
  exact ⟨t, (app, _), executes_beside (executes_faulty mayFail hx) Book.empty, hidentity, hnfc,
    [], rfl⟩

theorem request_returns (hscreen : app.screen = .main) :
    (teslaKeyCardCustomEventCallback app teslaAppEventResetRequest).Returns fun r =>
      r = (true, { app with screen := .reset, nfc := app.nfc.map TeslaNfc.stopped }) := by
  unfold teslaKeyCardCustomEventCallback
  rw [if_pos ⟨rfl, hscreen⟩]
  apply (stopNfc_returns app).bind
  intro app' h
  apply Program.returns_bind
  intro _
  rw [h]
  rfl

theorem request_uses (hscreen : app.screen = .main) :
    (teslaKeyCardCustomEventCallback app teslaAppEventResetRequest).Uses AppCall := by
  unfold teslaKeyCardCustomEventCallback
  rw [if_pos ⟨rfl, hscreen⟩]
  apply Program.uses_bind ((stopNfc_uses app).mono fun _ h => Or.inl h.object)
  intro app'
  exact Program.uses_bind (drain_takes.mono fun _ => Or.inr) fun _ => trivial

theorem exists_request {s : Site} (hscreen : app.screen = .main) (hrest : AtRest d s) :
    ∃ t s', AppStep D mayFail (app, s) (.custom teslaAppEventResetRequest true t)
      ({ app with screen := .reset, nfc := app.nfc.map TeslaNfc.stopped }, s') ∧ AtRest d s' := by
  obtain ⟨t, r, w, hx⟩ := exists_works (D := D)
    (teslaKeyCardCustomEventCallback app teslaAppEventResetRequest) s.1
  obtain rfl := always_iff.mp (always_returns (request_returns hscreen)) _ _ _ hx
  have hbeside := executes_beside (executes_faulty mayFail hx) s.2
  obtain ⟨hrest', -⟩ := always_iff.mp (always_atRest (request_uses hscreen) hrest) _ _ _ hbeside
  exact ⟨t, _, .custom hbeside, hrest'⟩

theorem exists_clears (app : TeslaKeyCardApp) :
    ∃ t t' q', Executes (faultyEnv D noFailure) (stopNfc app) (World.idle d q) t
        { app with nfc := app.nfc.map TeslaNfc.stopped } (World.idle d q) ∧
      Executes (faultyEnv D noFailure) teslaKeyCardClearNfcEvents (World.idle d q) t' ()
        (World.idle d q') := by
  obtain ⟨t, app', w, hstop⟩ := exists_works (D := D) (stopNfc app) (World.idle d q)
  obtain rfl := always_iff.mp (always_returns (stopNfc_returns app)) _ _ _ hstop
  obtain ⟨rfl, -⟩ := always_iff.mp
    (always_object ((stopNfc_uses app).mono fun _ => StopCall.object)) _ _ _ hstop
  obtain ⟨t', u, w, hdrain⟩ := exists_works (D := D) teslaKeyCardClearNfcEvents (World.idle d q)
  obtain ⟨⟨q', rfl⟩, -⟩ := always_iff.mp (drain_spec 17 q) _ _ _ hdrain
  exact ⟨t, t', q', hstop, hdrain⟩

theorem resumeNfc_works (hsome : app.nfc.isSome = true) :
    Always (faultyEnv D noFailure) (teslaKeyCardResumeNfc app) w fun _ r w' =>
      r.2.nfc.isSome = true ∧ w' = w := by
  have hsame : Always (faultyEnv D noFailure) (teslaKeyCardResumeNfc app) w fun t _ w' =>
      w' = w ∧ ∀ e ∈ t, ObjectCall e.1 :=
    always_object ((resumeNfc_uses app).mono fun _ => ListenerCall.object)
  apply (Always.and _ hsame).mono
  · intro t r w' h
    exact ⟨h.1, h.2.1⟩
  unfold teslaKeyCardResumeNfc
  cases happ : app.nfc with
  | none => simp [happ] at hsome
  | some nfc =>
    apply (nfcStart_value nfc).bind
    intro t r w₁ hstarted
    obtain ⟨started, nfc₁⟩ := r
    obtain rfl : started = true := hstarted.resolve_right not_faulty_noFailure
    rfl

theorem exists_reset_refused (hfail : mayFail (.storageCommonRemove .bin)) (htmp : d .tmp ≠ none)
    (hsome : app.nfc.isSome = true) :
    ∃ t app' q', Executes (faultyEnv D mayFail) (teslaKeyCardResetIdentity app) (World.idle d q) t
      (false, app') (World.idle (d.write .tmp none) q') ∧ app'.nfc.isSome = true := by
  obtain ⟨t₁, t₂, q', hstop, hdrain⟩ := exists_clears (D := D) (d := d) (q := q)
    (teslaKeyCardSetModel app .resetting false)
  have hdelete : Executes (faultyEnv D mayFail) teslaIdentityDelete (World.idle d q')
      [⟨.storageCommonRemove .bin, .other 1⟩, ⟨.storageCommonRemove .tmp, .ok⟩] false
      (World.idle (d.write .tmp none) q') := by
    refine .call (.inr ⟨hfail, ⟨by simp, by simp⟩, rfl⟩) (.call (.inl ⟨rfl, ?_⟩) (.done _ _))
    exact (if_neg htmp).symm
  let app₁ := { teslaKeyCardSetModel app .resetting false with nfc := app.nfc.map TeslaNfc.stopped }
  obtain ⟨t₃, r, w, hresume⟩ := exists_works (D := D) (teslaKeyCardResumeNfc app₁)
    (World.idle (d.write .tmp none) q')
  have hsome₁ : app₁.nfc.isSome = true := by
    change (app.nfc.map TeslaNfc.stopped).isSome = true
    rw [Option.isSome_map]
    exact hsome
  obtain ⟨hnfc, rfl⟩ := always_iff.mp (resumeNfc_works hsome₁) _ _ _ hresume
  have hend := (executes_faulty mayFail hresume).bind
    (f := fun r => .done (false, teslaKeyCardSetModel r.2 .error false)) (.done _ _)
  exact ⟨_, teslaKeyCardSetModel r.2 .error false, q', (executes_faulty mayFail hstop).bind
    ((executes_faulty mayFail hdrain).bind (hdelete.bind hend)), hnfc⟩

theorem delete_works (q : List TeslaKeyCardNfcEvent) :
    Always (faultyEnv D noFailure) teslaIdentityDelete (World.idle d q) fun _ deleted w' =>
      deleted = true ∧ ∃ d', w' = World.idle d' q ∧ d' .bin = none ∧ d' .tmp = none := by
  intro error w₁ hbin error' w₂ htmp
  obtain ⟨rfl, hr⟩ := hbin.resolve_right fun h => h.1
  obtain ⟨rfl, -⟩ := htmp.resolve_right fun h => h.1
  refine ⟨?_, (d.write .bin none).write .tmp none, rfl, ?_, Disk.write_same _ _ none⟩
  · rw [hr]
    split_ifs
    · rfl
    · rfl
  · rw [Disk.write_ne _ (by decide), Disk.write_same]

theorem reset_works (app : TeslaKeyCardApp) :
    Always (faultyEnv D noFailure) (teslaKeyCardResetIdentity app) (World.idle d q) fun _ r _ =>
      r.1 = true := by
  apply (always_object ((stopNfc_uses _).mono fun _ => StopCall.object)).bind
  intro t₁ app₁ w₁ h₁
  obtain ⟨rfl, -⟩ := h₁
  apply (drain_spec 17 q).bind
  intro t₂ _ w₂ h₂
  obtain ⟨⟨q', rfl⟩, -⟩ := h₂
  apply (delete_works q').bind
  intro t₃ deleted w₃ h₃
  obtain ⟨rfl, d', rfl, hnone⟩ := h₃
  apply (rebuild_spec prepare_outcome app₁).mono
  intro t₄ r w₄ h₄
  rcases h₄ with ⟨-, hf⟩ | ⟨u, c, ⟨crypto, d'', -, hprepared⟩, -⟩
  · exact absurd hf not_faulty_noFailure
  · exact (hprepared.of_none hnone).1

theorem exists_reset {s : Site} (app : TeslaKeyCardApp) (hrest : AtRest d s) :
    ∃ t app' w', Executes (appEnv D mayFail) (teslaKeyCardResetIdentity app) s t (true, app')
      (w', t.foldl Book.observe s.2) := by
  obtain ⟨q, hw⟩ := hrest
  obtain ⟨t, r, w, hx⟩ := exists_works (D := D) (teslaKeyCardResetIdentity app) (World.idle d q)
  obtain ⟨success, app'⟩ := r
  obtain rfl : success = true := always_iff.mp (reset_works app) _ _ _ hx
  rw [← hw] at hx
  exact ⟨t, app', w, executes_beside (executes_faulty mayFail hx) s.2⟩

theorem confirm_step {s s' : Site} {r : Bool × TeslaKeyCardApp} (hscreen : app.screen = .reset)
    (hx : Executes (appEnv D mayFail) (teslaKeyCardResetIdentity { app with screen := .main }) s t
      r s') :
    AppStep D mayFail (app, s) (.custom teslaAppEventResetConfirm true t) (r.2, s') := by
  apply AppStep.custom
  unfold teslaKeyCardCustomEventCallback
  rw [if_neg (by simp [hscreen]), if_neg (by rw [hscreen]; decide), if_pos ⟨rfl, hscreen⟩]
  have hbind := hx.bind (f := fun r => .done (true, r.2)) (.done _ _)
  rwa [List.append_nil] at hbind

theorem exists_confirm {s : Site} (hscreen : app.screen = .reset) (hrest : AtRest d s) :
    ∃ t app' s', AppStep D mayFail (app, s) (.custom teslaAppEventResetConfirm true t)
      (app', s') ∧ app'.screen = .main ∧ app'.nfc.isSome = true := by
  obtain ⟨t, app', w', hx⟩ := @exists_reset D mayFail d s { app with screen := .main } hrest
  obtain ⟨hmain, -, hsome⟩ := always_iff.mp (always_returns (reset_returns _)) _ _ _ hx
  exact ⟨t, app', _, confirm_step hscreen hx, hmain, hsome rfl⟩

theorem exists_cancel {s : Site} (hscreen : app.screen = .reset) (hsome : app.nfc.isSome = true)
    (hrest : AtRest d s) :
    ∃ t app' s', AppStep D mayFail (app, s) (.custom teslaAppEventResetCancel true t) (app', s') ∧
      app'.screen = .main ∧ app'.nfc.isSome = true ∧ AtRest d s' := by
  obtain ⟨q, hw⟩ := hrest
  obtain ⟨t, r, w, hx⟩ := exists_works (D := D)
    (teslaKeyCardResumeNfc { app with screen := .main }) (World.idle d q)
  have hsome' : ({ app with screen := .main } : TeslaKeyCardApp).nfc.isSome = true := hsome
  obtain ⟨hnfc, rfl⟩ := always_iff.mp (resumeNfc_works hsome') _ _ _ hx
  obtain ⟨nfc, hr, -⟩ := always_iff.mp (always_returns (resumeNfc_returns _)) _ _ _ hx
  obtain ⟨ready, app'⟩ := r
  obtain rfl : app' = _ := hr
  rw [← hw] at hx
  refine ⟨t, teslaKeyCardSetModel { app with screen := .main, nfc }
    (if ready then .ready else .error) false, (s.1, t.foldl Book.observe s.2), .custom ?_, rfl,
    hnfc, q, hw⟩
  unfold teslaKeyCardCustomEventCallback
  rw [if_neg (by simp [hscreen]), if_pos ⟨rfl, hscreen⟩]
  have hbind := (executes_beside (executes_faulty mayFail hx) s.2).bind
    (f := fun r => .done (true, teslaKeyCardSetModel r.2 (if r.1 then .ready else .error) false))
    (.done _ _)
  rw [List.append_nil] at hbind
  exact hbind

theorem ignored_step {s : Site} {event : UInt32} (h : app.handles event = false) :
    AppStep D mayFail (app, s) (.custom event false []) (app, s) := by
  have hdone : teslaKeyCardCustomEventCallback app event = .done (false, app) := by
    unfold TeslaKeyCardApp.handles at h
    unfold teslaKeyCardCustomEventCallback
    cases hscreen : app.screen with
    | main =>
      have hrequest : event ≠ teslaAppEventResetRequest := by simpa [hscreen] using h
      rw [if_neg (by simp [hrequest]), if_neg nofun, if_neg nofun]
      rfl
    | reset =>
      obtain ⟨hcancel, hconfirm⟩ : event ≠ teslaAppEventResetCancel ∧
          event ≠ teslaAppEventResetConfirm := by simpa [hscreen] using h
      rw [if_neg nofun, if_neg (by simp [hcancel]), if_neg (by simp [hconfirm])]
      rfl
  apply AppStep.custom
  rw [hdone]
  exact .done _ _

theorem Starts.screen_main {a : AppState} (h : Starts D mayFail d t a) : a.1.screen = .main :=
  (always_iff.mp (always_returns start_returns) _ _ _ h).1

theorem ResetsTo.of_false {m : NfcStatus} {app' : TeslaKeyCardApp}
    (h : ResetsTo app (false, app') m) (hsome : app'.nfc.isSome = true) :
    app'.identity = app.identity ∧ app'.screen = app.screen := by
  cases h with
  | kept => exact ⟨rfl, rfl⟩
  | dropped => simp at hsome
  | rebuilt h =>
    cases h with
    | failed _ _ hnone => simp [hnone] at hsome

end

theorem exists_starts_twin :
    ∃ t a, Starts plainDevice noFailure twinDisk t a ∧ a.1.identity = sampleIdentity ∧
      a.1.nfc.isSome = true ∧ AtRest twinDisk a.2 := by
  apply exists_starts _ sampleIdentity_accepted
  simp only [referenceLoad, twinDisk_stored]

theorem exists_request_twin :
    ∃ t a₀ t₁ a, Starts plainDevice noFailure twinDisk t a₀ ∧ a₀.1.identity = sampleIdentity ∧
      a₀.1.nfc.isSome = true ∧ AtRest twinDisk a₀.2 ∧
      AppStep plainDevice noFailure a₀ (.custom teslaAppEventResetRequest true t₁) a ∧
      a.1.screen = .reset ∧ a.1.nfc.isSome = true ∧ AtRest twinDisk a.2 := by
  obtain ⟨t, a₀, hstart, hidentity, hnfc, hrest⟩ := exists_starts_twin
  obtain ⟨t₁, s, hrequest, hrest₁⟩ :=
    @exists_request plainDevice noFailure twinDisk a₀.1 a₀.2 hstart.screen_main hrest
  exact ⟨t, a₀, t₁, _, hstart, hidentity, hnfc, hrest, hrequest, rfl,
    (Option.isSome_map ..).trans hnfc, hrest₁⟩

theorem exists_canceled_twin :
    ∃ t a₀ t₁ t₂ a, Starts plainDevice noFailure twinDisk t a₀ ∧
      a₀.1.identity = sampleIdentity ∧
      Run (AppStep plainDevice noFailure) a₀ [.custom teslaAppEventResetRequest true t₁,
        .custom teslaAppEventResetCancel true t₂] a ∧
      a.1.screen = .main ∧ a.1.nfc.isSome = true ∧ AtRest twinDisk a.2 := by
  obtain ⟨t, a₀, t₁, a, hstart, hidentity, -, -, hrequest, hscreen, hnfc, hrest⟩ :=
    exists_request_twin
  obtain ⟨t₂, app, s, hcancel, hend⟩ :=
    @exists_cancel plainDevice noFailure twinDisk a.1 a.2 hscreen hnfc hrest
  exact ⟨t, a₀, t₁, t₂, _, hstart, hidentity, .snoc (.snoc (.nil a₀) hrequest) hcancel, hend⟩

theorem exists_reset_twin :
    ∃ t a₀ t₁ t₂ a, Starts plainDevice noFailure twinDisk t a₀ ∧
      a₀.1.identity = sampleIdentity ∧
      Run (AppStep plainDevice noFailure) a₀ [.custom teslaAppEventResetRequest true t₁,
        .custom teslaAppEventResetConfirm true t₂] a ∧
      a.1.screen = .main ∧ a.1.nfc.isSome = true := by
  obtain ⟨t, a₀, t₁, a, hstart, hidentity, -, -, hrequest, hscreen, -, hrest⟩ :=
    exists_request_twin
  obtain ⟨t₂, app, s, hconfirm, hend⟩ :=
    @exists_confirm plainDevice noFailure twinDisk a.1 a.2 hscreen hrest
  exact ⟨t, a₀, t₁, t₂, _, hstart, hidentity, .snoc (.snoc (.nil a₀) hrequest) hconfirm, hend⟩

end FlipperApps.Tesla
