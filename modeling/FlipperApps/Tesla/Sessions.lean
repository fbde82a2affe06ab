import FlipperApps.Tesla.CutOff

/-!
# Any number of sessions, each ended by the app or by a loss of power

The app starts, handles events and leaves or is cut off anywhere, over and over.
The identity file is never a torn one, and without a confirmed reset the identity
that the next start would find is never lost or replaced.
-/

namespace FlipperApps.Tesla
open Calls

inductive AppHandler
  | custom (event : UInt32)
  | tick
  | leave

/-- The custom event that a handler was cut off in, if it is one for the screen shown. -/
def AppHandler.handled (app : TeslaKeyCardApp) : AppHandler → List UInt32
  | .custom event => if app.handles event then [event] else []
  | .tick => []
  | .leave => []

def AppLabel.handled : AppLabel → List UInt32
  | .custom event handled _ => if handled then [event] else []
  | .worker => []
  | .tick _ => []
  | .navigation _ => []

def AppHandler.Stops (D : Device) (mayFail : HalCall → Prop) (a : AppState) (t : List HalEvent)
    (s : Site) : AppHandler → Prop
  | .custom event =>
    Calls.Stops (appEnv D mayFail) appLoss (teslaKeyCardCustomEventCallback a.1 event) a.2 t s
  | .tick => Calls.Stops (appEnv D mayFail) appLoss (teslaKeyCardTickEventCallback a.1) a.2 t s
  | .leave => Calls.Stops (appEnv D mayFail) appLoss (teslaKeyCardAppFree a.1) a.2 t s

/-- From one start to the next loss of power, which may also come after the last call of
`leave`: the custom events handled, the last one perhaps cut off, and the files left. -/
inductive Session (D : Device) (mayFail : HalCall → Prop) (d : Disk) : List UInt32 → Disk → Prop
  | starting {t : List HalEvent} {s : Site}
      (h : Stops (appEnv D mayFail) appLoss teslaKeyCardStart (World.idle d [], Book.empty) t s) :
      Session D mayFail d [] s.1.disk
  | running {t₀ t : List HalEvent} {a₀ a : AppState} {labels : List AppLabel} {s : Site}
      (handler : AppHandler) (hstart : Starts D mayFail d t₀ a₀)
      (hrun : Run (AppStep D mayFail) a₀ labels a) (h : handler.Stops D mayFail a t s) :
      Session D mayFail d (labels.flatMap AppLabel.handled ++ handler.handled a.1) s.1.disk

structure KeepsIdentity (D : Device) (d d' : Disk) : Prop where
  bin : ValidAt D d .bin → d' .bin = d .bin
  finds : ∀ identity, Finds D d identity → Finds D d' identity

structure Survives (D : Device) (d : Disk) (events : List UInt32) (d' : Disk) : Prop where
  intact : Intact D d → Intact D d'
  kept : teslaAppEventResetConfirm ∉ events → KeepsIdentity D d d'

section
variable {D : Device} {mayFail : HalCall → Prop} {d d₁ d' : Disk} {events : List UInt32}
  {s : Site} {a a' : AppState} {l : AppLabel}

theorem KeepsIdentity.refl (D : Device) (d : Disk) : KeepsIdentity D d d :=
  ⟨fun _ => rfl, fun _ => id⟩

theorem KeepsIdentity.trans (h : KeepsIdentity D d d₁) (h' : KeepsIdentity D d₁ d') :
    KeepsIdentity D d d' := by
  refine ⟨fun hvalid => ?_, fun identity hfinds => h'.finds _ (h.finds _ hfinds)⟩
  have hsame := h.bin hvalid
  have hvalid₁ : ValidAt D d₁ .bin := by rwa [ValidAt, hsame]
  exact (h'.bin hvalid₁).trans hsame

/-- A staged identity is found before the rename and after it. -/
theorem LoadingDisk.keeps (h : LoadingDisk D d d') : KeepsIdentity D d d' := by
  cases h with
  | same => exact .refl D d
  | recovered hbin htmp =>
    obtain ⟨F, hF, hvalid⟩ := htmp
    refine ⟨fun h => absurd h hbin, fun identity hfinds => ?_⟩
    have hload : LoadsTo D noFailure d .ok (identityAt D F hvalid.le_length) d.recovered :=
      .recovered hbin hF hvalid
    have hagain := referenceLoad_idem D d
    rw [hload.reference] at hagain
    rwa [Finds, hagain, ← hload.reference]

theorem not_finds_empty {identity : TeslaIdentity} : ¬ Finds D Disk.empty identity :=
  not_finds (fun ⟨_, hF, _⟩ => nomatch hF) rfl

theorem PreparingDisk.keeps (h : PreparingDisk D d d') : KeepsIdentity D d d' := by
  cases h with
  | loading h => exact h.keeps
  | first hempty _ =>
    subst hempty
    exact ⟨fun ⟨_, hF, _⟩ => (nomatch hF), fun _ hfinds => absurd hfinds not_finds_empty⟩

theorem PreparingDisk.survives (h : PreparingDisk D d d') : Survives D d [] d' :=
  ⟨h.intact, fun _ => h.keeps⟩

theorem Survives.append (h : Survives D d events d') (events' : List UInt32) :
    Survives D d (events ++ events') d' :=
  ⟨h.intact, fun hno => h.kept fun hmem => hno (List.mem_append_left _ hmem)⟩

theorem customEvent_survives {event : UInt32} (hbetween : Between a) (hrest : AtRest d₁ a.2)
    (h : Survives D d events d₁) :
    Throughout (appEnv D mayFail) appLoss (teslaKeyCardCustomEventCallback a.1 event) a.2
      fun s => Survives D d (events ++ (AppHandler.custom event).handled a.1) s.1.disk := by
  obtain ⟨m, hsettled, htracked⟩ := hbetween
  by_cases hconfirm : event = teslaAppEventResetConfirm ∧ a.1.screen = .reset
  · have hnot (d' : Disk)
        (hno : teslaAppEventResetConfirm ∉ events ++ (AppHandler.custom event).handled a.1) :
        KeepsIdentity D d d' := by
      rw [AppHandler.handled, hconfirm.1, handles_confirm hconfirm.2] at hno
      exact absurd (by simp) hno
    by_cases hd : Intact D d
    · exact (customEvent_intact hsettled htracked hrest event (h.intact hd)).mono
        fun s hs => ⟨fun _ => hs, hnot _⟩
    · have hany := Program.uses_true (teslaKeyCardCustomEventCallback a.1 event)
      exact throughout_of_uses ⟨fun hd' => absurd hd' hd, hnot _⟩
        (fun _ _ _ _ _ _ => ⟨fun hd' => absurd hd' hd, hnot _⟩)
        (fun _ _ _ _ _ _ _ => ⟨fun hd' => absurd hd' hd, hnot _⟩) hany
  · exact customEvent_unconfirmed hrest hconfirm (h.append _)

theorem tick_uses (app : TeslaKeyCardApp) : (teslaKeyCardTickEventCallback app).Uses AppCall :=
  takeNfcEvents_takes.mono fun _ => .inr

theorem appFree_uses (app : TeslaKeyCardApp) : (teslaKeyCardAppFree app).Uses AppCall := by
  have hcrypto : (teslaCryptoFree app.crypto).Uses AppCall :=
    (cryptoFree_uses _).mono fun _ h => .inl h.object
  unfold teslaKeyCardAppFree
  cases app.nfc with
  | none => exact hcrypto
  | some nfc =>
    exact Program.uses_bind ((nfcFree_uses nfc).mono fun _ h => .inl h.object) fun _ => hcrypto

structure Underway (D : Device) (d : Disk) (events : List UInt32) (a : AppState) : Prop where
  between : Between a
  files : ∃ d', AtRest d' a.2 ∧ Survives D d events d'

theorem Starts.underway {t : List HalEvent} (h : Starts D mayFail d t a) : Underway D d [] a := by
  obtain ⟨d', hrest, -⟩ := always_iff.mp (start_leaves (stopped_empty d)) _ _ _ h
  have hprepared := always_iff.mp (start_preparing (stopped_empty d)).final _ _ _ h
  rw [hrest.disk] at hprepared
  exact ⟨h.between, d', hrest, hprepared.survives⟩

theorem Underway.step (h : Underway D d events a) (hstep : AppStep D mayFail a l a') :
    Underway D d (events ++ l.handled) a' := by
  refine ⟨hstep.between h.between, ?_⟩
  obtain ⟨d₁, hrest, hsurvives⟩ := h.files
  have hsame : Survives D d (events ++ []) d₁ := by rwa [List.append_nil]
  obtain ⟨d', hrest', -⟩ := hstep.leaves h.between hrest
  refine ⟨d', hrest', ?_⟩
  rw [← hrest'.disk]
  have hbetween := h.between
  cases hstep with
  | worker hworker =>
    rw [(hrest.workers (.single hworker)).disk]
    exact hsame
  | tick hx =>
    exact always_iff.mp (hrest.throughout (tick_uses _) hsame).final _ _ _ hx
  | custom hx =>
    rw [AppLabel.handled, executes_handled hx]
    exact always_iff.mp (customEvent_survives hbetween hrest hsurvives).final _ _ _ hx
  | navigation =>
    rw [hrest.disk]
    exact hsame

theorem Underway.run {a₀ : AppState} {labels : List AppLabel} (h : Underway D d [] a₀)
    (hrun : Run (AppStep D mayFail) a₀ labels a) :
    Underway D d (labels.flatMap AppLabel.handled) a := by
  apply hrun.invariant (P := fun labels a => Underway D d (labels.flatMap AppLabel.handled) a) h
  intro labels a l a' h hstep
  rw [List.flatMap_append, List.flatMap_singleton]
  exact h.step hstep

theorem Underway.stops {handler : AppHandler} {t : List HalEvent} (h : Underway D d events a)
    (hstop : handler.Stops D mayFail a t s) :
    Survives D d (events ++ handler.handled a.1) s.1.disk := by
  obtain ⟨d₁, hrest, hsurvives⟩ := h.files
  have hsame : Survives D d (events ++ []) d₁ := by rwa [List.append_nil]
  cases handler with
  | custom event =>
    exact throughout_iff.mp (customEvent_survives h.between hrest hsurvives) _ _ hstop
  | tick => exact throughout_iff.mp (hrest.throughout (tick_uses a.1) hsame) _ _ hstop
  | leave => exact throughout_iff.mp (hrest.throughout (appFree_uses a.1) hsame) _ _ hstop

theorem Session.survives (h : Session D mayFail d events d') : Survives D d events d' := by
  cases h with
  | starting h =>
    exact (throughout_iff.mp (start_preparing (stopped_empty d)) _ _ h).survives
  | running handler hstart hrun h => exact (hstart.underway.run hrun).stops h

/-- Over any number of sessions, whatever fails in them and wherever each is cut off. -/
theorem identity_survives_sessions {sessions : List (List UInt32)}
    (hrun : Run (Session D mayFail) d sessions d') :
    (Intact D d → Intact D d') ∧
    ((∀ events ∈ sessions, teslaAppEventResetConfirm ∉ events) →
      (ValidAt D d .bin → d' .bin = d .bin) ∧
      ∀ identity, Finds D d identity → Finds D d' identity) := by
  have hsurvives : (Intact D d → Intact D d') ∧
      ((∀ events ∈ sessions, teslaAppEventResetConfirm ∉ events) → KeepsIdentity D d d') := by
    apply hrun.invariant (P := fun sessions d' => (Intact D d → Intact D d') ∧
      ((∀ events ∈ sessions, teslaAppEventResetConfirm ∉ events) → KeepsIdentity D d d'))
    · exact ⟨id, fun _ => .refl D d⟩
    · intro sessions d₁ events d' ih hsession
      have hlast := hsession.survives
      refine ⟨fun hd => hlast.intact (ih.1 hd), fun hno => ?_⟩
      have hpast := ih.2 fun events hmem => hno events (List.mem_append_left _ hmem)
      exact hpast.trans (hlast.kept (hno events (List.mem_append_right _ List.mem_cons_self)))
  exact ⟨hsurvives.1, fun hno => ⟨(hsurvives.2 hno).bin, (hsurvives.2 hno).finds⟩⟩

end

/-- The first session cancels a reset and ignores a late confirmation; the second resets
the identity. Each ends with the power. -/
theorem identity_survives_sessions_twin :
    ∃ d₁ d₂,
      Run (Session plainDevice noFailure) twinDisk
        [[teslaAppEventResetRequest, teslaAppEventResetCancel]] d₁ ∧
      d₁ .bin = twinDisk .bin ∧
      (∀ identity, Finds plainDevice twinDisk identity → Finds plainDevice d₁ identity) ∧
      Run (Session plainDevice noFailure) twinDisk
        [[teslaAppEventResetRequest, teslaAppEventResetCancel],
          [teslaAppEventResetRequest, teslaAppEventResetConfirm]] d₂ ∧
      Intact plainDevice d₂ := by
  obtain ⟨t, a₀, t₁, t₂, a, hstart, -, hrun, hmain, -, hrest⟩ := exists_canceled_twin
  obtain ⟨u, b₀, u₁, u₂, b, hstart', -, hrun', -⟩ := exists_reset_twin
  have hignored : AppStep plainDevice noFailure a (.custom teslaAppEventResetConfirm false []) a :=
    ignored_step (by rw [TeslaKeyCardApp.handles, hmain]; rfl)
  have hfirst : Session plainDevice noFailure twinDisk
      [teslaAppEventResetRequest, teslaAppEventResetCancel] a.2.1.disk :=
    .running .tick hstart (hrun.snoc hignored) (.here _ a.2)
  rw [hrest.disk] at hfirst
  have hsecond : Session plainDevice noFailure twinDisk
      [teslaAppEventResetRequest, teslaAppEventResetConfirm] b.2.1.disk :=
    .running .leave hstart' hrun' (.here _ b.2)
  have hone := Run.snoc (Run.nil twinDisk) hfirst
  have htwo := Run.snoc hone hsecond
  have hvalid : ValidRecord plainDevice
      (newRecord plainDevice sampleIdentity (Bytes.zero 16)).pack.toList :=
    .inl (newRecord_valid _ _ _)
  obtain ⟨hbin, hfinds⟩ := (identity_survives_sessions hone).2 (by decide)
  refine ⟨_, _, hone, hbin ⟨_, rfl, hvalid⟩, hfinds, htwo,
    (identity_survives_sessions htwo).1 fun F hF => ?_⟩
  obtain rfl := Option.some.inj hF
  exact hvalid

end FlipperApps.Tesla
