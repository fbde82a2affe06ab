import FlipperApps.Tesla.Screen

/-!
# The served identity is on the storage

A load without failures finds the identity that the app serves, as long as no
confirmed reset fails to remove an identity file that holds no identity and
then removes the staged file, the only one that does.
-/

namespace FlipperApps.Tesla
open Calls

/-- A load without failures finds the identity that the app holds. -/
def Durable (D : Device) (a : AppState) : Prop :=
  ∀ identity, ∃ w, Yields (faultyEnv D noFailure) (teslaIdentityLoad identity) a.2.1
    (.ok, a.1.identity) w

def Finds (D : Device) (d : Disk) (identity : TeslaIdentity) : Prop :=
  ((referenceLoad D d).1, (referenceLoad D d).2.1) = (.ok, identity)

/-- The identity file holds no identity and could not be removed, the staged file
was removed, and the listener was allocated again. -/
structure LosesIdentity (D : Device) (d : Disk) (t : List HalEvent) : Prop where
  staged : ¬ ValidAt D d .bin
  refused : ∃ error, (⟨.storageCommonRemove .bin, error⟩ : HalEvent) ∈ t ∧
    error ≠ .ok ∧ error ≠ .notExist
  removed : (⟨.storageCommonRemove .tmp, FsError.ok⟩ : HalEvent) ∈ t
  resumed : ∃ uid, (⟨.nfcListenerAlloc uid, true⟩ : HalEvent) ∈ t

def KeepingStep (D : Device) (mayFail : HalCall → Prop) (a : AppState) (l : AppLabel)
    (a' : AppState) : Prop :=
  AppStep D mayFail a l a' ∧ ¬ LosesIdentity D a.2.1.disk l.trace

section
variable {D : Device} {mayFail : HalCall → Prop} {d d' : Disk} {identity : TeslaIdentity}
  {t : List HalEvent} {app app' : TeslaKeyCardApp}

theorem durable_iff {a : AppState} (hrest : AtRest d a.2) :
    Durable D a ↔ Finds D d a.1.identity := by
  obtain ⟨q, hw⟩ := hrest
  constructor
  · intro hdurable
    obtain ⟨w, hyields⟩ := hdurable noIdentity
    obtain ⟨t, hx⟩ := (load_yields D d q noIdentity).exists_trace
    rw [hw] at hyields
    exact (hyields.unique _ _ _ hx).1
  · intro hfinds identity
    have hyields := load_yields D d q identity
    rw [show ((referenceLoad D d).1, (referenceLoad D d).2.1) = _ from hfinds, ← hw] at hyields
    exact ⟨_, hyields⟩

theorem LoadsTo.finds (h : LoadsTo D mayFail d .ok identity d') : Finds D d' identity := by
  cases h with
  | bin hbin h =>
    simp only [Finds, referenceLoad, storedIdentity_bind_eq_some hbin h]
  | @recovered F hbin htmp h =>
    have hrec : (d.recovered .bin).bind (storedIdentity D) = some (identityAt D F h.le_length) := by
      rw [Disk.recovered, Disk.rename, Disk.write_ne _ (by decide), Disk.write_same]
      exact storedIdentity_bind_eq_some htmp h
    simp only [Finds, referenceLoad, hrec]
  | retained hbin htmp h =>
    simp only [Finds, referenceLoad, storedIdentity_bind_eq_none hbin,
      storedIdentity_bind_eq_some htmp h]
  | error _ hr => exact absurd rfl hr.1

theorem PreparesTo.finds {crypto c : TeslaCrypto}
    (h : PreparesTo D mayFail crypto d t (true, c, identity) d') : Finds D d' identity := by
  cases h with
  | restored hload => exact hload.finds
  | fresh iv => simp only [Finds, referenceLoad_saved]

theorem Finds.of_bin (h : Finds D d identity) (hvalid : ValidAt D d .bin)
    (hbin : d' .bin = d .bin) : Finds D d' identity := by
  obtain ⟨F, hF, hv⟩ := hvalid
  have hold := storedIdentity_bind_eq_some hF hv
  have hnew := storedIdentity_bind_eq_some (hbin.trans hF) hv
  simp only [Finds, referenceLoad, hold] at h
  simpa only [Finds, referenceLoad, hnew] using h

theorem not_finds (hbin : ¬ ValidAt D d .bin) (htmp : d .tmp = none) : ¬ Finds D d identity := by
  have hnone := storedIdentity_bind_eq_none hbin
  have hstaged : (d .tmp).bind (storedIdentity D) = none := by rw [htmp]; rfl
  simp only [Finds, referenceLoad, hnone, hstaged]
  split_ifs
  · simp
  · simp

theorem Leaves.finds_iff (h : Leaves D mayFail app d t app' d')
    (hfinds : app.nfc.isSome = true → Finds D d app.identity) (hsome : app'.nfc.isSome = true) :
    Finds D d' app'.identity ↔ ¬ LosesIdentity D d t := by
  have hold (hkeeps : Keeps app app') : Finds D d app'.identity := by
    obtain ⟨nfc', hnfc'⟩ := Option.isSome_iff_exists.mp hsome
    obtain ⟨nfc, hnfc, -⟩ := hkeeps.nfc nfc' hnfc'
    rw [hkeeps.identity]
    exact hfinds (by rw [hnfc]; rfl)
  cases h with
  | kept hkeeps hremoved =>
    refine ⟨fun _ hloses => ?_, fun _ => hold hkeeps⟩
    obtain ⟨error, hmem, -⟩ := hloses.refused
    exact hremoved error hmem
  | undeleted hkeeps hd hresumed =>
    by_cases hbin : ValidAt D d .bin
    · exact ⟨fun _ hloses => hloses.staged hbin, fun _ => (hold hkeeps).of_bin hbin hd.bin⟩
    rcases hd.tmp with ⟨hremoved, hnone⟩ | ⟨hkept, hsame⟩
    · have hbin' : ¬ ValidAt D d' .bin := by
        rwa [ValidAt, hd.bin]
      refine ⟨fun hfound => absurd hfound (not_finds hbin' hnone), fun hnot => ?_⟩
      exact absurd ⟨hbin, hd.refused, hremoved, hresumed hsome⟩ hnot
    · obtain rfl : d' = d := by
        funext path
        cases path with
        | bin => exact hd.bin
        | tmp => exact hsame
      exact ⟨fun _ hloses => hkept hloses.removed, fun _ => hold hkeeps⟩
  | unserved hnone => simp [hnone] at hsome
  | renewed hprovides hremoved =>
    obtain ⟨u, crypto, c, -, hprepared, -⟩ := hprovides
    refine ⟨fun _ hloses => ?_, fun _ => hprepared.finds⟩
    obtain ⟨error, hmem, hok, hnot⟩ := hloses.refused
    rcases hremoved error hmem with h | h
    · exact hok h
    · exact hnot h

structure StoredBetween (D : Device) (a : AppState) : Prop where
  between : Between a
  stored : ∃ d, AtRest d a.2 ∧ (a.1.nfc.isSome = true → Finds D d a.1.identity)

theorem Starts.stored {a : AppState} (h : Starts D mayFail d t a) : StoredBetween D a := by
  obtain ⟨d', hrest, hnone | ⟨⟨u, crypto, c, -, hprepared, -⟩⟩⟩ :=
    always_iff.mp (start_leaves (stopped_empty d)) _ _ _ h
  · exact ⟨h.between, d', hrest, fun hsome => by simp [hnone] at hsome⟩
  · exact ⟨h.between, d', hrest, fun _ => hprepared.finds⟩

theorem KeepingStep.stored {a a' : AppState} {l : AppLabel} (hstep : KeepingStep D mayFail a l a')
    (h : StoredBetween D a) : StoredBetween D a' := by
  obtain ⟨hstep, hnot⟩ := hstep
  obtain ⟨d, hrest, hfinds⟩ := h.stored
  obtain ⟨d', hrest', hleaves⟩ := hstep.leaves h.between hrest
  rw [hrest.disk] at hnot
  exact ⟨hstep.between h.between, d', hrest',
    fun hsome => (hleaves.finds_iff hfinds hsome).mpr hnot⟩

theorem Between.nfc_isSome {a : AppState} (h : Between a) (hrunning : a.2.2.running.isSome = true) :
    a.1.nfc.isSome = true := by
  obtain ⟨m, hsettled, htracked⟩ := h
  exact hsettled.nfc_isSome (htracked.running.trans hrunning)

/-- In every run without a losing step the served identity is on the storage; and
the next step keeps it there exactly when it does not lose it. -/
theorem served_identity_durable {a₀ a : AppState} {labels : List AppLabel}
    (hstart : Starts D mayFail d t a₀) (hrun : Run (KeepingStep D mayFail) a₀ labels a) :
    (a.2.2.running.isSome = true → Durable D a) ∧
    ∀ l a', AppStep D mayFail a l a' → a'.2.2.running.isSome = true →
      (Durable D a' ↔ ¬ LosesIdentity D a.2.1.disk l.trace) := by
  have hstored : StoredBetween D a :=
    hrun.invariant (P := fun _ a => StoredBetween D a) hstart.stored
      fun _ _ _ _ h hstep => hstep.stored h
  obtain ⟨d, hrest, hfinds⟩ := hstored.stored
  refine ⟨fun hrunning => ?_, fun l a' hstep hrunning => ?_⟩
  · exact (durable_iff hrest).mpr (hfinds (hstored.between.nfc_isSome hrunning))
  · obtain ⟨d', hrest', hleaves⟩ := hstep.leaves hstored.between hrest
    rw [durable_iff hrest', hrest.disk]
    exact hleaves.finds_iff hfinds ((hstep.between hstored.between).nfc_isSome hrunning)

end

section
variable {D : Device} {mayFail : HalCall → Prop} {d : Disk} {q : List TeslaKeyCardNfcEvent}

theorem exists_load_retained {F : List UInt8}
    (hfail : mayFail (.storageCommonRename .tmp .bin)) (hbin : ¬ ValidAt D d .bin)
    (htmp : d .tmp = some F) (h : ValidRecord D F) (identity : TeslaIdentity) :
    ∃ t, Executes (faultyEnv D mayFail) (teslaIdentityLoad identity) (World.idle d q) t
      (.ok, identityAt D F h.le_length) (World.idle d q) := by
  obtain ⟨t₁, r₁, w₁, hx₁⟩ := exists_works (D := D)
    (teslaIdentityLoadPath .bin (teslaIdentityClear identity)) (World.idle d q)
  obtain ⟨rfl, hload₁⟩ := always_iff.mp (loadPath_spec .bin _) _ _ _ hx₁
  obtain ⟨result₁, found₁, legacy₁⟩ := r₁
  obtain ⟨t₂, r₂, w₂, hx₂⟩ := exists_works (D := D) (teslaIdentityLoadPath .tmp found₁)
    (World.idle d q)
  obtain ⟨rfl, hload₂⟩ := always_iff.mp (loadPath_spec .tmp _) _ _ _ hx₂
  obtain ⟨result₂, found₂, legacy₂⟩ := r₂
  have hresult : result₁ = .notFound ∨ result₁ = .corrupt := by
    generalize hfile : d .bin = file at hload₁
    cases hload₁ with
    | ok hvalid => exact absurd ⟨_, hfile, hvalid⟩ hbin
    | notFound => exact Or.inl rfl
    | corrupt => exact Or.inr rfl
    | error _ _ _ hf => exact absurd hf not_faulty_noFailure
  rw [htmp] at hload₂
  obtain ⟨rfl, rfl⟩ : result₂ = .ok ∧ found₂ = identityAt D F h.le_length := by
    cases hload₂ with
    | ok => exact ⟨rfl, rfl⟩
    | corrupt hbad => exact absurd h hbad
    | error _ _ _ hf => exact absurd hf not_faulty_noFailure
  have hrecover : Executes (faultyEnv D mayFail) (teslaIdentityRecover result₁ found₁ legacy₁)
      (World.idle d q) (t₂ ++ [⟨.storageCommonRename .tmp .bin, .other 1⟩,
        ⟨.furiLog "Recovered staged identity; rename failed" [], ()⟩])
      (.ok, identityAt D F h.le_length, false) (World.idle d q) := by
    apply (executes_faulty mayFail hx₂).bind
    exact .call (.inr ⟨hfail, by simp [Refused], rfl⟩) (.call (.inl rfl) (.done _ _))
  rcases hresult with rfl | rfl
  · exact ⟨_, (executes_faulty mayFail hx₁).bind (hrecover.bind (.done _ _))⟩
  · exact ⟨_, (executes_faulty mayFail hx₁).bind (hrecover.bind (.done _ _))⟩

theorem exists_start_retained {F : List UInt8}
    (hfail : mayFail (.storageCommonRename .tmp .bin)) (hbin : ¬ ValidAt D d .bin)
    (htmp : d .tmp = some F) (h : ValidRecord D F)
    (hkey : Accepts D (identityAt D F h.le_length).privateKey) :
    ∃ t app, Executes (faultyEnv D mayFail) teslaKeyCardStart (World.idle d []) t app
      (World.idle d []) ∧ app.identity = identityAt D F h.le_length ∧ app.nfc.isSome = true := by
  have hnot : ¬ Faulty noFailure := not_faulty_noFailure
  obtain ⟨t₁, crypto, w₁, halloc⟩ := exists_works (D := D) teslaCryptoAlloc (World.idle d [])
  obtain ⟨rfl, ⟨crypto, rfl, hload, -⟩ | ⟨-, hf⟩⟩ := always_iff.mp alloc_spec _ _ _ halloc
  swap
  · exact absurd hf hnot
  obtain ⟨t₂, hloads⟩ := @exists_load_retained D mayFail d [] F hfail hbin htmp h noIdentity
  obtain ⟨t₃, r, w₃, hset⟩ := exists_works (D := D)
    (teslaCryptoSetPrivateKey crypto (identityAt D F h.le_length).privateKey) (World.idle d [])
  obtain ⟨rfl, ⟨-, rfl⟩ | ⟨-, -, -, hwhy⟩⟩ := always_iff.mp (setPrivateKey_spec hload _) _ _ _ hset
  swap
  · exact absurd hkey (hwhy.resolve_left hnot)
  let app : TeslaKeyCardApp := ⟨⟨.initializing, 0, 0, 0, Bytes.zero 4⟩, .main,
    identityAt D F h.le_length,
    some (crypto.withKey D (identityAt D F h.le_length).privateKey.beValue), none⟩
  obtain ⟨t₄, app', w₄, hupdate⟩ := exists_works (D := D) (teslaKeyCardUpdateNfc app)
    (World.idle d [])
  obtain ⟨hidentity, hnfc⟩ := always_iff.mp (updateNfc_value app) _ _ _ hupdate
  obtain ⟨rfl, -⟩ := always_iff.mp (always_object (updateNfc_uses app)) _ _ _ hupdate
  have hprepare : Executes (faultyEnv D mayFail) (teslaKeyCardPrepareIdentity crypto noIdentity)
      (World.idle d []) (t₂ ++ (t₃ ++ [])) (true,
        crypto.withKey D (identityAt D F h.le_length).privateKey.beValue,
        identityAt D F h.le_length) (World.idle d []) :=
    hloads.bind ((executes_faulty mayFail hset).bind (.done _ _))
  have happ : Executes (faultyEnv D mayFail) (prepareApp ⟨⟨.initializing, 0, 0, 0, Bytes.zero 4⟩,
      .main, noIdentity, some crypto, none⟩) (World.idle d []) (t₂ ++ (t₃ ++ []) ++ []) (true, app)
      (World.idle d []) := hprepare.bind (.done _ _)
  exact ⟨_, _, (executes_faulty mayFail halloc).bind (happ.bind
    ((executes_faulty mayFail hupdate).bind (.done _ _))), hidentity, (hnfc rfl).resolve_right hnot⟩

theorem exists_losing_run {a₀ : AppState} (hfail : mayFail (.storageCommonRemove .bin))
    (hbin : ¬ ValidAt D d .bin) (htmp : d .tmp ≠ none) (hbetween : Between a₀)
    (hrest : AtRest d a₀.2) (hscreen : a₀.1.screen = .main) (hsome : a₀.1.nfc.isSome = true) :
    ∃ t₁ t₂ a, Run (AppStep D mayFail) a₀ [.custom teslaAppEventResetRequest true t₁,
        .custom teslaAppEventResetConfirm true t₂] a ∧
      Serves a ∧ a.1.identity = a₀.1.identity ∧ ¬ Durable D a := by
  obtain ⟨app₀, s₀⟩ := a₀
  obtain ⟨t₁, s₁, hrequest, q, hw⟩ := @exists_request D mayFail d app₀ s₀ hscreen hrest
  let app₁ : TeslaKeyCardApp :=
    { app₀ with screen := .reset, nfc := app₀.nfc.map TeslaNfc.stopped }
  have hsome₁ : app₁.nfc.isSome = true := by
    change (app₀.nfc.map TeslaNfc.stopped).isSome = true
    rw [Option.isSome_map]
    exact hsome
  obtain ⟨t₂, app₂, q', hreset, hsome₂⟩ :=
    @exists_reset_refused D mayFail d q { app₁ with screen := .main } hfail htmp hsome₁
  have hbeside : Executes (appEnv D mayFail)
      (teslaKeyCardResetIdentity { app₁ with screen := .main }) s₁ t₂ (false, app₂)
      (World.idle (d.write .tmp none) q', t₂.foldl Book.observe s₁.2) := by
    obtain ⟨w, b⟩ := s₁
    obtain rfl : w = World.idle d q := hw
    exact executes_beside hreset b
  have hrun := Run.snoc (Run.snoc (Run.nil (app₀, s₀)) hrequest) (confirm_step rfl hbeside)
  -- The monitor says what the failed reset made of the app.
  obtain ⟨m, hsettled, -⟩ := hrequest.between hbetween
  have hmatch : m.Matches { app₁ with screen := .main } :=
    ⟨hsettled.agrees.object, hsettled.agrees.running⟩
  obtain ⟨-, hresets⟩ := (@reset_accepts false m _ hmatch hsettled.bound).executes hreset
  obtain ⟨hidentity, hscreen₂⟩ := hresets.of_false hsome₂
  refine ⟨t₁, t₂, _, hrun, (run_between hrun hbetween).serves hsome₂ hscreen₂, hidentity, ?_⟩
  rw [durable_iff ⟨q', rfl⟩]
  apply not_finds
  · rwa [ValidAt, Disk.write_ne _ (by decide)]
  · exact Disk.write_same _ _ none

end

theorem served_identity_durable_reset :
    ∃ t a₀ t₁ t₂ a, Starts plainDevice noFailure twinDisk t a₀ ∧ Serves a₀ ∧
      Run (KeepingStep plainDevice noFailure) a₀ [.custom teslaAppEventResetRequest true t₁,
        .custom teslaAppEventResetConfirm true t₂] a ∧
      Serves a ∧ (a.2.2.running.isSome = true → Durable plainDevice a) ∧
      ∀ l a', AppStep plainDevice noFailure a l a' → a'.2.2.running.isSome = true →
        (Durable plainDevice a' ↔ ¬ LosesIdentity plainDevice a.2.1.disk l.trace) := by
  obtain ⟨t, a₀, t₁, a, hstart, -, hnfc, hrest, hrequest, hscreen, -, hrest₁⟩ :=
    exists_request_twin
  obtain ⟨t₂, app, s, hconfirm, hmain, hsome⟩ :=
    @exists_confirm plainDevice noFailure twinDisk a.1 a.2 hscreen hrest₁
  have hvalid : ValidAt plainDevice twinDisk .bin := ⟨_, rfl, .inl (newRecord_valid _ _ _)⟩
  have hkeep {s : Site} (hrest : AtRest twinDisk s) (t : List HalEvent) :
      ¬ LosesIdentity plainDevice s.1.disk t :=
    fun hloses => hloses.staged (hrest.disk ▸ hvalid)
  have hrun : Run (KeepingStep plainDevice noFailure) a₀ [.custom teslaAppEventResetRequest true t₁,
      .custom teslaAppEventResetConfirm true t₂] (app, s) :=
    .snoc (.snoc (.nil a₀) ⟨hrequest, hkeep hrest _⟩) ⟨hconfirm, hkeep hrest₁ _⟩
  have hbetween := hconfirm.between (hrequest.between hstart.between)
  exact ⟨t, a₀, t₁, t₂, _, hstart, hstart.between.serves hnfc hstart.screen_main, hrun,
    hbetween.serves hsome hmain, served_identity_durable hstart hrun⟩

def stagedDisk : Disk := twinDisk.write .bin (some [])

/-- The identity file can be neither replaced nor removed. -/
def stuckFile (c : HalCall) : Prop :=
  c = .storageCommonRename .tmp .bin ∨ c = .storageCommonRemove .bin

theorem stagedDisk_invalid : ¬ ValidAt plainDevice stagedDisk .bin := by
  intro hvalid
  obtain ⟨F, hF, h⟩ := hvalid
  obtain rfl : [] = F := Option.some.inj ((Disk.write_same _ _ _).symm.trans hF)
  exact absurd h.le_length (by simp)

/-- The app starts over a staged identity that it cannot rename. The reset that is
then confirmed fails, removes the staged file and serves the identity again. -/
theorem served_identity_lost :
    ∃ t a₀ t₁ t₂ a, Starts plainDevice stuckFile stagedDisk t a₀ ∧
      a₀.1.identity = sampleIdentity ∧
      Run (AppStep plainDevice stuckFile) a₀ [.custom teslaAppEventResetRequest true t₁,
        .custom teslaAppEventResetConfirm true t₂] a ∧
      Serves a ∧ a.1.identity = sampleIdentity ∧ ¬ Durable plainDevice a := by
  let F := (newRecord plainDevice sampleIdentity (Bytes.zero 16)).pack.toList
  have htmp : stagedDisk .tmp = some F := Disk.write_ne twinDisk (by decide) _
  have hvalid : ValidRecord plainDevice F := .inl (newRecord_valid _ _ _)
  have hidentity : identityAt plainDevice F hvalid.le_length = sampleIdentity :=
    newRecord_identityAt _ _ _ _
  obtain ⟨t, app₀, hx, hid₀, hnfc₀⟩ := @exists_start_retained plainDevice stuckFile stagedDisk F
    (.inl rfl) stagedDisk_invalid htmp hvalid (hidentity.symm ▸ sampleIdentity_accepted)
  have hstart : Starts plainDevice stuckFile stagedDisk t (app₀, _, _) :=
    executes_beside hx Book.empty
  have hstuck : stuckFile (.storageCommonRemove .bin) := Or.inr rfl
  obtain ⟨t₁, t₂, a, hrun, hserves, hid, hlost⟩ := exists_losing_run hstuck stagedDisk_invalid
    (by simp [htmp]) hstart.between ⟨[], rfl⟩ hstart.screen_main hnfc₀
  have hserved : app₀.identity = sampleIdentity := hid₀.trans hidentity
  exact ⟨t, _, t₁, t₂, a, hstart, hserved, hrun, hserves, hid.trans hserved, hlost⟩

end FlipperApps.Tesla
