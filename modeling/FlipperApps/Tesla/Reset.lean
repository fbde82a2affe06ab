import FlipperApps.Tesla.NfcObjects
import FlipperApps.Tesla.Startup

/-!
# Resetting the identity

A reset deletes both files and starts over. It ignores whether the staged file
was removed, and the load that follows recovers that file: the old identity may
then be served again, with the reset reported as done.
-/

namespace FlipperApps.Tesla
open Calls

/-- `t` runs inside `u`, next to calls on the app's objects. -/
def Within (t u : List HalEvent) : Prop := t ⊆ u ∧ ∀ e ∈ u, e ∈ t ∨ ObjectCall e.1

section
variable {D : Device} {mayFail : HalCall → Prop} {d : Disk} {q : List TeslaKeyCardNfcEvent}
  {w : World} {P : Post HalInterface World (Bool × TeslaCrypto × TeslaIdentity)}

theorem prepareApp_spec {crypto : TeslaCrypto} (app : TeslaKeyCardApp)
    (h : Always (faultyEnv D mayFail) (teslaKeyCardPrepareIdentity crypto app.identity) w P) :
    Always (faultyEnv D mayFail) (prepareApp { app with crypto := some crypto }) w
      fun t r w' => ∃ c, P t (r.1, c, r.2.identity) w' ∧ r.2.crypto = some c := by
  refine Always.bind h ?_
  intro t r w' hP
  obtain ⟨prepared, c, identity⟩ := r
  refine ⟨c, ?_, rfl⟩
  rwa [List.append_nil]

theorem prepare_outcome (crypto : TeslaCrypto) (identity : TeslaIdentity)
    (hload : crypto.Loaded D) :
    Always (faultyEnv D mayFail) (teslaKeyCardPrepareIdentity crypto identity)
      (World.idle d q) fun t r w' =>
        ∃ crypto d', w' = World.idle d' q ∧ PreparesTo D mayFail crypto d t r d' :=
  (prepareIdentity_spec hload identity).mono fun _ _ _ ⟨d', hw, h⟩ => ⟨crypto, d', hw, h⟩

theorem rebuild_spec
    (hprepare : ∀ (crypto : TeslaCrypto) (identity : TeslaIdentity), crypto.Loaded D →
      Always (faultyEnv D mayFail) (teslaKeyCardPrepareIdentity crypto identity) w P)
    (app : TeslaKeyCardApp) :
    Always (faultyEnv D mayFail) (rebuildIdentity app) w fun t r w' =>
      r.1 = false ∧ Faulty mayFail ∨
        ∃ u c, P u (r.1, c, r.2.identity) w' ∧ Within u t := by
  apply (always_object ((freeNfc_uses app).mono fun _ => StopCall.object)).bind
  intro t₁ app w₁ h
  obtain ⟨rfl, h₁⟩ := h
  apply (always_object ((cryptoFree_uses app.crypto).mono fun _ => ContextCall.object)).bind
  intro t₂ _ w₂ h
  obtain ⟨rfl, h₂⟩ := h
  apply (alloc_spec.and (always_object (cryptoAlloc_uses.mono fun _ => ContextCall.object))).bind
  intro t₃ _ w₃ h
  rcases h with ⟨⟨rfl, ⟨crypto, rfl, hload, -⟩ | ⟨rfl, hf⟩⟩, -, h₃⟩
  · refine (prepareApp_spec { app with identity := teslaIdentityClear app.identity }
      (hprepare crypto _ hload)).bind ?_
    intro t₄ r w₄ h
    obtain ⟨prepared, app⟩ := r
    obtain ⟨c, hP, hcrypto⟩ := h
    cases prepared with
    | false =>
      refine .inr ⟨t₄, c, hP, ?_⟩
      constructor
      · grind
      · grind
    | true =>
      apply ((updateNfc_value app).and (always_object (updateNfc_uses app))).bind
      intro t₅ app' w₅ h
      obtain ⟨⟨hidentity, hnfc⟩, rfl, h₅⟩ := h
      change app'.nfc.isSome = false ∧ _ ∨ ∃ u c, P u (app'.nfc.isSome, c, app'.identity) _ ∧ _
      cases hsome : app'.nfc.isSome with
      | false =>
        have hf := hnfc (by rw [hcrypto]; rfl)
        exact .inl ⟨rfl, hf.resolve_left (by rw [hsome]; nofun)⟩
      | true =>
        refine .inr ⟨t₄, c, ?_, ?_⟩
        · rw [hidentity]
          exact hP
        · constructor
          · grind
          · grind
  · exact .inl ⟨rfl, hf⟩

theorem start_spec
    (hprepare : ∀ (crypto : TeslaCrypto) (identity : TeslaIdentity), crypto.Loaded D →
      Always (faultyEnv D mayFail) (teslaKeyCardPrepareIdentity crypto identity) w P) :
    Always (faultyEnv D mayFail) teslaKeyCardStart w fun _ app w' => Faulty mayFail ∨
      ∃ u prepared c, P u (prepared, c, app.identity) w' ∧
        (prepared = true → app.nfc.isSome = true) := by
  apply alloc_spec.bind
  intro t₁ _ w₁ h
  rcases h with ⟨rfl, ⟨crypto, rfl, hload, -⟩ | ⟨rfl, hf⟩⟩
  · refine (prepareApp_spec ⟨⟨.initializing, 0, 0, 0, Bytes.zero 4⟩, .main, noIdentity, none, none⟩
      (hprepare crypto _ hload)).bind ?_
    intro t₂ r w₂ h
    obtain ⟨prepared, app⟩ := r
    obtain ⟨c, hP, hcrypto⟩ := h
    cases prepared with
    | false => exact .inr ⟨t₂, false, c, hP, fun h => absurd h (by simp)⟩
    | true =>
      apply ((updateNfc_value app).and
        (always_object (updateNfc_uses app))).bind
      intro t₃ app' w₃ h
      obtain ⟨⟨hidentity, hnfc⟩, rfl, -⟩ := h
      rcases hnfc (by rw [hcrypto]; rfl) with hsome | hf
      · refine .inr ⟨t₂, true, c, ?_, fun _ => hsome⟩
        change P t₂ (true, c, app'.identity) _
        rwa [hidentity]
      · exact .inl hf
  · exact .inl hf

theorem drain_spec (n : ℕ) (q : List TeslaKeyCardNfcEvent) :
    Always (faultyEnv D mayFail) (drainNfcEvents n) (World.idle d q) fun t _ w' =>
      (∃ q', w' = World.idle d q') ∧ ∀ e ∈ t, e.1 = .nfcEventQueueGet := by
  induction n generalizing q with
  | zero => exact ⟨⟨q, rfl⟩, by simp⟩
  | succ n ih =>
    simp only [drainNfcEvents, hal_eq, Program.call_bind, Program.done_bind, Program.pure_eq]
    intro event w h
    rcases h with ⟨rfl, rfl⟩ | ⟨-, ⟨⟩, -⟩
    cases q with
    | nil => exact ⟨⟨[], rfl⟩, by simp⟩
    | cons event q =>
      apply (ih q).mono
      intro t _ w' h
      obtain ⟨hw, ht⟩ := h
      exact ⟨hw, by simpa using ht⟩

theorem delete_spec (q : List TeslaKeyCardNfcEvent) :
    Always (faultyEnv D mayFail) teslaIdentityDelete (World.idle d q) fun _ deleted w' =>
      ∃ d', w' = World.idle d' q ∧ (deleted = true → d' .bin = none ∧
        (d' .tmp = none ∨ mayFail (.storageCommonRemove .tmp) ∧ d' .tmp = d .tmp)) := by
  simp only [teslaIdentityDelete, hal_eq, Program.call_bind, Program.done_bind, Program.pure_eq]
  intro error w₁ h
  rcases h with ⟨rfl, -⟩ | ⟨-, hr, rfl⟩
  · intro _ w₂ h
    rcases h with ⟨rfl, -⟩ | ⟨hm, -, rfl⟩
    · exact ⟨_, rfl, fun _ => ⟨rfl, .inl rfl⟩⟩
    · exact ⟨_, rfl, fun _ => ⟨rfl, .inr ⟨hm, rfl⟩⟩⟩
  · have hr : error ≠ .ok ∧ error ≠ .notExist := hr
    have hfalse : ¬ (error == .ok || error == .notExist) = true := by simpa using hr
    intro _ w₂ h
    rcases h with ⟨rfl, -⟩ | ⟨-, -, rfl⟩
    · exact ⟨_, rfl, fun h => absurd h hfalse⟩
    · exact ⟨_, rfl, fun h => absurd h hfalse⟩

/-- The staged file holds an identity that a start would accept. -/
def Recoverable (D : Device) (d : Disk) : Prop :=
  ∃ identity, (d .tmp).bind (storedIdentity D) = some identity ∧ Accepts D identity.privateKey

theorem PreparesTo.generated {crypto c : TeslaCrypto} {identity : TeslaIdentity} {d' : Disk}
    {t : List HalEvent} (h : PreparesTo D mayFail crypto d t (true, c, identity) d')
    (hbin : d .bin = none) (htmp : ¬ Recoverable D d) : Generated t identity := by
  cases h with
  | restored hload hkey =>
    obtain ⟨p, hp⟩ := hload.stored
    cases p with
    | bin => simp [hbin] at hp
    | tmp => exact absurd ⟨identity, hp, hkey⟩ htmp
  | fresh iv _ hgen => exact hgen

theorem reset_generates (app : TeslaKeyCardApp)
    (h : ¬ (mayFail (.storageCommonRemove .tmp) ∧ Recoverable D d)) :
    Always (faultyEnv D mayFail) (teslaKeyCardResetIdentity app) (World.idle d q)
      fun t r _ => r.1 = true → Generated t r.2.identity := by
  apply (always_object ((stopNfc_uses _).mono fun _ => StopCall.object)).bind
  intro t₁ app w₁ h
  obtain ⟨rfl, -⟩ := h
  apply (drain_spec 17 q).bind
  intro t₂ _ w₂ h
  obtain ⟨⟨q', rfl⟩, -⟩ := h
  apply (delete_spec q').bind
  intro t₃ deleted w₃ h
  obtain ⟨d', rfl, hdeleted⟩ := h
  cases deleted with
  | false => exact (always_true _).bind fun _ _ _ _ => nofun
  | true =>
    obtain ⟨hbin, htmp⟩ := hdeleted rfl
    have hnone : ¬ Recoverable D d' := by
      intro h
      obtain ⟨identity, hidentity, hkey⟩ := h
      rcases htmp with htmp | ⟨hm, htmp⟩
      · simp [htmp] at hidentity
      · exact h ⟨hm, identity, htmp ▸ hidentity, hkey⟩
    apply (rebuild_spec prepare_outcome app).mono
    intro t₄ r w₄ h hr
    obtain ⟨success, app⟩ := r
    rcases h with ⟨hfalse, -⟩ | ⟨u, c, ⟨crypto, d'', -, hprepared⟩, hu, -⟩
    · exact absurd (hfalse.symm.trans hr) nofun
    · obtain rfl : success = true := hr
      apply (hprepared.generated hbin hnone).mono
      grind

theorem exists_delete_stale (hfail : mayFail (.storageCommonRemove .tmp))
    (q : List TeslaKeyCardNfcEvent) :
    ∃ t, Executes (faultyEnv D mayFail) teslaIdentityDelete (World.idle d q) t true
      (World.idle (d.write .bin none) q) ∧ ∀ e ∈ t, ∃ p, e.1 = .storageCommonRemove p := by
  let error : FsError := if d .bin = none then .notExist else .ok
  have hok : (error == .ok || error == .notExist) = true := by
    by_cases hbin : d .bin = none
    · simp [error, hbin]
    · simp [error, hbin]
  refine ⟨[⟨.storageCommonRemove .bin, error⟩, ⟨.storageCommonRemove .tmp, .other 1⟩], ?_, ?_⟩
  · rw [← hok]
    exact .call (.inl ⟨rfl, rfl⟩) (.call (.inr ⟨hfail, ⟨nofun, nofun⟩, rfl⟩) (.done _ _))
  · simp

theorem ObjectCall.not_replaces {c : HalCall} (h : ObjectCall c) : ¬ ReplacesIdentity c := by
  cases c with
  | furiHalRandomFillBuf | ecpGenPrivkey | storageCommonRemove | storageFileOpen |
      storageFileWrite => exact h.elim
  | _ => exact id

theorem rebuild_recovered {identity : TeslaIdentity} {d' : Disk}
    (href : referenceLoad D d = (.ok, identity, d')) (hkey : Accepts D identity.privateKey)
    (hpresent : ¬ (d .bin = none ∧ d .tmp = none)) (app : TeslaKeyCardApp) :
    Always (faultyEnv D noFailure) (rebuildIdentity app) (World.idle d q) fun t r _ =>
      r.1 = true ∧ r.2.identity = identity ∧ ∀ e ∈ t, ¬ ReplacesIdentity e.1 := by
  refine (rebuild_spec (fun crypto identity hload => (prepare_outcome crypto identity hload).and
    (prepare_restoring crypto identity hpresent)) app).mono ?_
  intro t r w h
  obtain ⟨success, app⟩ := r
  rcases h with ⟨-, hf⟩ | ⟨u, c, ⟨⟨crypto, d'', -, hprepared⟩, hu, -⟩, -, ht⟩
  · exact absurd hf not_faulty_noFailure
  · obtain ⟨hr, -⟩ := hprepared.of_ok href hkey
    obtain ⟨rfl, -, rfl⟩ : success = true ∧ _ ∧ app.identity = identity := by
      simpa only [Prod.mk.injEq] using hr
    refine ⟨rfl, rfl, fun e he => ?_⟩
    rcases ht e he with he | he
    · exact (hu e he).1
    · exact he.not_replaces

theorem start_recovered {identity : TeslaIdentity} {d' : Disk}
    (href : referenceLoad D d = (.ok, identity, d')) (hkey : Accepts D identity.privateKey) :
    Always (faultyEnv D noFailure) teslaKeyCardStart (World.idle d q) fun _ app w' =>
      app.identity = identity ∧ app.nfc.isSome = true ∧ w' = World.idle d' q := by
  apply (start_spec prepare_outcome).mono
  intro t app _ h
  rcases h with hf | ⟨u, prepared, c, ⟨crypto, d'', rfl, hprepared⟩, hnfc⟩
  · exact absurd hf not_faulty_noFailure
  · obtain ⟨hr, rfl⟩ := hprepared.of_ok href hkey
    exact ⟨congrArg (·.2.2) hr, hnfc (congrArg (·.1) hr), rfl⟩

theorem exists_reset_stale (app : TeslaKeyCardApp) {identity : TeslaIdentity}
    (hfail : mayFail (.storageCommonRemove .tmp))
    (hidentity : (d .tmp).bind (storedIdentity D) = some identity)
    (hkey : Accepts D identity.privateKey) :
    ∃ t app' w', Executes (faultyEnv D mayFail) (teslaKeyCardResetIdentity app) (World.idle d q) t
      (true, app') w' ∧ app'.identity = identity ∧ ¬ Generated t app'.identity := by
  have htotal := halEnv_total D (failing mayFail)
  obtain ⟨t₁, app₁, w₁, hstop⟩ := exists_executes htotal
    (stopNfc (teslaKeyCardSetModel app .resetting false)) (World.idle d q)
  obtain ⟨rfl, h₁⟩ := always_iff.mp
    (always_object ((stopNfc_uses _).mono fun _ => StopCall.object)) _ _ _ hstop
  obtain ⟨t₂, _, w₂, hdrain⟩ := exists_executes htotal teslaKeyCardClearNfcEvents (World.idle d q)
  obtain ⟨⟨q', rfl⟩, h₂⟩ := always_iff.mp (drain_spec 17 q) _ _ _ hdrain
  obtain ⟨t₃, hdelete, h₃⟩ := exists_delete_stale (D := D) (d := d) hfail q'
  -- What is left, the staged file, is what the rebuild recovers.
  have htmp : d.write .bin none .tmp = d .tmp := Disk.write_ne d (by decide) none
  have href : referenceLoad D (d.write .bin none) =
      (.ok, identity, (d.write .bin none).recovered) := by
    simp only [referenceLoad, Disk.write_same, Option.bind_none, htmp, hidentity]
  have hpresent : ¬ (d.write .bin none .bin = none ∧ d.write .bin none .tmp = none) :=
    fun h => by simp [htmp ▸ h.2] at hidentity
  obtain ⟨t₄, ⟨success, app'⟩, w₄, hrebuild⟩ :=
    exists_works (D := D) (rebuildIdentity app₁) (World.idle (d.write .bin none) q')
  obtain ⟨hsuccess, hsame, h₄⟩ :=
    always_iff.mp (rebuild_recovered href hkey hpresent app₁) _ _ _ hrebuild
  obtain rfl : success = true := hsuccess
  have hfaulty := executes_faulty mayFail hrebuild
  refine ⟨_, app', w₄, hstop.bind (hdrain.bind (hdelete.bind hfaulty)), hsame, ?_⟩
  intro h
  obtain ⟨⟨random, hmem, -⟩, -⟩ := h
  simp only [List.mem_append] at hmem
  rcases hmem with he | he | he | he
  · exact h₁ _ he
  · exact absurd (h₂ _ he) (by simp)
  · exact absurd (h₃ _ he) (by simp)
  · exact h₄ _ he trivial

theorem reset_replaces_iff (D : Device) (mayFail : HalCall → Prop) (app : TeslaKeyCardApp)
    (d : Disk) (q : List TeslaKeyCardNfcEvent) :
    (∀ t app' w', Executes (faultyEnv D mayFail) (teslaKeyCardResetIdentity app)
        (World.idle d q) t (true, app') w' → Generated t app'.identity) ↔
      ¬ (mayFail (.storageCommonRemove .tmp) ∧ Recoverable D d) := by
  constructor
  · intro h h'
    obtain ⟨hfail, identity, hidentity, hkey⟩ := h'
    obtain ⟨t, app', w', hx, -, hold⟩ := exists_reset_stale app hfail hidentity hkey
    exact hold (h t app' w' hx)
  · exact fun h t app' w' hx => always_iff.mp (reset_generates app h) _ _ _ hx rfl

end

def twinDisk : Disk := fun _ =>
  some (newRecord plainDevice sampleIdentity (Bytes.zero 16)).pack.toList

theorem twinDisk_stored (p : IdentityPath) :
    (twinDisk p).bind (storedIdentity plainDevice) = some sampleIdentity := by
  rw [storedIdentity_bind_eq_some rfl (.inl (newRecord_valid _ _ _)), newRecord_identityAt]

/-- The app is started over a stored identity. It is then reset, with the removal of
the staged file failing. -/
theorem reset_serves_old_identity :
    ∃ t₀ app, Executes (faultyEnv plainDevice noFailure) teslaKeyCardStart
        (World.idle twinDisk []) t₀ app (World.idle twinDisk []) ∧
      app.identity = sampleIdentity ∧
      ∃ t app' w', Executes (faultyEnv plainDevice (· = .storageCommonRemove .tmp))
          (teslaKeyCardResetIdentity app) (World.idle twinDisk []) t (true, app') w' ∧
        app'.identity = sampleIdentity ∧ ¬ Generated t app'.identity := by
  obtain ⟨t₀, app, w, hstart⟩ :=
    exists_works (D := plainDevice) teslaKeyCardStart (World.idle twinDisk [])
  have href : referenceLoad plainDevice twinDisk = (.ok, sampleIdentity, twinDisk) := by
    simp only [referenceLoad, twinDisk_stored]
  obtain ⟨hidentity, -, rfl⟩ :=
    always_iff.mp (start_recovered href sampleIdentity_accepted) _ _ _ hstart
  exact ⟨t₀, app, hstart, hidentity,
    exists_reset_stale app rfl (twinDisk_stored .tmp) sampleIdentity_accepted⟩

end FlipperApps.Tesla
