import FlipperApps.Tesla.IdentityLoad

/-!
# Recovery of a staged identity, and the load as a whole

The reference load picks the identity file when it is valid, else the staged
file, which it renames. `tesla_identity_load` computes it when nothing fails.
-/

namespace FlipperApps.Tesla
open Calls

section
variable {D : Device} {mayFail : HalCall → Prop} {d : Disk} {q : List TeslaKeyCardNfcEvent}

def Disk.recovered (d : Disk) : Disk := d.rename .tmp .bin

theorem warnLegacy_uses (result : TeslaIdentityLoadResult) (legacyRecord : Bool) :
    (teslaIdentityWarnLegacy result legacyRecord).Uses ReadCall := by
  unfold teslaIdentityWarnLegacy
  split_ifs
  · exact ⟨trivial, fun _ => trivial⟩
  · trivial

theorem warnLegacy_spec (result : TeslaIdentityLoadResult) (legacyRecord : Bool) (w : World) :
    Always (faultyEnv D mayFail) (teslaIdentityWarnLegacy result legacyRecord) w
      fun _ _ w' => w' = w := by
  unfold teslaIdentityWarnLegacy
  split_ifs
  · intro r w' h
    rcases h with rfl | ⟨-, ⟨⟩, -⟩
    rfl
  · rfl

def ValidAt (D : Device) (d : Disk) (p : IdentityPath) : Prop :=
  ∃ F, d p = some F ∧ ValidRecord D F

def RecoveryCall (D : Device) (d : Disk) (c : HalCall) : Prop :=
  ReadCall c ∨ c = .storageCommonRename .tmp .bin ∧ ValidAt D d .tmp

inductive RecoversTo (D : Device) (mayFail : HalCall → Prop) (d : Disk)
    (result : TeslaIdentityLoadResult) (identity : TeslaIdentity) :
    TeslaIdentityLoadResult → TeslaIdentity → Disk → Prop
  | recovered {F : List UInt8} (htmp : d .tmp = some F) (h : ValidRecord D F) :
      RecoversTo D mayFail d result identity .ok (identityAt D F h.le_length) d.recovered
  | retained {F : List UInt8} (htmp : d .tmp = some F) (h : ValidRecord D F)
      (hf : Faulty mayFail) :
      RecoversTo D mayFail d result identity .ok (identityAt D F h.le_length) d
  | absent (htmp : d .tmp = none) : RecoversTo D mayFail d result identity result identity d
  | corrupt {F : List UInt8} (htmp : d .tmp = some F) (hbad : ¬ ValidRecord D F) :
      RecoversTo D mayFail d result identity .corrupt identity d
  | error {r : TeslaIdentityLoadResult} (found : TeslaIdentity)
      (hr : r ≠ .ok ∧ r ≠ .notFound) (hf : Faulty mayFail) :
      RecoversTo D mayFail d result identity r found d

theorem recover_spec {result : TeslaIdentityLoadResult} (identity : TeslaIdentity)
    (legacyRecord : Bool) (hresult : result = .notFound ∨ result = .corrupt) :
    Always (faultyEnv D mayFail) (teslaIdentityRecover result identity legacyRecord)
      (World.idle d q) fun t r w' => (∀ e ∈ t, RecoveryCall D d e.1) ∧
        ∃ d', w' = World.idle d' q ∧ RecoversTo D mayFail d result identity r.1 r.2.1 d' := by
  apply ((loadPath_spec .tmp identity).and (always_uses (loadPath_uses _ _))).bind
  intro t r w h
  obtain ⟨temporary, found, temporaryLegacy⟩ := r
  obtain ⟨⟨rfl, hload⟩, ht⟩ := h
  generalize hfile : d .tmp = file at hload
  cases hload with
  | ok h =>
    simp only [if_true, hal_eq, Program.call_bind, Program.done_bind, Program.pure_eq]
    have hrename (e : HalEvent) (he : e.1 = .storageCommonRename .tmp .bin) :
        RecoveryCall D d e.1 := .inr ⟨he, _, hfile, h⟩
    intro error w h
    rcases h with hw | ⟨hm, hr, rfl⟩
    · obtain ⟨rfl, rfl⟩ : w = World.idle d.recovered q ∧ error = .ok := by
        simpa [Works, World.idle, hfile, Disk.recovered] using hw
      refine ⟨?_, _, rfl, .recovered hfile h⟩
      simp only [List.mem_append, List.mem_singleton]
      intro e h
      rcases h with he | rfl
      · exact .inl (ht e he)
      · exact hrename _ rfl
    · have hr : error ≠ .ok := hr
      simp only [ne_eq, hr, not_false_iff, if_true]
      intro _ w h
      rcases h with rfl | ⟨-, ⟨⟩, -⟩
      refine ⟨?_, _, rfl, .retained hfile h ⟨_, hm⟩⟩
      simp only [List.mem_append, List.mem_cons, List.not_mem_nil, or_false]
      intro e h
      rcases h with he | rfl | rfl
      · exact .inl (ht e he)
      · exact hrename _ rfl
      · exact .inl trivial
  | notFound =>
    simp only [reduceCtorEq, if_false]
    rcases hresult with rfl | rfl
    · exact ⟨by simpa using fun e he => .inl (ht e he), _, rfl, .absent hfile⟩
    · exact ⟨by simpa using fun e he => .inl (ht e he), _, rfl, .absent hfile⟩
  | corrupt hbad =>
    simp only [reduceCtorEq, if_false]
    rcases hresult with rfl | rfl
    · exact ⟨by simpa using fun e he => .inl (ht e he), _, rfl, .corrupt hfile hbad⟩
    · exact ⟨by simpa using fun e he => .inl (ht e he), _, rfl, .corrupt hfile hbad⟩
  | error _ _ hr hf =>
    have hok : temporary ≠ .ok ∧ temporary ≠ .notFound := by
      rcases hr with rfl | rfl <;> simp
    simp only [hok.1, if_false]
    rcases hresult with rfl | rfl
    · exact ⟨by simpa using fun e he => .inl (ht e he), _, rfl, .error _ hok hf⟩
    · exact ⟨by simpa using fun e he => .inl (ht e he), _, rfl, .error _ (by simp) hf⟩

inductive LoadsTo (D : Device) (mayFail : HalCall → Prop) (d : Disk) :
    TeslaIdentityLoadResult → TeslaIdentity → Disk → Prop
  | bin {F : List UInt8} (hbin : d .bin = some F) (h : ValidRecord D F) :
      LoadsTo D mayFail d .ok (identityAt D F h.le_length) d
  | recovered {F : List UInt8} (hbin : ¬ ValidAt D d .bin) (htmp : d .tmp = some F)
      (h : ValidRecord D F) : LoadsTo D mayFail d .ok (identityAt D F h.le_length) d.recovered
  | retained {F : List UInt8} (hbin : ¬ ValidAt D d .bin) (htmp : d .tmp = some F)
      (h : ValidRecord D F) (hf : Faulty mayFail) :
      LoadsTo D mayFail d .ok (identityAt D F h.le_length) d
  | notFound (hbin : d .bin = none) (htmp : d .tmp = none) :
      LoadsTo D mayFail d .notFound noIdentity d
  | corrupt (hsome : ¬ (d .bin = none ∧ d .tmp = none)) (hbin : ¬ ValidAt D d .bin)
      (htmp : ¬ ValidAt D d .tmp) : LoadsTo D mayFail d .corrupt noIdentity d
  | error {r : TeslaIdentityLoadResult} (found : TeslaIdentity)
      (hr : r ≠ .ok ∧ r ≠ .notFound) (hf : Faulty mayFail) : LoadsTo D mayFail d r found d

/-- The calls of a load: reads, and a rename only where the staged file is valid
and the identity file is not. -/
def LoadCall (D : Device) (d : Disk) (c : HalCall) : Prop :=
  ReadCall c ∨ c = .storageCommonRename .tmp .bin ∧ ValidAt D d .tmp ∧ ¬ ValidAt D d .bin

theorem RecoversTo.loadsTo {result r : TeslaIdentityLoadResult} {found : TeslaIdentity}
    {d' : Disk} (h : RecoversTo D mayFail d result noIdentity r found d')
    (hbin : ¬ ValidAt D d .bin)
    (hresult : result = .notFound ∧ d .bin = none ∨ result = .corrupt ∧ d .bin ≠ none) :
    LoadsTo D mayFail d r found d' := by
  cases h with
  | recovered htmp h => exact .recovered hbin htmp h
  | retained htmp h hf => exact .retained hbin htmp h hf
  | absent htmp =>
    rcases hresult with ⟨rfl, hnone⟩ | ⟨rfl, hsome⟩
    · exact .notFound hnone htmp
    · refine .corrupt (fun h => hsome h.1) hbin ?_
      intro h
      obtain ⟨F, hF, -⟩ := h
      simp [htmp] at hF
  | corrupt htmp hbad =>
    refine .corrupt (fun h => by simp [htmp] at h) hbin ?_
    intro h
    obtain ⟨F, hF, hv⟩ := h
    obtain rfl := Option.some.inj (htmp.symm.trans hF)
    exact hbad hv
  | error found hr hf => exact .error found hr hf

theorem finish_spec (result : TeslaIdentityLoadResult) (found : TeslaIdentity)
    (legacyRecord : Bool) (w : World) :
    Always (faultyEnv D mayFail)
      (teslaIdentityWarnLegacy result legacyRecord >>= fun _ => .done (result, found)) w
      fun t r w' => (∀ e ∈ t, ReadCall e.1) ∧ r = (result, found) ∧ w' = w :=
  ((warnLegacy_spec result legacyRecord w).and (always_uses (warnLegacy_uses _ _))).bind
    fun t _ _ h => ⟨by simpa using h.2, rfl, h.1⟩

theorem load_recover_spec {result : TeslaIdentityLoadResult} (legacyRecord : Bool)
    (hbin : ¬ ValidAt D d .bin)
    (hresult : result = .notFound ∧ d .bin = none ∨ result = .corrupt ∧ d .bin ≠ none) :
    Always (faultyEnv D mayFail)
      (teslaIdentityRecover result noIdentity legacyRecord >>= fun r =>
        teslaIdentityWarnLegacy r.1 r.2.2 >>= fun _ => .done (r.1, r.2.1))
      (World.idle d q) fun t r w' => (∀ e ∈ t, LoadCall D d e.1) ∧
        ∃ d', w' = World.idle d' q ∧ LoadsTo D mayFail d r.1 r.2 d' := by
  apply (recover_spec noIdentity legacyRecord (hresult.imp And.left And.left)).bind
  intro t r w h
  obtain ⟨result', found, legacyRecord'⟩ := r
  obtain ⟨ht, d', rfl, hrec⟩ := h
  apply (finish_spec result' found legacyRecord' _).mono
  intro u _ w h
  obtain ⟨hu, rfl, rfl⟩ := h
  refine ⟨fun e he => ?_, d', rfl, hrec.loadsTo hbin hresult⟩
  rcases List.mem_append.mp he with he | he
  · exact (ht e he).imp id fun h => ⟨h.1, h.2, hbin⟩
  · exact .inl (hu e he)

theorem load_spec (identity : TeslaIdentity) :
    Always (faultyEnv D mayFail) (teslaIdentityLoad identity) (World.idle d q) fun t r w' =>
      (∀ e ∈ t, LoadCall D d e.1) ∧
        ∃ d', w' = World.idle d' q ∧ LoadsTo D mayFail d r.1 r.2 d' := by
  refine ((loadPath_spec .bin (teslaIdentityClear identity)).and
    (always_uses (loadPath_uses _ _))).bind ?_
  intro t r w h
  obtain ⟨result, found, legacyRecord⟩ := r
  obtain ⟨⟨rfl, hload⟩, ht⟩ := h
  have hread (e : HalEvent) (he : e ∈ t) : LoadCall D d e.1 := .inl (ht e he)
  generalize hfile : d .bin = file at hload
  cases hload with
  | ok h =>
    simp only [reduceCtorEq, or_self, if_false, Program.pure_eq]
    apply (finish_spec .ok _ legacyRecord _).mono
    intro u _ w h
    obtain ⟨hu, rfl, rfl⟩ := h
    exact ⟨fun e he => (List.mem_append.mp he).elim (hread e) fun he => .inl (hu e he),
      d, rfl, .bin hfile h⟩
  | notFound =>
    simp only [true_or, if_true]
    have hbin : ¬ ValidAt D d .bin := by
      intro h
      obtain ⟨F, hF, -⟩ := h
      simp [hfile] at hF
    apply (load_recover_spec legacyRecord hbin (.inl ⟨rfl, hfile⟩)).mono
    intro u r w h
    obtain ⟨hu, hout⟩ := h
    exact ⟨fun e he => (List.mem_append.mp he).elim (hread e) (hu e), hout⟩
  | corrupt hbad =>
    simp only [or_true, if_true]
    have hbin : ¬ ValidAt D d .bin := by
      intro h
      obtain ⟨F, hF, hv⟩ := h
      obtain rfl := Option.some.inj (hfile.symm.trans hF)
      exact hbad hv
    apply (load_recover_spec legacyRecord hbin (.inr ⟨rfl, by simp [hfile]⟩)).mono
    intro u r w h
    obtain ⟨hu, hout⟩ := h
    exact ⟨fun e he => (List.mem_append.mp he).elim (hread e) (hu e), hout⟩
  | error _ _ hr hf =>
    have hne : ¬ (result = .notFound ∨ result = .corrupt) := by
      rcases hr with rfl | rfl <;> simp
    have hok : result ≠ .ok ∧ result ≠ .notFound := by
      rcases hr with rfl | rfl <;> simp
    simp only [hne, if_false, Program.pure_eq]
    apply (finish_spec result _ legacyRecord _).mono
    intro u _ w h
    obtain ⟨hu, rfl, rfl⟩ := h
    exact ⟨fun e he => (List.mem_append.mp he).elim (hread e) fun he => .inl (hu e he),
      d, rfl, .error _ hok hf⟩

def referenceLoad (D : Device) (d : Disk) : TeslaIdentityLoadResult × TeslaIdentity × Disk :=
  match (d .bin).bind (storedIdentity D), (d .tmp).bind (storedIdentity D) with
  | some identity, _ => (.ok, identity, d)
  | none, some identity => (.ok, identity, d.recovered)
  | none, none =>
    (if d .bin = none ∧ d .tmp = none then .notFound else .corrupt, noIdentity, d)

theorem storedIdentity_bind_eq_none {p : IdentityPath} (h : ¬ ValidAt D d p) :
    (d p).bind (storedIdentity D) = none := by
  cases hp : d p with
  | none => rfl
  | some F => exact storedIdentity_eq_none fun hv => h ⟨F, hp, hv⟩

theorem storedIdentity_bind_eq_some {p : IdentityPath} {F : List UInt8} (hp : d p = some F)
    (h : ValidRecord D F) :
    (d p).bind (storedIdentity D) = some (identityAt D F h.le_length) := by
  rw [hp, Option.bind_some, storedIdentity_eq_some h]

theorem not_faulty_noFailure : ¬ Faulty noFailure := fun ⟨_, h⟩ => h

theorem LoadsTo.reference {r : TeslaIdentityLoadResult} {found : TeslaIdentity} {d' : Disk}
    (h : LoadsTo D noFailure d r found d') : referenceLoad D d = (r, found, d') := by
  cases h with
  | bin hbin h => simp only [referenceLoad, storedIdentity_bind_eq_some hbin h]
  | recovered hbin htmp h =>
    simp only [referenceLoad, storedIdentity_bind_eq_none hbin,
      storedIdentity_bind_eq_some htmp h]
  | retained _ _ _ hf => exact absurd hf not_faulty_noFailure
  | notFound hbin htmp => simp [referenceLoad, hbin, htmp]
  | corrupt hsome hbin htmp =>
    simp only [referenceLoad, storedIdentity_bind_eq_none hbin,
      storedIdentity_bind_eq_none htmp, if_neg hsome]
  | error _ _ hf => exact absurd hf not_faulty_noFailure

def Stored (D : Device) (d : Disk) (identity : TeslaIdentity) : Prop :=
  ∃ p, (d p).bind (storedIdentity D) = some identity

theorem LoadsTo.stored {found : TeslaIdentity} {d' : Disk}
    (h : LoadsTo D mayFail d .ok found d') : Stored D d found := by
  cases h with
  | bin hbin h => exact ⟨.bin, storedIdentity_bind_eq_some hbin h⟩
  | recovered _ htmp h => exact ⟨.tmp, storedIdentity_bind_eq_some htmp h⟩
  | retained _ htmp h => exact ⟨.tmp, storedIdentity_bind_eq_some htmp h⟩
  | error _ hr => exact absurd rfl hr.1

theorem stored_of_reference {found : TeslaIdentity} {d' : Disk}
    (h : referenceLoad D d = (.ok, found, d')) : Stored D d found := by
  unfold referenceLoad at h
  split at h
  · next hbin =>
    cases h
    exact ⟨.bin, hbin⟩
  · next htmp =>
    cases h
    exact ⟨.tmp, htmp⟩
  · split_ifs at h <;> exact nomatch h

theorem load_yields (D : Device) (d : Disk) (q : List TeslaKeyCardNfcEvent)
    (identity : TeslaIdentity) :
    Yields (faultyEnv D noFailure) (teslaIdentityLoad identity) (World.idle d q)
      ((referenceLoad D d).1, (referenceLoad D d).2.1)
      (World.idle (referenceLoad D d).2.2 q) := by
  refine ((load_spec identity).mono ?_).yields (halEnv_total _ _)
  intro _ r _ h
  obtain ⟨result, found⟩ := r
  obtain ⟨-, d', rfl, h⟩ := h
  rw [h.reference]
  exact ⟨rfl, rfl⟩

theorem referenceLoad_idem (D : Device) (d : Disk) :
    referenceLoad D (referenceLoad D d).2.2 = referenceLoad D d := by
  cases hbin : (d .bin).bind (storedIdentity D) with
  | some identity => simp only [referenceLoad, hbin]
  | none =>
    cases htmp : (d .tmp).bind (storedIdentity D) with
    | none => simp only [referenceLoad, hbin, htmp]
    | some identity =>
      have hrec : (d.recovered .bin).bind (storedIdentity D) = some identity := by
        rwa [Disk.recovered, Disk.rename, Disk.write_ne _ (by decide), Disk.write_same]
      simp only [referenceLoad, hbin, htmp, hrec]

theorem load_eq_reference (D : Device) (d : Disk) (q : List TeslaKeyCardNfcEvent)
    (identity identity' : TeslaIdentity) :
    let first := referenceLoad D d
    Yields (faultyEnv D noFailure) (teslaIdentityLoad identity) (World.idle d q)
        (first.1, first.2.1) (World.idle first.2.2 q) ∧
      Yields (faultyEnv D noFailure) (teslaIdentityLoad identity') (World.idle first.2.2 q)
        (first.1, first.2.1) (World.idle first.2.2 q) := by
  have hagain := load_yields D (referenceLoad D d).2.2 q identity'
  rw [referenceLoad_idem] at hagain
  exact ⟨load_yields D d q identity, hagain⟩

end

end FlipperApps.Tesla
