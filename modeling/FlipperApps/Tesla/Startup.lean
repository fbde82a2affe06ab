import FlipperApps.Tesla.Integrity
import FlipperApps.Tesla.KeyCard
import FlipperApps.Tesla.KeyPair

/-!
# Preparing the identity at startup

A stored identity is restored, or the start fails without touching it; only an
empty storage gets a new identity.
-/

namespace FlipperApps.Tesla
open Calls

structure Generated (t : List HalEvent) (identity : TeslaIdentity) : Prop where
  uid : ∃ u, (⟨.furiHalRandomFillBuf 4, u⟩ : HalEvent) ∈ t ∧ identity.uid = stampUid u
  key : KeyGenerated t identity.privateKey

theorem Generated.mono {t u : List HalEvent} {identity : TeslaIdentity}
    (h : Generated t identity) (htu : t ⊆ u) : Generated u identity := by
  obtain ⟨r, hmem, huid⟩ := h.uid
  exact ⟨⟨r, htu hmem, huid⟩, h.key.mono htu⟩

inductive PreparesTo (D : Device) (mayFail : HalCall → Prop) (crypto : TeslaCrypto) (d : Disk)
    (t : List HalEvent) : Bool × TeslaCrypto × TeslaIdentity → Disk → Prop
  | restored {identity : TeslaIdentity} {d' : Disk} (h : LoadsTo D mayFail d .ok identity d')
      (hkey : Accepts D identity.privateKey) :
      PreparesTo D mayFail crypto d t
        (true, crypto.withKey D identity.privateKey.beValue, identity) d'
  | rejected {identity : TeslaIdentity} {c : TeslaCrypto} {d' : Disk}
      (h : LoadsTo D mayFail d .ok identity d') (hsame : c.SameObject crypto)
      (hwhy : Faulty mayFail ∨ ¬ Accepts D identity.privateKey) :
      PreparesTo D mayFail crypto d t (false, c, identity) d'
  | refused {r : TeslaIdentityLoadResult} {identity : TeslaIdentity} {d' : Disk}
      (h : LoadsTo D mayFail d r identity d') (hr : r ≠ .ok ∧ r ≠ .notFound) :
      PreparesTo D mayFail crypto d t (false, crypto, identity) d'
  | fresh {identity : TeslaIdentity} (iv : Bytes 16) (hnone : d .bin = none ∧ d .tmp = none)
      (hgen : Generated t identity) (hkey : Accepts D identity.privateKey) :
      PreparesTo D mayFail crypto d t
        (true, crypto.withKey D identity.privateKey.beValue, identity)
        (Disk.binOnly (newRecord D identity iv).pack.toList)
  | aborted {identity : TeslaIdentity} {c : TeslaCrypto} (d' : Disk)
      (hnone : d .bin = none ∧ d .tmp = none) (hsame : c.SameObject crypto)
      (hf : Faulty mayFail) : PreparesTo D mayFail crypto d t (false, c, identity) d'

section
variable {D : Device} {mayFail : HalCall → Prop} {d : Disk} {q : List TeslaKeyCardNfcEvent}
  {crypto : TeslaCrypto}

theorem LoadsTo.notFound_none {identity : TeslaIdentity} {d' : Disk}
    (h : LoadsTo D mayFail d .notFound identity d') :
    d' = d ∧ d .bin = none ∧ d .tmp = none := by
  cases h with
  | notFound hbin htmp => exact ⟨rfl, hbin, htmp⟩
  | error _ hr => exact absurd rfl hr.2

theorem prepareIdentity_spec (hload : crypto.Loaded D) (identity : TeslaIdentity) :
    Always (faultyEnv D mayFail) (teslaKeyCardPrepareIdentity crypto identity)
      (World.idle d q) fun t r w' =>
        ∃ d', w' = World.idle d' q ∧ PreparesTo D mayFail crypto d t r d' := by
  apply (load_spec identity).bind
  intro t₁ r w h
  obtain ⟨result, found⟩ := r
  obtain ⟨-, d', rfl, hfound⟩ := h
  dsimp only
  split_ifs with hok hnf
  · subst hok
    apply (setPrivateKey_spec hload found.privateKey).bind
    intro t₂ r w h
    obtain ⟨set, c⟩ := r
    rcases h with ⟨rfl, ⟨hkey, ⟨⟩⟩ | ⟨hset, hsame, -, hwhy⟩⟩
    · exact ⟨_, rfl, .restored hfound hkey⟩
    · obtain rfl : set = false := hset
      exact ⟨_, rfl, .rejected hfound hsame hwhy⟩
  · exact ⟨_, rfl, .refused hfound ⟨hok, hnf⟩⟩
  · obtain rfl : result = .notFound := not_not.mp hnf
    obtain ⟨rfl, hnone⟩ := hfound.notFound_none
    simp only [teslaIdentityGenerateUid, hal_eq, Program.call_bind, Program.done_bind,
      Program.pure_eq]
    intro uid w h
    rcases h with rfl | ⟨-, ⟨⟩, -⟩
    apply (generatePrivateKey_spec hload found.privateKey).bind
    intro t₂ r w h
    obtain ⟨generated, c, privateKey⟩ := r
    rcases h with ⟨rfl, ⟨hr, hc, hkey, hgen⟩ | ⟨hr, hsame, -, hf⟩⟩
    · obtain rfl : generated = true := hr
      obtain rfl : c = crypto.withKey D privateKey.beValue := hc
      simp only [Bool.not_true, Bool.false_eq_true, if_false]
      apply ((save_spec _).and (save_success (reported_failing mayFail) _)).bind
      intro t₃ saved w h
      obtain ⟨⟨d'', rfl, hf⟩, hsaved⟩ := h
      rcases saved with _ | _
      · exact ⟨_, rfl, .aborted _ hnone ⟨rfl, rfl, rfl⟩ (hf rfl)⟩
      · obtain ⟨iv, hdisk⟩ := hsaved rfl
        obtain rfl : d'' = _ := hdisk
        have hgenerated : Generated (t₁ ++ ⟨.furiHalRandomFillBuf 4, uid⟩ :: (t₂ ++ (t₃ ++ [])))
            ⟨stampUid uid, privateKey⟩ :=
          ⟨⟨uid, by simp, rfl⟩, hgen.mono fun e he => by simp [show e ∈ t₂ from he]⟩
        exact ⟨_, rfl, .fresh iv hnone hgenerated hkey⟩
    · obtain rfl : generated = false := hr
      exact ⟨_, rfl, .aborted _ hnone hsame hf⟩

theorem LoadsTo.unique {r r' : TeslaIdentityLoadResult} {found found' : TeslaIdentity}
    {d' d'' : Disk} (h : LoadsTo D noFailure d r found d')
    (href : referenceLoad D d = (r', found', d'')) : r = r' ∧ found = found' ∧ d' = d'' := by
  simpa using h.reference.symm.trans href

theorem PreparesTo.of_ok {t : List HalEvent} {r : Bool × TeslaCrypto × TeslaIdentity}
    {found : TeslaIdentity} {d' d'' : Disk} (h : PreparesTo D noFailure crypto d t r d')
    (href : referenceLoad D d = (.ok, found, d'')) (hkey : Accepts D found.privateKey) :
    r = (true, crypto.withKey D found.privateKey.beValue, found) ∧ d' = d'' := by
  cases h with
  | restored hload hkey' =>
    obtain ⟨-, rfl, rfl⟩ := hload.unique href
    exact ⟨rfl, rfl⟩
  | rejected hload hsame hwhy =>
    obtain ⟨-, rfl, rfl⟩ := hload.unique href
    exact absurd hkey (hwhy.resolve_left not_faulty_noFailure)
  | refused hload hr =>
    obtain ⟨rfl, -, -⟩ := hload.unique href
    exact absurd rfl hr.1
  | fresh iv hnone =>
    have hload : LoadsTo D noFailure d _ _ d := .notFound hnone.1 hnone.2
    exact nomatch (hload.unique href).1
  | aborted _ _ _ hf => exact absurd hf not_faulty_noFailure

theorem PreparesTo.of_corrupt {t : List HalEvent} {r : Bool × TeslaCrypto × TeslaIdentity}
    {found : TeslaIdentity} {d' d'' : Disk} (h : PreparesTo D noFailure crypto d t r d')
    (href : referenceLoad D d = (.corrupt, found, d'')) :
    r = (false, crypto, found) ∧ d' = d'' := by
  cases h with
  | restored hload => exact nomatch (hload.unique href).1
  | rejected hload => exact nomatch (hload.unique href).1
  | refused hload hr =>
    obtain ⟨rfl, rfl, rfl⟩ := hload.unique href
    exact ⟨rfl, rfl⟩
  | fresh iv hnone =>
    have hload : LoadsTo D noFailure d _ _ d := .notFound hnone.1 hnone.2
    exact nomatch (hload.unique href).1
  | aborted _ _ _ hf => exact absurd hf not_faulty_noFailure

theorem PreparesTo.of_none {t : List HalEvent} {r : Bool × TeslaCrypto × TeslaIdentity}
    {d' : Disk} (h : PreparesTo D noFailure crypto d t r d')
    (hnone : d .bin = none ∧ d .tmp = none) : r.1 = true ∧ Generated t r.2.2 := by
  have hload : LoadsTo D noFailure d _ _ d := .notFound hnone.1 hnone.2
  have href := hload.reference
  cases h with
  | restored hload => exact nomatch (hload.unique href).1
  | rejected hload => exact nomatch (hload.unique href).1
  | refused hload hr =>
    obtain ⟨rfl, -, -⟩ := hload.unique href
    exact absurd rfl hr.2
  | fresh iv _ hgen => exact ⟨rfl, hgen⟩
  | aborted _ _ _ hf => exact absurd hf not_faulty_noFailure

/-- The calls that generate a key or an identifier, that remove or write a file,
or that begin a save: a save starts with a random IV. -/
def ReplacesIdentity : HalCall → Prop
  | .furiHalRandomFillBuf _ => True
  | .ecpGenPrivkey _ => True
  | .storageCommonRemove _ => True
  | .storageFileOpen _ mode => mode = .createAlways
  | .storageFileWrite _ => True
  | _ => False

/-- A call that makes no identity, and recovers only a valid staged file in
place of no valid identity file. -/
def Restoring (D : Device) (d : Disk) (c : HalCall) : Prop :=
  ¬ ReplacesIdentity c ∧ ∀ p q, c = .storageCommonRename p q →
    p = .tmp ∧ q = .bin ∧ ValidAt D d .tmp ∧ ¬ ValidAt D d .bin

theorem LoadCall.restoring {c : HalCall} (h : LoadCall D d c) : Restoring D d c := by
  rcases h with h | ⟨rfl, h⟩
  · cases c with
    | storageFileOpen p mode =>
      obtain rfl : mode = .readExisting := h
      exact ⟨nofun, nofun⟩
    | storageCommonRename => exact h.elim
    | furiHalRandomFillBuf => exact h.elim
    | ecpGenPrivkey => exact h.elim
    | storageCommonRemove => exact h.elim
    | storageFileWrite => exact h.elim
    | _ => exact ⟨id, nofun⟩
  · refine ⟨id, ?_⟩
    intro p q h
    cases h
    exact ⟨rfl, rfl, h⟩

theorem KeyCall.restoring {c : HalCall} (h : KeyCall c) : Restoring D d c := by
  cases c with
  | furiLog => exact ⟨id, nofun⟩
  | mpiReadBinary => exact ⟨id, nofun⟩
  | ecpCheckPrivkey => exact ⟨id, nofun⟩
  | ecpMul => exact ⟨id, nofun⟩
  | ecpPointWriteBinary => exact ⟨id, nofun⟩
  | _ => exact h.elim

theorem LoadsTo.disk {r : TeslaIdentityLoadResult} {identity : TeslaIdentity} {d' : Disk}
    (h : LoadsTo D mayFail d r identity d') :
    d' = d ∨ d' = d.recovered ∧ ValidAt D d .tmp ∧ ¬ ValidAt D d .bin := by
  cases h with
  | recovered hbin htmp hv => exact .inr ⟨rfl, ⟨_, htmp, hv⟩, hbin⟩
  | bin | retained | notFound | corrupt | error => exact .inl rfl

theorem prepare_restoring (crypto : TeslaCrypto) (identity : TeslaIdentity)
    (hpresent : ¬ (d .bin = none ∧ d .tmp = none)) :
    Always (faultyEnv D mayFail) (teslaKeyCardPrepareIdentity crypto identity)
      (World.idle d q) fun t _ w' => (∀ e ∈ t, Restoring D d e.1) ∧
        (w'.disk = d ∨ w'.disk = d.recovered ∧ ValidAt D d .tmp ∧ ¬ ValidAt D d .bin) := by
  apply (load_spec identity).bind
  intro t r w h
  obtain ⟨result, found⟩ := r
  obtain ⟨ht, d', rfl, hfound⟩ := h
  dsimp only
  split_ifs with hok hnf
  · apply (setPrivateKey_keeps crypto found.privateKey _).bind
    intro u r w h
    obtain ⟨set, c⟩ := r
    obtain ⟨rfl, hu⟩ := h
    refine ⟨fun e he => ?_, hfound.disk⟩
    simp only [List.append_nil, List.mem_append] at he
    rcases he with he | he
    · exact (ht e he).restoring
    · exact (hu e he).restoring
  · refine ⟨fun e he => ?_, hfound.disk⟩
    rw [List.append_nil] at he
    exact (ht e he).restoring
  · obtain rfl : result = .notFound := not_not.mp hnf
    exact absurd hfound.notFound_none.2 hpresent

theorem prepare_keeps_identity (D : Device) (mayFail : HalCall → Prop) (crypto : TeslaCrypto)
    (identity : TeslaIdentity) (d : Disk) (q : List TeslaKeyCardNfcEvent)
    (hpresent : ¬ (d .bin = none ∧ d .tmp = none)) :
    Always (faultyEnv D mayFail) (teslaKeyCardPrepareIdentity crypto identity)
      (World.idle d q) fun t _ w' => (∀ e ∈ t, Restoring D d e.1) ∧
        (w'.disk = d ∨ w'.disk = d.recovered ∧ ValidAt D d .tmp ∧ ¬ ValidAt D d .bin) ∧
        (ValidAt D d .bin → w'.disk .bin = d .bin) := by
  apply (prepare_restoring crypto identity hpresent).mono
  intro t r w' h
  obtain ⟨ht, hdisk⟩ := h
  refine ⟨ht, hdisk, fun hbin => ?_⟩
  rcases hdisk with hsame | ⟨-, -, hbad⟩
  · rw [hsame]
  · exact absurd hbin hbad

end

theorem sampleIdentity_accepted : Accepts plainDevice sampleIdentity.privateKey :=
  accepts_beBytes ⟨Nat.le_refl 1, plainDevice.order_gt⟩

def tornDisk : Disk := (Disk.binOnly []).write .tmp
  (some (newRecord plainDevice sampleIdentity (Bytes.zero 16)).pack.toList)

theorem prepare_keeps_identity_torn :
    ∃ t r w', Executes (faultyEnv plainDevice noFailure)
        (teslaKeyCardPrepareIdentity plainCrypto noIdentity) (World.idle tornDisk []) t r w' ∧
      r.2.2 = sampleIdentity ∧ w'.disk .bin = tornDisk .tmp ∧
      (∀ e ∈ t, Restoring plainDevice tornDisk e.1) ∧
      (w'.disk = tornDisk ∨ w'.disk = tornDisk.recovered ∧ ValidAt plainDevice tornDisk .tmp ∧
        ¬ ValidAt plainDevice tornDisk .bin) ∧
      (ValidAt plainDevice tornDisk .bin → w'.disk .bin = tornDisk .bin) := by
  have hempty : tornDisk .bin = some [] := Disk.write_ne _ (by decide) _
  have hpresent : ¬ (tornDisk .bin = none ∧ tornDisk .tmp = none) :=
    fun h => Option.some_ne_none _ (hempty.symm.trans h.1)
  have hstaged : tornDisk .tmp =
      some (newRecord plainDevice sampleIdentity (Bytes.zero 16)).pack.toList :=
    Disk.write_same _ _ _
  have hbin : ¬ ValidAt plainDevice tornDisk .bin := by
    rintro ⟨F, hF, hvalid⟩
    obtain rfl := Option.some.inj (hempty.symm.trans hF)
    exact absurd hvalid.le_length (by simp)
  have href : referenceLoad plainDevice tornDisk = (.ok, sampleIdentity, tornDisk.recovered) := by
    rw [referenceLoad, storedIdentity_bind_eq_none hbin,
      storedIdentity_bind_eq_some hstaged (.inl (newRecord_valid _ _ _)), newRecord_identityAt]
  obtain ⟨t, r, w', hx⟩ := exists_works (D := plainDevice)
    (teslaKeyCardPrepareIdentity plainCrypto noIdentity) (World.idle tornDisk [])
  obtain ⟨d', rfl, hprepared⟩ :=
    always_iff.mp (prepareIdentity_spec plainCrypto_loaded noIdentity) _ _ _ hx
  obtain ⟨rfl, rfl⟩ := hprepared.of_ok href sampleIdentity_accepted
  refine ⟨t, _, _, hx, rfl, ?_, always_iff.mp (prepare_keeps_identity plainDevice noFailure
    plainCrypto noIdentity tornDisk [] hpresent) _ _ _ hx⟩
  change tornDisk.recovered .bin = tornDisk .tmp
  rw [Disk.recovered, Disk.rename, Disk.write_ne _ (by decide), Disk.write_same]

end FlipperApps.Tesla
