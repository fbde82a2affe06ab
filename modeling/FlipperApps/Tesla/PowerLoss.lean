import FlipperApps.Calls.Interruption
import FlipperApps.Tesla.KeyPair
import FlipperApps.Tesla.Recovery

/-!
# Losing the power

A program may stop before or after any call, and in the middle of a write. Most
calls leave the two files as they are, and so do the programs made of them,
wherever they stop.
-/

namespace FlipperApps.Tesla
open Calls

/-- The power may go in the middle of a write, with some of the bytes down. -/
def powerLoss (w : World) : HalCall → World → Prop
  | .storageFileWrite data, w' => match w.file with
    | none => False
    | some f => ∃ n, w' = w.write f (data.take n)
  | _, _ => False

def KeepsDisk : HalCall → Prop
  | .storageCommonRemove _ => False
  | .storageCommonRename .. => False
  | .storageFileOpen _ mode => mode = .readExisting
  | .storageFileWrite _ => False
  | _ => True

section
variable {D : Device} {mayFail : HalCall → Prop} {w w' : World} {c : HalCall}

theorem KeepsDisk.works {r : c.Reply} (h : KeepsDisk c) (hw : Works D w c r w') :
    w'.disk = w.disk := by
  cases c with
  | storageCommonRemove | storageCommonRename | storageFileWrite => exact h.elim
  | storageFileOpen p mode =>
    obtain rfl : mode = .readExisting := h
    simp only [Works] at hw
    split_ifs at hw
    · rw [hw.1]
    · rw [hw.1]
  | enclaveLoadKey iv =>
    simp only [Works] at hw
    split at hw
    · rw [hw.1]
    · rw [hw.1]
  | furiLog | furiHalRandomFillBuf | freeCrypto | publicKeyAtNull | mallocNfc | freeNfc |
      nfcListenerStart | nfcListenerStop | nfcListenerFree =>
    obtain rfl : w' = w := hw
    rfl
  | storageFileRead size => rw [hw.2]
  | _ => rw [hw.1]

theorem KeepsDisk.kept (h : KeepsDisk c) (hk : Kept w c w') : w'.disk = w.disk := by
  cases c with
  | storageFileWrite => exact h.elim
  | _ =>
    simp only [Kept] at hk
    rw [hk]

theorem KeepsDisk.disk_eq {r : c.Reply} (h : KeepsDisk c)
    (hE : faultyEnv D mayFail w c r w') : w'.disk = w.disk :=
  hE.elim h.works fun hf => h.kept hf.2.2

theorem KeepsDisk.not_powerLoss (h : KeepsDisk c) : ¬ powerLoss w c w' := by
  cases c with
  | storageFileWrite => exact h.elim
  | _ => exact id

theorem ReadCall.keepsDisk (h : ReadCall c) : KeepsDisk c := by
  cases c with
  | storageFileOpen => exact h
  | storageCommonRemove | storageCommonRename | storageFileWrite => exact h.elim
  | _ => trivial

theorem KeyCall.keepsDisk (h : KeyCall c) : KeepsDisk c := by
  cases c with
  | storageFileOpen | storageCommonRemove | storageCommonRename | storageFileWrite => exact h.elim
  | _ => trivial

theorem throughout_keepsDisk {α : Type} {p : HalProgram α} {P : Disk → Prop} (hs : P w.disk)
    (hp : p.Uses KeepsDisk) :
    Throughout (faultyEnv D mayFail) powerLoss p w fun w' => P w'.disk := by
  refine throughout_of_uses (Q := fun w' : World => P w'.disk) hs ?_ ?_ hp
  · exact fun s c s' hc _ hd => absurd hd hc.not_powerLoss
  · intro s c r s' hc hP hE
    rwa [hc.disk_eq hE]

theorem throughout_call_keepsDisk {α : Type} {next : c.Reply → HalProgram α} {P : Disk → Prop}
    (hc : KeepsDisk c) (hs : P w.disk)
    (hnext : ∀ r w', w'.disk = w.disk →
      Throughout (faultyEnv D mayFail) powerLoss (next r) w' fun w' => P w'.disk) :
    Throughout (faultyEnv D mayFail) powerLoss (.call c next) w fun w' => P w'.disk :=
  ⟨hs, fun _ hd => absurd hd hc.not_powerLoss, fun r w' hE => hnext r w' (hc.disk_eq hE)⟩

end

def LoadingCall (c : HalCall) : Prop := KeepsDisk c ∨ c = .storageCommonRename .tmp .bin

theorem ReadCall.loading {c : HalCall} (h : ReadCall c) : LoadingCall c := .inl h.keepsDisk

section
variable {allowed : HalCall → Prop}

theorem recover_uses (hread : ∀ c, ReadCall c → allowed c)
    (hrename : allowed (.storageCommonRename .tmp .bin)) (result : TeslaIdentityLoadResult)
    (identity : TeslaIdentity) (legacyRecord : Bool) :
    (teslaIdentityRecover result identity legacyRecord).Uses allowed := by
  refine Program.uses_bind ((loadPath_uses _ _).mono hread) ?_
  intro r
  obtain ⟨temporaryResult, found, temporaryLegacyRecord⟩ := r
  simp only [hal_eq, Program.call_bind, Program.done_bind, Program.pure_eq]
  split_ifs
  · refine ⟨hrename, fun error => ?_⟩
    dsimp only
    split_ifs
    · exact ⟨hread (.furiLog ..) trivial, fun _ => trivial⟩
    · trivial
  · trivial
  · trivial

theorem load_uses (hread : ∀ c, ReadCall c → allowed c)
    (hrename : allowed (.storageCommonRename .tmp .bin)) (identity : TeslaIdentity) :
    (teslaIdentityLoad identity).Uses allowed := by
  have hfinish (result : TeslaIdentityLoadResult) (found : TeslaIdentity) (legacyRecord : Bool) :
      (teslaIdentityWarnLegacy result legacyRecord >>= fun _ =>
        .done (result, found)).Uses allowed :=
    Program.uses_bind ((warnLegacy_uses _ _).mono hread) fun _ => trivial
  refine Program.uses_bind ((loadPath_uses _ _).mono hread) ?_
  intro r
  obtain ⟨result, found, legacyRecord⟩ := r
  dsimp only
  split_ifs
  · exact Program.uses_bind (recover_uses hread hrename _ _ _) fun _ => hfinish _ _ _
  · exact hfinish _ _ _

theorem generatePrivateKey_uses (hkey : ∀ c, KeyCall c → allowed c)
    (hgenerate : ∀ group, allowed (.ecpGenPrivkey group))
    (hwrite : ∀ value, allowed (.mpiWriteBinary value)) (crypto : TeslaCrypto) (key : Bytes 32) :
    (teslaCryptoGeneratePrivateKey crypto key).Uses allowed := by
  simp only [teslaCryptoGeneratePrivateKey, hal_eq, Program.call_bind, Program.done_bind,
    Program.pure_eq]
  refine ⟨hgenerate _, fun r => ?_⟩
  dsimp only
  split
  · refine ⟨hwrite _, fun r => ?_⟩
    dsimp only
    split_ifs
    · exact ⟨hkey (.furiLog ..) trivial, fun _ => trivial⟩
    · exact Program.uses_bind ((setPrivateKey_uses _ _).mono hkey) fun _ => trivial
  · exact ⟨hkey (.furiLog ..) trivial, fun _ => trivial⟩

end

end FlipperApps.Tesla
