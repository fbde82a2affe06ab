import FlipperApps.Calls.Rules
import FlipperApps.MfcNdef.Layout

/-! The format run of `ndef_format.c` as a program over the poller calls, the
stop flag and the progress callback. -/

namespace FlipperApps.MfcNdef
open Calls Mifare

inductive MfClassicError
  | none
  | notPresent
  | timeout
  | other (code : ℕ)
  deriving DecidableEq

inductive MfClassicType
  | mini
  | type1k
  | type4k
  deriving DecidableEq

inductive FormatCall
  | detectType
  | auth (block : Fin 64) (key : Key) (type : KeyType)
  | writeBlock (block : Fin 64) (key : Key) (type : KeyType) (data : Block)
  | readStop
  | progress (block : Fin 64)

abbrev FormatCall.Reply : FormatCall → Type
  | .detectType => MfClassicError × MfClassicType
  | .auth .. => MfClassicError
  | .writeBlock .. => MfClassicError
  | .readStop => Bool
  | .progress _ => Unit

abbrev FormatInterface : Interface := ⟨FormatCall, FormatCall.Reply⟩
abbrev FormatProgram := Program FormatInterface

section
variable {β : Type}

def mfClassicPollerSyncDetectType : FormatProgram (MfClassicError × MfClassicType) :=
  Program.perform (I := FormatInterface) .detectType

def mfClassicPollerSyncAuth (block : Fin 64) (key : Key) (type : KeyType) :
    FormatProgram MfClassicError :=
  Program.perform (I := FormatInterface) (.auth block key type)

def mfClassicPollerSyncWriteBlock (block : Fin 64) (key : Key) (type : KeyType)
    (data : Block) : FormatProgram MfClassicError :=
  Program.perform (I := FormatInterface) (.writeBlock block key type data)

def readStop : FormatProgram Bool := Program.perform (I := FormatInterface) .readStop

def progressCb (block : Fin 64) : FormatProgram Unit :=
  Program.perform (I := FormatInterface) (.progress block)

@[simp] theorem detectType_bind (f : MfClassicError × MfClassicType → FormatProgram β) :
    (mfClassicPollerSyncDetectType >>= f) = .call .detectType f := rfl

@[simp] theorem auth_bind {b : Fin 64} {key : Key} {type : KeyType}
    (f : MfClassicError → FormatProgram β) :
    (mfClassicPollerSyncAuth b key type >>= f) = .call (.auth b key type) f := rfl

@[simp] theorem writeBlock_bind {b : Fin 64} {key : Key} {type : KeyType} {data : Block}
    (f : MfClassicError → FormatProgram β) :
    (mfClassicPollerSyncWriteBlock b key type data >>= f) =
      .call (.writeBlock b key type data) f := rfl

@[simp] theorem readStop_bind (f : Bool → FormatProgram β) :
    (readStop >>= f) = .call .readStop f := rfl

@[simp] theorem progressCb_bind {b : Fin 64} (f : Unit → FormatProgram β) :
    (progressCb b >>= f) = .call (.progress b) f := rfl

end

inductive MfcNdefResult
  | ok
  | noCard
  | notClassic1k
  | writeFailed
  | canceled
  deriving DecidableEq

/-- The parameters and the output of one run; a flag says whether the optional
pointer is there. -/
structure MfcNdefFormat where
  progressCb : Bool
  stop : Bool
  failBlock : ℕ
  deriving DecidableEq

def mfcNdefReportProgress (fmt : MfcNdefFormat) (b : Fin 64) : FormatProgram Unit :=
  if fmt.progressCb then progressCb b else pure ()

def mfcNdefStopRequested (fmt : MfcNdefFormat) : FormatProgram Bool :=
  if fmt.stop then readStop else pure false

/-- Key B is tried first; the error of its attempt is dropped when key A is tried. -/
def mfcNdefWriteEitherKey (b : Fin 64) (keyA keyB : Key) (bytes : Block) :
    FormatProgram MfClassicError := do
  let werr ← mfClassicPollerSyncWriteBlock b keyB .b bytes
  if werr ≠ .none then mfClassicPollerSyncWriteBlock b keyA .a bytes else return werr

def mfcNdefFinishBlock (fmt : MfcNdefFormat) (b : Fin 64) (werr : MfClassicError) :
    FormatProgram (Option (MfcNdefResult × MfcNdefFormat)) :=
  if werr ≠ .none then
    if werr = .notPresent ∨ werr = .timeout then
      return some (.noCard, { fmt with failBlock := b })
    else return some (.writeFailed, { fmt with failBlock := b })
  else do
    mfcNdefReportProgress fmt b
    return none

/-- One round of the main loop: an early return, or `none` to go on. -/
def mfcNdefFormatBlock (fmt : MfcNdefFormat) (alreadyFormatted : Bool) (b : Fin 64) :
    FormatProgram (Option (MfcNdefResult × MfcNdefFormat)) := do
  let stop ← mfcNdefStopRequested fmt
  if stop then
    return some (.canceled, fmt)
  else if !(mfcNdefBuildBlock b).1 then do
    mfcNdefReportProgress fmt b
    return none
  else do
    let keys := mfcNdefSectorKeys alreadyFormatted (mfcNdefSectorOfBlock b)
    let werr ← mfcNdefWriteEitherKey b keys.1 keys.2 (mfcNdefBuildBlock b).2
    mfcNdefFinishBlock fmt b werr

def mfcNdefFormatRun (fmt : MfcNdefFormat) : FormatProgram (MfcNdefResult × MfcNdefFormat) := do
  let (err, type) ← mfClassicPollerSyncDetectType
  if err ≠ .none then
    return (.noCard, fmt)
  if type ≠ .type1k then
    return (.notClassic1k, fmt)
  -- Sector 0 alone decides on the key set of every sector.
  let auth ← mfClassicPollerSyncAuth 0 (mfcNdefSectorKeys true 0).1 .a
  let alreadyFormatted := auth == .none
  match ← Program.firstSome (mfcNdefFormatBlock fmt alreadyFormatted) (List.finRange 64) with
  | some early => return early
  | none => return (.ok, fmt)

/-! What a run may call: a set of calls that contains the two optional ones and
the template writes contains every call of a round. -/

section
variable {allowed : FormatCall → Prop} {fmt : MfcNdefFormat} {alreadyFormatted : Bool}
  {b : Fin 64}

theorem reportProgress_uses (hprogress : ∀ x, allowed (.progress x)) :
    (mfcNdefReportProgress fmt b).Uses allowed := by
  unfold mfcNdefReportProgress
  split_ifs
  · exact ⟨hprogress b, fun _ => trivial⟩
  · trivial

theorem stopRequested_uses (hstop : allowed .readStop) :
    (mfcNdefStopRequested fmt).Uses allowed := by
  unfold mfcNdefStopRequested
  split_ifs
  · exact ⟨hstop, fun _ => trivial⟩
  · trivial

theorem writeEitherKey_uses {keyA keyB : Key} {bytes : Block}
    (hwrite : ∀ key type, allowed (.writeBlock b key type bytes)) :
    (mfcNdefWriteEitherKey b keyA keyB bytes).Uses allowed := by
  rw [mfcNdefWriteEitherKey, writeBlock_bind]
  refine ⟨hwrite _ _, fun werr => ?_⟩
  dsimp only
  split_ifs
  · exact ⟨hwrite _ _, fun _ => trivial⟩
  · trivial

theorem finishBlock_uses (hprogress : ∀ x, allowed (.progress x)) (werr : MfClassicError) :
    (mfcNdefFinishBlock fmt b werr).Uses allowed := by
  unfold mfcNdefFinishBlock
  split_ifs
  · trivial
  · trivial
  · exact Program.uses_bind (reportProgress_uses hprogress) fun _ => trivial

theorem formatBlock_uses (hstop : allowed .readStop) (hprogress : ∀ x, allowed (.progress x))
    (hwrite : b ≠ 0 → ∀ key type, allowed (.writeBlock b key type (mfcNdefBuildBlock b).2)) :
    (mfcNdefFormatBlock fmt alreadyFormatted b).Uses allowed := by
  apply Program.uses_bind (stopRequested_uses hstop)
  intro stop
  split_ifs with hcancel hskip
  · trivial
  · exact Program.uses_bind (reportProgress_uses hprogress) fun _ => trivial
  · have hb : b ≠ 0 := (buildBlock_fst b).mp (by simpa using hskip)
    exact Program.uses_bind (writeEitherKey_uses (hwrite hb)) fun _ => finishBlock_uses hprogress _

end

end FlipperApps.MfcNdef
