import FlipperApps.Tesla.Screen
import FlipperApps.Text.Printf

/-!
# What the main screen of the key card shows

The draw callback writes the state, the identifier, the counters and the time of
the last calculation. Between any two events the identifier it writes is the one that
the NFC object answers with, and it is never cut.
-/

namespace FlipperApps.Tesla
open Calls Text

inductive Font
  | primary
  | secondary
  deriving DecidableEq

inductive CanvasCall
  | clear
  | setFont (font : Font)
  | drawStr (x y : ℕ) (text : String)
  | buttonLeft (text : String)
  | buttonCenter (text : String)
  deriving DecidableEq

def teslaKeyCardStateText : TeslaUiState → String
  | .initializing => "Starting..."
  | .ready => "Ready - present to Tesla"
  | .present => "Tesla is reading card"
  | .authenticated => "Authenticated"
  | .error => "Error - check logs or reset"
  | .resetting => "Generating new key..."

def uidText (uid : Bytes 4) : String :=
  snprintf 20 "UID: %02X %02X %02X %02X" (uid.toList.map UInt8.toNat)

def statsText (sessions authentications : UInt32) : String :=
  snprintf 32 "Sessions %lu  Auth %lu" [sessions.toNat, authentications.toNat]

def timingText (lastCryptoTimeMs : UInt16) : String :=
  snprintf 32 "Last ECDH: %u ms" [lastCryptoTimeMs.toNat]

def teslaKeyCardDrawCallback (model : TeslaKeyCardViewModel) : List CanvasCall :=
  [.clear, .setFont .primary, .drawStr 4 11 "Tesla Key Card", .setFont .secondary,
    .drawStr 4 23 (teslaKeyCardStateText model.state), .drawStr 4 35 (uidText model.uid),
    .drawStr 4 47 (statsText model.sessions model.authentications)] ++
  (if model.lastCryptoTimeMs ≠ 0 then [.drawStr 4 58 (timingText model.lastCryptoTimeMs)]
    else []) ++
  [.buttonLeft "Exit", .buttonCenter "Reset"]

def linesAt (y : ℕ) (calls : List CanvasCall) : List String :=
  calls.filterMap fun call => match call with
    | .drawStr _ y' text => if y' = y then some text else none
    | _ => none

/-- The number that the counters line has room for. -/
def shownAuthentications (model : TeslaKeyCardViewModel) : ℕ :=
  model.authentications.toNat / 10 ^ ((decimal model.sessions.toNat).length +
    (decimal model.authentications.toNat).length - 15)

/-- The lines name what is answered with and what runs. Only the authentications may
be cut: of both numbers together fifteen digits are shown. -/
structure DrawsTruly (a : AppState) : Prop where
  uid : ∀ nfc, a.1.nfc = some nfc →
    (linesAt 35 (teslaKeyCardDrawCallback a.1.model)).map (readsAs "UID: %02X %02X %02X %02X") =
      [some (nfc.uid.toList.map UInt8.toNat)]
  state : a.1.screen = .main → ∀ state : TeslaUiState, state.Serving →
    teslaKeyCardStateText state ∈ linesAt 23 (teslaKeyCardDrawCallback a.1.model) → Serves a
  stats : (linesAt 47 (teslaKeyCardDrawCallback a.1.model)).map
      (readsAs "Sessions %lu  Auth %lu") =
    [some [a.1.model.sessions.toNat, shownAuthentications a.1.model]]
  timing : (linesAt 58 (teslaKeyCardDrawCallback a.1.model)).map (readsAs "Last ECDH: %u ms") =
    if a.1.model.lastCryptoTimeMs ≠ 0 then [some [a.1.model.lastCryptoTimeMs.toNat]] else []

section
variable {model : TeslaKeyCardViewModel}

theorem linesAt_draw :
    linesAt 23 (teslaKeyCardDrawCallback model) = [teslaKeyCardStateText model.state] ∧
    linesAt 35 (teslaKeyCardDrawCallback model) = [uidText model.uid] ∧
    linesAt 47 (teslaKeyCardDrawCallback model) =
      [statsText model.sessions model.authentications] ∧
    linesAt 58 (teslaKeyCardDrawCallback model) =
      if model.lastCryptoTimeMs ≠ 0 then [timingText model.lastCryptoTimeMs] else [] := by
  unfold teslaKeyCardDrawCallback
  split_ifs
  · exact ⟨rfl, rfl, rfl, rfl⟩
  · exact ⟨rfl, rfl, rfl, rfl⟩

theorem stateText_injective : Function.Injective teslaKeyCardStateText := by
  intro state state' h
  cases state <;> cases state' <;> first | rfl | exact absurd h (by decide)

theorem length_hexByte (x : UInt8) : (hexByte x.toNat).length = 2 := by
  obtain ⟨a, b, hab, -⟩ := scanHex_hexByte ⟨x.toNat, x.toNat_lt⟩
  rw [hab]
  rfl

theorem uidText_reads (uid : Bytes 4) :
    readsAs "UID: %02X %02X %02X %02X" (uidText uid) = some (uid.toList.map UInt8.toNat) := by
  obtain ⟨bytes, hbytes⟩ := uid
  match bytes, hbytes with
  | [a, b, c, d], _ =>
    have hwhole : (printed (pieces "UID: %02X %02X %02X %02X".toList)
        [a.toNat, b.toNat, c.toNat, d.toNat]).length < 20 := by
      simp [pieces, printed, length_hexByte]
    rw [uidText, List.map_cons, List.map_cons, List.map_cons, List.map_cons, List.map_nil]
    refine readsAs_snprintf ?_ ?_ hwhole
    · simp [pieces, Separated]
    · simpa [pieces, Fits] using
        And.intro a.toNat_lt (And.intro b.toNat_lt (And.intro c.toNat_lt d.toNat_lt))

theorem timingText_reads (ms : UInt16) :
    readsAs "Last ECDH: %u ms" (timingText ms) = some [ms.toNat] := by
  have hdigits : (decimal ms.toNat).length ≤ 5 :=
    (length_decimal_le (by decide)).mpr (ms.toNat_lt.trans (by decide))
  have hwhole : (printed (pieces "Last ECDH: %u ms".toList) [ms.toNat]).length < 32 := by
    simp [pieces, printed]
    omega
  rw [timingText]
  refine readsAs_snprintf ?_ ?_ hwhole
  · simp [pieces, Separated, Piece.IsDigit]
  · simp [pieces, Fits]

theorem statsText_reads :
    readsAs "Sessions %lu  Auth %lu" (statsText model.sessions model.authentications) =
      some [model.sessions.toNat, shownAuthentications model] := by
  have hsessions : (decimal model.sessions.toNat).length ≤ 10 :=
    (length_decimal_le (by decide)).mpr (model.sessions.toNat_lt.trans (by decide))
  have hprinted (authentications : ℕ) : printed (pieces "Sessions %lu  Auth %lu".toList)
      [model.sessions.toNat, authentications] = ("Sessions ".toList ++
        (decimal model.sessions.toNat ++ "  Auth ".toList)) ++ decimal authentications := by
    simp [pieces, printed]
  have hcut : (decimal model.authentications.toNat).take
      (15 - (decimal model.sessions.toNat).length) = decimal (shownAuthentications model) := by
    rcases Nat.le_total (decimal model.authentications.toNat).length
      (15 - (decimal model.sessions.toNat).length) with hle | hle
    · rw [List.take_of_length_le hle, shownAuthentications, Nat.sub_eq_zero_of_le (by omega)]
      simp
    · rw [decimal_take (by omega) hle, shownAuthentications]
      congr 3
      omega
  have htext : (statsText model.sessions model.authentications).toList =
      printed (pieces "Sessions %lu  Auth %lu".toList)
        [model.sessions.toNat, shownAuthentications model] := by
    rw [statsText, snprintf, hprinted, hprinted, String.toList_ofList, List.take_append,
      List.take_of_length_le, ← hcut]
    · congr 2
      simp
    · simp
      omega
  rw [readsAs, htext]
  apply scan_printed
  · simp [pieces, Separated, Piece.IsDigit]
  · simp [pieces, Fits]

end

section
variable {D : Device} {mayFail : HalCall → Prop} {a a' : AppState} {l : AppLabel}

theorem AppStep.shown (h : AppStep D mayFail a l a') (ha : ShownUid a.1) : ShownUid a'.1 := by
  cases h with
  | worker => exact ha
  | tick hx =>
    obtain ⟨model, rfl, huid⟩ :=
      always_iff.mp (always_returns (takeNfcEvents_returns _ _)) _ _ _ hx
    exact fun nfc hnfc => (ha nfc hnfc).trans huid.symm
  | custom hx =>
    exact (always_iff.mp (always_returns (customEvent_returns _ _)) _ _ _ hx).2.2 ha
  | navigation => exact ha

theorem drawn_screen_is_true {d : Disk} {t : List HalEvent} {a₀ : AppState} {labels : List AppLabel}
    (hstart : Starts D mayFail d t a₀) (hrun : Run (AppStep D mayFail) a₀ labels a) :
    DrawsTruly a := by
  have hshown : ShownUid a.1 := by
    have hfirst : ShownUid a₀.1 := (always_iff.mp (always_returns start_returns) _ _ _ hstart).2
    exact @Run.invariant _ _ _ _ _ _ (fun _ a => ShownUid a.1) hrun hfirst
      fun _ _ _ _ ha hstep => hstep.shown ha
  obtain ⟨hstate, huid, hstats, htiming⟩ := @linesAt_draw a.1.model
  constructor
  · intro nfc hnfc
    rw [huid, hshown nfc hnfc]
    exact congrArg (fun r => [r]) (uidText_reads _)
  · intro hscreen state hserving hmem
    rw [hstate, List.mem_singleton] at hmem
    obtain rfl := stateText_injective hmem
    have hbetween := run_between hrun hstart.between
    obtain ⟨m, hsettled, -⟩ := id hbetween
    exact hbetween.serves (hsettled.shows hscreen hserving) hscreen
  · rw [hstats]
    exact congrArg (fun r => [r]) statsText_reads
  · rw [htiming]
    split_ifs with htime
    · exact congrArg (fun r => [r]) (timingText_reads _)
    · rfl

end

theorem drawn_screen_is_true_reset :
    ∃ t a₀ t₁ t₂ a, Starts plainDevice noFailure twinDisk t a₀ ∧
      Run (AppStep plainDevice noFailure) a₀ [.custom teslaAppEventResetRequest true t₁,
        .custom teslaAppEventResetConfirm true t₂] a ∧
      a.1.screen = .main ∧ a.1.nfc.isSome = true ∧ DrawsTruly a := by
  obtain ⟨t, a₀, t₁, t₂, a, hstart, -, hrun, hmain, hnfc⟩ := exists_reset_twin
  exact ⟨t, a₀, t₁, t₂, a, hstart, hrun, hmain, hnfc, drawn_screen_is_true hstart hrun⟩

end FlipperApps.Tesla
