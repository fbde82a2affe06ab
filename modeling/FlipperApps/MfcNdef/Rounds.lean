import FlipperApps.MfcNdef.Format

/-!
# The rounds of a format run

What one round of the main loop may do in any environment, said once: it is
canceled, skips block 0, writes its block with one of the two keys, or ends the
run with both attempts failed.
-/

namespace FlipperApps.MfcNdef
open Calls Mifare
variable {σ : Type}

abbrev FormatEvent := Event FormatInterface

def attemptCall (formatted : Bool) (b : Fin 64) : KeyType → FormatCall
  | .a => .writeBlock b (mfcNdefSectorKeys formatted (mfcNdefSectorOfBlock b)).1 .a
    (mfcNdefBuildBlock b).2
  | .b => .writeBlock b (mfcNdefSectorKeys formatted (mfcNdefSectorOfBlock b)).2 .b
    (mfcNdefBuildBlock b).2

def attemptEvent (formatted : Bool) (b : Fin 64) (error : MfClassicError) : KeyType → FormatEvent
  | .a => ⟨attemptCall formatted b .a, error⟩
  | .b => ⟨attemptCall formatted b .b, error⟩

inductive Optionally (E : Environment FormatInterface σ) (given : Bool) (c : FormatCall)
    (r : c.Reply) : σ → List FormatEvent → σ → Prop where
  | omitted (hgiven : given = false) (s : σ) : Optionally E given c r s [] s
  | made {s s' : σ} (hgiven : given = true) (hE : E s c r s') :
      Optionally E given c r s [⟨c, r⟩] s'

/-- Key A is tried only where key B has failed; the error is that of the last attempt. -/
inductive Attempts (E : Environment FormatInterface σ) (formatted : Bool) (b : Fin 64) :
    σ → List FormatEvent → MfClassicError → σ → Prop where
  | keyB {s s' : σ} (hE : E s (attemptCall formatted b .b) MfClassicError.none s') :
      Attempts E formatted b s [attemptEvent formatted b .none .b] .none s'
  | keyA {s s₁ s' : σ} {error werr : MfClassicError} (herror : error ≠ .none)
      (hB : E s (attemptCall formatted b .b) error s₁)
      (hA : E s₁ (attemptCall formatted b .a) werr s') :
      Attempts E formatted b s
        [attemptEvent formatted b error .b, attemptEvent formatted b werr .a] werr s'

def failureResult (werr : MfClassicError) : MfcNdefResult :=
  if werr = .notPresent ∨ werr = .timeout then .noCard else .writeFailed

inductive Round (E : Environment FormatInterface σ) (fmt : MfcNdefFormat) (formatted : Bool)
    (b : Fin 64) :
    σ → List FormatEvent → Option (MfcNdefResult × MfcNdefFormat) → σ → Prop where
  | canceled {s s' : σ} (hstop : fmt.stop = true) (hE : E s .readStop true s') :
      Round E fmt formatted b s [⟨.readStop, true⟩] (some (.canceled, fmt)) s'
  | skipped {s s₁ s' : σ} {t u : List FormatEvent} (hb : b = 0)
      (hasked : Optionally E fmt.stop .readStop false s t s₁)
      (hreported : Optionally E fmt.progressCb (.progress b) () s₁ u s') :
      Round E fmt formatted b s (t ++ u) none s'
  | accepted {s s₁ s₂ s' : σ} {t u v : List FormatEvent} (hb : b ≠ 0)
      (hasked : Optionally E fmt.stop .readStop false s t s₁)
      (hwritten : Attempts E formatted b s₁ u .none s₂)
      (hreported : Optionally E fmt.progressCb (.progress b) () s₂ v s') :
      Round E fmt formatted b s (t ++ (u ++ v)) none s'
  | failed {s s₁ s' : σ} {t u : List FormatEvent} {werr : MfClassicError} (hb : b ≠ 0)
      (hwerr : werr ≠ .none) (hasked : Optionally E fmt.stop .readStop false s t s₁)
      (hattempts : Attempts E formatted b s₁ u werr s') :
      Round E fmt formatted b s (t ++ u)
        (some (failureResult werr, { fmt with failBlock := b })) s'

section
variable {E : Environment FormatInterface σ} {fmt : MfcNdefFormat} {formatted : Bool}
  {b : Fin 64} {s : σ}

theorem failureResult_ne (werr : MfClassicError) :
    failureResult werr ≠ .ok ∧ failureResult werr ≠ .canceled := by
  unfold failureResult
  split_ifs <;> decide

theorem Round.ne_ok {s' : σ} {t : List FormatEvent} {v : MfcNdefResult × MfcNdefFormat}
    (h : Round E fmt formatted b s t (some v) s') : v.1 ≠ .ok := by
  cases h with
  | canceled => exact (nomatch ·)
  | failed => exact (failureResult_ne _).1

theorem stopRequested_asks :
    Always E (mfcNdefStopRequested fmt) s fun t r s' =>
      (r = false ∧ Optionally E fmt.stop .readStop false s t s') ∨
        r = true ∧ fmt.stop = true ∧ E s .readStop true s' ∧ t = [⟨.readStop, true⟩] := by
  unfold mfcNdefStopRequested
  split_ifs with hstop
  · intro r s' hE
    cases r with
    | false => exact .inl ⟨rfl, .made hstop hE⟩
    | true => exact .inr ⟨rfl, hstop, hE, rfl⟩
  · exact .inl ⟨rfl, .omitted (by simpa using hstop) s⟩

theorem reportProgress_reports :
    Always E (mfcNdefReportProgress fmt b) s fun t _ s' =>
      Optionally E fmt.progressCb (.progress b) () s t s' := by
  unfold mfcNdefReportProgress
  split_ifs with hprogress
  · intro r s' hE
    exact .made hprogress hE
  · exact .omitted (by simpa using hprogress) s

theorem writeEitherKey_attempts :
    Always E (mfcNdefWriteEitherKey b (mfcNdefSectorKeys formatted (mfcNdefSectorOfBlock b)).1
      (mfcNdefSectorKeys formatted (mfcNdefSectorOfBlock b)).2 (mfcNdefBuildBlock b).2) s
      fun t werr s' => Attempts E formatted b s t werr s' := by
  rw [mfcNdefWriteEitherKey, writeBlock_bind]
  intro error s₁ hB
  by_cases herror : error = MfClassicError.none
  · subst herror
    exact .keyB hB
  · simp only [ne_eq, herror, not_false_iff, if_true]
    intro werr s' hA
    exact .keyA herror hB hA

theorem formatBlock_round :
    Always E (mfcNdefFormatBlock fmt formatted b) s fun t r s' =>
      Round E fmt formatted b s t r s' := by
  apply stopRequested_asks.bind
  intro t stop s₁ hasked
  rcases hasked with ⟨rfl, hasked⟩ | ⟨rfl, hstop, hE, rfl⟩
  · by_cases hb : b = 0
    · subst hb
      apply reportProgress_reports.bind
      intro u _ s' hreported
      simpa using Round.skipped rfl hasked hreported
    · simp only [Bool.false_eq_true, if_false, (buildBlock_fst b).mpr hb, Bool.not_true]
      apply writeEitherKey_attempts.bind
      intro u werr s₂ hattempts
      unfold mfcNdefFinishBlock
      by_cases hwerr : werr = .none
      · subst hwerr
        simp only [ne_eq, not_true, if_false]
        apply reportProgress_reports.bind
        intro v _ s' hreported
        simpa using Round.accepted hb hasked hattempts hreported
      · have hfailed := Round.failed hb hwerr hasked hattempts
        simp only [ne_eq, hwerr, not_false_iff, if_true]
        unfold failureResult at hfailed
        split_ifs at hfailed ⊢ with hlost
        · simpa using hfailed
        · simpa using hfailed
  · exact .canceled hstop hE

end

end FlipperApps.MfcNdef
