import FlipperApps.MfcNdef.NoLockout

/-!
# Transient faults of the poller

A call that loses the card or runs into a timeout changes nothing and says
nothing about the card, but the run goes on: the probe chooses the keys, and the
error of a key B attempt is dropped. On a blank card only a faulted key A attempt
ends the run. On a formatted card key A does not stand in for key B in sector 0
and on the trailers, and is refused there.
-/

namespace FlipperApps.MfcNdef
open Calls Mifare

/-- Each poller call is made at most once in a run; it is answered by the card or
fails on the way. -/
structure TransientPoller where
  refusals : Refusals
  detect : Option Departure
  probe : Option Departure
  write : Fin 64 → KeyType → Option Departure

/-- `stops n` is what the stop flag shows when it is read for the `n`-th time. -/
def transientHandler (poller : TransientPoller) (stops : ℕ → Bool) :
    Handler FormatInterface Field
  | .detectType, s =>
    match poller.detect with
    | some fault => ((fault.error, .type1k), s)
    | none => ((.none, .type1k), s)
  | .auth b key type, s =>
    match poller.probe with
    | some fault => (fault.error, s)
    | none => (if authenticates s.1 b key type then .none
        else poller.refusals.code (.auth b key type), s)
  | .writeBlock b key type data, s =>
    match poller.write b type with
    | some fault => (fault.error, s)
    | none => match write s.1 b key type data with
      | some card => (.none, card, s.2)
      | none => (poller.refusals.code (.writeBlock b key type data), s)
  | .readStop, s => (stops s.2, s.1, s.2 + 1)
  | .progress _, s => ((), s)

def formatTransient (poller : TransientPoller) (stops : ℕ → Bool) (fmt : MfcNdefFormat)
    (card : Card) : MfcNdefResult :=
  (run (transientHandler poller stops) (mfcNdefFormatRun fmt) (card, 0)).value.1

def Refuses (formatted : Bool) (b : Fin 64) : KeyType → Prop
  | .a => formatted = false ∨ sectorOf b = 0 ∨ IsTrailer b
  | .b => formatted = false ∧ sectorOf b = 0

def NeitherWrites (poller : TransientPoller) (refuses : Fin 64 → KeyType → Prop) (b : Fin 64) :
    Prop :=
  b ≠ 0 ∧ ∀ type, poller.write b type ≠ none ∨ refuses b type

/-- The first block that neither attempt writes, with no stop seen up to it. -/
structure StuckAt (poller : TransientPoller) (refuses : Fin 64 → KeyType → Prop)
    (stops : ℕ → Bool) (fmt : MfcNdefFormat) (b : Fin 64) : Prop where
  neither : NeitherWrites poller refuses b
  first : ∀ x < b, ¬ NeitherWrites poller refuses x
  running : fmt.stop = true → ∀ n ≤ b.val, stops n = false

/-- On a formatted card: at the block where the run gets stuck key A is refused,
and the poller says so. -/
def Misled (poller : TransientPoller) (stops : ℕ → Bool) (fmt : MfcNdefFormat) : Prop :=
  ∃ b, StuckAt poller (Refuses poller.probe.isNone) stops fmt b ∧ poller.write b .a = none ∧
    poller.refusals.code (attemptCall poller.probe.isNone b .a) ≠ .notPresent ∧
    poller.refusals.code (attemptCall poller.probe.isNone b .a) ≠ .timeout

structure Answers (card : Card) (formatted : Bool) (refuses : Fin 64 → KeyType → Prop) :
    Prop where
  refused : ∀ {b : Fin 64} {type : KeyType}, refuses b type →
    write (imageUpTo card b) b (keyOfType (mfcNdefSectorKeys formatted (sectorOf b)) type) type
      (mfcNdefBuildBlock b).2 = none
  granted : ∀ {b : Fin 64} {type : KeyType}, b ≠ 0 → ¬ refuses b type →
    write (imageUpTo card b) b (keyOfType (mfcNdefSectorKeys formatted (sectorOf b)) type) type
      (mfcNdefBuildBlock b).2 = some (Function.update (imageUpTo card b) b (mfcNdefBuildBlock b).2)

inductive WriteAttempt (poller : TransientPoller) (s : Field) (b : Fin 64) (key : Key)
    (type : KeyType) (data : Block) : MfClassicError → Field → Prop where
  | faulted {fault : Departure} (hfault : poller.write b type = some fault) :
      WriteAttempt poller s b key type data fault.error s
  | refused (hfault : poller.write b type = none) (hwrite : write s.1 b key type data = none) :
      WriteAttempt poller s b key type data (poller.refusals.code (.writeBlock b key type data)) s
  | granted (hfault : poller.write b type = none) {card : Card}
      (hwrite : write s.1 b key type data = some card) :
      WriteAttempt poller s b key type data .none (card, s.2)

def failedError (poller : TransientPoller) (formatted : Bool) (b : Fin 64) (type : KeyType) :
    MfClassicError :=
  match poller.write b type with
  | some fault => fault.error
  | none => poller.refusals.code (attemptCall formatted b type)

section
variable {poller : TransientPoller} {stops : ℕ → Bool} {fmt : MfcNdefFormat} {card : Card}
  {formatted : Bool} {refuses : Fin 64 → KeyType → Prop} {b : Fin 64} {s s' : Field}

theorem failedError_ne_none {type : KeyType} :
    failedError poller formatted b type ≠ .none := by
  unfold failedError
  split
  · exact Departure.error_ne_none _
  · exact poller.refusals.ne_none _

theorem failedError_of_fault {type : KeyType} {fault : Departure}
    (hfault : poller.write b type = some fault) :
    failedError poller formatted b type = fault.error := by
  simp only [failedError, hfault]

theorem failedError_of_refusal {type : KeyType} (hfault : poller.write b type = none) :
    failedError poller formatted b type = poller.refusals.code (attemptCall formatted b type) := by
  simp only [failedError, hfault]

theorem writeBlock_attempt {key : Key} {type : KeyType} {data : Block} {error : MfClassicError}
    (hE : (transientHandler poller stops).env s (.writeBlock b key type data) error s') :
    WriteAttempt poller s b key type data error s' := by
  simp only [Handler.env, transientHandler] at hE
  split at hE
  · rename_i hfault
    cases hE
    exact .faulted hfault
  · rename_i hfault
    split at hE
    · rename_i hwrite
      cases hE
      exact .granted hfault hwrite
    · rename_i hwrite
      cases hE
      exact .refused hfault hwrite

theorem WriteAttempt.outcome {type : KeyType} {error : MfClassicError}
    (h : WriteAttempt poller s b (keyOfType (mfcNdefSectorKeys formatted (sectorOf b)) type) type
      (mfcNdefBuildBlock b).2 error s')
    (ha : Answers card formatted refuses) (hs : s.1 = imageUpTo card b) (hb : b ≠ 0) :
    (error = .none ∧ ¬ (poller.write b type ≠ none ∨ refuses b type) ∧
        s' = (Function.update s.1 b (mfcNdefBuildBlock b).2, s.2)) ∨
      (error = failedError poller formatted b type ∧
        (poller.write b type ≠ none ∨ refuses b type) ∧ s' = s) := by
  cases h with
  | @faulted fault hfault =>
    exact .inr ⟨(failedError_of_fault hfault).symm, .inl (by simp [hfault]), rfl⟩
  | refused hfault hwrite =>
    refine .inr ⟨?_, .inr ?_, rfl⟩
    · rw [failedError_of_refusal hfault]
      cases type <;> rfl
    · by_contra hrefuses
      rw [hs, ha.granted hb hrefuses] at hwrite
      cases hwrite
  | @granted hfault card' hwrite =>
    have hrefuses : ¬ refuses b type := by
      intro hrefuses
      rw [hs, ha.refused hrefuses] at hwrite
      cases hwrite
    refine .inl ⟨rfl, by simp [hfault, hrefuses], ?_⟩
    rw [hs, ha.granted hb hrefuses] at hwrite
    rw [hs, Option.some.inj hwrite]

theorem attempt_keyA {error : MfClassicError}
    (hE : (transientHandler poller stops).env s (attemptCall formatted b .a) error s') :
    WriteAttempt poller s b (keyOfType (mfcNdefSectorKeys formatted (sectorOf b)) .a) .a
      (mfcNdefBuildBlock b).2 error s' :=
  writeBlock_attempt hE

theorem attempt_keyB {error : MfClassicError}
    (hE : (transientHandler poller stops).env s (attemptCall formatted b .b) error s') :
    WriteAttempt poller s b (keyOfType (mfcNdefSectorKeys formatted (sectorOf b)) .b) .b
      (mfcNdefBuildBlock b).2 error s' :=
  writeBlock_attempt hE

theorem Attempts.outcome {t : List FormatEvent} {werr : MfClassicError}
    (h : Attempts (transientHandler poller stops).env formatted b s t werr s')
    (ha : Answers card formatted refuses) (hs : s.1 = imageUpTo card b) (hb : b ≠ 0) :
    (werr = .none ∧ ¬ NeitherWrites poller refuses b ∧
        s' = (Function.update s.1 b (mfcNdefBuildBlock b).2, s.2)) ∨
      (werr = failedError poller formatted b .a ∧ NeitherWrites poller refuses b) := by
  cases h with
  | keyB hE =>
    rcases (attempt_keyB hE).outcome ha hs hb with ⟨_, hB, hs'⟩ | ⟨herror, _, _⟩
    · exact .inl ⟨rfl, fun h => hB (h.2 .b), hs'⟩
    · exact absurd herror.symm failedError_ne_none
  | keyA herror hB hA =>
    rcases (attempt_keyB hB).outcome ha hs hb with ⟨hnone, _, _⟩ | ⟨_, hrefusedB, rfl⟩
    · exact absurd hnone herror
    · rcases (attempt_keyA hA).outcome ha hs hb with ⟨hnone, hA, hs'⟩ | ⟨hwerr, hrefusedA, _⟩
      · exact .inl ⟨hnone, fun h => hA (h.2 .a), hs'⟩
      · refine .inr ⟨hwerr, hb, fun type => ?_⟩
        cases type with
        | a => exact hrefusedA
        | b => exact hrefusedB

end

structure Reached (poller : TransientPoller) (refuses : Fin 64 → KeyType → Prop) (stops : ℕ → Bool)
    (fmt : MfcNdefFormat) (card : Card) (n : ℕ) (s : Field) : Prop where
  card_eq : s.1 = imageUpTo card n
  reads_eq : fmt.stop = true → s.2 = n
  running : fmt.stop = true → ∀ m < n, stops m = false
  before : ∀ x : Fin 64, x.val < n → ¬ NeitherWrites poller refuses x

inductive Outcome (poller : TransientPoller) (formatted : Bool) (refuses : Fin 64 → KeyType → Prop)
    (stops : ℕ → Bool) (fmt : MfcNdefFormat) : MfcNdefResult → Prop where
  | completed (before : ∀ x, ¬ NeitherWrites poller refuses x) :
      Outcome poller formatted refuses stops fmt .ok
  | canceled {b : Fin 64} (hstop : fmt.stop = true) (hread : stops b = true)
      (before : ∀ x < b, ¬ NeitherWrites poller refuses x) :
      Outcome poller formatted refuses stops fmt .canceled
  | stuck {b : Fin 64} (h : StuckAt poller refuses stops fmt b) :
      Outcome poller formatted refuses stops fmt
        (failureResult (failedError poller formatted b .a))

section
variable {poller : TransientPoller} {stops : ℕ → Bool} {fmt : MfcNdefFormat} {card : Card}
  {formatted : Bool} {refuses : Fin 64 → KeyType → Prop} {b : Fin 64} {s s' : Field}
  {t : List FormatEvent}

theorem transientHandler_countsReads : CountsReads (transientHandler poller stops).env stops :=
  ⟨fun h => ⟨(Prod.mk.inj h).1.symm, (Prod.mk.inj h).2.symm⟩, fun h => (Prod.mk.inj h).2.symm⟩

theorem Reached.zero : Reached poller refuses stops fmt card 0 (card, 0) :=
  ⟨(imageUpTo_zero card).symm, fun _ => rfl, fun _ _ h => absurd h (Nat.not_lt_zero _),
    fun _ h => absurd h (Nat.not_lt_zero _)⟩

theorem Reached.running_succ (h : Reached poller refuses stops fmt card b s)
    (hread : fmt.stop = true → stops s.2 = false) :
    fmt.stop = true → ∀ n ≤ b.val, stops n = false := by
  intro hstop n hn
  rcases hn.lt_or_eq with hn | rfl
  · exact h.running hstop n hn
  · exact h.reads_eq hstop ▸ hread hstop

theorem Reached.next (h : Reached poller refuses stops fmt card b s)
    (hread : fmt.stop = true → stops s.2 = false) (hb : ¬ NeitherWrites poller refuses b) :
    Reached poller refuses stops fmt card (b + 1) (written s.1 b, readsAfter fmt s.2) := by
  refine ⟨?_, fun hstop => ?_, fun hstop n hn => ?_, fun x hx => ?_⟩
  · rw [h.card_eq, written_imageUpTo]
  · simp [readsAfter, hstop, h.reads_eq hstop]
  · exact h.running_succ hread hstop n (Nat.le_of_lt_succ hn)
  · rcases (Nat.le_of_lt_succ hx).lt_or_eq with hx | hx
    · exact h.before x hx
    · obtain rfl : x = b := Fin.ext hx
      exact hb

theorem Round.reached {r : Option (MfcNdefResult × MfcNdefFormat)}
    (hround : Round (transientHandler poller stops).env fmt formatted b s t r s')
    (ha : Answers card formatted refuses) (h : Reached poller refuses stops fmt card b s)
    (u : List FormatEvent) :
    Post.early (fun _ v (_ : Field) => Outcome poller formatted refuses stops fmt v.1)
      (fun _ s' => Reached poller refuses stops fmt card (b + 1) s') u r s' := by
  cases hround with
  | canceled hstop hE =>
    have hread : stops b = true := h.reads_eq hstop ▸ (Prod.mk.inj hE).1
    exact .canceled hstop hread h.before
  | skipped hb hasked hreported =>
    subst hb
    obtain ⟨hread, rfl⟩ := hasked.reads transientHandler_countsReads
    obtain rfl := hreported.reports transientHandler_countsReads
    exact h.next hread fun hneither => hneither.1 rfl
  | accepted hb hasked hwritten hreported =>
    obtain ⟨hread, rfl⟩ := hasked.reads transientHandler_countsReads
    obtain rfl := hreported.reports transientHandler_countsReads
    rcases hwritten.outcome ha h.card_eq hb with ⟨_, hneither, rfl⟩ | ⟨hwerr, _⟩
    · have hnext := h.next hread hneither
      rwa [written, if_neg hb] at hnext
    · exact absurd hwerr.symm failedError_ne_none
  | failed hb hwerr hasked hattempts =>
    obtain ⟨hread, rfl⟩ := hasked.reads transientHandler_countsReads
    rcases hattempts.outcome ha h.card_eq hb with ⟨hnone, _, _⟩ | ⟨rfl, hneither⟩
    · exact absurd hnone hwerr
    · exact .stuck ⟨hneither, fun x hx => h.before x hx, h.running_succ hread⟩

theorem loop_outcome (ha : Answers card formatted refuses) :
    Always (transientHandler poller stops).env
      (Program.firstSome (mfcNdefFormatBlock fmt formatted) (List.finRange 64)) (card, 0)
      (Post.early (fun _ v _ => Outcome poller formatted refuses stops fmt v.1)
        fun _ s => Reached poller refuses stops fmt card 64 s) := by
  apply always_firstSome_finRange (fun _ n s => Reached poller refuses stops fmt card n s) _ _
    Reached.zero
  intro t b s h
  exact formatBlock_round.mono fun u r s' hround => hround.reached ha h (t ++ u)

theorem Outcome.of_stuck {result : MfcNdefResult}
    (h : Outcome poller formatted refuses stops fmt result)
    (hb : StuckAt poller refuses stops fmt b) :
    result = failureResult (failedError poller formatted b .a) := by
  cases h with
  | completed before => exact absurd hb.neither (before b)
  | @canceled c hstop hread before =>
    rcases le_or_gt c b with hle | hlt
    · exact absurd (hb.running hstop c hle) (by simp [hread])
    · exact absurd hb.neither (before b hlt)
  | @stuck c h =>
    rcases lt_trichotomy b c with hlt | rfl | hlt
    · exact absurd hb.neither (h.first b hlt)
    · rfl
    · exact absurd h.neither (hb.first c hlt)

theorem failureResult_eq_writeFailed {werr : MfClassicError} :
    failureResult werr = .writeFailed ↔ werr ≠ .notPresent ∧ werr ≠ .timeout := by
  unfold failureResult
  rw [← not_or]
  split_ifs with hlost <;> simp [hlost]

theorem failureResult_cases (werr : MfClassicError) :
    failureResult werr = .noCard ∨ failureResult werr = .writeFailed := by
  unfold failureResult
  split_ifs <;> simp

theorem probe_answer {key : Key} {type : KeyType} {error : MfClassicError}
    (hE : (transientHandler poller stops).env s (.auth b key type) error s') :
    s' = s ∧ (error = .none ↔ poller.probe = none ∧ authenticates s.1 b key type) := by
  simp only [Handler.env, transientHandler] at hE
  split at hE
  · rename_i fault hfault
    cases hE
    simp [hfault, fault.error_ne_none]
  · rename_i hfault
    cases hE
    by_cases hauth : authenticates s.1 b key type
    · simp [hfault, hauth]
    · simp [hfault, hauth, poller.refusals.ne_none]

theorem formatRun_outcome (hdetect : poller.detect = none)
    (hprobe : poller.probe = none ∧ authenticates card 0 (mfcNdefSectorKeys true 0).1 .a ↔
      formatted = true)
    (ha : Answers card formatted refuses) :
    Always (transientHandler poller stops).env (mfcNdefFormatRun fmt) (card, 0) fun _ v _ =>
      Outcome poller formatted refuses stops fmt v.1 := by
  simp only [mfcNdefFormatRun, detectType_bind, auth_bind]
  intro detected s₁ hE
  simp only [Handler.env, transientHandler, hdetect] at hE
  obtain ⟨rfl, rfl⟩ := Prod.mk.inj hE
  simp only [ne_eq, not_true_eq_false, if_false]
  intro auth s₂ hE
  obtain ⟨rfl, hauth⟩ := probe_answer hE
  have hkeys : (auth == .none) = formatted := by
    rw [Bool.eq_iff_iff, beq_iff_eq, hauth, hprobe]
  dsimp only
  rw [hkeys]
  apply (loop_outcome ha).bind
  intro t early s' h
  cases early with
  | none => exact .completed fun x => h.before x x.isLt
  | some v => exact h

end

section
variable {card : Card}

theorem answers_blank (hblank : Blank card) : Answers card false fun _ type => type = .b := by
  refine ⟨?_, ?_⟩
  · rintro b type rfl
    exact write_blank_keyB _ (imageUpTo_blank hblank b)
  · intro b type hb htype
    cases type with
    | a => exact write_blank_keyA hb (imageUpTo_blank hblank b)
    | b => exact absurd rfl htype

theorem answers_formatted (hformatted : Formatted card) (formatted : Bool) :
    Answers card formatted (Refuses formatted) := by
  have ht : ∀ b : Fin 64, imageUpTo card b (trailerOf (sectorOf b)) =
      formattedTrailer (sectorOf b) := fun b => imageUpTo_formatted hformatted b _
  refine ⟨?_, ?_⟩
  · intro b type hrefuses
    cases type with
    | a =>
      rcases hrefuses with rfl | hb
      · exact write_formatted_default_keyA (ht b)
      · exact write_formatted_keyA_refused hb (ht b)
    | b =>
      obtain ⟨rfl, hs⟩ := hrefuses
      exact write_formatted_default_keyB hs (ht b)
  · intro b type hb hrefuses
    cases type with
    | a =>
      simp only [Refuses, not_or, Bool.not_eq_false] at hrefuses
      obtain ⟨rfl, hs, htrailer⟩ := hrefuses
      exact write_formatted_keyA hb hs htrailer (ht b)
    | b =>
      cases formatted with
      | true => exact write_formatted hb (ht b)
      | false =>
        have hs : sectorOf b ≠ 0 := fun hs => hrefuses ⟨rfl, hs⟩
        simp only [keyOfType, sectorKeys_keyB hs]
        exact write_formatted hb (ht b)

theorem formatTransient_blank {poller : TransientPoller} {stops : ℕ → Bool} {fmt : MfcNdefFormat}
    (hblank : Blank card) (hdetect : poller.detect = none) :
    Outcome poller false (fun _ type => type = .b) stops fmt
      (formatTransient poller stops fmt card) := by
  have hprobe : poller.probe = none ∧ authenticates card 0 (mfcNdefSectorKeys true 0).1 .a ↔
      false = true := by
    rw [probe_blank hblank]
    simp
  exact (formatRun_outcome hdetect hprobe (answers_blank hblank)).run

theorem formatTransient_formatted {poller : TransientPoller} {stops : ℕ → Bool}
    {fmt : MfcNdefFormat} (hformatted : Formatted card) (hdetect : poller.detect = none) :
    Outcome poller poller.probe.isNone (Refuses poller.probe.isNone) stops fmt
      (formatTransient poller stops fmt card) := by
  have hprobe : poller.probe = none ∧ authenticates card 0 (mfcNdefSectorKeys true 0).1 .a ↔
      poller.probe.isNone = true := by
    rw [probe_formatted hformatted]
    simp
  exact (formatRun_outcome hdetect hprobe (answers_formatted hformatted _)).run

theorem formatTransient_undetected {poller : TransientPoller} {fault : Departure}
    {stops : ℕ → Bool} {fmt : MfcNdefFormat} (hdetect : poller.detect = some fault) :
    formatTransient poller stops fmt card = .noCard := by
  simp [formatTransient, mfcNdefFormatRun, run, transientHandler, hdetect, fault.error_ne_none]

end

def NotBlamed (result : MfcNdefResult) : Prop :=
  result = .ok ∨ result = .noCard ∨ result = .canceled

section
variable {poller : TransientPoller} {stops : ℕ → Bool} {fmt : MfcNdefFormat} {card : Card}
  {formatted : Bool} {refuses : Fin 64 → KeyType → Prop} {result : MfcNdefResult}

theorem Outcome.notBlamed_iff (h : Outcome poller formatted refuses stops fmt result) :
    NotBlamed result ↔ result ≠ .writeFailed := by
  unfold NotBlamed
  cases h with
  | completed => simp
  | canceled => simp
  | @stuck b h =>
    rcases failureResult_cases (failedError poller formatted b .a) with hresult | hresult
    · simp [hresult]
    · simp [hresult]

theorem Outcome.ne_writeFailed
    (h : Outcome poller formatted (fun _ type => type = .b) stops fmt result) :
    result ≠ .writeFailed := by
  cases h with
  | completed => simp
  | canceled => simp
  | @stuck b h =>
    obtain ⟨fault, hfault⟩ := Option.ne_none_iff_exists'.mp
      ((h.neither.2 .a).resolve_right (nomatch ·))
    rw [failedError_of_fault hfault, fault.failureResult_error]
    simp

theorem Outcome.writeFailed_iff
    (h : Outcome poller poller.probe.isNone (Refuses poller.probe.isNone) stops fmt result) :
    result = .writeFailed ↔ Misled poller stops fmt := by
  constructor
  · intro hresult
    cases h with
    | completed => cases hresult
    | canceled => cases hresult
    | @stuck b hstuck =>
      cases hfault : poller.write b .a with
      | some fault =>
        rw [failedError_of_fault hfault, fault.failureResult_error] at hresult
        cases hresult
      | none =>
        rw [failedError_of_refusal hfault] at hresult
        exact ⟨b, hstuck, hfault, failureResult_eq_writeFailed.mp hresult⟩
  · rintro ⟨b, hstuck, hfault, hcode⟩
    rw [h.of_stuck hstuck, failedError_of_refusal hfault]
    exact failureResult_eq_writeFailed.mpr hcode

end

section
variable (poller : TransientPoller) (stops : ℕ → Bool) (fmt : MfcNdefFormat) {card : Card}

theorem not_formatted_of_blank (hblank : Blank card) : ¬ Formatted card := by
  intro hformatted
  have hkey : mfcNdefKeyMadA = transportKey := by
    rw [← (hblank 0).keyA_eq, hformatted 0]
    exact (formattedTrailer_keys 0).1.symm
  exact absurd hkey (by decide)

/-- A run on a formatted card ends in the report of a protected one exactly when it
gets stuck at a block whose key A attempt reaches the card. -/
theorem transient_fault_not_blamed_iff (h : Blank card ∨ Formatted card) :
    NotBlamed (formatTransient poller stops fmt card) ↔
      (Formatted card → poller.detect = none → ¬ Misled poller stops fmt) := by
  cases hdetect : poller.detect with
  | some fault =>
    rw [formatTransient_undetected hdetect]
    simp [NotBlamed]
  | none =>
    rcases h with hblank | hformatted
    · have houtcome := @formatTransient_blank _ _ stops fmt hblank hdetect
      rw [houtcome.notBlamed_iff]
      exact iff_of_true houtcome.ne_writeFailed
        fun hformatted => absurd hformatted (not_formatted_of_blank hblank)
    · have houtcome := @formatTransient_formatted _ _ stops fmt hformatted hdetect
      rw [houtcome.notBlamed_iff, ne_eq, houtcome.writeFailed_iff]
      exact ⟨fun h _ _ => h, fun h => h hformatted rfl⟩

end

def formattedCard : Card := imageUpTo factoryCard 64

def neverStops : ℕ → Bool := fun _ => false

def keyBTimeout : TransientPoller :=
  ⟨plainRefusals, none, none, fun b type => if b = 1 ∧ type = .b then some .timeout else none⟩

def probeTimeout : TransientPoller :=
  ⟨plainRefusals, none, some .timeout, fun _ _ => none⟩

theorem transient_fault_not_blamed_iff_formattedCard :
    NotBlamed (formatTransient probeTimeout neverStops appFormat formattedCard) ↔
      (Formatted formattedCard → probeTimeout.detect = none →
        ¬ Misled probeTimeout neverStops appFormat) :=
  transient_fault_not_blamed_iff probeTimeout neverStops appFormat
    (Or.inr (formatted_imageUpTo_all factoryCard))

theorem misled_one {poller : TransientPoller}
    (hneither : NeitherWrites poller (Refuses poller.probe.isNone) 1)
    (hfault : poller.write 1 .a = none) (hcodes : poller.refusals = plainRefusals)
    (fmt : MfcNdefFormat) : Misled poller neverStops fmt := by
  have hfirst : ∀ x < (1 : Fin 64), ¬ NeitherWrites poller (Refuses poller.probe.isNone) x := by
    intro x hx hneither
    exact hneither.1 (Fin.ext (Nat.lt_one_iff.mp hx))
  refine ⟨1, ⟨hneither, hfirst, fun _ _ _ => rfl⟩, hfault, ?_, ?_⟩
  · rw [hcodes]
    exact (nomatch ·)
  · rw [hcodes]
    exact (nomatch ·)

/-- One timeout, of the key B attempt on block 1 or of the probe, has a formatted
card reported as a protected one. -/
theorem formattedCard_reported_protected :
    Formatted formattedCard ∧
      formatTransient keyBTimeout neverStops appFormat formattedCard = .writeFailed ∧
      formatTransient probeTimeout neverStops appFormat formattedCard = .writeFailed := by
  have hformatted : Formatted formattedCard := formatted_imageUpTo_all factoryCard
  refine ⟨hformatted, ?_, ?_⟩
  · apply (formatTransient_formatted hformatted rfl).writeFailed_iff.mpr
    apply misled_one ⟨by decide, fun type => ?_⟩ rfl rfl
    cases type with
    | a => exact .inr (.inr (.inl rfl))
    | b => exact .inl (by decide)
  · apply (formatTransient_formatted hformatted rfl).writeFailed_iff.mpr
    apply misled_one ⟨by decide, fun type => ?_⟩ rfl rfl
    cases type with
    | a => exact .inr (.inl rfl)
    | b => exact .inr ⟨rfl, rfl⟩

end FlipperApps.MfcNdef
