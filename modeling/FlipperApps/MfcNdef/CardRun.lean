import FlipperApps.MfcNdef.Rounds

/-!
# The format run on a MIFARE Classic 1K

The poller calls act on a card; at most one interruption stops the run, either
the cancel flag from some round on or the card leaving the field. Before round
`n` the card holds the target image in its written blocks below `n` and its
original contents elsewhere, as long as one of the two chosen keys may write
each block when its turn comes.
-/

namespace FlipperApps.MfcNdef
open Calls Mifare

structure Refusals where
  code : FormatCall → MfClassicError
  ne_none : ∀ c, code c ≠ .none

inductive Departure
  | notPresent
  | timeout

def Departure.error : Departure → MfClassicError
  | .notPresent => .notPresent
  | .timeout => .timeout

/-- The cancel flag is seen before block `b`, or the card is gone when `b` is
attempted; block 0 is never attempted. -/
inductive Interruption
  | cancel (b : Fin 64)
  | leave (b : Fin 64) (attempted : b ≠ 0) (errors : KeyType → Departure)

def Interruption.block : Interruption → Fin 64
  | .cancel b => b
  | .leave b _ _ => b

/-- The card leaving stops any run, the flag only a run that was given one. -/
def Interruption.Seen (fmt : MfcNdefFormat) : Interruption → Prop
  | .cancel _ => fmt.stop = true
  | .leave .. => True

/-- The card and the number of times the stop flag was read. -/
abbrev Field := Card × ℕ

def canceled (i : Option Interruption) (reads : ℕ) : Bool :=
  match i with
  | some (.cancel b) => b.val ≤ reads
  | _ => false

def departed (i : Option Interruption) (b : Fin 64) : Option (KeyType → Departure) :=
  match i with
  | some (.leave b' _ e) => if b' ≤ b then some e else none
  | _ => none

def formatHandler (refusals : Refusals) (i : Option Interruption) :
    Handler FormatInterface Field
  | .detectType, s => ((.none, .type1k), s)
  | .auth b key type, s =>
    (if authenticates s.1 b key type then .none else refusals.code (.auth b key type), s)
  | .writeBlock b key type data, s =>
    match departed i b with
    | some errors => ((errors type).error, s)
    | none => match write s.1 b key type data with
      | some card => (.none, card, s.2)
      | none => (refusals.code (.writeBlock b key type data), s)
  | .readStop, s => (canceled i s.2, s.1, s.2 + 1)
  | .progress _, s => ((), s)

def formatOnCard (refusals : Refusals) (i : Option Interruption) (fmt : MfcNdefFormat)
    (card : Card) : MfcNdefResult × Card :=
  let o := run (formatHandler refusals i) (mfcNdefFormatRun fmt) (card, 0)
  (o.value.1, o.state.1)

def imageUpTo (card : Card) (n : ℕ) : Card :=
  fun b => if b ≠ 0 ∧ b < n then (mfcNdefBuildBlock b).2 else card b

@[simp] theorem imageUpTo_zero (card : Card) : imageUpTo card 0 = card := by
  funext b
  simp [imageUpTo]

theorem imageUpTo_of_le {card : Card} {n : ℕ} {b : Fin 64} (h : n ≤ b) :
    imageUpTo card n b = card b := if_neg fun hb => by omega

def written (card : Card) (b : Fin 64) : Card :=
  if b = 0 then card else Function.update card b (mfcNdefBuildBlock b).2

theorem written_imageUpTo (card : Card) (b : Fin 64) :
    written (imageUpTo card b) b = imageUpTo card (b + 1) := by
  funext x
  unfold written
  split_ifs with hb
  · subst hb
    simp [imageUpTo]
  · by_cases hx : x = b
    · subst hx
      simp [imageUpTo, hb]
    · have hne : x.val ≠ b.val := fun h => hx (Fin.ext h)
      have hlt : x.val < b.val ↔ x.val < b.val + 1 := by omega
      simp only [Function.update_of_ne hx, imageUpTo, hlt]

def Writable (card : Card) (alreadyFormatted : Bool) (b : Fin 64) : Prop :=
  let keys := mfcNdefSectorKeys alreadyFormatted (mfcNdefSectorOfBlock b)
  let data := (mfcNdefBuildBlock b).2
  write card b keys.2 .b data = some (Function.update card b data) ∨
    write card b keys.2 .b data = none ∧
      write card b keys.1 .a data = some (Function.update card b data)

def readsAfter (fmt : MfcNdefFormat) (reads : ℕ) : ℕ := if fmt.stop then reads + 1 else reads

structure CountsReads (E : Environment FormatInterface Field) (stops : ℕ → Bool) : Prop where
  read : ∀ {s s' : Field} {r : Bool}, E s .readStop r s' →
    r = stops s.2 ∧ s' = (s.1, s.2 + 1)
  report : ∀ {s s' : Field} {b : Fin 64} {r : Unit}, E s (.progress b) r s' → s' = s

section
variable {E : Environment FormatInterface Field} {stops : ℕ → Bool} {fmt : MfcNdefFormat}
  {b : Fin 64} {s s' : Field} {t : List FormatEvent}

theorem Optionally.reads (hE : CountsReads E stops)
    (h : Optionally E fmt.stop .readStop false s t s') :
    (fmt.stop = true → stops s.2 = false) ∧ s' = (s.1, readsAfter fmt s.2) := by
  cases h with
  | omitted hgiven => simp [hgiven, readsAfter]
  | made hgiven h =>
    obtain ⟨hread, rfl⟩ := hE.read h
    exact ⟨fun _ => hread.symm, by rw [readsAfter, if_pos hgiven]⟩

theorem Optionally.reports {given : Bool} (hE : CountsReads E stops)
    (h : Optionally E given (.progress b) () s t s') : s' = s := by
  cases h with
  | omitted => rfl
  | made _ h => exact hE.report h

end

section
variable {refusals : Refusals} {i : Option Interruption} {fmt : MfcNdefFormat}
  {alreadyFormatted : Bool} {b : Fin 64} {s s' : Field} {t : List FormatEvent}
  {werr : MfClassicError}

theorem formatHandler_countsReads : CountsReads (formatHandler refusals i).env (canceled i) :=
  ⟨fun h => ⟨(Prod.mk.inj h).1.symm, (Prod.mk.inj h).2.symm⟩, fun h => (Prod.mk.inj h).2.symm⟩

theorem Attempts.accepted
    (h : Attempts (formatHandler refusals i).env alreadyFormatted b s t werr s')
    (hdepart : departed i b = none) (hw : Writable s.1 alreadyFormatted b) :
    werr = .none ∧ s' = (Function.update s.1 b (mfcNdefBuildBlock b).2, s.2) := by
  cases h with
  | keyB hE =>
    simp only [Handler.env, attemptCall, formatHandler, hdepart] at hE
    rcases hw with hB | ⟨hB, _⟩
    · rw [hB] at hE
      exact ⟨rfl, (Prod.mk.inj hE).2.symm⟩
    · rw [hB] at hE
      exact absurd (Prod.mk.inj hE).1 (refusals.ne_none _)
  | keyA herror hE hA =>
    simp only [Handler.env, attemptCall, formatHandler, hdepart] at hE hA
    rcases hw with hB | ⟨hB, hw⟩
    · rw [hB] at hE
      exact absurd (Prod.mk.inj hE).1.symm herror
    · rw [hB] at hE
      obtain ⟨_, rfl⟩ := Prod.mk.inj hE
      rw [hw] at hA
      exact ⟨(Prod.mk.inj hA).1.symm, (Prod.mk.inj hA).2.symm⟩

theorem Departure.error_ne_none (e : Departure) : e.error ≠ .none := by
  cases e <;> simp [Departure.error]

theorem Departure.failureResult_error (e : Departure) : failureResult e.error = .noCard := by
  cases e <;> rfl

theorem Attempts.departed
    (h : Attempts (formatHandler refusals i).env alreadyFormatted b s t werr s')
    {e : KeyType → Departure} (hdepart : departed i b = some e) :
    werr = (e .a).error ∧ s' = s := by
  cases h with
  | keyB hE =>
    simp only [Handler.env, attemptCall, formatHandler, hdepart] at hE
    exact absurd (Prod.mk.inj hE).1 (e .b).error_ne_none
  | keyA herror hE hA =>
    simp only [Handler.env, attemptCall, formatHandler, hdepart] at hE hA
    obtain ⟨_, rfl⟩ := Prod.mk.inj hE
    exact ⟨(Prod.mk.inj hA).1.symm, (Prod.mk.inj hA).2.symm⟩

structure Writing (i : Option Interruption) (fmt : MfcNdefFormat) (card : Card) (n : ℕ)
    (s : Field) : Prop where
  card_eq : s.1 = imageUpTo card n
  reads_eq : fmt.stop = true → s.2 = n
  before : ∀ i₀, i = some i₀ → n ≤ i₀.block

def Interrupted (i : Option Interruption) (card : Card) (v : MfcNdefResult × MfcNdefFormat)
    (s : Field) : Prop :=
  ∃ i₀, i = some i₀ ∧ v.1 ≠ .ok ∧ s.1 = imageUpTo card i₀.block

theorem Writing.next {card : Card} (hs : Writing i fmt card b s)
    (hlt : ∀ i₀, i = some i₀ → b < i₀.block) :
    Writing i fmt card (b + 1) (written s.1 b, readsAfter fmt s.2) := by
  refine ⟨?_, fun hstop => ?_, hlt⟩
  · rw [hs.card_eq, written_imageUpTo]
  · simp [readsAfter, hstop, hs.reads_eq hstop]

theorem round_writing {r : Option (MfcNdefResult × MfcNdefFormat)} {card : Card}
    (h : Round (formatHandler refusals i).env fmt alreadyFormatted b s t r s')
    (hs : Writing i fmt card b s) (hcancel : fmt.stop = true → canceled i s.2 = false)
    (hdepart : departed i b = none)
    (hw : b ≠ 0 → Writable (imageUpTo card b) alreadyFormatted b)
    (hlt : ∀ i₀, i = some i₀ → b < i₀.block) : r = none ∧ Writing i fmt card (b + 1) s' := by
  have hnext := hs.next hlt
  rw [← hs.card_eq] at hw
  cases h with
  | canceled hstop hE =>
    obtain ⟨hread, _⟩ := formatHandler_countsReads.read hE
    exact absurd (hread.trans (hcancel hstop)) (by simp)
  | skipped hb hasked hreported =>
    obtain ⟨_, rfl⟩ := hasked.reads formatHandler_countsReads
    obtain rfl := hreported.reports formatHandler_countsReads
    rw [written, if_pos hb] at hnext
    exact ⟨rfl, hnext⟩
  | accepted hb hasked hwritten hreported =>
    obtain ⟨_, rfl⟩ := hasked.reads formatHandler_countsReads
    obtain rfl := hreported.reports formatHandler_countsReads
    obtain ⟨_, rfl⟩ := hwritten.accepted hdepart (hw hb)
    rw [written, if_neg hb] at hnext
    exact ⟨rfl, hnext⟩
  | failed hb hwerr hasked hattempts =>
    obtain ⟨_, rfl⟩ := hasked.reads formatHandler_countsReads
    exact absurd (hattempts.accepted hdepart (hw hb)).1 hwerr

theorem round_canceled {r : Option (MfcNdefResult × MfcNdefFormat)}
    (h : Round (formatHandler refusals i).env fmt alreadyFormatted b s t r s')
    (hstop : fmt.stop = true) (hcancel : canceled i s.2 = true) :
    r = some (.canceled, fmt) ∧ s'.1 = s.1 := by
  cases h with
  | canceled _ hE =>
    obtain ⟨_, rfl⟩ := formatHandler_countsReads.read hE
    exact ⟨rfl, rfl⟩
  | skipped _ hasked _ =>
    have hread := (hasked.reads formatHandler_countsReads).1 hstop
    exact absurd (hcancel.symm.trans hread) (by simp)
  | accepted _ hasked _ _ =>
    have hread := (hasked.reads formatHandler_countsReads).1 hstop
    exact absurd (hcancel.symm.trans hread) (by simp)
  | failed _ _ hasked _ =>
    have hread := (hasked.reads formatHandler_countsReads).1 hstop
    exact absurd (hcancel.symm.trans hread) (by simp)

theorem round_departed {r : Option (MfcNdefResult × MfcNdefFormat)}
    (h : Round (formatHandler refusals i).env fmt alreadyFormatted b s t r s')
    (hcancel : canceled i s.2 = false) {e : KeyType → Departure} (hdepart : departed i b = some e)
    (hb : b ≠ 0) : r = some (.noCard, { fmt with failBlock := b }) ∧ s'.1 = s.1 := by
  cases h with
  | canceled _ hE =>
    obtain ⟨hread, _⟩ := formatHandler_countsReads.read hE
    exact absurd (hread.trans hcancel) (by simp)
  | skipped hzero _ _ => exact absurd hzero hb
  | accepted _ _ hwritten _ =>
    exact absurd (hwritten.departed hdepart).1.symm (e .a).error_ne_none
  | failed _ _ hasked hattempts =>
    obtain ⟨_, rfl⟩ := hasked.reads formatHandler_countsReads
    obtain ⟨rfl, rfl⟩ := hattempts.departed hdepart
    rw [(e .a).failureResult_error]
    exact ⟨rfl, rfl⟩

theorem round_interrupted {r : Option (MfcNdefResult × MfcNdefFormat)} {card : Card}
    {i₀ : Interruption}
    (h : Round (formatHandler refusals i).env fmt alreadyFormatted b s t r s')
    (hs : Writing i fmt card b s) (hi : i = some i₀) (hb : i₀.block = b) (hseen : i₀.Seen fmt) :
    ∃ v, r = some v ∧ Interrupted i card v s' := by
  subst hi hb
  cases i₀ with
  | cancel c =>
    have hcancel : canceled (some (.cancel c)) s.2 = true := by
      simp [canceled, hs.reads_eq hseen, Interruption.block]
    obtain ⟨rfl, hcard⟩ := round_canceled h hseen hcancel
    exact ⟨_, rfl, _, rfl, by simp, hcard.trans hs.card_eq⟩
  | leave c hc e =>
    have hdepart : departed (some (.leave c hc e)) c = some e := by simp [departed]
    obtain ⟨rfl, hcard⟩ := round_departed h rfl hdepart hc
    exact ⟨_, rfl, _, rfl, by simp, hcard.trans hs.card_eq⟩

/-- The loop writes the image block by block, up to the interruption if there
is one. -/
theorem loop_image {card : Card} (hseen : ∀ i₀, i = some i₀ → i₀.Seen fmt)
    (hw : ∀ b : Fin 64, b ≠ 0 → Writable (imageUpTo card b) alreadyFormatted b) :
    Always (formatHandler refusals i).env
      (Program.firstSome (mfcNdefFormatBlock fmt alreadyFormatted) (List.finRange 64)) (card, 0)
      (Post.early (fun _ v s => Interrupted i card v s) fun _ s => Writing i fmt card 64 s) := by
  refine always_firstSome_finRange (fun _ n s => Writing i fmt card n s)
    (fun _ v s => Interrupted i card v s) ?_ ⟨by simp, fun _ => rfl, fun _ _ => Nat.zero_le _⟩
  intro t b s hs
  by_cases hnow : ∃ i₀, i = some i₀ ∧ i₀.block = b
  · obtain ⟨i₀, hi, hb⟩ := hnow
    refine formatBlock_round.mono fun u r s' h => ?_
    obtain ⟨v, rfl, hv⟩ := round_interrupted h hs hi hb (hseen i₀ hi)
    exact hv
  · have hlt : ∀ i₀, i = some i₀ → b < i₀.block := fun i₀ hi =>
      lt_of_le_of_ne (hs.before i₀ hi) fun hb => hnow ⟨i₀, hi, hb.symm⟩
    have hcancel : fmt.stop = true → canceled i s.2 = false := by
      intro hst
      rcases i with _ | (c | _)
      · rfl
      · simpa [canceled, hs.reads_eq hst, Interruption.block] using hlt _ rfl
      · rfl
    have hdepart : departed i b = none := by
      rcases i with _ | (_ | ⟨c, hc, e⟩)
      · rfl
      · rfl
      · simpa [departed, Interruption.block] using hlt _ rfl
    refine formatBlock_round.mono fun u r s' h => ?_
    obtain ⟨rfl, hs'⟩ := round_writing h hs hcancel hdepart (hw b) hlt
    exact hs'

theorem formatRun_image {card : Card} (hseen : ∀ i₀, i = some i₀ → i₀.Seen fmt)
    (hprobe : authenticates card 0 (mfcNdefSectorKeys true 0).1 .a ↔ alreadyFormatted = true)
    (hw : ∀ b : Fin 64, b ≠ 0 → Writable (imageUpTo card b) alreadyFormatted b) :
    Always (formatHandler refusals i).env (mfcNdefFormatRun fmt) (card, 0) fun _ v s =>
      match i with
      | none => v.1 = .ok ∧ s.1 = imageUpTo card 64
      | some i₀ => v.1 ≠ .ok ∧ s.1 = imageUpTo card i₀.block := by
  have hauth : ((if authenticates card 0 (mfcNdefSectorKeys true 0).1 .a then .none
      else refusals.code (.auth 0 (mfcNdefSectorKeys true 0).1 .a)) == MfClassicError.none) =
        alreadyFormatted := by
    cases alreadyFormatted <;> simp_all [refusals.ne_none]
  simp only [mfcNdefFormatRun, detectType_bind, auth_bind, always_handler_call, formatHandler,
    ne_eq, not_true_eq_false, if_false, hauth]
  refine (loop_image hseen hw).bind fun t r s h => ?_
  rcases r with _ | v
  · rcases i with _ | i₀
    · exact ⟨rfl, h.card_eq⟩
    · exact absurd (h.before i₀ rfl) (by omega)
  · obtain ⟨i₀, rfl, hv⟩ := h
    exact hv

end

section
variable (refusals : Refusals) (fmt : MfcNdefFormat) {card : Card}

theorem imageUpTo_blank (hblank : Blank card) (b : Fin 64) :
    BlankTrailer (imageUpTo card b (trailerOf (sectorOf b))) := by
  rw [imageUpTo_of_le (by simp [trailerOf, sectorOf]; omega)]
  exact hblank _

theorem imageUpTo_formatted (hformatted : Formatted card) (n : ℕ) :
    Formatted (imageUpTo card n) := by
  intro s
  unfold imageUpTo
  split_ifs
  · exact buildBlock_trailer s
  · exact hformatted s

theorem writable_blank (hblank : Blank card) {b : Fin 64} (hb : b ≠ 0) :
    Writable (imageUpTo card b) false b :=
  Or.inr ⟨write_blank_keyB _ (imageUpTo_blank hblank b),
    write_blank_keyA hb (imageUpTo_blank hblank b)⟩

theorem writable_formatted (hformatted : Formatted card) {b : Fin 64} (hb : b ≠ 0) :
    Writable (imageUpTo card b) true b :=
  Or.inl (write_formatted hb (imageUpTo_formatted hformatted b _))

theorem probe_blank (hblank : Blank card) :
    authenticates card 0 (mfcNdefSectorKeys true 0).1 .a ↔ false = true := by
  simp only [authenticates, show sectorOf 0 = 0 from rfl, (hblank 0).keyA_eq]
  decide

theorem probe_formatted (hformatted : Formatted card) :
    authenticates card 0 (mfcNdefSectorKeys true 0).1 .a ↔ true = true := by
  simp only [authenticates, show sectorOf 0 = 0 from rfl, hformatted 0,
    formattedTrailer_keys]

theorem formatOnCard_ok (h : Blank card ∨ Formatted card) :
    formatOnCard refusals none fmt card = (.ok, imageUpTo card 64) := by
  have hrun : Always (formatHandler refusals none).env (mfcNdefFormatRun fmt) (card, 0)
      fun _ v s => v.1 = .ok ∧ s.1 = imageUpTo card 64 := by
    rcases h with hblank | hformatted
    · exact formatRun_image (by simp) (probe_blank hblank) fun b => writable_blank hblank
    · exact formatRun_image (by simp) (probe_formatted hformatted)
        fun b => writable_formatted hformatted
  exact Prod.ext hrun.run.1 hrun.run.2

theorem formatOnCard_interrupted (hblank : Blank card) {i : Interruption}
    (hseen : i.Seen fmt) :
    (formatOnCard refusals (some i) fmt card).1 ≠ .ok ∧
      (formatOnCard refusals (some i) fmt card).2 = imageUpTo card i.block := by
  have hrun : Always (formatHandler refusals (some i)).env (mfcNdefFormatRun fmt) (card, 0)
      fun _ v s => v.1 ≠ .ok ∧ s.1 = imageUpTo card i.block :=
    formatRun_image (fun _ h => Option.some.inj h ▸ hseen) (probe_blank hblank)
      fun b => writable_blank hblank
  exact hrun.run

theorem imageUpTo_all (card : Card) (b : Fin 64) :
    imageUpTo card 64 b = if b = 0 then card 0 else (mfcNdefBuildBlock b).2 := by
  unfold imageUpTo
  split_ifs <;> simp_all

theorem formatted_imageUpTo_all (card : Card) : Formatted (imageUpTo card 64) := by
  intro s
  have hne : trailerOf s ≠ 0 := fun h => Nat.succ_ne_zero _ (congrArg Fin.val h)
  rw [imageUpTo_all, if_neg hne, buildBlock_trailer]

end

end FlipperApps.MfcNdef
