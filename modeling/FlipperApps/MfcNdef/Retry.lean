import FlipperApps.MfcNdef.CardRun

/-!
# Formatting again and retrying an interrupted format

A blank or formatted card always ends as the target image, also when formatted
twice. A retry after an interruption chooses its keys from sector 0 alone: it
succeeds exactly when sector 0 was not re-keyed yet.
-/

namespace FlipperApps.MfcNdef
open Calls Mifare
variable (refusals : Refusals) (fmt : MfcNdefFormat) {card : Card}

def factoryCard : Card := fun b =>
  if IsTrailer b then
    ⟨[0xFF, 0xFF, 0xFF, 0xFF, 0xFF, 0xFF, 0xFF, 0x07,
      0x80, 0x69, 0xFF, 0xFF, 0xFF, 0xFF, 0xFF, 0xFF], rfl⟩
  else if b = 0 then
    ⟨[0x12, 0x34, 0x56, 0x78, 0x08, 0x08, 0x04, 0x00,
      0x62, 0x63, 0x64, 0x65, 0x66, 0x67, 0x68, 0x69], rfl⟩
  else Bytes.zero 16

theorem factoryCard_blank : Blank factoryCard := by decide

def plainRefusals : Refusals := ⟨fun _ => .other 1, fun _ h => nomatch h⟩

def appFormat : MfcNdefFormat := ⟨true, true, 0⟩

theorem format_and_reformat (fmt' : MfcNdefFormat) (h : Blank card ∨ Formatted card) :
    let first := formatOnCard refusals none fmt card
    first.1 = .ok ∧ first.2 0 = card 0 ∧
      (∀ b, b ≠ 0 → first.2 b = (mfcNdefBuildBlock b).2) ∧
      formatOnCard refusals none fmt' first.2 = (.ok, first.2) := by
  have hfirst := formatOnCard_ok refusals fmt h
  have hagain := formatOnCard_ok refusals fmt' (Or.inr (formatted_imageUpTo_all card))
  have hsame : imageUpTo (imageUpTo card 64) 64 = imageUpTo card 64 := by
    funext b
    simp only [imageUpTo_all]
    split_ifs <;> rfl
  simp only [hfirst, hagain, hsame, imageUpTo_all]
  exact ⟨trivial, rfl, fun b hb => if_neg hb, trivial⟩

theorem format_and_reformat_factoryCard :
    let first := formatOnCard plainRefusals none appFormat factoryCard
    first.1 = .ok ∧ first.2 0 = factoryCard 0 ∧
      (∀ b, b ≠ 0 → first.2 b = (mfcNdefBuildBlock b).2) ∧
      formatOnCard plainRefusals none appFormat first.2 = (.ok, first.2) :=
  format_and_reformat plainRefusals appFormat appFormat (Or.inl factoryCard_blank)

/-- The retry, with no further fault, succeeds and leaves the target image. -/
def Resumes (card : Card) (i : Interruption) : Prop :=
  let first := formatOnCard refusals (some i) fmt card
  let second := formatOnCard refusals none fmt first.2
  second.1 = .ok ∧ ∀ b, b ≠ 0 → second.2 b = (mfcNdefBuildBlock b).2

section
variable {i : Option Interruption} {alreadyFormatted : Bool} {b : Fin 64} {s : Field}

def OwnBlock (b : Fin 64) : FormatCall → Prop
  | .writeBlock x _ _ _ => x = b
  | _ => True

theorem round_frame :
    Always (formatHandler refusals i).env (mfcNdefFormatBlock fmt alreadyFormatted b) s
      fun _ _ s' => ∀ x, x ≠ b → s'.1 x = s.1 x := by
  have huses : (mfcNdefFormatBlock fmt alreadyFormatted b).Uses (OwnBlock b) :=
    formatBlock_uses trivial (fun _ => trivial) fun _ _ _ => rfl
  refine always_invariant (P := fun s' : Field => ∀ x, x ≠ b → s'.1 x = s.1 x) ?_ huses
    fun _ _ => rfl
  intro s₁ c r s₂ hc hs hE x hx
  rw [← hs x hx]
  cases c with
  | writeBlock y key type data =>
    obtain rfl : y = b := hc
    simp only [Handler.env, formatHandler] at hE
    split at hE
    · cases hE; rfl
    · split at hE
      · rename_i hw
        cases hE
        exact write_frame hw hx
      · cases hE; rfl
  | detectType => cases hE; rfl
  | auth y key type => cases hE; rfl
  | readStop => cases hE; rfl
  | progress y => cases hE; rfl

theorem round_blocked {r : Option (MfcNdefResult × MfcNdefFormat)} {s' : Field}
    {t : List FormatEvent} (h : Round (formatHandler refusals none).env fmt true b s t r s')
    (hs : sectorOf b ≠ 0) (ht : BlankTrailer (s.1 (trailerOf (sectorOf b)))) : r ≠ none := by
  have hB : write s.1 b (mfcNdefSectorKeys true (mfcNdefSectorOfBlock b)).2 .b
      (mfcNdefBuildBlock b).2 = none := write_blank_keyB _ ht
  have hA : write s.1 b (mfcNdefSectorKeys true (mfcNdefSectorOfBlock b)).1 .a
      (mfcNdefBuildBlock b).2 = none := write_blank_formatted_keys hs ht
  cases h with
  | canceled => simp
  | skipped hb =>
    subst hb
    exact absurd rfl hs
  | accepted _ hasked hwritten _ =>
    obtain ⟨_, rfl⟩ := hasked.reads formatHandler_countsReads
    cases hwritten with
    | keyB hE =>
      simp only [Handler.env, attemptCall, formatHandler, departed, hB] at hE
      exact absurd (Prod.mk.inj hE).1 (refusals.ne_none _)
    | keyA _ hE hE' =>
      simp only [Handler.env, attemptCall, formatHandler, departed, hB] at hE
      obtain ⟨_, rfl⟩ := Prod.mk.inj hE
      simp only [Handler.env, attemptCall, formatHandler, departed, hA] at hE'
      exact absurd (Prod.mk.inj hE').1 (refusals.ne_none _)
  | failed => simp

end

theorem loop_blocked {f : Fin 64} (hs : sectorOf f ≠ 0)
    (ht : BlankTrailer (card (trailerOf (sectorOf f)))) (hf : f ≤ trailerOf (sectorOf f)) :
    Always (formatHandler refusals none).env
      (Program.firstSome (mfcNdefFormatBlock fmt true) (List.finRange 64)) (card, 0)
      (Post.early (fun _ v _ => v.1 ≠ .ok) fun _ _ => False) := by
  refine (always_firstSome_finRange
    (fun _ n s => n ≤ f.val ∧ ∀ x : Fin 64, n ≤ x.val → s.1 x = card x)
    (fun _ v _ => v.1 ≠ .ok) ?_ ⟨Nat.zero_le _, fun _ _ => rfl⟩).mono ?_
  · intro t b s h
    obtain ⟨hle, hcard⟩ := h
    -- Rounds below `f` touch their own block only, so the trailer of `f` is still blank.
    by_cases hb : b = f
    · subst hb
      have htrailer := hcard (trailerOf (sectorOf b)) hf
      refine formatBlock_round.mono fun u r s' h => ?_
      cases r with
      | none => exact absurd rfl (round_blocked refusals fmt h hs (htrailer ▸ ht))
      | some v => exact h.ne_ok
    · have hlt : b.val < f.val := lt_of_le_of_ne hle fun h => hb (Fin.ext h)
      apply ((round_frame refusals fmt).and formatBlock_round).mono
      intro u r s' h
      cases r with
      | none =>
        refine ⟨hlt, fun x hx => ?_⟩
        rw [h.1 x (by rintro rfl; omega), hcard x (by omega)]
      | some v => exact h.2.ne_ok
  · intro t r s h
    rcases r with _ | v
    · exact absurd h.1 (by omega)
    · exact h

theorem retry_not_ok {i : Interruption} (hblank : Blank card) (hi : 4 ≤ i.block.val) :
    (formatOnCard refusals none fmt (imageUpTo card i.block)).1 ≠ .ok := by
  let f : Fin 64 := ⟨4 * (i.block.val / 4), by omega⟩
  have hs : sectorOf f ≠ 0 := by
    simp only [sectorOf, f, ne_eq, Fin.ext_iff, Fin.val_zero]
    omega
  have htrailer : trailerOf (sectorOf f) = trailerOf (sectorOf i.block) := by
    simp only [sectorOf, trailerOf, f, Fin.ext_iff]
    omega
  have ht : BlankTrailer (imageUpTo card i.block (trailerOf (sectorOf f))) :=
    htrailer ▸ imageUpTo_blank hblank i.block
  have hf : f ≤ trailerOf (sectorOf f) := by
    simp only [sectorOf, trailerOf, f, Fin.le_def]
    omega
  have hprobe : authenticates (imageUpTo card i.block) 0 (mfcNdefSectorKeys true 0).1 .a := by
    have h3 : imageUpTo card i.block (trailerOf 0) = formattedTrailer 0 := by
      rw [imageUpTo, if_pos ⟨by decide, by simp [trailerOf]; omega⟩, buildBlock_trailer]
    simp only [authenticates, show sectorOf 0 = 0 from rfl, h3, formattedTrailer_keys]
  have hrun : Always (formatHandler refusals none).env (mfcNdefFormatRun fmt)
      (imageUpTo card i.block, 0) fun _ v _ => v.1 ≠ .ok := by
    simp only [mfcNdefFormatRun, detectType_bind, auth_bind, always_handler_call, formatHandler,
      ne_eq, not_true_eq_false, if_false, hprobe, if_true, beq_self_eq_true]
    refine (loop_blocked refusals fmt hs ht hf).bind fun t r s h => ?_
    cases r with
    | none => exact h.elim
    | some v => exact h
  exact hrun.run

theorem blank_of_interrupted {i : Interruption} (hblank : Blank card) (hi : i.block.val < 4) :
    Blank (imageUpTo card i.block) := by
  intro s
  rw [imageUpTo_of_le (by simp [trailerOf]; omega)]
  exact hblank s

/-- A format interrupted at block `b` of a blank card can be retried with
success exactly when `b` lies in sector 0, whose trailer is then still blank. -/
theorem resumes_iff (hblank : Blank card) {i : Interruption} (hseen : i.Seen fmt) :
    Resumes refusals fmt card i ↔ i.block.val < 4 := by
  have hfirst := formatOnCard_interrupted refusals fmt hblank hseen
  simp only [Resumes, hfirst.2]
  constructor
  · intro h
    by_contra hi
    exact retry_not_ok refusals _ hblank (by omega) h.1
  · intro hi
    rw [formatOnCard_ok refusals _ (Or.inl (blank_of_interrupted hblank hi))]
    exact ⟨rfl, fun b hb => (imageUpTo_all _ b).trans (if_neg hb)⟩

theorem resumes_iff_factoryCard :
    Resumes plainRefusals appFormat factoryCard (.cancel 2) ↔ (2 : ℕ) < 4 :=
  resumes_iff plainRefusals appFormat factoryCard_blank rfl

/-- The card leaves at block 4, right after sector 0 was re-keyed: the retry
that the app asks for reports a failure. -/
theorem factoryCard_not_resumed :
    Blank factoryCard ∧
      ¬ Resumes plainRefusals appFormat factoryCard
        (.leave 4 (by decide) fun _ => .notPresent) := by
  refine ⟨factoryCard_blank, fun h => ?_⟩
  have hfirst := formatOnCard_interrupted plainRefusals appFormat factoryCard_blank
    (i := .leave 4 (by decide) fun _ => .notPresent) trivial
  simp only [Resumes, hfirst.2] at h
  exact retry_not_ok plainRefusals appFormat factoryCard_blank (by decide) h.1

end FlipperApps.MfcNdef
