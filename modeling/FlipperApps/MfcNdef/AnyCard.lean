import FlipperApps.MfcNdef.NoLockout
import FlipperApps.MfcNdef.WriteDiscipline

/-!
# Formatting a card in any state

A block is written last in its sector when it is the trailer, so what each
block takes is decided by the card as it was found. The run writes what is taken
up to the first block that takes nothing from either key.
-/

namespace FlipperApps.MfcNdef
open Calls Mifare

def blockWritten (card : Card) (b : Fin 64) (key : Key) (type : KeyType) (data : Block) :
    Option Block :=
  (write card b key type data).map (· b)

def blockTaken (card : Card) (formatted : Bool) (b : Fin 64) : Option Block :=
  (blockWritten card b (mfcNdefSectorKeys formatted (mfcNdefSectorOfBlock b)).2 .b
    (mfcNdefBuildBlock b).2).or
  (blockWritten card b (mfcNdefSectorKeys formatted (mfcNdefSectorOfBlock b)).1 .a
    (mfcNdefBuildBlock b).2)

/-- The first block that takes nothing. -/
def firstRefused (card : Card) (formatted : Bool) : Option (Fin 64) :=
  (List.finRange 64).find? fun b => decide (b ≠ 0) && (blockTaken card formatted b).isNone

def takenUpTo (card : Card) (formatted : Bool) (n : ℕ) : Card :=
  fun b => if b ≠ 0 ∧ b < n then (blockTaken card formatted b).getD (card b) else card b

/-- A trailer rewritten by one of the two keys, in the parts that the access bits
found on the card leave to it. -/
def TrailerTaken (card : Card) (formatted : Bool) (s : Fin 16) (t : Block) : Prop :=
  ∃ type access, authenticates card (trailerOf s) (keyOfType (mfcNdefSectorKeys formatted s) type)
      type ∧
    accessBits (accessBytes (card (trailerOf s))) = some access ∧
    (access (Fin.last 3)).mayUse type = true ∧
    t = ((access (Fin.last 3)).trailerWrite type).merge (card (trailerOf s)) (formattedTrailer s)

def foundFormatted (card : Card) : Bool := decide (authenticates card 0 mfcNdefKeyMadA .a)

section
variable {card card' : Card} {b : Fin 64} {key : Key} {type : KeyType} {data x : Block}
  {formatted : Bool}

theorem write_eq_blockWritten :
    write card b key type data =
      (blockWritten card b key type data).map (Function.update card b) := by
  unfold blockWritten
  cases h : write card b key type data with
  | none => rfl
  | some card' =>
    rw [Option.map_some, Option.map_some]
    congr 1
    funext y
    by_cases hy : y = b
    · rw [hy, Function.update_self]
    · rw [Function.update_of_ne hy, write_frame h hy]

theorem blockWritten_congr (hblock : card b = card' b)
    (htrailer : card (trailerOf (sectorOf b)) = card' (trailerOf (sectorOf b))) :
    blockWritten card b key type data = blockWritten card' b key type data := by
  have hauth : authenticates card b key type ↔ authenticates card' b key type := by
    cases type <;> simp only [authenticates, htrailer]
  unfold blockWritten write
  simp only [hauth, htrailer, hblock]
  by_cases hkey : b = 0 ∨ ¬ authenticates card' b key type
  · simp only [if_pos hkey]
  · simp only [if_neg hkey]
    cases accessBits (accessBytes (card' (trailerOf (sectorOf b)))) with
    | none => rfl
    | some access =>
      dsimp only
      split_ifs <;> simp

theorem blockWritten_eq_some (h : blockWritten card b key type data = some x) :
    ∃ access, authenticates card b key type ∧
      accessBits (accessBytes (card (trailerOf (sectorOf b)))) = some access ∧
      (access 3).mayUse type = true ∧
      x = if IsTrailer b then ((access 3).trailerWrite type).merge (card b) data else data := by
  obtain ⟨card', hwrite, rfl⟩ := Option.map_eq_some_iff.mp h
  unfold write at hwrite
  by_cases hkey : b = 0 ∨ ¬ authenticates card b key type
  · rw [if_pos hkey] at hwrite
    exact nomatch hwrite
  rw [if_neg hkey] at hwrite
  obtain ⟨-, hauth⟩ := not_or.mp hkey
  cases haccess : accessBits (accessBytes (card (trailerOf (sectorOf b)))) with
  | none =>
    rw [haccess] at hwrite
    exact nomatch hwrite
  | some access =>
    rw [haccess] at hwrite
    dsimp only at hwrite
    by_cases huse : (access 3).mayUse type = true
    · refine ⟨access, not_not.mp hauth, rfl, huse, ?_⟩
      rw [if_pos huse] at hwrite
      split_ifs at hwrite ⊢
      · rw [← Option.some.inj hwrite, Function.update_self]
      · rw [← Option.some.inj hwrite, Function.update_self]
    · rw [if_neg huse] at hwrite
      exact nomatch hwrite

theorem blockTaken_data (hb : ¬ IsTrailer b) (h : blockTaken card formatted b = some x) :
    x = (mfcNdefBuildBlock b).2 := by
  have hdata {key : Key} {type : KeyType}
      (h : blockWritten card b key type (mfcNdefBuildBlock b).2 = some x) :
      x = (mfcNdefBuildBlock b).2 := by
    obtain ⟨access, -, -, -, hx⟩ := blockWritten_eq_some h
    rwa [if_neg hb] at hx
  rcases Option.or_eq_some_iff.mp h with h | ⟨-, h⟩
  · exact hdata h
  · exact hdata h

theorem blockTaken_trailer {s : Fin 16} (h : blockTaken card formatted (trailerOf s) = some x) :
    TrailerTaken card formatted s x := by
  have hsector : mfcNdefSectorOfBlock (trailerOf s) = s := sectorOf_trailerOf s
  have htrailer : IsTrailer (trailerOf s) := by
    simp only [IsTrailer, trailerOf]
    omega
  have hmerged (type : KeyType)
      (h : blockWritten card (trailerOf s) (keyOfType (mfcNdefSectorKeys formatted s) type) type
        (mfcNdefBuildBlock (trailerOf s)).2 = some x) : TrailerTaken card formatted s x := by
    obtain ⟨access, hauth, haccess, huse, hx⟩ := blockWritten_eq_some h
    rw [if_pos htrailer, buildBlock_trailer] at hx
    rw [sectorOf_trailerOf] at haccess
    exact ⟨type, access, hauth, haccess, huse, hx⟩
  unfold blockTaken at h
  rw [hsector] at h
  rcases Option.or_eq_some_iff.mp h with h | ⟨-, h⟩
  · exact hmerged .b h
  · exact hmerged .a h

theorem blockTaken_congr (hblock : card b = card' b)
    (htrailer : card (trailerOf (sectorOf b)) = card' (trailerOf (sectorOf b))) :
    blockTaken card formatted b = blockTaken card' formatted b := by
  simp only [blockTaken, blockWritten_congr hblock htrailer]

theorem takenUpTo_of_le {n : ℕ} (h : n ≤ b) : takenUpTo card formatted n b = card b :=
  if_neg fun hb => by omega

@[simp] theorem takenUpTo_zero : takenUpTo card formatted 0 = card :=
  funext fun _ => takenUpTo_of_le (Nat.zero_le _)

/-- The rounds before `b` decide nothing about `b`: the trailer of its sector is
written after it, or is `b` itself. -/
theorem blockTaken_takenUpTo :
    blockTaken (takenUpTo card formatted b) formatted b = blockTaken card formatted b := by
  apply blockTaken_congr
  · exact takenUpTo_of_le (Nat.le_refl _)
  · apply takenUpTo_of_le
    simp only [trailerOf, sectorOf]
    omega

theorem takenUpTo_succ_zero : takenUpTo card formatted (0 + 1) = card := by
  funext x
  unfold takenUpTo
  split_ifs with h
  · have hx : x.val ≠ 0 := fun hx => h.1 (Fin.ext hx)
    omega
  · rfl

theorem takenUpTo_succ (hb : b ≠ 0) (hx : blockTaken card formatted b = some x) :
    Function.update (takenUpTo card formatted b) b x = takenUpTo card formatted (b + 1) := by
  funext y
  by_cases hy : y = b
  · subst hy
    simp [takenUpTo, hb, hx]
  · have hne : y.val ≠ b.val := fun h => hy (Fin.ext h)
    have hlt : y.val < b.val ↔ y.val < b.val + 1 := by omega
    simp only [Function.update_of_ne hy, takenUpTo, hlt]

end

section
variable {refusals : Refusals} {fmt : MfcNdefFormat} {formatted : Bool} {b : Fin 64}
  {card : Card} {s s' : Field} {t : List FormatEvent} {werr : MfClassicError}

theorem handler_writeBlock {key : Key} {type : KeyType} {data : Block} :
    formatHandler refusals none (.writeBlock b key type data) s =
      match blockWritten s.1 b key type data with
      | some x => (.none, Function.update s.1 b x, s.2)
      | none => (refusals.code (.writeBlock b key type data), s) := by
  simp only [formatHandler, departed, write_eq_blockWritten]
  cases blockWritten s.1 b key type data <;> rfl

theorem Attempts.taken
    (h : Attempts (formatHandler refusals none).env formatted b s t werr s') :
    (∃ x, blockTaken s.1 formatted b = some x ∧ werr = .none ∧
        s' = (Function.update s.1 b x, s.2)) ∨
      blockTaken s.1 formatted b = none ∧
        werr = refusals.code (attemptCall formatted b .a) ∧ s' = s := by
  have hanswer {key : Key} {type : KeyType} {error : MfClassicError} {s s' : Field}
      (hE : (formatHandler refusals none).env s
        (.writeBlock b key type (mfcNdefBuildBlock b).2) error s') :
      (∃ x, blockWritten s.1 b key type (mfcNdefBuildBlock b).2 = some x ∧ error = .none ∧
          s' = (Function.update s.1 b x, s.2)) ∨
        blockWritten s.1 b key type (mfcNdefBuildBlock b).2 = none ∧
          error = refusals.code (.writeBlock b key type (mfcNdefBuildBlock b).2) ∧ s' = s := by
    rw [Handler.env, handler_writeBlock] at hE
    cases hwritten : blockWritten s.1 b key type (mfcNdefBuildBlock b).2 with
    | none =>
      rw [hwritten] at hE
      exact .inr ⟨rfl, (Prod.mk.inj hE).1.symm, (Prod.mk.inj hE).2.symm⟩
    | some x =>
      rw [hwritten] at hE
      exact .inl ⟨x, rfl, (Prod.mk.inj hE).1.symm, (Prod.mk.inj hE).2.symm⟩
  unfold blockTaken
  cases h with
  | keyB hB =>
    rcases hanswer hB with ⟨x, hx, -, rfl⟩ | ⟨-, herror, -⟩
    · exact .inl ⟨x, by rw [hx, Option.some_or], rfl, rfl⟩
    · exact absurd herror.symm (refusals.ne_none _)
  | keyA herror hB hA =>
    rcases hanswer hB with ⟨-, -, hnone, -⟩ | ⟨hrefused, -, rfl⟩
    · exact absurd hnone herror
    · rw [hrefused, Option.none_or]
      rcases hanswer hA with ⟨x, hx, rfl, rfl⟩ | ⟨hx, rfl, rfl⟩
      · exact .inl ⟨x, hx, rfl, rfl⟩
      · exact .inr ⟨hx, rfl, rfl⟩

theorem Round.taken {r : Option (MfcNdefResult × MfcNdefFormat)}
    (h : Round (formatHandler refusals none).env fmt formatted b s t r s') :
    (r = none ∧ b = 0 ∧ s'.1 = s.1) ∨
    (r = none ∧ b ≠ 0 ∧ ∃ x, blockTaken s.1 formatted b = some x ∧
      s'.1 = Function.update s.1 b x) ∨
    (r = some (failureResult (refusals.code (attemptCall formatted b .a)),
        { fmt with failBlock := b }) ∧
      b ≠ 0 ∧ blockTaken s.1 formatted b = none ∧ s'.1 = s.1) := by
  cases h with
  | canceled _ hE =>
    obtain ⟨hread, -⟩ := formatHandler_countsReads.read hE
    exact nomatch hread
  | skipped hb hasked hreported =>
    obtain ⟨-, rfl⟩ := hasked.reads formatHandler_countsReads
    obtain rfl := hreported.reports formatHandler_countsReads
    exact .inl ⟨rfl, hb, rfl⟩
  | accepted hb hasked hwritten hreported =>
    obtain ⟨-, rfl⟩ := hasked.reads formatHandler_countsReads
    obtain rfl := hreported.reports formatHandler_countsReads
    rcases hwritten.taken with ⟨x, hx, -, rfl⟩ | ⟨-, herror, -⟩
    · exact .inr (.inl ⟨rfl, hb, x, hx, rfl⟩)
    · exact absurd herror.symm (refusals.ne_none _)
  | failed hb hwerr hasked hattempts =>
    obtain ⟨-, rfl⟩ := hasked.reads formatHandler_countsReads
    rcases hattempts.taken with ⟨-, -, hnone, -⟩ | ⟨hx, rfl, rfl⟩
    · exact absurd hnone hwerr
    · exact .inr (.inr ⟨rfl, hb, hx, rfl⟩)

structure Taking (card : Card) (formatted : Bool) (n : ℕ) (s : Field) : Prop where
  card_eq : s.1 = takenUpTo card formatted n
  taken : ∀ b : Fin 64, b < n → b ≠ 0 → (blockTaken card formatted b).isSome

structure RefusedAt (refusals : Refusals) (fmt : MfcNdefFormat) (card : Card) (formatted : Bool)
    (b : Fin 64) (v : MfcNdefResult × MfcNdefFormat) (s : Field) : Prop where
  ne_zero : b ≠ 0
  refused : blockTaken card formatted b = none
  before : Taking card formatted b s
  value : v = (failureResult (refusals.code (attemptCall formatted b .a)),
    { fmt with failBlock := b })

theorem Taking.next (h : Taking card formatted b s) {card' : Card} (hcard : s'.1 = card')
    (hnext : b = 0 ∧ card' = s.1 ∨ b ≠ 0 ∧ ∃ x, blockTaken s.1 formatted b = some x ∧
      card' = Function.update s.1 b x) : Taking card formatted (b + 1) s' := by
  have hsame : blockTaken s.1 formatted b = blockTaken card formatted b := by
    rw [h.card_eq, blockTaken_takenUpTo]
  have htaken (hb : b ≠ 0 → (blockTaken card formatted b).isSome) (y : Fin 64)
      (hy : y.val < b + 1) (hne : y ≠ 0) : (blockTaken card formatted y).isSome := by
    rcases Nat.lt_succ_iff_lt_or_eq.mp hy with hlt | heq
    · exact h.taken y hlt hne
    · obtain rfl : y = b := Fin.ext heq
      exact hb hne
  rcases hnext with ⟨rfl, rfl⟩ | ⟨hb, x, hx, rfl⟩
  · refine ⟨?_, htaken fun hb => absurd rfl hb⟩
    rw [hcard, h.card_eq]
    exact takenUpTo_zero.trans takenUpTo_succ_zero.symm
  · rw [hsame] at hx
    refine ⟨?_, htaken fun _ => by rw [hx]; rfl⟩
    rw [hcard, h.card_eq, takenUpTo_succ hb hx]

theorem loop_taking :
    Always (formatHandler refusals none).env
      (Program.firstSome (mfcNdefFormatBlock fmt formatted) (List.finRange 64)) (card, 0)
      (Post.early (fun _ v s => ∃ b, RefusedAt refusals fmt card formatted b v s)
        fun _ s => Taking card formatted 64 s) := by
  apply always_firstSome_finRange (fun _ n s => Taking card formatted n s)
    (fun _ v s => ∃ b, RefusedAt refusals fmt card formatted b v s)
  · intro t b s hs
    apply formatBlock_round.mono
    intro u r s' h
    rcases h.taken with ⟨rfl, hb, hcard⟩ | ⟨rfl, hb, x, hx, hcard⟩ | ⟨rfl, hb, hx, hcard⟩
    · exact hs.next hcard (.inl ⟨hb, rfl⟩)
    · exact hs.next hcard (.inr ⟨hb, x, hx, rfl⟩)
    · rw [hs.card_eq, blockTaken_takenUpTo] at hx
      exact ⟨b, hb, hx, ⟨hcard.trans hs.card_eq, hs.taken⟩, rfl⟩
  · exact ⟨takenUpTo_zero.symm, fun b hb => absurd hb (Nat.not_lt_zero _)⟩

theorem firstRefused_eq_none :
    firstRefused card formatted = none ↔
      ∀ b : Fin 64, b ≠ 0 → (blockTaken card formatted b).isSome := by
  unfold firstRefused
  rw [List.find?_eq_none]
  constructor
  · intro h b hb
    simpa [hb, Option.isSome_iff_ne_none] using h b (List.mem_finRange b)
  · intro h b _
    by_cases hb : b = 0
    · simp [hb]
    · simpa [hb, Option.isSome_iff_ne_none] using h b hb

theorem firstRefused_eq_some (hb : b ≠ 0) (hrefused : blockTaken card formatted b = none)
    (hbefore : ∀ x : Fin 64, x < b → x ≠ 0 → (blockTaken card formatted x).isSome) :
    firstRefused card formatted = some b := by
  unfold firstRefused
  rw [List.find?_eq_some_iff_getElem]
  refine ⟨by simp [hb, hrefused], b, by simp, by simp, fun j hj => ?_⟩
  have hlt : j < 64 := by omega
  rw [List.getElem_finRange]
  by_cases hzero : (⟨j, hlt⟩ : Fin 64) = 0
  · simp [hzero]
  · have htaken := hbefore ⟨j, hlt⟩ hj hzero
    simpa [hzero, Option.isSome_iff_ne_none] using htaken

theorem foundFormatted_eq (card : Card) :
    ((if authenticates card 0 (mfcNdefSectorKeys true 0).1 .a then .none
      else refusals.code (.auth 0 (mfcNdefSectorKeys true 0).1 .a)) == MfClassicError.none) =
        foundFormatted card := by
  have hkey : (mfcNdefSectorKeys true 0).1 = mfcNdefKeyMadA := rfl
  unfold foundFormatted
  rw [hkey]
  by_cases hauth : authenticates card 0 mfcNdefKeyMadA .a
  · simp [hauth]
  · simp [hauth, refusals.ne_none]

theorem RefusedAt.handled {v : MfcNdefResult × MfcNdefFormat}
    (h : RefusedAt refusals fmt card formatted b v s) (hended : Ended fmt formatted t v) :
    Handled fmt t b := by
  have hvalue := h.value
  cases hended with
  | canceled =>
    have hcanceled := congrArg Prod.fst hvalue
    exact absurd hcanceled.symm (failureResult_ne _).2
  | @failed t u b' werr _ hwerr hwritten htried hprogress =>
    obtain rfl : b' = b := Fin.ext (congrArg (fun v => v.2.failBlock) hvalue)
    exact hwritten.handled.append (htried.accepts.trans (if_neg hwerr)) hprogress

theorem formatRun_taking (refusals : Refusals) (fmt : MfcNdefFormat) (card : Card) :
    Always (formatHandler refusals none).env (mfcNdefFormatRun fmt) (card, 0) fun t v s =>
      (∃ b, RefusedAt refusals fmt card (foundFormatted card) b v s ∧ Handled fmt t b) ∨
        v = (.ok, fmt) ∧ Taking card (foundFormatted card) 64 s ∧ Handled fmt t 64 := by
  simp only [mfcNdefFormatRun, detectType_bind, auth_bind, always_handler_call, formatHandler,
    ne_eq, not_true_eq_false, if_false, foundFormatted_eq]
  apply (loop_taking.and loop_written).bind
  intro t r s h
  obtain ⟨htaking, hwritten⟩ := h
  cases r with
  | none =>
    have hhandled : Handled fmt t 64 := Written.handled hwritten
    exact .inr ⟨rfl, htaking, hhandled.append rfl rfl |>.detected⟩
  | some v =>
    obtain ⟨b, hrefused⟩ := htaking
    have hhandled : Handled fmt t b := hrefused.handled hwritten
    exact .inl ⟨b, hrefused, hhandled.append rfl rfl |>.detected⟩

theorem takenUpTo_all (htaken : ∀ b : Fin 64, b ≠ 0 → (blockTaken card formatted b).isSome)
    (hb : b ≠ 0) : blockTaken card formatted b = some (takenUpTo card formatted 64 b) := by
  obtain ⟨x, hx⟩ := Option.isSome_iff_exists.mp (htaken b hb)
  rw [takenUpTo, if_pos ⟨hb, b.isLt⟩, hx, Option.getD_some]

/-- A run with a card of any keys, access bits and contents on the field. It stops at the
first block that takes nothing, and what the 64 blocks hold then is known exactly;
where there is no such block, success does not say that the trailers are the
template: of each only the parts that its access bits left free. -/
theorem format_any_card (refusals : Refusals) (fmt : MfcNdefFormat) (card : Card) :
    let o := run (formatHandler refusals none) (mfcNdefFormatRun fmt) (card, 0)
    let formatted := foundFormatted card
    (∀ b, firstRefused card formatted = some b →
      o.value = (failureResult (refusals.code (attemptCall formatted b .a)),
        { fmt with failBlock := b }) ∧
      o.state.1 = takenUpTo card formatted b ∧ (∀ x ≥ b, o.state.1 x = card x) ∧
      Handled fmt o.trace b) ∧
    (firstRefused card formatted = none → o.value = (.ok, fmt) ∧
      o.state.1 = takenUpTo card formatted 64 ∧ o.state.1 0 = card 0 ∧
      (∀ b, b ≠ 0 → blockTaken card formatted b = some (o.state.1 b)) ∧
      (∀ b, b ≠ 0 → ¬ IsTrailer b → o.state.1 b = (mfcNdefBuildBlock b).2) ∧
      (∀ s, TrailerTaken card formatted s (o.state.1 (trailerOf s))) ∧
      Handled fmt o.trace 64) := by
  intro o formatted
  rcases (formatRun_taking refusals fmt card).run with
    ⟨b, hrefused, hhandled⟩ | ⟨hvalue, htaking, hhandled⟩
  · have hfirst : firstRefused card formatted = some b := firstRefused_eq_some
      hrefused.ne_zero hrefused.refused hrefused.before.taken
    refine ⟨fun b' hb' => ?_, fun hnone => ?_⟩
    · obtain rfl := Option.some.inj (hfirst.symm.trans hb')
      refine ⟨hrefused.value, hrefused.before.card_eq, fun x hx => ?_, hhandled⟩
      rw [hrefused.before.card_eq]
      exact takenUpTo_of_le hx
    · exact nomatch hfirst.symm.trans hnone
  · have htaken (b : Fin 64) (hb : b ≠ 0) := htaking.taken b b.isLt hb
    have hcard (b : Fin 64) (hb : b ≠ 0) : blockTaken card formatted b = some (o.state.1 b) := by
      rw [takenUpTo_all htaken hb, ← htaking.card_eq]
    refine ⟨fun b hb => ?_, fun _ => ⟨hvalue, htaking.card_eq, ?_, hcard, fun b hb hdata => ?_,
      fun s => ?_, hhandled⟩⟩
    · exact nomatch hb.symm.trans (firstRefused_eq_none.mpr htaken)
    · rw [htaking.card_eq]
      exact if_neg fun h => h.1 rfl
    · exact blockTaken_data hdata (hcard b hb)
    · exact blockTaken_trailer (hcard _ (trailerOf_ne_zero s))

end

end FlipperApps.MfcNdef
