import FlipperApps.Calls.Interruption
import FlipperApps.Calls.Transition
import FlipperApps.MfcNdef.Retry

/-!
# A format run never locks a sector out

Every write of a run puts a template block in its own place, so that a trailer
is at any time the original one or the template. Both kinds of trailer answer
to the key set that the tool chooses for them.
-/

namespace FlipperApps.MfcNdef
open Calls Mifare

/-- The poller in front of a card that may be out of reach: a write reported as
done is done, any other report leaves open whether the block was written. -/
def unreliablePoller : Environment FormatInterface Card
  | card, .writeBlock b key type data, werr, card' =>
    write card b key type data = some card' ∨ werr ≠ .none ∧ card' = card
  | card, _, _, card' => card' = card

/-- A block write is atomic: while it is under way it has happened or not. -/
def atomicWrite (card : Card) (c : FormatCall) (card' : Card) : Prop :=
  ∃ r, unreliablePoller card c r card'

def FormatAttempt (card : Card) (fmt : MfcNdefFormat) (card' : Card) : Prop :=
  ∃ t, Stops unreliablePoller atomicWrite (mfcNdefFormatRun fmt) card t card'

def keyOfType (keys : Key × Key) : KeyType → Key
  | .a => keys.1
  | .b => keys.2

def Grants (card : Card) (keys : Key × Key) (type : KeyType) (b : Fin 64) : Prop :=
  ∀ data, write card b (keyOfType keys type) type data = some (Function.update card b data)

/-- One key of the chosen set rewrites the data blocks of the sector, less the
read-only block 0, and one rewrites its trailer. -/
structure Rewritable (card : Card) (alreadyFormatted : Bool) (s : Fin 16) : Prop where
  data : ∃ type, ∀ b, sectorOf b = s → ¬ IsTrailer b → b ≠ 0 →
    Grants card (mfcNdefSectorKeys alreadyFormatted s) type b
  trailer : ∃ type, Grants card (mfcNdefSectorKeys alreadyFormatted s) type (trailerOf s)

structure NotLockedOut (original card : Card) (s : Fin 16) : Prop where
  trailer : card (trailerOf s) = original (trailerOf s) ∨
    card (trailerOf s) = formattedTrailer s
  blank : BlankTrailer (card (trailerOf s)) → Rewritable card false s
  formatted : card (trailerOf s) = formattedTrailer s → Rewritable card true s
  known : BlankTrailer (card (trailerOf s)) ∨ card (trailerOf s) = formattedTrailer s

section
variable {card card' : Card} {b : Fin 64} {s : Fin 16}

theorem sectorOf_trailerOf (s : Fin 16) : sectorOf (trailerOf s) = s := by
  ext1
  simp only [sectorOf, trailerOf]
  omega

theorem trailerOf_ne_zero (s : Fin 16) : trailerOf s ≠ 0 :=
  fun h => Nat.succ_ne_zero _ (congrArg Fin.val h)

theorem rewritable_blank (ht : BlankTrailer (card (trailerOf s))) : Rewritable card false s := by
  have hkeyA : ∀ b, sectorOf b = s → b ≠ 0 → Grants card (mfcNdefSectorKeys false s) .a b := by
    intro b hs hb data
    subst hs
    exact write_blank_keyA hb ht
  exact ⟨⟨.a, fun b hs _ hb => hkeyA b hs hb⟩,
    ⟨.a, hkeyA _ (sectorOf_trailerOf s) (trailerOf_ne_zero s)⟩⟩

theorem rewritable_formatted (ht : card (trailerOf s) = formattedTrailer s) :
    Rewritable card true s := by
  have hkeyB : ∀ b, sectorOf b = s → b ≠ 0 → Grants card (mfcNdefSectorKeys true s) .b b := by
    intro b hs hb data
    subst hs
    exact write_formatted hb ht
  exact ⟨⟨.b, fun b hs _ hb => hkeyB b hs hb⟩,
    ⟨.b, hkeyB _ (sectorOf_trailerOf s) (trailerOf_ne_zero s)⟩⟩

theorem write_known {key : Key} {type : KeyType} {data : Block}
    (hknown : BlankTrailer (card (trailerOf (sectorOf b))) ∨
      card (trailerOf (sectorOf b)) = formattedTrailer (sectorOf b))
    (h : write card b key type data = some card') : card' = Function.update card b data := by
  rcases hknown with ht | ht
  · apply write_eq_update (by rw [ht.access_eq, transport_accessBits]) _ h
    cases type
    · exact Or.inl rfl
    · exact Or.inr rfl
  · apply write_eq_update (by rw [ht, formattedTrailer_access]) _ h
    cases type
    · exact Or.inr rfl
    · exact Or.inl rfl

theorem update_trailer (card : Card) (b : Fin 64) (s : Fin 16) :
    Function.update card b (mfcNdefBuildBlock b).2 (trailerOf s) = card (trailerOf s) ∨
      Function.update card b (mfcNdefBuildBlock b).2 (trailerOf s) = formattedTrailer s := by
  by_cases hb : trailerOf s = b
  · subst hb
    exact Or.inr (by rw [Function.update_self, buildBlock_trailer])
  · exact Or.inl (Function.update_of_ne hb _ _)

end

def TrailersKept (original card : Card) : Prop :=
  ∀ s, card (trailerOf s) = original (trailerOf s) ∨ card (trailerOf s) = formattedTrailer s

def WritesTemplate : FormatCall → Prop
  | .writeBlock b _ _ data => data = (mfcNdefBuildBlock b).2
  | _ => True

section
variable {original card card' : Card} {fmt : MfcNdefFormat}

theorem formatRun_uses : (mfcNdefFormatRun fmt).Uses WritesTemplate := by
  simp only [mfcNdefFormatRun, detectType_bind, auth_bind]
  refine ⟨trivial, fun detected => ?_⟩
  dsimp only
  split_ifs
  · trivial
  · trivial
  · refine ⟨trivial, fun auth => ?_⟩
    apply Program.uses_bind
    · apply Program.uses_firstSome
      intro b
      exact formatBlock_uses trivial (fun _ => trivial) fun _ _ _ => rfl
    · intro early
      cases early <;> trivial

theorem TrailersKept.known (h : TrailersKept original card)
    (ho : Blank original ∨ Formatted original) (s : Fin 16) :
    BlankTrailer (card (trailerOf s)) ∨ card (trailerOf s) = formattedTrailer s := by
  rcases h s with hs | hs
  · rw [hs]
    exact ho.imp (· s) (· s)
  · exact Or.inr hs

theorem TrailersKept.step (h : TrailersKept original card)
    (ho : Blank original ∨ Formatted original) {c : FormatCall} {r : c.Reply}
    (hc : WritesTemplate c) (hE : unreliablePoller card c r card') :
    TrailersKept original card' := by
  cases c with
  | writeBlock b key type data =>
    obtain rfl : data = (mfcNdefBuildBlock b).2 := hc
    rcases hE with hwrite | ⟨_, rfl⟩
    · obtain rfl := write_known (h.known ho _) hwrite
      intro s
      rcases update_trailer card b s with hs | hs
      · rw [hs]
        exact h s
      · exact Or.inr hs
    · exact h
  | detectType => exact hE ▸ h
  | auth b key type => exact hE ▸ h
  | readStop => exact hE ▸ h
  | progress b => exact hE ▸ h

theorem TrailersKept.attempt (h : TrailersKept original card)
    (ho : Blank original ∨ Formatted original) (hrun : FormatAttempt card fmt card') :
    TrailersKept original card' := by
  obtain ⟨t, hstop⟩ := hrun
  refine throughout_iff.mp (throughout_of_uses h ?_ ?_ formatRun_uses) t card' hstop
  · intro s c s' hc hs h
    obtain ⟨r, hE⟩ := h
    exact hs.step ho hc hE
  · intro s c r s' hc hs hE
    exact hs.step ho hc hE

/-- After every single write of any sequence of format attempts, however they
fail, each sector still answers to the key set the tool has for its trailer. -/
theorem format_never_locks_out (ho : Blank original ∨ Formatted original)
    {fmts : List MfcNdefFormat} (hrun : Run FormatAttempt original fmts card) (s : Fin 16) :
    NotLockedOut original card s := by
  have hkept : TrailersKept original card := by
    apply hrun.invariant (P := fun _ card => TrailersKept original card)
    · exact fun s => Or.inl rfl
    · exact fun _ _ _ _ h hstep => h.attempt ho hstep
  exact ⟨hkept s, rewritable_blank, rewritable_formatted, hkept.known ho s⟩

theorem format_never_locks_out_factoryCard :
    NotLockedOut factoryCard (Function.update factoryCard 1 (mfcNdefBuildBlock 1).2) 0 := by
  have hwrite : write factoryCard 1 transportKey .a (mfcNdefBuildBlock 1).2 =
      some (Function.update factoryCard 1 (mfcNdefBuildBlock 1).2) :=
    write_blank_keyA (by decide) (factoryCard_blank 0)
  have hattempt : FormatAttempt factoryCard ⟨false, false, 0⟩
      (Function.update factoryCard 1 (mfcNdefBuildBlock 1).2) := by
    apply Exists.intro
    apply Stops.later (r := (MfClassicError.none, MfClassicType.type1k)) rfl
    apply Stops.later (r := MfClassicError.other 1) rfl
    apply Stops.later (r := MfClassicError.other 1) (Or.inr ⟨by decide, rfl⟩)
    exact .within ⟨MfClassicError.none, Or.inl hwrite⟩
  exact format_never_locks_out (Or.inl factoryCard_blank) (.snoc (.nil _) hattempt) 0

end

end FlipperApps.MfcNdef
