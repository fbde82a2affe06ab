import FlipperApps.Mifare.Classic

/-! The on-card layout of `ndef_layout.c`: block templates, 1K geometry and
the keys of each sector, with the access the written trailers then grant. -/

namespace FlipperApps.MfcNdef
open Mifare

def mfcNdefKeyDefault : Key := ⟨[0xFF, 0xFF, 0xFF, 0xFF, 0xFF, 0xFF], rfl⟩
def mfcNdefKeyMadA : Key := ⟨[0xA0, 0xA1, 0xA2, 0xA3, 0xA4, 0xA5], rfl⟩
def mfcNdefKeyMadB : Key := ⟨[0x89, 0xEC, 0xA9, 0x7F, 0x8C, 0x2A], rfl⟩
def mfcNdefKeyNdefA : Key := ⟨[0xD3, 0xF7, 0xD3, 0xF7, 0xD3, 0xF7], rfl⟩

def mfcNdefFirstblocks : Fin 8 → Block := ![
  ⟨[0x00, 0x00, 0x00, 0x00, 0x00, 0x00, 0x00, 0x00,
    0x00, 0x00, 0x00, 0x00, 0x00, 0x00, 0x00, 0x00], rfl⟩,
  ⟨[0x14, 0x01, 0x03, 0xE1, 0x03, 0xE1, 0x03, 0xE1,
    0x03, 0xE1, 0x03, 0xE1, 0x03, 0xE1, 0x03, 0xE1], rfl⟩,
  ⟨[0x03, 0xE1, 0x03, 0xE1, 0x03, 0xE1, 0x03, 0xE1,
    0x03, 0xE1, 0x03, 0xE1, 0x03, 0xE1, 0x03, 0xE1], rfl⟩,
  ⟨[0xA0, 0xA1, 0xA2, 0xA3, 0xA4, 0xA5, 0x78, 0x77,
    0x88, 0xC1, 0x89, 0xEC, 0xA9, 0x7F, 0x8C, 0x2A], rfl⟩,
  ⟨[0x03, 0x00, 0xFE, 0x00, 0x00, 0x00, 0x00, 0x00,
    0x00, 0x00, 0x00, 0x00, 0x00, 0x00, 0x00, 0x00], rfl⟩,
  ⟨[0x00, 0x00, 0x00, 0x00, 0x00, 0x00, 0x00, 0x00,
    0x00, 0x00, 0x00, 0x00, 0x00, 0x00, 0x00, 0x00], rfl⟩,
  ⟨[0x00, 0x00, 0x00, 0x00, 0x00, 0x00, 0x00, 0x00,
    0x00, 0x00, 0x00, 0x00, 0x00, 0x00, 0x00, 0x00], rfl⟩,
  ⟨[0xD3, 0xF7, 0xD3, 0xF7, 0xD3, 0xF7, 0x7F, 0x07,
    0x88, 0x40, 0xFF, 0xFF, 0xFF, 0xFF, 0xFF, 0xFF], rfl⟩]

def mfcNdefSectorOfBlock (block : Fin 64) : Fin 16 := ⟨block / 4, sector_lt block⟩

def mfcNdefBlockIsTrailer (block : Fin 64) : Bool := block.val % 4 == 3

/-- The target contents and whether the block is written at all. -/
def mfcNdefBuildBlock (block : Fin 64) : Bool × Block :=
  if block = 0 then (false, Bytes.zero 16)
  else if h : block.val ≤ 7 then (true, mfcNdefFirstblocks ⟨block, by omega⟩)
  else if mfcNdefBlockIsTrailer block then (true, mfcNdefFirstblocks 7)
  else (true, Bytes.zero 16)

def mfcNdefSectorKeys (alreadyFormatted : Bool) (sector : Fin 16) : Key × Key :=
  if !alreadyFormatted then (mfcNdefKeyDefault, mfcNdefKeyDefault)
  else if sector = 0 then (mfcNdefKeyMadA, mfcNdefKeyMadB)
  else (mfcNdefKeyNdefA, mfcNdefKeyDefault)

def formattedTrailer (sector : Fin 16) : Block :=
  if sector = 0 then mfcNdefFirstblocks 3 else mfcNdefFirstblocks 7

def Formatted (card : Card) : Prop := ∀ s, card (trailerOf s) = formattedTrailer s

instance (card : Card) : Decidable (Formatted card) := inferInstanceAs (Decidable (∀ _, _))

theorem buildBlock_fst (b : Fin 64) : (mfcNdefBuildBlock b).1 = true ↔ b ≠ 0 := by
  unfold mfcNdefBuildBlock
  split_ifs <;> simp_all

theorem buildBlock_trailer (s : Fin 16) :
    (mfcNdefBuildBlock (trailerOf s)).2 = formattedTrailer s := by
  revert s
  decide

theorem formattedTrailer_access (s : Fin 16) :
    accessBits (accessBytes (formattedTrailer s)) =
      some fun g => if g = 3 then ⟨false, true, true⟩ else ⟨s = 0, false, false⟩ := by
  revert s
  decide

theorem formattedTrailer_keys (s : Fin 16) :
    keyA (formattedTrailer s) = (mfcNdefSectorKeys true s).1 ∧
      keyB (formattedTrailer s) = (mfcNdefSectorKeys true s).2 := by
  revert s
  decide

theorem write_formatted {card : Card} {b : Fin 64} {data : Block} (hb : b ≠ 0)
    (ht : card (trailerOf (sectorOf b)) = formattedTrailer (sectorOf b)) :
    write card b (mfcNdefSectorKeys true (sectorOf b)).2 .b data =
      some (Function.update card b data) := by
  have haccess := formattedTrailer_access (sectorOf b)
  rw [← ht] at haccess
  refine write_granted hb ?_ haccess rfl ?_
  · simp only [authenticates, ht, formattedTrailer_keys]
  · by_cases htrailer : IsTrailer b
    · rw [if_pos htrailer]; rfl
    · have hgroup : group b ≠ 3 := fun h => htrailer (congrArg Fin.val h)
      simp only [htrailer, hgroup, if_false]
      cases decide (sectorOf b = 0) <;> rfl

theorem write_formatted_keyA {card : Card} {b : Fin 64} {data : Block} (hb : b ≠ 0)
    (hs : sectorOf b ≠ 0) (htrailer : ¬ IsTrailer b)
    (ht : card (trailerOf (sectorOf b)) = formattedTrailer (sectorOf b)) :
    write card b (mfcNdefSectorKeys true (sectorOf b)).1 .a data =
      some (Function.update card b data) := by
  have haccess := formattedTrailer_access (sectorOf b)
  rw [← ht] at haccess
  refine write_granted hb ?_ haccess rfl ?_
  · simp only [authenticates, ht, formattedTrailer_keys]
  · have hgroup : group b ≠ 3 := fun h => htrailer (congrArg Fin.val h)
    simp [htrailer, hgroup, hs, Access.dataWrite]

theorem write_formatted_keyA_refused {card : Card} {b : Fin 64} {key : Key} {data : Block}
    (hb : sectorOf b = 0 ∨ IsTrailer b)
    (ht : card (trailerOf (sectorOf b)) = formattedTrailer (sectorOf b)) :
    write card b key .a data = none := by
  have haccess := formattedTrailer_access (sectorOf b)
  rw [← ht] at haccess
  apply write_refused_of_permission haccess
  by_cases htrailer : IsTrailer b
  · rw [if_pos htrailer]
    rfl
  · have hgroup : group b ≠ 3 := fun h => htrailer (congrArg Fin.val h)
    simp [htrailer, hgroup, hb.resolve_right htrailer, Access.dataWrite]

theorem write_formatted_default_keyA {card : Card} {b : Fin 64} {data : Block}
    (ht : card (trailerOf (sectorOf b)) = formattedTrailer (sectorOf b)) :
    write card b (mfcNdefSectorKeys false (sectorOf b)).1 .a data = none := by
  have hkey : ∀ s, (mfcNdefSectorKeys false s).1 ≠ (mfcNdefSectorKeys true s).1 := by decide
  apply write_refused_of_key
  simp only [authenticates, ht, formattedTrailer_keys]
  exact hkey _

theorem write_formatted_default_keyB {card : Card} {b : Fin 64} {data : Block}
    (hs : sectorOf b = 0) (ht : card (trailerOf (sectorOf b)) = formattedTrailer (sectorOf b)) :
    write card b (mfcNdefSectorKeys false (sectorOf b)).2 .b data = none := by
  have hkey : (mfcNdefSectorKeys false 0).2 ≠ (mfcNdefSectorKeys true 0).2 := by decide
  apply write_refused_of_key
  simp only [authenticates, ht, formattedTrailer_keys]
  exact hs ▸ hkey

theorem sectorKeys_keyB {s : Fin 16} (hs : s ≠ 0) :
    (mfcNdefSectorKeys false s).2 = (mfcNdefSectorKeys true s).2 := by
  revert s
  decide

theorem write_blank_formatted_keys {card : Card} {b : Fin 64} {data : Block}
    (hs : sectorOf b ≠ 0) (ht : BlankTrailer (card (trailerOf (sectorOf b)))) :
    write card b (mfcNdefSectorKeys true (sectorOf b)).1 .a data = none := by
  apply write_refused_of_key
  simp only [authenticates, ht.keyA_eq, mfcNdefSectorKeys, hs]
  decide

end FlipperApps.MfcNdef
