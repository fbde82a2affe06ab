import FlipperApps.Mifare.Classic

/-! Reading a MIFARE Classic 1K under its access bits. A trailer is read with
zeros for key A and for a key B that is a key. -/

namespace FlipperApps.Mifare

def Access.dataRead : Access → KeyType → Bool
  | ⟨true, true, true⟩, _ => false
  | ⟨false, true, true⟩, .a | ⟨true, false, true⟩, .a => false
  | _, _ => true

def generalByte (t : Block) : UInt8 := t.get 9

def maskedTrailer (access : Access) (t : Block) : Block :=
  (Bytes.zero 6).append (((accessBytes t).append ⟨[generalByte t], rfl⟩).append
    (if access.keyBReadable then keyB t else Bytes.zero 6))

def read (card : Card) (b : Fin 64) (key : Key) (type : KeyType) : Option Block :=
  if authenticates card b key type then
    (accessBits (accessBytes (card (trailerOf (sectorOf b))))).bind fun access =>
      if (access (Fin.last 3)).mayUse type then
        if IsTrailer b then some (maskedTrailer (access (Fin.last 3)) (card b))
        else if (access (group b)).dataRead type then some (card b)
        else none
      else none
  else none

theorem generalByte_masked (access : Access) (t : Block) :
    generalByte (maskedTrailer access t) = generalByte t := by
  simp [generalByte, maskedTrailer, Bytes.get]

section
variable {card : Card} {b : Fin 64} {key : Key} {type : KeyType} {access : Fin 4 → Access}

theorem read_data (hauth : authenticates card b key type)
    (haccess : accessBits (accessBytes (card (trailerOf (sectorOf b)))) = some access)
    (huse : (access 3).mayUse type = true) (htrailer : ¬ IsTrailer b)
    (hread : (access (group b)).dataRead type = true) : read card b key type = some (card b) := by
  simp [read, hauth, haccess, huse, htrailer, hread]

theorem read_trailer (hauth : authenticates card b key type)
    (haccess : accessBits (accessBytes (card (trailerOf (sectorOf b)))) = some access)
    (huse : (access 3).mayUse type = true) (htrailer : IsTrailer b) :
    read card b key type = some (maskedTrailer (access 3) (card b)) := by
  simp [read, hauth, haccess, huse, htrailer]

end

end FlipperApps.Mifare
