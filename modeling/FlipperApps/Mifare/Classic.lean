import FlipperApps.Bytes
import Mathlib.Algebra.GroupWithZero.Nat
import Mathlib.Data.Fintype.Pi
import Mathlib.Data.Fin.VecNotation

/-!
# MIFARE Classic 1K access model

A card is its 64 blocks. The last block of each sector holds key A, the access
bits and key B, and decides which key may write which block of the sector. The
access bits are stored twice, once inverted; a sector whose two copies differ
is blocked. Key B cannot be used for memory access while the access bits make
it readable. The manufacturer block 0 is read-only.
-/

namespace FlipperApps.Mifare

abbrev Block := Bytes 16
abbrev Key := Bytes 6
abbrev Card := Fin 64 → Block

inductive KeyType
  | a
  | b
  deriving DecidableEq

instance neZeroBlocks : NeZero 64 := ⟨Nat.succ_ne_zero 63⟩
instance neZeroSectors : NeZero 16 := ⟨Nat.succ_ne_zero 15⟩

theorem sector_lt (b : Fin 64) : b.val / 4 < 16 := by omega

def sectorOf (b : Fin 64) : Fin 16 := ⟨b / 4, sector_lt b⟩
def trailerOf (s : Fin 16) : Fin 64 := ⟨4 * s + 3, by omega⟩
def IsTrailer (b : Fin 64) : Prop := b.val % 4 = 3
instance (b : Fin 64) : Decidable (IsTrailer b) := inferInstanceAs (Decidable (_ = _))

def keyA (t : Block) : Key := t.slice 0 6
def accessBytes (t : Block) : Bytes 3 := t.slice 6 3
def keyB (t : Block) : Key := t.slice 10 6

structure Access where
  c1 : Bool
  c2 : Bool
  c3 : Bool
  deriving DecidableEq

def bit (x : UInt8) (i : ℕ) : Bool := x.toNat.testBit i

/-- The conditions of the four groups, from trailer bytes 6, 7 and 8, where
each bit is stored beside its complement. -/
def accessBits (bytes : Bytes 3) : Option (Fin 4 → Access) :=
  match bytes.toList with
  | [b6, b7, b8] =>
    if ∀ g : Fin 4, bit b6 g = !bit b7 (4 + g) ∧ bit b6 (4 + g) = !bit b8 g ∧
        bit b7 g = !bit b8 (4 + g) then
      some fun g => ⟨bit b7 (4 + g), bit b8 g, bit b8 (4 + g)⟩
    else none
  | _ => none

def Access.keyBReadable : Access → Bool
  | ⟨false, false, false⟩ | ⟨false, true, false⟩ | ⟨false, false, true⟩ => true
  | _ => false

def Access.mayUse (trailer : Access) : KeyType → Bool
  | .a => true
  | .b => !trailer.keyBReadable

def Access.dataWrite : Access → KeyType → Bool
  | ⟨false, false, false⟩, _ => true
  | ⟨true, false, false⟩, .b | ⟨true, true, false⟩, .b | ⟨false, true, true⟩, .b => true
  | _, _ => false

structure TrailerWrite where
  keyA : Bool
  access : Bool
  keyB : Bool

def Access.trailerWrite : Access → KeyType → TrailerWrite
  | ⟨false, false, false⟩, .a => ⟨true, false, true⟩
  | ⟨true, false, false⟩, .b => ⟨true, false, true⟩
  | ⟨false, false, true⟩, .a => ⟨true, true, true⟩
  | ⟨false, true, true⟩, .b => ⟨true, true, true⟩
  | ⟨true, false, true⟩, .b => ⟨false, true, false⟩
  | _, _ => ⟨false, false, false⟩

def TrailerWrite.merge (w : TrailerWrite) (old new : Block) : Block :=
  ((if w.keyA then new else old).slice 0 6).append
    (((if w.access then new else old).slice 6 4).append
      ((if w.keyB then new else old).slice 10 6))

def authenticates (card : Card) (b : Fin 64) (key : Key) : KeyType → Prop
  | .a => key = keyA (card (trailerOf (sectorOf b)))
  | .b => key = keyB (card (trailerOf (sectorOf b)))

instance (card : Card) (b : Fin 64) (key : Key) : (type : KeyType) →
    Decidable (authenticates card b key type)
  | .a => inferInstanceAs (Decidable (_ = _))
  | .b => inferInstanceAs (Decidable (_ = _))

def group (b : Fin 64) : Fin 4 := ⟨b % 4, by omega⟩

/-- One authenticated write; `none` is a refusal, which changes nothing. -/
def write (card : Card) (b : Fin 64) (key : Key) (type : KeyType) (data : Block) :
    Option Card :=
  if b = 0 ∨ ¬ authenticates card b key type then none
  else match accessBits (accessBytes (card (trailerOf (sectorOf b)))) with
    | none => none
    | some access =>
      if (access 3).mayUse type then
        if IsTrailer b then
          let w := (access 3).trailerWrite type
          if w.keyA || w.access || w.keyB then
            some (Function.update card b (w.merge (card b) data))
          else none
        else if (access (group b)).dataWrite type then
          some (Function.update card b data)
        else none
      else none

def transportKey : Key := ⟨List.replicate 6 0xFF, List.length_replicate⟩
def transportAccess : Bytes 3 := ⟨[0xFF, 0x07, 0x80], rfl⟩

structure BlankTrailer (t : Block) : Prop where
  keyA_eq : keyA t = transportKey
  access_eq : accessBytes t = transportAccess
  keyB_eq : keyB t = transportKey

instance (t : Block) : Decidable (BlankTrailer t) :=
  decidable_of_iff (keyA t = transportKey ∧ accessBytes t = transportAccess ∧
      keyB t = transportKey)
    ⟨fun h => ⟨h.1, h.2.1, h.2.2⟩, fun h => ⟨h.keyA_eq, h.access_eq, h.keyB_eq⟩⟩

def Blank (card : Card) : Prop := ∀ s, BlankTrailer (card (trailerOf s))

instance (card : Card) : Decidable (Blank card) := inferInstanceAs (Decidable (∀ _, _))

theorem transport_accessBits :
    accessBits transportAccess = some fun g => ⟨false, false, g = 3⟩ := by decide

theorem merge_all (old new : Block) :
    (⟨true, true, true⟩ : TrailerWrite).merge old new = new := by
  ext1
  have h : new.toList.length = 16 := new.length_eq
  have hkeyB : (new.toList.drop 10).take 6 = new.toList.drop 10 :=
    List.take_of_length_le (by simp [h])
  have haccess : (new.toList.drop 6).take 4 ++ new.toList.drop 10 = new.toList.drop 6 := by
    rw [← List.drop_drop (i := 4) (j := 6), List.take_append_drop]
  simp only [TrailerWrite.merge, if_true, Bytes.append_toList, Bytes.slice_toList,
    List.drop_zero, hkeyB, haccess, List.take_append_drop]

section
variable {card card' : Card} {b : Fin 64} {key : Key} {type : KeyType} {data : Block}
  {access : Fin 4 → Access}

theorem write_granted (hb : b ≠ 0) (hauth : authenticates card b key type)
    (haccess : accessBits (accessBytes (card (trailerOf (sectorOf b)))) = some access)
    (huse : (access 3).mayUse type = true)
    (hperm : if IsTrailer b then (access 3).trailerWrite type = ⟨true, true, true⟩
      else (access (group b)).dataWrite type = true) :
    write card b key type data = some (Function.update card b data) := by
  simp only [write, hb, hauth, not_true_eq_false, or_self, if_false, haccess, huse, if_true]
  by_cases htrailer : IsTrailer b
  · rw [if_pos htrailer] at hperm
    simp [hperm, htrailer, merge_all]
  · rw [if_neg htrailer] at hperm
    simp [hperm, htrailer]

theorem write_refused_of_key (hauth : ¬ authenticates card b key type) :
    write card b key type data = none := by
  simp [write, hauth]

theorem write_refused_of_use
    (haccess : accessBits (accessBytes (card (trailerOf (sectorOf b)))) = some access)
    (huse : (access 3).mayUse type = false) : write card b key type data = none := by
  simp [write, haccess, huse]

theorem write_refused_of_permission
    (haccess : accessBits (accessBytes (card (trailerOf (sectorOf b)))) = some access)
    (hperm : if IsTrailer b then (access 3).trailerWrite type = ⟨false, false, false⟩
      else (access (group b)).dataWrite type = false) : write card b key type data = none := by
  simp only [write, haccess]
  by_cases htrailer : IsTrailer b
  · rw [if_pos htrailer] at hperm
    simp [hperm, htrailer]
  · rw [if_neg htrailer] at hperm
    simp [hperm, htrailer]

/-- Where the trailer is written as a whole or not at all, so is every block. -/
theorem write_eq_update
    (haccess : accessBits (accessBytes (card (trailerOf (sectorOf b)))) = some access)
    (hwhole : (access 3).trailerWrite type = ⟨true, true, true⟩ ∨
      (access 3).trailerWrite type = ⟨false, false, false⟩)
    (h : write card b key type data = some card') : card' = Function.update card b data := by
  simp only [write, haccess] at h
  by_cases hauth : b = 0 ∨ ¬ authenticates card b key type
  · rw [if_pos hauth] at h
    cases h
  rw [if_neg hauth] at h
  by_cases huse : (access 3).mayUse type = true
  · rw [if_pos huse] at h
    by_cases htrailer : IsTrailer b
    · rcases hwhole with hall | hnothing
      · simpa [htrailer, hall, merge_all] using h.symm
      · simp [htrailer, hnothing] at h
    · simp only [htrailer, if_false] at h
      split_ifs at h
      exact (Option.some.inj h).symm
  · rw [if_neg huse] at h
    cases h

theorem write_frame (h : write card b key type data = some card') {x : Fin 64} (hx : x ≠ b) :
    card' x = card x := by
  simp only [write] at h
  split at h
  · cases h
  split at h
  · cases h
  split_ifs at h <;> cases h <;> exact Function.update_of_ne hx _ _

end

section
variable {card : Card} {b : Fin 64} {data : Block}

theorem write_blank_keyA (hb : b ≠ 0) (ht : BlankTrailer (card (trailerOf (sectorOf b)))) :
    write card b transportKey .a data = some (Function.update card b data) := by
  refine write_granted hb ht.keyA_eq.symm (by rw [ht.access_eq, transport_accessBits]) rfl ?_
  split_ifs with htrailer
  · rfl
  · have hgroup : group b ≠ 3 := fun h => htrailer (congrArg Fin.val h)
    simp [hgroup, Access.dataWrite]

/-- Under the transport configuration key B is readable, so it writes nothing. -/
theorem write_blank_keyB (key : Key) (ht : BlankTrailer (card (trailerOf (sectorOf b)))) :
    write card b key .b data = none :=
  write_refused_of_use (by rw [ht.access_eq, transport_accessBits]) rfl

end

end FlipperApps.Mifare
