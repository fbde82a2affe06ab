import FlipperApps.Mifare.Reading
import FlipperApps.Ndef.Tlv

/-!
# NDEF messages on a MIFARE Classic 1K

The application directory in sector 0 says which sectors hold NDEF data; its
first byte is a checksum of the others. Both the directory and the data are
read with public keys A. A message occupies the data blocks of the listed
sectors, as type-length-value blocks.
-/

namespace FlipperApps.Ndef
open Mifare

def directoryKey : Key := Bytes.beBytes 6 0xA0A1A2A3A4A5
def dataKey : Key := Bytes.beBytes 6 0xD3F7D3F7D3F7
def applicationId : Bytes 2 := ⟨[0x03, 0xE1], rfl⟩

def crcShift (crc : UInt8) : UInt8 :=
  if crc &&& 0x80 = 0 then crc <<< 1 else (crc <<< 1) ^^^ 0x1D

def crcByte (crc x : UInt8) : UInt8 := crcShift^[8] (crc ^^^ x)

def directoryChecksum (bytes : List UInt8) : UInt8 := bytes.foldl crcByte 0xC7

/-- The general purpose byte of sector 0: a directory is there, of version 1. -/
def hasDirectory (byte : UInt8) : Bool := byte &&& 0x83 == 0x81

/-- The general purpose byte of a data sector: mapping version 1.0. -/
def mappingOne (byte : UInt8) : Bool := byte &&& 0xF0 == 0x40
def readGranted (byte : UInt8) : Bool := byte &&& 0x0C == 0
def writeGranted (byte : UInt8) : Bool := byte &&& 0x03 == 0

def readDirectory (card : Card) : Option (Bytes 32) :=
  match read card (trailerOf 0) directoryKey .a, read card 1 directoryKey .a,
    read card 2 directoryKey .a with
  | some trailer, some first, some second =>
    if hasDirectory (generalByte trailer) then some (first.append second) else none
  | _, _, _ => none

/-- The sectors that a sound directory gives to NDEF; its entry `s` is at `2 * s`. -/
def listedSectors (directory : Bytes 32) : Option (List (Fin 16)) :=
  if directoryChecksum (directory.toList.drop 1) = directory.get 0 then
    some ((List.finRange 16).filter fun s =>
      decide (s ≠ 0 ∧ directory.slice (2 * s) 2 = applicationId))
  else none

def sectorGrants (card : Card) (granted : UInt8 → Bool) (s : Fin 16) : Bool :=
  match read card (trailerOf s) dataKey .a with
  | some trailer => mappingOne (generalByte trailer) && granted (generalByte trailer)
  | none => false

def dataBlocks (s : Fin 16) : List (Fin 64) :=
  [⟨4 * s, by omega⟩, ⟨4 * s + 1, by omega⟩, ⟨4 * s + 2, by omega⟩]

def openBlocks (card : Card) (granted : UInt8 → Bool) : Option (List (Fin 64)) :=
  match readDirectory card with
  | none => none
  | some directory => match listedSectors directory with
    | none => none
    | some sectors =>
      if sectors.all (sectorGrants card granted) then some (sectors.flatMap dataBlocks) else none

def contents (card : Card) (blocks : List (Fin 64)) : List UInt8 :=
  blocks.flatMap fun b => (card b).toList

def readBlocks (card : Card) : List (Fin 64) → Option (List UInt8)
  | [] => some []
  | b :: blocks =>
    match read card b dataKey .a, readBlocks card blocks with
    | some block, some rest => some (block.toList ++ rest)
    | _, _ => none

def readMessage (card : Card) : Option (List UInt8) :=
  match openBlocks card readGranted with
  | none => none
  | some blocks => match readBlocks card blocks with
    | none => none
    | some area => firstMessage area

/-- The first sixteen bytes, filled up with null bytes. -/
def chunk (bytes : List UInt8) : Block :=
  ⟨(bytes ++ List.replicate 16 nullType).take 16, by simp⟩

def writeBlocks : Card → List (Fin 64) → List UInt8 → Option Card
  | card, _, [] => some card
  | _, [], _ :: _ => none
  | card, b :: blocks, x :: bytes =>
    match write card b dataKey .a (chunk (x :: bytes)) with
    | none => none
    | some card' => writeBlocks card' blocks ((x :: bytes).drop 16)

def writeMessage (card : Card) (message : List UInt8) : Option Card :=
  match openBlocks card writeGranted with
  | none => none
  | some blocks => writeBlocks card blocks (encodeMessage message)

@[simp] theorem chunk_toList (bytes : List UInt8) :
    (chunk bytes).toList = (bytes ++ List.replicate 16 nullType).take 16 := rfl

theorem chunk_append_drop (bytes : List UInt8) :
    ∃ padding, (chunk bytes).toList ++ bytes.drop 16 = bytes ++ padding := by
  by_cases hlong : 16 ≤ bytes.length
  · refine ⟨[], ?_⟩
    rw [chunk_toList, List.take_append_of_le_length hlong, List.take_append_drop, List.append_nil]
  · refine ⟨List.replicate (16 - bytes.length) nullType, ?_⟩
    have hshort : bytes.length ≤ 16 := by omega
    rw [chunk_toList, List.drop_eq_nil_of_le hshort, List.append_nil, List.take_append,
      List.take_of_length_le hshort, List.take_replicate, Nat.min_eq_left (by omega)]

theorem readBlocks_eq {card : Card} {blocks : List (Fin 64)}
    (h : ∀ b ∈ blocks, read card b dataKey .a = some (card b)) :
    readBlocks card blocks = some (contents card blocks) := by
  induction blocks with
  | nil => rfl
  | cons b blocks ih =>
    have hrest := ih fun x hx => h x (List.mem_cons_of_mem b hx)
    simp only [readBlocks, h b List.mem_cons_self, hrest, contents, List.flatMap_cons]

section
variable {open_ : Card → Prop} {card : Card} {blocks : List (Fin 64)}

theorem writeBlocks_spec (hcard : open_ card) (hnodup : blocks.Nodup)
    (hwrite : ∀ card b data, open_ card → b ∈ blocks →
      write card b dataKey .a data = some (Function.update card b data) ∧
        open_ (Function.update card b data))
    (bytes : List UInt8) (hfits : bytes.length ≤ 16 * blocks.length) :
    ∃ card' rest, writeBlocks card blocks bytes = some card' ∧ open_ card' ∧
      contents card' blocks = bytes ++ rest ∧ ∀ b, b ∉ blocks → card' b = card b := by
  induction blocks generalizing card bytes with
  | nil =>
    obtain rfl : bytes = [] := List.length_eq_zero_iff.mp (Nat.le_zero.mp hfits)
    exact ⟨card, [], rfl, hcard, rfl, fun _ _ => rfl⟩
  | cons b blocks ih =>
    obtain ⟨hb, hnodup⟩ := List.nodup_cons.mp hnodup
    cases bytes with
    | nil => exact ⟨card, contents card (b :: blocks), rfl, hcard, rfl, fun _ _ => rfl⟩
    | cons x bytes =>
      obtain ⟨hwritten, hopen⟩ := hwrite card b (chunk (x :: bytes)) hcard List.mem_cons_self
      have hrest : ((x :: bytes).drop 16).length ≤ 16 * blocks.length := by
        simp only [List.length_drop, List.length_cons] at hfits ⊢
        omega
      obtain ⟨card', rest, hwrites, hopen', hcontents, hframe⟩ := ih hopen hnodup
        (fun card y data hcard hy => hwrite card y data hcard (List.mem_cons_of_mem b hy)) _ hrest
      obtain ⟨padding, hpadding⟩ := chunk_append_drop (x :: bytes)
      refine ⟨card', padding ++ rest, ?_, hopen', ?_, fun y hy => ?_⟩
      · simp only [writeBlocks, hwritten, hwrites]
      · have hfirst : card' b = chunk (x :: bytes) :=
          (hframe b hb).trans (Function.update_self b _ card)
        calc contents card' (b :: blocks)
            = (chunk (x :: bytes)).toList ++ ((x :: bytes).drop 16 ++ rest) := by
              rw [← hcontents, ← hfirst]
              rfl
          _ = (x :: bytes) ++ (padding ++ rest) := by
              rw [← List.append_assoc, hpadding, List.append_assoc]
      · obtain ⟨hne, hmem⟩ := List.ne_and_not_mem_of_not_mem_cons hy
        rw [hframe y hmem, Function.update_of_ne hne]

end

end FlipperApps.Ndef
