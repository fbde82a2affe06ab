import FlipperApps.Bytes

/-!
# Type-length-value blocks

A tag's data area holds blocks of a type byte, a length and a value, padded with
null bytes and ended by a terminator. A length below 255 takes one byte, any
other the byte 255 and two more.
-/

namespace FlipperApps.Ndef

def nullType : UInt8 := 0x00
def messageType : UInt8 := 0x03
def terminatorType : UInt8 := 0xFE

def encodeLength (n : ℕ) : List UInt8 :=
  if n < 0xFF then [UInt8.ofNat n] else 0xFF :: (Bytes.beBytes 2 n).toList

def decodeLength : List UInt8 → Option (ℕ × List UInt8)
  | [] => none
  | x :: rest =>
    if x = 0xFF then
      if h : 2 ≤ rest.length then some ((Bytes.within rest 0 2 (by omega)).beValue, rest.drop 2)
      else none
    else some (x.toNat, rest)

def encodeMessage (message : List UInt8) : List UInt8 :=
  messageType :: encodeLength message.length ++ message ++ [terminatorType]

/-- The value of the first message block of a data area. Every step consumes a byte. -/
def messageIn : ℕ → List UInt8 → Option (List UInt8)
  | 0, _ | _ + 1, [] => none
  | fuel + 1, type :: rest =>
    if type = nullType then messageIn fuel rest
    else if type = terminatorType then none
    else match decodeLength rest with
      | none => none
      | some (n, body) =>
        if n ≤ body.length then
          if type = messageType then some (body.take n) else messageIn fuel (body.drop n)
        else none

def firstMessage (area : List UInt8) : Option (List UInt8) := messageIn area.length area

theorem decodeLength_encodeLength {n : ℕ} (hn : n < 256 ^ 2) (rest : List UInt8) :
    decodeLength (encodeLength n ++ rest) = some (n, rest) := by
  unfold encodeLength
  split_ifs with hshort
  · have hvalue : (UInt8.ofNat n).toNat = n := by
      rw [UInt8.toNat_ofNat']
      omega
    have hne : UInt8.ofNat n ≠ 0xFF := by
      intro h
      rw [h] at hvalue
      exact absurd hvalue.symm (Nat.ne_of_lt hshort)
    simp only [List.cons_append, List.nil_append, decodeLength, if_neg hne, hvalue]
  · have hlen : (Bytes.beBytes 2 n).toList.length = 2 := (Bytes.beBytes 2 n).length_eq
    have htwo : 2 ≤ ((Bytes.beBytes 2 n).toList ++ rest).length := by simp
    have hwithin : Bytes.within ((Bytes.beBytes 2 n).toList ++ rest) 0 2 (by omega) =
        Bytes.beBytes 2 n := by
      ext1
      rw [Bytes.within_toList, List.drop_zero,
        List.take_append_of_le_length (Nat.le_of_eq hlen.symm),
        List.take_of_length_le (Nat.le_of_eq hlen)]
    have hrest : ((Bytes.beBytes 2 n).toList ++ rest).drop 2 = rest :=
      List.drop_left' hlen
    simp only [List.cons_append, decodeLength, if_true, dif_pos htwo, hwithin, hrest,
      Bytes.beValue_beBytes hn]

theorem firstMessage_encodeMessage {message : List UInt8} (h : message.length < 256 ^ 2)
    (rest : List UInt8) : firstMessage (encodeMessage message ++ rest) = some message := by
  have hfits : message.length ≤ (message ++ (terminatorType :: rest)).length := by simp
  have hnull : messageType ≠ nullType := by decide
  have hterminator : messageType ≠ terminatorType := by decide
  have harea : encodeMessage message ++ rest =
      messageType :: (encodeLength message.length ++ (message ++ (terminatorType :: rest))) := by
    simp [encodeMessage]
  rw [harea, firstMessage, List.length_cons, messageIn, if_neg hnull, if_neg hterminator,
    decodeLength_encodeLength h]
  simp only [if_pos hfits, if_true, List.take_left']

theorem length_encodeMessage (message : List UInt8) :
    (encodeMessage message).length =
      message.length + if message.length < 0xFF then 3 else 5 := by
  unfold encodeMessage encodeLength
  split_ifs
  · simp
  · simp
    omega

end FlipperApps.Ndef
