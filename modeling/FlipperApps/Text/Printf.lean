import Mathlib.Algebra.GroupWithZero.Nat
import Mathlib.Data.List.Basic

/-!
# Bounded formatted output

`snprintf` with the conversions for unsigned numbers and two-digit hexadecimal
bytes, and the reader of such a text. A text that was not cut reads back as its
arguments; a number that was cut reads as its leading digits.
-/

namespace FlipperApps.Text

inductive Piece
  | char (c : Char)
  | decimal
  | hexByte
  deriving DecidableEq

def pieces : List Char → List Piece
  | '%' :: 'u' :: rest => .decimal :: pieces rest
  | '%' :: 'l' :: 'u' :: rest => .decimal :: pieces rest
  | '%' :: '0' :: '2' :: 'X' :: rest => .hexByte :: pieces rest
  | c :: rest => .char c :: pieces rest
  | [] => []

def decimal (n : ℕ) : List Char := Nat.toDigits 10 n

/-- At least two upper-case digits, padded with zeros. -/
def hexByte (n : ℕ) : List Char :=
  let digits := (Nat.toDigits 16 n).map Char.toUpper
  List.replicate (2 - digits.length) '0' ++ digits

def printed : List Piece → List ℕ → List Char
  | [], _ => []
  | .char c :: rest, args => c :: printed rest args
  | .decimal :: rest, arg :: args => decimal arg ++ printed rest args
  | .hexByte :: rest, arg :: args => hexByte arg ++ printed rest args
  | .decimal :: _, [] => []
  | .hexByte :: _, [] => []

/-- The last place of the buffer is kept for the terminator. -/
def snprintf (size : ℕ) (format : String) (args : List ℕ) : String :=
  String.ofList ((printed (pieces format.toList) args).take (size - 1))

def hexValue (c : Char) : Option ℕ :=
  if c.isDigit then some (c.toNat - '0'.toNat)
  else if 'A' ≤ c ∧ c ≤ 'F' then some (c.toNat - 'A'.toNat + 10)
  else none

def scanHex (a b : Char) : Option ℕ :=
  (hexValue a).bind fun x => (hexValue b).map fun y => 16 * x + y

/-- Reads a text as a format; a number takes all digits that follow. -/
def scan : List Piece → List Char → Option (List ℕ)
  | [], [] => some []
  | .char c :: rest, c' :: text => if c = c' then scan rest text else none
  | .hexByte :: rest, a :: b :: text =>
    (scanHex a b).bind fun x => (scan rest text).map (x :: ·)
  | .decimal :: rest, text =>
    if text.takeWhile Char.isDigit = [] then none
    else (scan rest (text.dropWhile Char.isDigit)).map
      (Nat.ofDigitChars 10 (text.takeWhile Char.isDigit) 0 :: ·)
  | _, _ => none

def readsAs (format text : String) : Option (List ℕ) := scan (pieces format.toList) text.toList

def Piece.IsDigit : Piece → Prop
  | .char c => c.isDigit = true
  | _ => True

instance : (piece : Piece) → Decidable piece.IsDigit
  | .char _ => inferInstanceAs (Decidable (_ = _))
  | .decimal => .isTrue trivial
  | .hexByte => .isTrue trivial

def Separated : List Piece → Prop
  | [] => True
  | .decimal :: rest => (∀ piece ∈ rest.head?, ¬ piece.IsDigit) ∧ Separated rest
  | .char _ :: rest => Separated rest
  | .hexByte :: rest => Separated rest

def Fits : List Piece → List ℕ → Prop
  | [], args => args = []
  | .char _ :: rest, args => Fits rest args
  | .decimal :: rest, _ :: args => Fits rest args
  | .hexByte :: rest, arg :: args => arg < 256 ∧ Fits rest args
  | .decimal :: _, [] => False
  | .hexByte :: _, [] => False

section
variable {ps : List Piece} {args : List ℕ} {n k : ℕ}

theorem length_decimal_le (hk : 0 < k) : (decimal n).length ≤ k ↔ n < 10 ^ k :=
  Nat.length_toDigits_le_iff (by decide) hk

theorem scanHex_hexByte : ∀ n : Fin 256, ∃ a b, hexByte n = [a, b] ∧ scanHex a b = some n.val := by
  have htwo : ∀ n : Fin 256, (hexByte n).length = 2 ∧
      scanHex ((hexByte n).headD ' ') ((hexByte n).tail.headD ' ') = some n.val := by
    decide +kernel
  intro n
  obtain ⟨hlength, hvalue⟩ := htwo n
  obtain ⟨a, b, hab⟩ := List.length_eq_two.mp hlength
  rw [hab] at hvalue
  exact ⟨a, b, hab, hvalue⟩

theorem printed_head (h : ∀ piece ∈ ps.head?, ¬ piece.IsDigit) :
    ∀ c ∈ (printed ps args).head?, c.isDigit = false := by
  cases ps with
  | nil => simp [printed]
  | cons piece ps =>
    have hpiece := h piece rfl
    cases piece with
    | char c => simpa [printed, Piece.IsDigit] using hpiece
    | decimal => exact absurd trivial hpiece
    | hexByte => exact absurd trivial hpiece

theorem decimal_split {rest : List Char} (h : ∀ c ∈ rest.head?, c.isDigit = false) :
    (decimal n ++ rest).takeWhile Char.isDigit = decimal n ∧
      (decimal n ++ rest).dropWhile Char.isDigit = rest := by
  have hdigits : ∀ c ∈ decimal n, c.isDigit = true := fun c hc =>
    Nat.isDigit_of_mem_toDigits (by decide) (by decide) hc
  rw [List.takeWhile_append_of_pos hdigits, List.dropWhile_append_of_pos hdigits]
  cases rest with
  | nil => simp
  | cons c rest =>
    have hc : c.isDigit = false := h c rfl
    simp [hc]

theorem scan_printed (hs : Separated ps) (hf : Fits ps args) :
    scan ps (printed ps args) = some args := by
  induction ps generalizing args with
  | nil =>
    obtain rfl : args = [] := hf
    rfl
  | cons piece ps ih =>
    cases piece with
    | char c =>
      simp only [printed, scan, if_true]
      exact ih hs hf
    | decimal =>
      obtain ⟨hhead, hs⟩ := hs
      cases args with
      | nil => exact hf.elim
      | cons arg args =>
        obtain ⟨htake, hdrop⟩ := decimal_split (n := arg) (printed_head hhead)
        have hne : decimal arg ≠ [] := Nat.toDigits_ne_nil
        rw [printed, scan, htake, hdrop, if_neg hne, ih hs hf]
        simp [decimal]
    | hexByte =>
      cases args with
      | nil => exact hf.elim
      | cons arg args =>
        obtain ⟨hbyte, hf⟩ := hf
        obtain ⟨a, b, hab, hvalue⟩ := scanHex_hexByte ⟨arg, hbyte⟩
        simp only at hab hvalue
        rw [printed, hab]
        simp only [List.cons_append, List.nil_append, scan, hvalue, Option.bind_some, ih hs hf,
          Option.map_some]

theorem snprintf_whole {size : ℕ} {format : String}
    (h : (printed (pieces format.toList) args).length < size) :
    (snprintf size format args).toList = printed (pieces format.toList) args := by
  rw [snprintf, String.toList_ofList, List.take_of_length_le (by omega)]

theorem readsAs_snprintf {size : ℕ} {format : String} (hs : Separated (pieces format.toList))
    (hf : Fits (pieces format.toList) args)
    (h : (printed (pieces format.toList) args).length < size) :
    readsAs format (snprintf size format args) = some args := by
  rw [readsAs, snprintf_whole h]
  exact scan_printed hs hf

theorem decimal_take (hpos : 0 < k) (hk : k ≤ (decimal n).length) :
    (decimal n).take k = decimal (n / 10 ^ ((decimal n).length - k)) := by
  induction hd : (decimal n).length - k generalizing n with
  | zero =>
    rw [List.take_of_length_le (by omega)]
    simp
  | succ d ih =>
    have hn : 10 ≤ n := by
      by_contra hlt
      have hlength : (decimal n).length ≤ 1 := (length_decimal_le (by decide)).mpr (by omega)
      omega
    have hdecimal : decimal n = decimal (n / 10) ++ [Nat.digitChar (n % 10)] :=
      Nat.toDigits_of_base_le (by decide) hn
    have hlength : (decimal n).length = (decimal (n / 10)).length + 1 := by
      rw [hdecimal, List.length_append, List.length_singleton]
    rw [hdecimal, List.take_append_of_le_length (by omega), ih (by omega) (by omega),
      Nat.div_div_eq_div_mul, Nat.pow_succ, Nat.mul_comm]

end

end FlipperApps.Text
