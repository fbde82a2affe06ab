import Mathlib.Algebra.Group.Nat.Defs
import Mathlib.Data.List.TakeDrop

/-!
# Byte buffers of a fixed size

A buffer carries the proof of its size, so that a short or an over-long key,
block or record cannot be built. Slices and concatenation keep the sizes in
the type; the lemmas say how a slice reads a concatenation. A buffer is also a
number, in either byte order.
-/

namespace FlipperApps

@[ext] structure Bytes (n : ℕ) where
  toList : List UInt8
  length_eq : toList.length = n
  deriving DecidableEq

namespace Bytes
variable {n m k : ℕ}

attribute [simp] length_eq

def zero (n : ℕ) : Bytes n := ⟨List.replicate n 0, List.length_replicate⟩

def slice (b : Bytes n) (i len : ℕ) (h : i + len ≤ n := by omega) : Bytes len :=
  ⟨(b.toList.drop i).take len, by simp; omega⟩

def get (b : Bytes n) (i : ℕ) (h : i < n := by omega) : UInt8 :=
  b.toList.get ⟨i, by simpa using h⟩

def append (b : Bytes n) (c : Bytes m) : Bytes (n + m) :=
  ⟨b.toList ++ c.toList, by simp⟩

def ofList (l : List UInt8) (h : l.length = n) : Bytes n := ⟨l, h⟩

def within (l : List UInt8) (i len : ℕ) (h : i + len ≤ l.length) : Bytes len :=
  ofList ((l.drop i).take len) (by simp; omega)

@[simp] theorem within_toList (l : List UInt8) (i len : ℕ) (h : i + len ≤ l.length) :
    (within l i len h).toList = (l.drop i).take len := rfl

@[simp] theorem slice_toList (b : Bytes n) (i len : ℕ) (h : i + len ≤ n) :
    (b.slice i len h).toList = (b.toList.drop i).take len := rfl

@[simp] theorem append_toList (b : Bytes n) (c : Bytes m) :
    (b.append c).toList = b.toList ++ c.toList := rfl

@[simp] theorem ofList_toList (l : List UInt8) (h : l.length = n) :
    (ofList l h).toList = l := rfl

@[simp] theorem zero_toList : (zero n).toList = List.replicate n 0 := rfl

theorem slice_append_drop (b : Bytes n) (i len : ℕ) (h : i + len ≤ n) :
    (b.slice i len h).toList ++ b.toList.drop (i + len) = b.toList.drop i := by
  rw [slice_toList, ← List.drop_drop, List.take_append_drop]

theorem get_cons_drop (b : Bytes n) (i : ℕ) (h : i < n) :
    b.get i h :: b.toList.drop (i + 1) = b.toList.drop i :=
  List.cons_get_drop_succ

theorem slice_end (b : Bytes n) (i len : ℕ) (h : i + len = n) :
    (b.slice i len (Nat.le_of_eq h)).toList = b.toList.drop i := by
  rw [slice_toList, List.take_of_length_le (by simp; omega)]

/-- The number with these base-256 digits, least significant first. -/
def digitsValue : List UInt8 → ℕ
  | [] => 0
  | x :: xs => x.toNat + 256 * digitsValue xs

def digits : ℕ → ℕ → List UInt8
  | 0, _ => []
  | n + 1, v => UInt8.ofNat v :: digits n (v / 256)

@[simp] theorem length_digits (n v : ℕ) : (digits n v).length = n := by
  induction n generalizing v with
  | zero => rfl
  | succ n ih => simp [digits, ih]

theorem digitsValue_digits {n v : ℕ} (h : v < 256 ^ n) : digitsValue (digits n v) = v := by
  induction n generalizing v with
  | zero =>
    obtain rfl : v = 0 := by simpa using h
    rfl
  | succ n ih =>
    have hdiv : v / 256 < 256 ^ n := Nat.div_lt_of_lt_mul (by rwa [← Nat.pow_succ'])
    rw [digits, digitsValue, ih hdiv, UInt8.toNat_ofNat', Nat.mod_add_div]

theorem digits_digitsValue (l : List UInt8) : digits l.length (digitsValue l) = l := by
  induction l with
  | nil => rfl
  | cons x xs ih =>
    have hx := x.toNat_lt
    have hhead : UInt8.ofNat (x.toNat + 256 * digitsValue xs) = x := by
      apply UInt8.toNat_inj.mp
      rw [UInt8.toNat_ofNat']
      omega
    have htail : (x.toNat + 256 * digitsValue xs) / 256 = digitsValue xs := by omega
    rw [List.length_cons, digits, digitsValue, hhead, htail, ih]

theorem digitsValue_lt (l : List UInt8) : digitsValue l < 256 ^ l.length := by
  induction l with
  | nil => simp [digitsValue]
  | cons x xs ih =>
    have hx := x.toNat_lt
    rw [digitsValue, List.length_cons, Nat.pow_succ']
    omega

def leValue (b : Bytes n) : ℕ := digitsValue b.toList

def leBytes (n v : ℕ) : Bytes n := ⟨digits n v, length_digits n v⟩

def beValue (b : Bytes n) : ℕ := digitsValue b.toList.reverse

def beBytes (n v : ℕ) : Bytes n := ⟨(digits n v).reverse, by simp⟩

theorem leBytes_leValue (b : Bytes n) : leBytes n b.leValue = b := by
  ext1
  have h := digits_digitsValue b.toList
  rwa [b.length_eq] at h

theorem leValue_leBytes {v : ℕ} (h : v < 256 ^ n) : (leBytes n v).leValue = v :=
  digitsValue_digits h

theorem leValue_lt (b : Bytes n) : b.leValue < 256 ^ n := by
  have h := digitsValue_lt b.toList
  rwa [b.length_eq] at h

theorem beValue_beBytes {v : ℕ} (h : v < 256 ^ n) : (beBytes n v).beValue = v := by
  rw [beValue, beBytes, List.reverse_reverse, digitsValue_digits h]

theorem beBytes_beValue (b : Bytes n) : beBytes n b.beValue = b := by
  ext1
  have h := digits_digitsValue b.toList.reverse
  rw [List.length_reverse, b.length_eq] at h
  exact (congrArg List.reverse h).trans (List.reverse_reverse _)

end Bytes
end FlipperApps
