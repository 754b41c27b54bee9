import Mathlib.Data.Nat.Digits.Lemmas
import Mathlib.Data.Char

/-!
# Byte strings

C text is a list of bytes read through a cursor, the end of the list standing for the
terminating NUL. `decimal` is what `%d` prints, with the facts about its digits that a reader
of numbers relies on.
-/

namespace Stored.Bytes

/-- The bytes of an ASCII literal. -/
def ascii (text : String) : List UInt8 := text.toList.map Char.toUInt8

/-- A NUL-terminated string: the bytes before the terminator. -/
structure CString where
  bytes : List UInt8
  nulFree : 0 ∉ bytes
  deriving DecidableEq

/-- `*s`, the byte under the cursor. -/
def peek : List UInt8 → UInt8
  | [] => 0
  | c :: _ => c

@[simp]
theorem peek_cons (c : UInt8) (s : List UInt8) : peek (c :: s) = c := rfl

@[simp]
theorem peek_nil : peek [] = 0 := rfl

/-- `is_digit(c)` -/
def isDigit (c : UInt8) : Bool := 48 ≤ c && c ≤ 57

def digit (d : ℕ) : UInt8 := UInt8.ofNat (48 + d)

/-- The digits of a natural number, most significant first. -/
def decimalNat (n : ℕ) : List UInt8 :=
  if n = 0 then [48] else (Nat.digits 10 n).reverse.map digit

/-- `%d` -/
def decimal (i : ℤ) : List UInt8 :=
  if i < 0 then 45 :: decimalNat i.natAbs else decimalNat i.natAbs

theorem digit_toNat {d : ℕ} (h : d < 10) : (digit d).toNat = 48 + d := by
  simp only [digit, UInt8.toNat_ofNat']
  omega

theorem isDigit_iff (c : UInt8) : isDigit c = true ↔ 48 ≤ c ∧ c ≤ 57 := by
  simp [isDigit]

theorem isDigit_digit {d : ℕ} (h : d < 10) : isDigit (digit d) = true := by
  rw [isDigit_iff, UInt8.le_iff_toNat_le, UInt8.le_iff_toNat_le, digit_toNat h]
  simp only [UInt8.reduceToNat]
  omega

theorem isDigit_of_mem_decimalNat {n : ℕ} {c : UInt8} (h : c ∈ decimalNat n) :
    isDigit c = true := by
  unfold decimalNat at h
  split_ifs at h with hn
  · rw [List.mem_singleton.mp h]
    rfl
  · obtain ⟨d, hd, rfl⟩ := List.mem_map.mp h
    exact isDigit_digit (Nat.digits_lt_base (by norm_num) (List.mem_reverse.mp hd))

/-- A positive number is printed without leading zeros. -/
theorem decimalNat_eq_cons {n : ℕ} (hn : n ≠ 0) :
    ∃ c s, decimalNat n = c :: s ∧ isDigit c = true ∧ c ≠ 48 := by
  have hne : Nat.digits 10 n ≠ [] := Nat.digits_ne_nil_iff_ne_zero.mpr hn
  have hlast := Nat.getLast_digit_ne_zero 10 hn
  have hlt : (Nat.digits 10 n).getLast hne < 10 :=
    Nat.digits_lt_base (by norm_num) (List.getLast_mem hne)
  refine ⟨digit ((Nat.digits 10 n).getLast hne), ((Nat.digits 10 n).dropLast.reverse).map digit,
    ?_, isDigit_digit hlt, ?_⟩
  · rw [decimalNat, if_neg hn]
    conv_lhs => rw [← List.dropLast_append_getLast hne]
    simp
  · intro h
    have hval := congrArg UInt8.toNat h
    rw [digit_toNat hlt] at hval
    simp at hval
    exact hlast hval

/-- The number a run of digits stands for. -/
def ofDigits (s : List UInt8) : ℕ := s.foldl (fun n c ↦ 10 * n + (c.toNat - 48)) 0

theorem ofDigits_map_digit (ds : List ℕ) (h : ∀ d ∈ ds, d < 10) (n : ℕ) :
    (ds.map digit).foldl (fun n c ↦ 10 * n + (c.toNat - 48)) n =
      n * 10 ^ ds.length + Nat.ofDigits 10 ds.reverse := by
  induction ds generalizing n with
  | nil => simp
  | cons d ds ih =>
    have hd : (digit d).toNat - 48 = d := by rw [digit_toNat (h d (by simp))]; omega
    calc
      _ = (10 * n + d) * 10 ^ ds.length + Nat.ofDigits 10 ds.reverse := by
        rw [List.map_cons, List.foldl_cons, ih fun e he ↦ h e (by simp [he]), hd]
      _ = n * 10 ^ (ds.length + 1) +
          (Nat.ofDigits 10 ds.reverse + 10 ^ ds.reverse.length * Nat.ofDigits 10 [d]) := by
        rw [List.length_reverse, Nat.ofDigits_singleton]
        ring
      _ = _ := by rw [← Nat.ofDigits_append, List.length_cons, List.reverse_cons]

theorem ofDigits_decimalNat (n : ℕ) : ofDigits (decimalNat n) = n := by
  unfold decimalNat
  split_ifs with hn
  · rw [hn]
    rfl
  · have hdigits : ∀ d ∈ (Nat.digits 10 n).reverse, d < 10 := fun d hd ↦
      Nat.digits_lt_base (by norm_num) (List.mem_reverse.mp hd)
    rw [ofDigits, ofDigits_map_digit _ hdigits]
    simp [Nat.ofDigits_digits]

end Stored.Bytes
