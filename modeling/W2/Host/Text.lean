import W2.Console.Language
import Mathlib.Data.Nat.Digits.Lemmas

/-!
# Numbers as the hosts write them

`std::hex` writes a number in lower case without leading zeros, and both hosts write a byte as
two digits. What they write for a word and its separator is a numeral of the console's
language, of the value whose bytes were written.
-/

namespace W2.Host

open Mips Console

/-- The digits `std::hex` writes, in lower case. -/
def hexDigits (n : ℕ) : List (Bool × Fin 16) :=
  if n = 0 then [digit false 0]
  else (Nat.digits 16 n).reverse.map fun d => digit false d

def hexText (n : ℕ) : List Byte := digitsText (hexDigits n)

theorem hexDigits_value (n : ℕ) : digitsValue (hexDigits n) = n := by
  unfold hexDigits
  split
  next h => simp [h, digitsValue]
  next h =>
    have hmap : (Nat.digits 16 n).map (fun d => d % 16) = Nat.digits 16 n := by
      conv_rhs => rw [← List.map_id (Nat.digits 16 n)]
      exact List.map_congr_left fun d hd => Nat.mod_eq_of_lt (Nat.digits_lt_base (by omega) hd)
    simp only [digitsValue, ← List.map_reverse, List.reverse_reverse, List.map_map]
    rw [show ((fun d : Bool × Fin 16 => d.2.val) ∘ fun d => digit false d) =
      fun d => d % 16 from rfl, hmap, Nat.ofDigits_digits]

theorem hexDigits_length {n k : ℕ} (hk : 1 ≤ k) (h : n < 16 ^ k) :
    1 ≤ (hexDigits n).length ∧ (hexDigits n).length ≤ k := by
  unfold hexDigits
  split
  next => simpa using hk
  next hn =>
    have hpos : Nat.digits 16 n ≠ [] := Nat.digits_ne_nil_iff_ne_zero.mpr hn
    have hle : (Nat.digits 16 n).length ≤ k := (Nat.digits_length_le_iff (by omega) n).mpr h
    have := List.length_pos_iff.mpr hpos
    simp
    omega

theorem getword_hexText {n : ℕ} (h : n < 16 ^ 15) {t : Byte} (ht : Ends t) (rest : List Byte) :
    getword (hexText n ++ t :: rest) = some (BitVec.ofNat 32 n, rest) := by
  have hlen := (hexDigits_length (by omega) h).2
  rw [hexText, getword_digits _ ht rest (by omega), hexDigits_value]

def hexNumeral (n : ℕ) (h : n < 4294967296) (t : Byte) (ht : Ends t) : Numeral :=
  ⟨hexDigits n, t, hexDigits_length (by omega) h, ht⟩

theorem hexNumeral_text {n : ℕ} (h : n < 4294967296) {t : Byte} (ht : Ends t) :
    (hexNumeral n h t ht).text = hexText n ++ [t] := rfl

theorem hexNumeral_value {n : ℕ} (h : n < 4294967296) {t : Byte} (ht : Ends t) :
    (hexNumeral n h t ht).value = BitVec.ofNat 32 n := by
  simp [hexNumeral, Numeral.value, hexDigits_value]

def byteDigits (b : Byte) : List (Bool × Fin 16) :=
  [digit false (b.toNat / 16), digit false b.toNat]

def wordNumeral (b₃ b₂ b₁ b₀ : Byte) (t : Byte) (ht : Ends t) : Numeral :=
  ⟨byteDigits b₃ ++ byteDigits b₂ ++ byteDigits b₁ ++ byteDigits b₀, t, by simp [byteDigits], ht⟩

theorem toNat_append_byte {n : ℕ} (x : BitVec n) (b : Byte) :
    (x ++ b).toNat = 256 * x.toNat + b.toNat := by
  rw [BitVec.toNat_append, ← Nat.shiftLeft_add_eq_or_of_lt b.isLt, Nat.shiftLeft_eq]
  omega

theorem wordNumeral_value (b₃ b₂ b₁ b₀ : Byte) {t : Byte} (ht : Ends t) :
    (wordNumeral b₃ b₂ b₁ b₀ t ht).value = b₃ ++ b₂ ++ b₁ ++ b₀ := by
  have h₃ := b₃.isLt
  have h₂ := b₂.isLt
  have h₁ := b₁.isLt
  have h₀ := b₀.isLt
  have hvalue : digitsValue (wordNumeral b₃ b₂ b₁ b₀ t ht).digits =
      256 * (256 * (256 * b₃.toNat + b₂.toNat) + b₁.toNat) + b₀.toNat := by
    simp only [wordNumeral, byteDigits, digitsValue, List.cons_append, List.nil_append,
      List.reverse_cons, List.reverse_nil, List.map_cons, List.map_nil, Nat.ofDigits_cons,
      Nat.ofDigits_nil, digit_value]
    omega
  apply BitVec.eq_of_toNat_eq
  rw [Numeral.value, hvalue, toNat_append_byte, toNat_append_byte, toNat_append_byte,
    BitVec.toNat_ofNat]
  omega

end W2.Host
