import W2.Mips.Isa
import Mathlib.Data.Nat.Digits.Defs
import Mathlib.Tactic.IntervalCases
import Mathlib.Tactic.Ring

/-!
# The console's number reader on byte lists

`getword` (0x1000048c) as a function of the bytes that arrive. The reader keeps a digit count
and a 32-bit accumulator; CR, LF and space end a number, a backspace undoes a digit, letters
count from ten in either case, and any other byte is taken as the digit of its own code.
`none` stands for a reader still waiting for its next byte.
-/

namespace W2.Console

open Mips

def Ends (c : Byte) : Prop := c = 13#8 ∨ c = 10#8 ∨ c = 32#8

instance (c : Byte) : Decidable (Ends c) := inferInstanceAs (Decidable (_ ∨ _))

theorem blank_ends : Ends 32#8 := by decide

theorem return_ends : Ends 13#8 := by decide

def digitOf (c : Byte) : Byte :=
  if (c - 48#8).toNat < 10 then c - 48#8
  else if (c - 65#8).toNat < 26 then c - 55#8
  else if (c - 97#8).toNat < 26 then c - 87#8
  else c

def readDigit (c : Byte) (count : ℕ) (acc : Word) : ℕ × Word :=
  if c = 8#8 then (count - 1, acc >>> 4)
  else (count + 1, acc <<< 4 + (digitOf c).setWidth 32)

def getwordFrom (count : ℕ) (acc : Word) : List Byte → Option (Word × List Byte)
  | [] => none
  | c :: rest =>
    if Ends c then some (acc, rest)
    else
      let r := readDigit c count acc
      if r.1 < 16 then getwordFrom r.1 r.2 rest else some (r.2, rest)

def getword : List Byte → Option (Word × List Byte) := getwordFrom 0 0

theorem getwordFrom_append {count : ℕ} {acc v : Word} {input rest : List Byte}
    (h : getwordFrom count acc input = some (v, rest)) (more : List Byte) :
    getwordFrom count acc (input ++ more) = some (v, rest ++ more) := by
  induction input generalizing count acc with
  | nil => simp [getwordFrom] at h
  | cons c input ih =>
    simp only [List.cons_append, getwordFrom] at h ⊢
    split_ifs at h ⊢ with hend hmore
    · obtain ⟨rfl, rfl⟩ : acc = v ∧ input = rest := by simpa using h
      rfl
    · exact ih h
    · obtain ⟨rfl, rfl⟩ : _ = v ∧ input = rest := by simpa using h
      rfl

theorem getword_append {v : Word} {input rest : List Byte} (h : getword input = some (v, rest))
    (more : List Byte) : getword (input ++ more) = some (v, rest ++ more) :=
  getwordFrom_append h more

theorem getwordFrom_split {count : ℕ} {acc v : Word} {input rest : List Byte}
    (h : getwordFrom count acc input = some (v, rest)) :
    ∃ number, input = number ++ rest ∧ getwordFrom count acc number = some (v, []) := by
  induction input generalizing count acc with
  | nil => simp [getwordFrom] at h
  | cons c input ih =>
    simp only [getwordFrom] at h
    split_ifs at h with hend hmore
    · obtain ⟨rfl, rfl⟩ : acc = v ∧ input = rest := by simpa using h
      exact ⟨[c], rfl, by simp [getwordFrom, hend]⟩
    · obtain ⟨number, rfl, hnumber⟩ := ih h
      exact ⟨c :: number, rfl, by simp [getwordFrom, hend, hmore, hnumber]⟩
    · obtain ⟨rfl, rfl⟩ : _ = v ∧ input = rest := by simpa using h
      exact ⟨[c], rfl, by simp [getwordFrom, hend, hmore]⟩

def hexDigit (upper : Bool) (d : ℕ) : Byte :=
  BitVec.ofNat 8 (if d < 10 then 48 + d else if upper then 55 + d else 87 + d)

def digit (upper : Bool) (d : ℕ) : Bool × Fin 16 := (upper, Fin.ofNat 16 d)

@[simp] theorem digit_upper (upper : Bool) (d : ℕ) : (digit upper d).1 = upper := (rfl)

@[simp] theorem digit_value (upper : Bool) (d : ℕ) : ((digit upper d).2 : ℕ) = d % 16 := (rfl)

def digitsText (ds : List (Bool × Fin 16)) : List Byte := ds.map fun d => hexDigit d.1 d.2

def digitsValue (ds : List (Bool × Fin 16)) : ℕ :=
  Nat.ofDigits 16 (ds.reverse.map fun d => d.2.val)

theorem digitOf_hexDigit (upper : Bool) {d : ℕ} (hd : d < 16) :
    digitOf (hexDigit upper d) = BitVec.ofNat 8 d := by
  cases upper <;> interval_cases d <;> rfl

theorem hexDigit_reads (upper : Bool) {d : ℕ} (hd : d < 16) :
    ¬ Ends (hexDigit upper d) ∧ hexDigit upper d ≠ 8#8 := by
  cases upper <;> interval_cases d <;> decide

theorem readDigit_hexDigit (upper : Bool) {d : ℕ} (hd : d < 16) (count a : ℕ) :
    readDigit (hexDigit upper d) count (BitVec.ofNat 32 a) =
      (count + 1, BitVec.ofNat 32 (16 * a + d)) := by
  rw [readDigit, if_neg (hexDigit_reads upper hd).2, digitOf_hexDigit upper hd]
  congr 1
  apply BitVec.eq_of_toNat_eq
  simp [BitVec.toNat_shiftLeft, Nat.shiftLeft_eq]
  omega

theorem digitsValue_cons (d : Bool × Fin 16) (ds : List (Bool × Fin 16)) :
    digitsValue (d :: ds) = digitsValue ds + 16 ^ ds.length * d.2 := by
  simp [digitsValue, Nat.ofDigits_append]

/-- Digits up to a terminator are read as the number they stand for. The induction is on the
digits still to be read, with the value of those already read in the accumulator. -/
theorem getwordFrom_digits (ds : List (Bool × Fin 16)) (count a : ℕ) {t : Byte} (ht : Ends t)
    (rest : List Byte) (hcount : count + ds.length < 16) :
    getwordFrom count (BitVec.ofNat 32 a) (digitsText ds ++ t :: rest) =
      some (BitVec.ofNat 32 (16 ^ ds.length * a + digitsValue ds), rest) := by
  induction ds generalizing count a with
  | nil => simp [digitsText, getwordFrom, ht, digitsValue]
  | cons d ds ih =>
    simp only [List.length_cons] at hcount
    have hmore : count + 1 < 16 := by omega
    simp only [digitsText, List.map_cons, List.cons_append, getwordFrom,
      (hexDigit_reads d.1 d.2.isLt).1, if_false, readDigit_hexDigit d.1 d.2.isLt, hmore, if_true]
    rw [show List.map (fun d : Bool × Fin 16 => hexDigit d.1 d.2) ds = digitsText ds from rfl,
      ih (count + 1) (16 * a + d.2) (by omega), digitsValue_cons, List.length_cons]
    congr 3
    ring

theorem getword_digits (ds : List (Bool × Fin 16)) {t : Byte} (ht : Ends t) (rest : List Byte)
    (hlen : ds.length < 16) :
    getword (digitsText ds ++ t :: rest) = some (BitVec.ofNat 32 (digitsValue ds), rest) := by
  have h := getwordFrom_digits ds 0 0 ht rest (by omega)
  simpa [getword] using h

end W2.Console
