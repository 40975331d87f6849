import W2.Mips.Isa
import Mathlib.Tactic.IntervalCases

/-!
# Byte-addressed little-endian memory

Words occupy four consecutive bytes, least significant first; addresses wrap modulo 2^32.
Stack discipline is stated by windows: `Below sp n` holds of the `n` bytes under `sp`, and
`Frame sp n` relates two memories that differ at most there. Reads and writes at literal
offsets from one base are compared by the offsets alone.
-/

namespace Mips

abbrev Mem := Addr → Byte

def Mem.readWord (m : Mem) (a : Addr) : Word :=
  m (a + 3#32) ++ m (a + 2#32) ++ m (a + 1#32) ++ m a

/-- Byte `i` of a word, counted from the least significant one. -/
def byteOf (w : Word) (i : ℕ) : Byte := w.extractLsb' (8 * i) 8

def Mem.writeWord (m : Mem) (a : Addr) (w : Word) : Mem :=
  fun x => if (x - a).toNat < 4 then byteOf w (x - a).toNat else m x

def Mem.writeByte (m : Mem) (a : Addr) (b : Byte) : Mem :=
  fun x => if x = a then b else m x

theorem byteOf_append (w : Word) :
    byteOf w 3 ++ byteOf w 2 ++ byteOf w 1 ++ byteOf w 0 = w := by
  simp only [byteOf]
  ext i hi
  simp only [BitVec.getElem_append, BitVec.getElem_extractLsb']
  interval_cases i <;> simp

def InRange (a : Addr) (n : ℕ) (x : Addr) : Prop := (x - a).toNat < n

instance (a : Addr) (n : ℕ) (x : Addr) : Decidable (InRange a n x) :=
  inferInstanceAs (Decidable (_ < _))

namespace Mem

variable (m : Mem) (a b : Addr) (v : Word)

theorem writeWord_outside {x : Addr} (h : 4 ≤ (x - a).toNat) : m.writeWord a v x = m x :=
  if_neg (Nat.not_lt.mpr h)

theorem writeWord_at {i : ℕ} (hi : i < 4) :
    m.writeWord a v (a + BitVec.ofNat 32 i) = byteOf v i := by
  have h : (a + BitVec.ofNat 32 i - a).toNat = i := by bv_omega
  simp only [writeWord, h, hi, if_true]

@[simp] theorem readWord_writeWord : (m.writeWord a v).readWord a = v := by
  have h0 : m.writeWord a v a = byteOf v 0 := by simpa using m.writeWord_at a v (i := 0) (by omega)
  have h1 : m.writeWord a v (a + 1#32) = byteOf v 1 := m.writeWord_at a v (i := 1) (by omega)
  have h2 : m.writeWord a v (a + 2#32) = byteOf v 2 := m.writeWord_at a v (i := 2) (by omega)
  have h3 : m.writeWord a v (a + 3#32) = byteOf v 3 := m.writeWord_at a v (i := 3) (by omega)
  simp only [readWord, h0, h1, h2, h3]
  exact byteOf_append v

theorem writeWord_twice : (m.writeWord a v).writeWord a v = m.writeWord a v := by
  funext x
  simp only [writeWord]
  split <;> rfl

theorem readWord_congr {m m' : Mem} {a : Addr}
    (h : ∀ i < 4, m' (a + BitVec.ofNat 32 i) = m (a + BitVec.ofNat 32 i)) :
    m'.readWord a = m.readWord a := by
  have h0 : m' a = m a := by simpa using h 0 (by omega)
  have h1 : m' (a + 1#32) = m (a + 1#32) := h 1 (by omega)
  have h2 : m' (a + 2#32) = m (a + 2#32) := h 2 (by omega)
  have h3 : m' (a + 3#32) = m (a + 3#32) := h 3 (by omega)
  simp only [readWord, h0, h1, h2, h3]

theorem readWord_writeWord_disjoint (h : 4 ≤ (b - a).toNat) (h' : 4 ≤ (a - b).toNat) :
    (m.writeWord a v).readWord b = m.readWord b := by
  refine readWord_congr fun i hi => m.writeWord_outside a v ?_
  bv_omega

@[simp] theorem readWord_writeWord_offset (c d : Word) (h : 4 ≤ (d - c).toNat)
    (h' : 4 ≤ (c - d).toNat) :
    (m.writeWord (a + c) v).readWord (a + d) = m.readWord (a + d) := by
  apply readWord_writeWord_disjoint
  · rwa [show a + d - (a + c) = d - c by bv_omega]
  · rwa [show a + c - (a + d) = c - d by bv_omega]

def writeWords (m : Mem) (a : Addr) : List Word → Mem
  | [] => m
  | w :: ws => writeWords (m.writeWord a w) (a + 4#32) ws

theorem writeWords_outside (m : Mem) (a : Addr) (ws : List Word) {x : Addr}
    (h : ¬ InRange a (4 * ws.length) x) : m.writeWords a ws x = m x := by
  induction ws generalizing m a with
  | nil => rfl
  | cons w ws ih =>
    simp only [InRange, List.length_cons] at h ih
    rw [writeWords, ih, writeWord_outside]
    · omega
    · bv_omega

theorem writeWords_at (m : Mem) (a : Addr) (ws : List Word) {k i : ℕ} (hk : k < ws.length)
    (hi : i < 4) (hfit : 4 * ws.length ≤ 4294967296) :
    m.writeWords a ws (a + BitVec.ofNat 32 (4 * k + i)) = byteOf ws[k] i := by
  induction ws generalizing m a k with
  | nil => simp at hk
  | cons w ws ih =>
    simp only [List.length_cons] at hk hfit
    cases k with
    | zero =>
      rw [writeWords, writeWords_outside]
      · simpa using m.writeWord_at a w hi
      · unfold InRange
        bv_omega
    | succ k =>
      have hshift : a + BitVec.ofNat 32 (4 * (k + 1) + i) =
          a + 4#32 + BitVec.ofNat 32 (4 * k + i) := by bv_omega
      rw [writeWords, hshift, ih _ _ (by omega) (by omega)]
      rfl

theorem readWord_writeWords (m : Mem) (a : Addr) (ws : List Word) {k : ℕ} (hk : k < ws.length)
    (hfit : 4 * ws.length ≤ 4294967296) :
    (m.writeWords a ws).readWord (a + BitVec.ofNat 32 (4 * k)) = ws[k] := by
  have hbyte (i : ℕ) (hi : i < 4) :
      m.writeWords a ws (a + BitVec.ofNat 32 (4 * k) + BitVec.ofNat 32 i) = byteOf ws[k] i := by
    rw [← writeWords_at m a ws hk hi hfit, BitVec.add_assoc, BitVec.ofNat_add]
  have h0 := hbyte 0 (by omega)
  simp only [BitVec.add_zero] at h0
  rw [readWord, h0, hbyte 1 (by omega), hbyte 2 (by omega), hbyte 3 (by omega)]
  exact byteOf_append ws[k]

theorem readWord_writeWords_outside (m : Mem) (a : Addr) (ws : List Word) {b : Addr}
    (h : ∀ i < 4, ¬ InRange a (4 * ws.length) (b + BitVec.ofNat 32 i)) :
    (m.writeWords a ws).readWord b = m.readWord b :=
  readWord_congr fun i hi => writeWords_outside m a ws (h i hi)

theorem writeWords_append (m : Mem) (a : Addr) (ws : List Word) (w : Word) :
    m.writeWords a (ws ++ [w]) =
      (m.writeWords a ws).writeWord (a + BitVec.ofNat 32 (4 * ws.length)) w := by
  induction ws generalizing m a with
  | nil => simp [writeWords]
  | cons v ws ih =>
    rw [List.cons_append, writeWords, writeWords, ih]
    congr 1
    rw [List.length_cons, BitVec.add_assoc]
    congr 1
    bv_omega

def writeBytes (m : Mem) (a : Addr) (bs : List Byte) : Mem :=
  fun x => (bs[(x - a).toNat]?).getD (m x)

@[simp] theorem writeBytes_nil (m : Mem) (a : Addr) : m.writeBytes a [] = m := (rfl)

theorem writeBytes_outside (m : Mem) (a : Addr) (bs : List Byte) {x : Addr}
    (h : ¬ InRange a bs.length x) : m.writeBytes a bs x = m x := by
  rw [writeBytes, List.getElem?_eq_none (Nat.le_of_not_lt h)]
  rfl

theorem writeBytes_at (m : Mem) (a : Addr) (bs : List Byte) {i : ℕ} (hi : i < bs.length)
    (hfit : bs.length ≤ 4294967296) : m.writeBytes a bs (a + BitVec.ofNat 32 i) = bs[i] := by
  have hindex : (a + BitVec.ofNat 32 i - a).toNat = i := by bv_omega
  rw [writeBytes, hindex, List.getElem?_eq_getElem hi]
  rfl

theorem byteOf_bytes (b₀ b₁ b₂ b₃ : Byte) {j : ℕ} (hj : j < 4) :
    [b₀, b₁, b₂, b₃][j]? = some (byteOf (b₃ ++ b₂ ++ b₁ ++ b₀) j) := by
  have hbyte (b : Byte) (h : ∀ i (hi : i < 8), b[i] =
      (b₃ ++ b₂ ++ b₁ ++ b₀).getLsbD (8 * j + i)) : b = byteOf (b₃ ++ b₂ ++ b₁ ++ b₀) j := by
    ext i hi
    rw [h i hi, byteOf, BitVec.getElem_extractLsb']
  interval_cases j <;> refine congrArg some (hbyte _ fun i hi => ?_) <;> interval_cases i <;>
    simp only [BitVec.getLsbD_append] <;> simp

theorem writeBytes_word (m : Mem) (a : Addr) (bs : List Byte) (b₀ b₁ b₂ b₃ : Byte)
    (hfit : bs.length + 4 ≤ 4294967296) :
    (m.writeBytes a bs).writeWord (a + BitVec.ofNat 32 bs.length) (b₃ ++ b₂ ++ b₁ ++ b₀) =
      m.writeBytes a (bs ++ [b₀, b₁, b₂, b₃]) := by
  funext x
  unfold writeWord
  split
  next hin =>
    have hindex : (x - a).toNat = bs.length + (x - (a + BitVec.ofNat 32 bs.length)).toNat := by
      bv_omega
    rw [writeBytes, hindex, List.getElem?_append_right (by omega), Nat.add_sub_cancel_left,
      byteOf_bytes _ _ _ _ hin]
    rfl
  next hout =>
    by_cases hlow : (x - a).toNat < bs.length
    · rw [writeBytes, writeBytes, List.getElem?_append_left hlow]
    · have hhigh : (bs ++ [b₀, b₁, b₂, b₃]).length ≤ (x - a).toNat := by
        simp only [List.length_append, List.length_cons, List.length_nil]
        bv_omega
      rw [writeBytes, writeBytes, List.getElem?_eq_none (by omega), List.getElem?_eq_none hhigh]

end Mem

def Agree (hidden : Addr → Prop) (m m' : Mem) : Prop := ∀ a, ¬ hidden a → m' a = m a

namespace Agree

variable {hidden hidden' : Addr → Prop} {m m' m'' : Mem}

theorem refl (hidden : Addr → Prop) (m : Mem) : Agree hidden m m := fun _ _ => rfl

theorem symm (h : Agree hidden m m') : Agree hidden m' m := fun a ha => (h a ha).symm

theorem trans (h : Agree hidden m m') (h' : Agree hidden m' m'') : Agree hidden m m'' :=
  fun a ha => (h' a ha).trans (h a ha)

theorem mono (h : Agree hidden m m') (hsub : ∀ a, hidden a → hidden' a) : Agree hidden' m m' :=
  fun a ha => h a fun hh => ha (hsub a hh)

theorem writeWord (h : Agree hidden m m') (a : Addr) (v : Word) :
    Agree hidden (m.writeWord a v) (m'.writeWord a v) := by
  intro x hx
  simp only [Mem.writeWord, h x hx]

theorem writeWords (h : Agree hidden m m') (a : Addr) (ws : List Word) :
    Agree hidden (m.writeWords a ws) (m'.writeWords a ws) := by
  induction ws generalizing m m' a with
  | nil => exact h
  | cons w ws ih => exact ih (h.writeWord a w) _

theorem writeBytes (h : Agree hidden m m') (a : Addr) (bs : List Byte) :
    Agree hidden (m.writeBytes a bs) (m'.writeBytes a bs) := by
  intro x hx
  simp only [Mem.writeBytes, h x hx]

theorem next_word {m₀ : Mem} {a : Addr} {bytes : List Byte} {i : ℕ} {b₀ b₁ b₂ b₃ : Byte}
    (h : Agree hidden (m₀.writeBytes a (bytes.take i)) m) (hi : i ≤ bytes.length)
    (htake : bytes.take (i + 4) = bytes.take i ++ [b₀, b₁, b₂, b₃]) (hfit : i + 4 ≤ 4294967296) :
    Agree hidden (m₀.writeBytes a (bytes.take (i + 4)))
      (m.writeWord (a + BitVec.ofNat 32 i) (b₃ ++ b₂ ++ b₁ ++ b₀)) := by
  have hlen : (bytes.take i).length = i := List.length_take_of_le hi
  have hnext := Mem.writeBytes_word m₀ a (bytes.take i) b₀ b₁ b₂ b₃ (by omega)
  rw [hlen] at hnext
  rw [htake, ← hnext]
  exact h.writeWord _ _

theorem readWord (h : Agree hidden m m') {a : Addr}
    (ha : ∀ i < 4, ¬ hidden (a + BitVec.ofNat 32 i)) : m'.readWord a = m.readWord a :=
  Mem.readWord_congr fun i hi => h _ (ha i hi)

end Agree

def Below (sp : Addr) (n : ℕ) (a : Addr) : Prop := (sp - 1#32 - a).toNat < n

instance (sp : Addr) (n : ℕ) (a : Addr) : Decidable (Below sp n a) :=
  inferInstanceAs (Decidable (_ < _))

theorem Below.mono {sp a c : Addr} {n k : ℕ} (h : Below (sp + c) n a)
    (hk : (-c).toNat + n ≤ k) : Below sp k a := by
  unfold Below at *
  bv_omega

theorem Below.weaken {sp a : Addr} {n k : ℕ} (h : Below sp n a) (hk : n ≤ k) : Below sp k a :=
  Nat.lt_of_lt_of_le h hk

abbrev Frame (sp : Addr) (n : ℕ) : Mem → Mem → Prop := Agree (Below sp n)

namespace Frame

variable {sp : Addr} {n k : ℕ} {m m' : Mem}

theorem caller {c : Word} (h : Frame (sp + c) n m m') (hk : (-c).toNat + n ≤ k) :
    Frame sp k m m' :=
  Agree.mono h fun _ hb => hb.mono hk

theorem write {c : Word} (h : Frame sp n m m') (v : Word) (hc : (-c).toNat ≤ n)
    (hc' : 4 ≤ (-c).toNat) : Frame sp n m (m'.writeWord (sp + c) v) := by
  intro a ha
  rw [Mem.writeWord_outside]
  · exact h a ha
  · unfold Below at ha
    bv_omega

theorem readSlot {b : Addr} {c d : Word} (h : Frame (b + c) n m m')
    (hd : (d - c).toNat + 3 + n < 4294967296) : m'.readWord (b + d) = m.readWord (b + d) := by
  refine Mem.readWord_congr fun i hi => h _ ?_
  unfold Below
  bv_omega

end Frame

end Mips
