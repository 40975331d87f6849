import W2.Firmware.Dispatch

/-!
# A concrete board

The image next to memory that is all writable, with a serial port that is always ready to
send. It meets everything the proofs assume of a board, at the stack pointer 0x01000f00 in
the region the start-up code reserves for the stack.
-/

namespace W2

open Mips Transition Miniboot

def bench : Platform Uart where
  code := Miniboot.code
  device a := decide (0x1f800000 ≤ a.toNat ∧ a.toNat < 0x1f800008)
  writable _ := true
  load u a :=
    if a = 0x1f800005#32 then some (if u.ready then 1#32 else 0#32, u.poll)
    else if a = 0x1f800001#32 then
      some (if u.busy = 0 then 0#32 else 1#32, { u with busy := u.busy - 1 })
    else
      match u.rx with
      | (0, b) :: rest => some (b.setWidth 32, { u with rx := rest })
      | _ => none
  store u a w :=
    if a = 0x1f800002#32 then some { u with tx := u.tx ++ [w.setWidth 8] } else none

def Placed (pieces : List (ℕ × List Word)) : Prop :=
  ∀ s ∈ pieces, 0x10000000 ≤ s.1 ∧ s.1 % 4 = 0 ∧ s.1 + 4 * s.2.length < 0x10010000

instance (pieces : List (ℕ × List Word)) : Decidable (Placed pieces) :=
  inferInstanceAs (Decidable (∀ s ∈ pieces, _))

theorem codeOf_range {pieces : List (ℕ × List Word)} (hall : Placed pieces) {a : Addr} {w : Word}
    (h : codeOf pieces a = some w) : 0x10000000 ≤ a.toNat ∧ a.toNat < 0x10010000 := by
  obtain ⟨s, hs, hw⟩ := List.exists_of_findSome?_eq_some h
  split_ifs at hw with hin
  have hlen := (List.getElem?_eq_some_iff.mp hw).1
  have hbase := hall s hs
  omega

theorem code_range {a : Addr} {w : Word} (h : code a = some w) :
    0x10000000 ≤ a.toNat ∧ a.toNat < 0x10010000 :=
  codeOf_range (show Placed segments by decide) h

theorem alignAddr_near (a : Addr) :
    (alignAddr a).toNat ≤ a.toNat ∧ a.toNat < (alignAddr a).toNat + 4 := by
  have hle : (alignAddr a).toNat ≤ a.toNat := by
    rw [alignAddr, BitVec.toNat_and]
    exact Nat.and_le_left
  have hlow : (a &&& 3#32).toNat < 4 := by
    rw [BitVec.toNat_and]
    exact Nat.lt_of_le_of_lt Nat.and_le_right (by decide)
  have hdisj : alignAddr a &&& (a &&& 3#32) = 0#32 := by
    rw [alignAddr, ← BitVec.and_assoc, BitVec.and_comm (a &&& _) a, ← BitVec.and_assoc,
      BitVec.and_self, BitVec.and_assoc]
    simp
  have hsum : alignAddr a + (a &&& 3#32) = a := by
    rw [BitVec.add_eq_or_of_and_eq_zero _ _ hdisj, alignAddr, ← BitVec.and_or_distrib_left]
    exact BitVec.and_allOnes
  have hnat := congrArg BitVec.toNat hsum
  rw [BitVec.toNat_add] at hnat
  omega

theorem bench_ram {a : Addr} (h : a.toNat < 0x10000000) : bench.Ram a := by
  have halign := alignAddr_near a
  refine ⟨by simp only [bench, decide_eq_false_iff_not]; omega, ?_⟩
  cases hc : code (alignAddr a) with
  | none => exact hc
  | some w =>
    have := code_range hc
    omega

def LowMemory (P : Platform Uart) : Prop :=
  ∀ a : Addr, a.toNat < 0x10000000 → P.Ram a ∧ P.writable a = true

section LowMemory

variable {P : Platform Uart} {a : Addr} {n k : ℕ}

theorem LowMemory.stack (h : LowMemory P) (hn : n ≤ 512) : Stack P 0x01000f00#32 n := by
  refine ⟨by decide, fun a ha => h a ?_⟩
  unfold Below at ha
  bv_omega

theorem LowMemory.buffer (h : LowMemory P) : HexBuffer P := by
  refine fun a ha => h a ?_
  unfold InHexBuffer at ha
  bv_omega

theorem buffer_apart (hn : n ≤ 512) (a : Addr) (h : InHexBuffer a) : ¬ Below 0x01000f00#32 n a := by
  unfold InHexBuffer at h
  unfold Below
  bv_omega

theorem LowMemory.span (h : LowMemory P) (hn : n ≤ 512) (haligned : a.toNat % 4 = 0)
    (hfits : a.toNat + 4 * k ≤ 0x01000000) : Span P (Scratch 0x01000f00#32 n) a k := by
  refine ⟨haligned, by omega, fun x hx => ?_⟩
  unfold InRange at hx
  have hplain := h x (by bv_omega)
  refine ⟨hplain.1, hplain.2, ?_⟩
  rintro (hbelow | hbuffer)
  · unfold Below at hbelow
    bv_omega
  · unfold InHexBuffer at hbuffer
    bv_omega

end LowMemory

theorem bench_low : LowMemory bench := fun _ h => ⟨bench_ram h, rfl⟩

theorem bench_board : Board bench where
  code := fun _ _ h => h
  device := by
    intro a w h
    have hrange := code_range h
    have halign := alignAddr_near a
    simp only [bench, decide_eq_false_iff_not]
    omega
  dataReg := by decide
  busyReg := by decide
  sendReg := by decide
  readyReg := by decide
  loadReady := by
    intro u
    refine ⟨_, rfl, ?_⟩
    split <;> rfl
  loadData := by
    intro u b rest hu
    exact ⟨b.setWidth 32, by simp [bench, hu], by simpa using lowByte_add b 0#32⟩
  loadBusy := by
    intro u
    refine ⟨_, rfl, ?_⟩
    split <;> rfl
  storeSend := by
    intro u b hu
    refine ⟨u.busy, ?_⟩
    simp [bench]

theorem bench_load_tx {u u' : Uart} {a : Addr} {w : Word} (h : bench.load u a = some (w, u')) :
    u'.tx = u.tx := by
  simp only [bench] at h
  split at h
  next =>
    cases h
    exact u.poll_tx
  next =>
    split at h
    next =>
      cases h
      rfl
    next =>
      split at h
      next =>
        cases h
        rfl
      next => cases h

theorem bench_cumulative : Cumulative bench where
  load u a w u' h := (bench_load_tx h).symm ▸ List.prefix_rfl
  store := by
    intro u a w u' h
    simp only [bench] at h
    split at h
    next =>
      cases h
      exact List.prefix_append _ _
    next => cases h

def benchWith (pieces : List (ℕ × List Word)) : Platform Uart :=
  { bench with code := fun a => (code a).or (codeOf pieces a) }

section Pieces

variable {pieces : List (ℕ × List Word)}

theorem benchWith_range (hall : Placed pieces) {a : Addr} {w : Word}
    (h : (benchWith pieces).code a = some w) :
    0x10000000 ≤ a.toNat ∧ a.toNat < 0x10010000 := by
  rcases Option.or_eq_some_iff.mp h with hcode | ⟨-, hpiece⟩
  · exact code_range hcode
  · exact codeOf_range hall hpiece

theorem benchWith_device (hall : Placed pieces) {a : Addr} {w : Word}
    (h : (benchWith pieces).code (alignAddr a) = some w) :
    (benchWith pieces).device a = false := by
  have hrange := benchWith_range hall h
  have halign := alignAddr_near a
  simp only [benchWith, bench, decide_eq_false_iff_not]
  omega

theorem benchWith_ram (hall : Placed pieces) {a : Addr} (h : a.toNat < 0x10000000) :
    (benchWith pieces).Ram a := by
  have halign := alignAddr_near a
  refine ⟨(bench_ram h).1, ?_⟩
  cases hc : (benchWith pieces).code (alignAddr a) with
  | none => rfl
  | some w =>
    have := benchWith_range hall hc
    omega

theorem benchWith_low (hall : Placed pieces) : LowMemory (benchWith pieces) :=
  fun _ h => ⟨benchWith_ram hall h, rfl⟩

theorem benchWith_board (hall : Placed pieces) : Board (benchWith pieces) :=
  { bench_board with
    code := fun a w h => by simp [benchWith, h]
    device := fun a w h => benchWith_device hall (a := a) (w := w) (by simp [benchWith, h]) }

def Apart (pieces others : List (ℕ × List Word)) : Prop :=
  ∀ s ∈ pieces, ∀ q ∈ others, s.1 + 4 * s.2.length ≤ q.1 ∨ q.1 + 4 * q.2.length ≤ s.1

instance (pieces others : List (ℕ × List Word)) : Decidable (Apart pieces others) :=
  inferInstanceAs (Decidable (∀ s ∈ pieces, ∀ q ∈ others, _))

theorem codeOf_apart {others : List (ℕ × List Word)} (hfree : Apart pieces others) {a : Addr}
    {w : Word} (h : codeOf pieces a = some w) : codeOf others a = none := by
  obtain ⟨s, hs, hw⟩ := List.exists_of_findSome?_eq_some h
  split_ifs at hw with hin
  have hlen := (List.getElem?_eq_some_iff.mp hw).1
  refine List.findSome?_eq_none_iff.mpr fun q hq => ?_
  have hapart := hfree s hs q hq
  split_ifs with hseg
  · exact List.getElem?_eq_none (by omega)
  · rfl

theorem benchWith_pieces (hall : Placed pieces) (hfree : Apart pieces segments) :
    Pieces (benchWith pieces) pieces := by
  have hcode : ∀ a w, codeOf pieces a = some w → (benchWith pieces).code a = some w := by
    intro a w h
    have hnone : code a = none := codeOf_apart hfree h
    simp [benchWith, hnone, h]
  exact ⟨hcode, fun a w h => benchWith_device hall (hcode _ _ h)⟩

theorem codeOf_append (pieces others : List (ℕ × List Word)) (a : Addr) :
    codeOf (pieces ++ others) a = (codeOf pieces a).or (codeOf others a) :=
  List.findSome?_append

end Pieces

/-- Where the start-up code and the console's own frames leave the stack pointer. -/
theorem bench_console : ConsoleBoard bench 0x01000f00#32 where
  toBoard := bench_board
  stack := bench_low.stack (by decide)
  buffer := bench_low.buffer
  apart := buffer_apart (by decide)

def benchPrompt (mem : Mem) (input : List Byte) : State Uart where
  regs r := if r = .sp then 0x01000f00#32 else 0#32
  pc := 0x10000fb4#32
  npc := 0x10000fb8#32
  mem := mem
  dev := ⟨input.map fun b => (0, b), 0, []⟩

theorem benchPrompt_input (mem : Mem) (input : List Byte) :
    (benchPrompt mem input).dev.input = input := by
  simp [benchPrompt, Uart.input, Function.comp_def]

end W2
