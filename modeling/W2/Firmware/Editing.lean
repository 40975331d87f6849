import W2.Firmware.Bench

/-!
# Line editing in the number reader

A line is edited by typing digits and deleting the last one. The reader has no line: it shifts
digits into 32 bits and out again, so that a digit with eight others to its right is gone and
comes back as zero. The number it returns is that of the line whose lost digits are zeros.
-/

namespace W2

open Mips Transition Miniboot Console

section Lines

abbrev LineDigit := Bool × Fin 16

inductive Key
  | digit (d : LineDigit)
  | backspace

def Key.byte : Key → Byte
  | .digit d => Console.hexDigit d.1 d.2
  | .backspace => 8#8

/-- A line is kept with its last digit first. -/
def press (line : List LineDigit) : Key → List LineDigit
  | .digit d => d :: line
  | .backspace => line.tail

def edit : List LineDigit → List Key → List LineDigit
  | line, [] => line
  | line, key :: keys => edit (press line key) keys

def lineValue (line : List LineDigit) : ℕ := digitsValue line.reverse

/-- A digit and whether it has had eight or more digits to its right. -/
abbrev Tracked := LineDigit × Bool

def markLost (line : List Tracked) : List Tracked :=
  line.take 8 ++ (line.drop 8).map fun p => (p.1, true)

def track (line : List Tracked) : Key → List Tracked
  | .digit d => markLost ((d, false) :: line)
  | .backspace => line.tail

def trackAll : List Tracked → List Key → List Tracked
  | line, [] => line
  | line, key :: keys => trackAll (track line key) keys

/-- Every digit of the line that has had eight digits to its right is a zero. -/
def KeepsDigits (keys : List Key) : Prop :=
  ∀ p ∈ trackAll [] keys, p.2 = true → p.1.2.val = 0

theorem markLost_digits (line : List Tracked) :
    (markLost line).map Prod.fst = line.map Prod.fst := by
  conv_rhs => rw [← List.take_append_drop 8 line]
  simp [markLost, Function.comp_def]

theorem track_digits (line : List Tracked) (key : Key) :
    (track line key).map Prod.fst = press (line.map Prod.fst) key := by
  cases key with
  | digit d => simp [track, press, markLost_digits]
  | backspace => simp [track, press, List.map_tail]

theorem trackAll_digits (line : List Tracked) (keys : List Key) :
    (trackAll line keys).map Prod.fst = edit (line.map Prod.fst) keys := by
  induction keys generalizing line with
  | nil => rfl
  | cons key keys ih => rw [trackAll, ih, track_digits, edit]

end Lines

section Accumulator

def Tracked.kept (p : Tracked) : ℕ := if p.2 then 0 else p.1.2

def keptValue (line : List Tracked) : ℕ := Nat.ofDigits 16 (line.map Tracked.kept)

def LostBeyond (line : List Tracked) : Prop := ∀ p ∈ line.drop 8, p.2 = true

theorem Tracked.kept_lt (p : Tracked) : p.kept < 16 := by
  have := p.1.2.isLt
  unfold Tracked.kept
  split <;> omega

theorem kept_digits (line : List Tracked) : ∀ x ∈ line.map Tracked.kept, x < 16 := by
  intro x hx
  obtain ⟨p, -, rfl⟩ := List.mem_map.mp hx
  exact p.kept_lt

theorem ofDigits_lost {line : List Tracked} (h : ∀ p ∈ line, p.2 = true) :
    Nat.ofDigits 16 (line.map Tracked.kept) = 0 := by
  induction line with
  | nil => rfl
  | cons p line ih =>
    have hp : p.kept = 0 := by simp [Tracked.kept, h p (by simp)]
    rw [List.map_cons, Nat.ofDigits_cons, hp, ih fun q hq => h q (by simp [hq])]

theorem keptValue_take {line : List Tracked} (h : LostBeyond line) :
    keptValue line = Nat.ofDigits 16 ((line.take 8).map Tracked.kept) := by
  conv_lhs => rw [keptValue, ← List.take_append_drop 8 line, List.map_append, Nat.ofDigits_append,
    ofDigits_lost h]
  simp

theorem keptValue_lt {line : List Tracked} (h : LostBeyond line) : keptValue line < 4294967296 := by
  rw [keptValue_take h]
  refine Nat.lt_of_lt_of_le (Nat.ofDigits_lt_base_pow_length (by omega) (kept_digits _)) ?_
  rw [show 4294967296 = 16 ^ 8 from rfl]
  exact Nat.pow_le_pow_right (by omega) (by simp)

theorem markLost_lostBeyond (line : List Tracked) : LostBeyond (markLost line) := by
  intro p hp
  rw [markLost, List.drop_append, List.drop_eq_nil_of_le (by simp), List.nil_append] at hp
  obtain ⟨q, -, rfl⟩ := List.mem_map.mp (List.mem_of_mem_drop hp)
  rfl

theorem markLost_take (line : List Tracked) : (markLost line).take 8 = line.take 8 := by
  rw [markLost, List.take_append, List.take_take, Nat.min_self]
  by_cases hlen : line.length ≤ 8
  · simp [List.drop_eq_nil_of_le hlen]
  · simp [Nat.min_eq_left (Nat.le_of_not_le hlen)]

theorem markLost_value (line : List Tracked) :
    keptValue (markLost line) % 4294967296 = keptValue line % 4294967296 := by
  have h := Nat.ofDigits_mod_pow_eq_ofDigits_take (p := 16) 8 (by omega)
  rw [keptValue, keptValue, show 4294967296 = 16 ^ 8 from rfl, h _ (kept_digits _),
    h _ (kept_digits _), ← List.map_take, ← List.map_take, markLost_take]

theorem track_lostBeyond {line : List Tracked} (h : LostBeyond line) (key : Key) :
    LostBeyond (track line key) := by
  cases key with
  | digit d => exact markLost_lostBeyond _
  | backspace =>
    intro p hp
    have hdrop : line.tail.drop 8 = (line.drop 8).drop 1 := by
      rw [List.drop_tail, List.drop_drop]
    rw [track, hdrop] at hp
    exact h p (List.mem_of_mem_drop hp)

theorem readDigit_track {line : List Tracked} (h : LostBeyond line) (key : Key) :
    readDigit key.byte line.length (BitVec.ofNat 32 (keptValue line)) =
      ((track line key).length, BitVec.ofNat 32 (keptValue (track line key))) := by
  cases key with
  | digit d =>
    have hlength : (markLost ((d, false) :: line)).length = line.length + 1 := by
      simpa using congrArg List.length (markLost_digits ((d, false) :: line))
    have hvalue : keptValue ((d, false) :: line) = 16 * keptValue line + d.2 := by
      simp [keptValue, Tracked.kept, Nat.ofDigits_cons]
      omega
    rw [Key.byte, readDigit_hexDigit d.1 d.2.isLt, ← hvalue, track, hlength]
    congr 1
    apply BitVec.eq_of_toNat_eq
    rw [BitVec.toNat_ofNat, BitVec.toNat_ofNat]
    exact (markLost_value _).symm
  | backspace =>
    have hlt := keptValue_lt h
    have hshift : BitVec.ofNat 32 (keptValue line) >>> 4 =
        BitVec.ofNat 32 (keptValue line.tail) := by
      apply BitVec.eq_of_toNat_eq
      rw [BitVec.toNat_ushiftRight, BitVec.toNat_ofNat, BitVec.toNat_ofNat,
        Nat.mod_eq_of_lt hlt, Nat.shiftRight_eq_div_pow]
      cases line with
      | nil => rfl
      | cons p line =>
        have hp := p.kept_lt
        have hcons : keptValue (p :: line) = p.kept + 16 * keptValue line := by
          simp [keptValue, Nat.ofDigits_cons]
        simp only [List.tail_cons]
        omega
    simp [readDigit, Key.byte, track, hshift]

theorem key_not_ends (key : Key) : ¬ Ends key.byte := by
  cases key with
  | digit d => exact (hexDigit_reads d.1 d.2.isLt).1
  | backspace => decide

/-- Keys up to a terminator are read as the line whose lost digits are zeros. The induction is on
the keys, with the line typed so far in the count and the accumulator. -/
theorem getwordFrom_keys (keys : List Key) (line : List Tracked) (h : LostBeyond line)
    {t : Byte} (ht : Ends t) (rest : List Byte)
    (hline : ∀ k ≤ keys.length, (edit (line.map Prod.fst) (keys.take k)).length ≤ 15) :
    getwordFrom line.length (BitVec.ofNat 32 (keptValue line)) (keys.map Key.byte ++ t :: rest) =
      some (BitVec.ofNat 32 (keptValue (trackAll line keys)), rest) := by
  induction keys generalizing line with
  | nil => simp [getwordFrom, ht, trackAll]
  | cons key keys ih =>
    have hnext (k : ℕ) (hk : k ≤ keys.length) :
        (edit ((track line key).map Prod.fst) (keys.take k)).length ≤ 15 := by
      rw [track_digits]
      exact hline (k + 1) (by simpa using hk)
    have hcount : (track line key).length < 16 := by
      have := hnext 0 (by omega)
      simp [edit] at this
      omega
    simp only [List.map_cons, List.cons_append, getwordFrom, key_not_ends key, if_false,
      readDigit_track h key, hcount, if_true, trackAll]
    exact ih _ (track_lostBeyond h key) hnext

end Accumulator

section Reading

theorem lineValue_eq (line : List LineDigit) :
    lineValue line = Nat.ofDigits 16 (line.map fun d => d.2.val) := by
  rw [lineValue, digitsValue, List.reverse_reverse]

theorem keptValue_eq_iff {line : List Tracked} (hlen : line.length ≤ 8) :
    BitVec.ofNat 32 (keptValue line) = BitVec.ofNat 32 (lineValue (line.map Prod.fst)) ↔
      ∀ p ∈ line, p.2 = true → p.1.2.val = 0 := by
  have hdigits : ∀ x ∈ line.map fun p => p.1.2.val, x < 16 := by
    intro x hx
    obtain ⟨p, -, rfl⟩ := List.mem_map.mp hx
    exact p.1.2.isLt
  have hvalue : lineValue (line.map Prod.fst) =
      Nat.ofDigits 16 (line.map fun p => p.1.2.val) := by
    rw [lineValue_eq, List.map_map]
    rfl
  have hbound (ds : List ℕ) (hds : ∀ x ∈ ds, x < 16) (hle : ds.length ≤ 8) :
      Nat.ofDigits 16 ds < 4294967296 := by
    refine Nat.lt_of_lt_of_le (Nat.ofDigits_lt_base_pow_length (by omega) hds) ?_
    rw [show 4294967296 = 16 ^ 8 from rfl]
    exact Nat.pow_le_pow_right (by omega) hle
  have hkept := hbound _ (kept_digits line) (by simpa using hlen)
  have hplain := hbound _ hdigits (by simpa using hlen)
  constructor
  · intro h p hp hlost
    have hnat : keptValue line = Nat.ofDigits 16 (line.map fun p => p.1.2.val) := by
      have := congrArg BitVec.toNat h
      rw [hvalue, BitVec.toNat_ofNat, BitVec.toNat_ofNat, keptValue] at this
      rw [keptValue]
      omega
    have hlists := Nat.ofDigits_inj_of_len_eq (by omega) (by simp) (kept_digits line) hdigits hnat
    have hsame := List.map_inj_left.mp hlists p hp
    simp [Tracked.kept, hlost] at hsame
    simpa using hsame.symm
  · intro h
    rw [hvalue, keptValue]
    congr 2
    refine List.map_congr_left fun p hp => ?_
    unfold Tracked.kept
    split
    next hlost => simp [h p hp hlost]
    next => rfl

variable {P : Platform Uart}

/-- The reader consumes an edited line with its terminator, and returns the number the line spells
exactly when no digit of it has been lost, zeros apart. -/
theorem getword_edits (B : Board P) (regs : Regs) (mem : Mem) (u : Uart) (keys : List Key)
    {t : Byte} (ht : Ends t) (rest : List Byte) (hsp : Stack P (regs.get .sp) 72)
    (hline : ∀ k ≤ keys.length, (edit [] (keys.take k)).length ≤ 15)
    (hfinal : (edit [] keys).length ≤ 8) (hinput : u.input = keys.map Key.byte ++ t :: rest) :
    ∃ regs' mem' u', Steps (step P) ⟨regs, 0x1000048c#32, 0x10000490#32, mem, u⟩
        ⟨regs', regs.get .ra, regs.get .ra + 4#32, mem', u'⟩ ∧
      regs.Keeps regs' ∧ u'.input = rest ∧ u'.tx = u.tx ∧ Frame (regs.get .sp) 72 mem mem' ∧
      (regs'.get .v0 = BitVec.ofNat 32 (lineValue (edit [] keys)) ↔ KeepsDigits keys) := by
  have hread := getwordFrom_keys keys [] (fun p hp => by simp at hp) ht rest hline
  have hzero : BitVec.ofNat 32 (keptValue []) = 0#32 := rfl
  rw [hzero, ← hinput] at hread
  obtain ⟨regs', mem', u', hsteps, hv0, hkeeps, hrest, htx, hframe⟩ :=
    getword_spec B regs mem u hsp hread
  have hdigits : (trackAll [] keys).map Prod.fst = edit [] keys := trackAll_digits [] keys
  have hlen : (trackAll [] keys).length ≤ 8 := by
    rw [← List.length_map (f := Prod.fst), hdigits]
    exact hfinal
  refine ⟨regs', mem', u', hsteps, hkeeps, hrest, htx, hframe, ?_⟩
  rw [hv0, ← hdigits]
  exact keptValue_eq_iff hlen

def benchReader (input : List Byte) : State Uart where
  regs r := if r = .sp then 0x01000f00#32 else 0#32
  pc := 0x1000048c#32
  npc := 0x10000490#32
  mem _ := 0#8
  dev := ⟨input.map fun b => (0, b), 0, []⟩

def retyped : List Key :=
  [.digit (digit false 1), .digit (digit false 2), .backspace, .digit (digit false 3)]

theorem getword_edits_retyped :
    ∃ regs' mem' u', Steps (step bench) (benchReader (retyped.map Key.byte ++ [13#8]))
        ⟨regs', 0#32, 4#32, mem', u'⟩ ∧
      (benchReader []).regs.Keeps regs' ∧ u'.input = [] ∧ u'.tx = [] ∧
      Frame 0x01000f00#32 72 (fun _ => 0#8) mem' ∧
      (regs'.get .v0 = BitVec.ofNat 32 (lineValue (edit [] retyped)) ↔ KeepsDigits retyped) :=
  getword_edits bench_board (benchReader []).regs (fun _ => 0#8)
    (benchReader (retyped.map Key.byte ++ [13#8])).dev retyped return_ends []
    (bench_console.stack.weaken (by decide)) (by decide) (by decide) (by decide)

def overtyped : List Key :=
  [1, 2, 3, 4, 5, 6, 7, 8, 9].map (fun d => .digit (digit false d)) ++ [.backspace]

theorem getword_overtyped :
    (∀ k ≤ overtyped.length, (edit [] (overtyped.take k)).length ≤ 15) ∧
    (edit [] overtyped).length ≤ 8 ∧
    ∀ s, Steps (step bench) (benchReader (overtyped.map Key.byte ++ [13#8])) s → s.pc = 0#32 →
      s.regs.get .v0 ≠ BitVec.ofNat 32 (lineValue (edit [] overtyped)) := by
  refine ⟨by decide, by decide, fun s hs hpc => ?_⟩
  have hread : getword (benchReader (overtyped.map Key.byte ++ [13#8])).dev.input =
      some (0x02345678#32, []) := by decide
  obtain ⟨regs', mem', u', hsteps, hv0, -⟩ :=
    getword_spec bench_board (benchReader []).regs (fun _ => 0#8) _
      (bench_console.stack.weaken (by decide)) hread
  have hstuck (t : State Uart) (ht : t.pc = 0#32) : step bench t = none := by
    have hfetch : bench.fetch 0#32 = none := by decide
    rw [step, ht, hfetch]
    rfl
  have hsame := (hsteps.before_stuck (hstuck _ rfl) hs).eq_of_stuck (hstuck s hpc)
  rw [hsame, hv0]
  decide

end Reading

end W2
