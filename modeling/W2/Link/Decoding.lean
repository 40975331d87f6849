import W2.Firmware.Refinement
import W2.Host.SerialPort

/-!
# One request from the host to the memory

The request that `write_words` builds from a buffer is read by the machine code of the console,
byte by byte and with any timing, and its words are stored where the host said. The machine
passes a state in which all words are stored and nothing is sent yet; from there to the prompt
it runs with its memory write-protected.
-/

namespace W2

open Mips Transition Miniboot Console Host

variable {P : Platform Uart}

theorem commandW_request (address words : ℕ) (bytes : ℕ → Byte) (ha : address < 4294967296)
    (hw : words < 4294967296) (rest : List Byte) :
    ∃ input, writeWords address bytes words ++ rest = 119#8 :: input ∧
      commandW input = some (.w (BitVec.ofNat 32 address)
        ((List.range words).map fun k => wordAt bytes (4 * k)), rest) := by
  have hread := commandW_numerals (hexNumeral address ha 32#8 blank_ends)
    (hexNumeral words hw 32#8 blank_ends) ((List.range words).map (requestWord bytes words))
    (by simp [hexNumeral_value, Nat.mod_eq_of_lt hw]) rest
  simp only [hexNumeral_value, List.map_map, Function.comp_def, requestWord_value] at hread
  refine ⟨_, ?_, hread⟩
  rw [← spelledWrite_text bytes ha hw]
  simp [spelledWrite, Spelled.text]

theorem writeWords_bytes (m : Mem) {address words : ℕ} (bytes : ℕ → Byte) {i : ℕ}
    (hi : i < 4 * words) (hfits : address + 4 * words ≤ 4294967296) :
    m.writeWords (BitVec.ofNat 32 address) ((List.range words).map fun k => wordAt bytes (4 * k))
      (BitVec.ofNat 32 (address + i)) = bytes i := by
  have hcopies : Request.Copies address ⟨address, 0, words⟩ := ⟨rfl, hfits⟩
  have h := Request.apply_covered hcopies bytes m (i := i) ⟨Nat.zero_le i, by simpa using hi⟩
  simpa [Request.apply, Request.image] using h

/-- Host encoder and firmware decoder are inverse: from the prompt the machine consumes exactly
the request, has all its bytes in memory before anything is sent, then sends one 0x06 without
storing, and is back at the prompt. -/
theorem request_decoded (B : Board P) {sp : Addr} (hstack : Stack P sp 104) (address words : ℕ)
    (bytes : ℕ → Byte) (haligned : address % 4 = 0) (hwords : 1 ≤ words ∧ words < 2147483648)
    (hfits : address + 4 * words ≤ 4294967296)
    (hplain : ∀ x, InRange (BitVec.ofNat 32 address) (4 * words) x →
      P.Ram x ∧ P.writable x = true ∧ ¬ Below sp 104 x)
    (s : State Uart) (hpc : s.pc = 0x10000fb4#32) (hnpc : s.npc = 0x10000fb8#32)
    (hsp : s.regs.get .sp = sp) (rest : List Byte)
    (hinput : s.dev.input = writeWords address bytes words ++ rest) :
    ∃ t s', Steps (step P) s t ∧ t.dev.tx = s.dev.tx ∧
      (∀ i < 4 * words, t.mem (BitVec.ofNat 32 (address + i)) = bytes i) ∧
      Steps (step P.protect) t s' ∧ s'.dev.tx = s.dev.tx ++ [6#8] ∧ s'.dev.input = rest ∧
      s'.pc = 0x10000fb4#32 ∧ s'.npc = 0x10000fb8#32 ∧ s'.regs.get .sp = sp ∧
      (∀ i < 4 * words, s'.mem (BitVec.ofNat 32 (address + i)) = bytes i) ∧
      ∀ x, ¬ InRange (BitVec.ofNat 32 address) (4 * words) x → ¬ Below sp 104 x →
        s'.mem x = s.mem x := by
  obtain ⟨input, htext, hread⟩ := commandW_request address words bytes (by omega) (by omega) rest
  have hprompt : AtPrompt (Below sp 104) sp ⟨119#8 :: input, s.mem, s.dev.tx⟩ s :=
    ⟨hpc, hnpc, hsp, hinput.trans htext, rfl, Agree.refl _ _⟩
  have hspan : Span P (Below sp 104) (BitVec.ofNat 32 address)
      ((List.range words).map fun k => wordAt bytes (4 * k)).length := by
    rw [List.length_map, List.length_range]
    exact ⟨by simp; omega, by simp; omega, hplain⟩
  obtain ⟨t, s', hstore, htx, hinput', hmem, hack, hend⟩ :=
    prompt_w B hprompt hstack (fun _ hx => hx) rfl hread hspan
  have hbytes : ∀ i < 4 * words, t.mem (BitVec.ofNat 32 (address + i)) = bytes i := by
    intro i hi
    have hin : InRange (BitVec.ofNat 32 address) (4 * words) (BitVec.ofNat 32 (address + i)) := by
      unfold InRange
      bv_omega
    rw [hmem _ (hplain _ hin).2.2]
    exact writeWords_bytes s.mem bytes hi hfits
  have hsame := (steps_protect hack).2
  refine ⟨t, s', hstore, htx, hbytes, hack, hend.output, hend.input, hend.pc, hend.npc, hend.sp,
    fun i hi => by rw [hsame]; exact hbytes i hi, fun x hx hbelow => ?_⟩
  rw [hsame, hmem x hbelow]
  exact Mem.writeWords_outside _ _ _ (by simpa using hx)

theorem request_decoded_bench :
    ∃ t s', Steps (step bench) (benchPrompt (fun _ => 0#8)
          (writeWords 0x200 (fun i => BitVec.ofNat 8 (i + 1)) 2 ++ [114#8])) t ∧ t.dev.tx = [] ∧
      (∀ i < 4 * 2, t.mem (BitVec.ofNat 32 (0x200 + i)) = BitVec.ofNat 8 (i + 1)) ∧
      Steps (step bench.protect) t s' ∧ s'.dev.tx = [] ++ [6#8] ∧ s'.dev.input = [114#8] ∧
      s'.pc = 0x10000fb4#32 ∧ s'.npc = 0x10000fb8#32 ∧ s'.regs.get .sp = 0x01000f00#32 ∧
      (∀ i < 4 * 2, s'.mem (BitVec.ofNat 32 (0x200 + i)) = BitVec.ofNat 8 (i + 1)) ∧
      ∀ x, ¬ InRange (BitVec.ofNat 32 0x200) (4 * 2) x → ¬ Below 0x01000f00#32 104 x →
        s'.mem x = 0#8 :=
  request_decoded bench_board
    (bench_console.stack.weaken (by omega))
    0x200 2 (fun i => BitVec.ofNat 8 (i + 1)) (by decide) (by decide) (by decide)
    (((bench_span (by decide) (by decide)).mono fun _ hx => Or.inl (hx.weaken (by omega))).plain)
    (benchPrompt (fun _ => 0#8) _) rfl rfl rfl [114#8] (benchPrompt_input _ _)

end W2
