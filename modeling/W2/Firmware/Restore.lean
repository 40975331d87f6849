import W2.Firmware.Refinement

/-!
# What the console prints it can read

The words that `r` sends between 0x02 and 0x03 are numbers of the command language. Sent back as
the words of `w`, to whatever address and on whatever board, they restore the memory.
-/

namespace W2

open Mips Transition Miniboot Console

def printedNumeral (w : Word) : Numeral where
  digits := (List.range 8).map fun i => digit true (w.toNat / 16 ^ (7 - i))
  terminator := 32#8
  length := by simp
  ends := blank_ends

theorem printedNumeral_text (w : Word) : (printedNumeral w).text = upperHex w ++ [32#8] := by
  simp [printedNumeral, Numeral.text, digitsText, upperHex]

theorem printedNumeral_value (w : Word) : (printedNumeral w).value = w := by
  have hlt := w.isLt
  have hvalue : digitsValue (printedNumeral w).digits = w.toNat := by
    simp only [printedNumeral, digitsValue, List.range_succ, List.range_zero, List.nil_append,
      List.cons_append, List.map_cons, List.map_nil, List.reverse_cons, List.reverse_nil,
      Nat.ofDigits_cons, Nat.ofDigits_nil, digit_value]
    omega
  rw [Numeral.value, hvalue]
  simp

def wordsAt (m : Mem) (a : Addr) (n : ℕ) : List Word :=
  (List.range n).map fun k => m.readWord (a + BitVec.ofNat 32 (4 * k))

theorem listing_numerals (m : Mem) (a : Addr) (n : ℕ) :
    listing m a n =
      2#8 :: ((wordsAt m a n).map printedNumeral).flatMap Numeral.text ++ [3#8] := by
  simp [listing, wordsAt, List.flatMap_map, printedNumeral_text]

def restoring (addr count : Numeral) (words : List Word) (h : count.value.toNat = words.length) :
    Spelled := .w addr count (words.map printedNumeral) (by simpa using h)

theorem restoring_command (addr count : Numeral) {words : List Word}
    (h : count.value.toNat = words.length) :
    (restoring addr count words h).command = .w addr.value words := by
  simp [restoring, Spelled.command, printedNumeral_value, Function.comp_def]

variable {P P' : Platform Uart} {sp sp' : Addr}

theorem run_one (K : ConsoleBoard P sp) (c : Spelled) (s : State Uart)
    (hpc : s.pc = 0x10000fb4#32) (hnpc : s.npc = 0x10000fb8#32) (hsp : s.regs.get .sp = sp)
    (hinput : s.dev.input = c.text) (hsafe : Safe P (Scratch sp 112) s.mem c.command) :
    ∃ s', Steps (step P) s s' ∧
      AtPrompt (Scratch sp 112) sp
        ⟨[], c.command.store s.mem, s.dev.tx ++ c.command.answer s.mem⟩ s' := by
  have hrounds := script_rounds (P := P) [.command c] s.mem s.dev.tx []
    (show AllSafe P (Scratch sp 112) s.mem [c.command] from ⟨hsafe, trivial⟩)
  have hstart : AtPrompt (Scratch sp 112) sp ⟨scriptText [.command c] ++ [], s.mem, s.dev.tx⟩ s :=
    ⟨hpc, hnpc, hsp, by simpa [scriptText, Item.text] using hinput, rfl, Agree.refl _ _⟩
  obtain ⟨s', hsteps, hend⟩ := console_refines K hstart hrounds
  refine ⟨s', hsteps, hend.pc, hend.npc, hend.sp, hend.input, ?_, hend.mem⟩
  simpa [scriptCommands, Item.command?, interpret] using hend.output

/-- What `r` sent between 0x02 and 0x03, written back with `w`, on this board or another one,
leaves the same words at the new place. -/
theorem print_restores (K : ConsoleBoard P sp) (addr count : Numeral) (s : State Uart)
    (hpc : s.pc = 0x10000fb4#32) (hnpc : s.npc = 0x10000fb8#32) (hsp : s.regs.get .sp = sp)
    (hinput : s.dev.input = (Spelled.r addr count).text)
    (hspan : Span P (Scratch sp 112) addr.value count.value.toNat) :
    ∃ t printed, Steps (step P) s t ∧ t.dev.tx = s.dev.tx ++ (2#8 :: printed ++ [3#8]) ∧
      ∀ {P' : Platform Uart} {sp' : Addr}, ConsoleBoard P' sp' → ∀ (addr' count' : Numeral)
        (s' : State Uart), count'.value = count.value → s'.pc = 0x10000fb4#32 →
        s'.npc = 0x10000fb8#32 → s'.regs.get .sp = sp' →
        s'.dev.input = 119#8 :: (addr'.text ++ count'.text ++ printed) →
        Span P' (Scratch sp' 112) addr'.value count.value.toNat →
        ∃ t', Steps (step P') s' t' ∧ t'.pc = 0x10000fb4#32 ∧ t'.npc = 0x10000fb8#32 ∧
          t'.dev.input = [] ∧ t'.dev.tx = s'.dev.tx ++ [6#8] ∧
          ∀ k < count.value.toNat, t'.mem.readWord (addr'.value + BitVec.ofNat 32 (4 * k)) =
            s.mem.readWord (addr.value + BitVec.ofNat 32 (4 * k)) := by
  obtain ⟨t, hsteps, hend⟩ := run_one K (.r addr count) s hpc hnpc hsp hinput (.direct rfl hspan)
  let words := wordsAt s.mem addr.value count.value.toNat
  have hlen : words.length = count.value.toNat := by simp [words, wordsAt]
  refine ⟨t, (words.map printedNumeral).flatMap Numeral.text, hsteps, ?_, ?_⟩
  · exact hend.output.trans (congrArg (s.dev.tx ++ ·) (listing_numerals _ _ _))
  · intro P' sp' K' addr' count' s' hcount hpc' hnpc' hsp' hinput' hspan'
    have hwords : count'.value.toNat = words.length := by rw [hcount, hlen]
    have hcmd := restoring_command addr' count' hwords
    obtain ⟨t', hsteps', hend'⟩ := run_one K' (restoring addr' count' words hwords) s' hpc' hnpc'
      hsp' hinput' (by rw [hcmd]; exact .direct rfl (by
        simpa [Command.count, Command.target, hlen] using hspan'))
    rw [hcmd] at hend'
    refine ⟨t', hsteps', hend'.pc, hend'.npc, hend'.input, hend'.output, fun k hk => ?_⟩
    have hagree : t'.mem.readWord (addr'.value + BitVec.ofNat 32 (4 * k)) =
        (s'.mem.writeWords addr'.value words).readWord (addr'.value + BitVec.ofNat 32 (4 * k)) := by
      refine Mem.readWord_congr fun i hi => hend'.mem _ (hspan'.plain _ ?_).2.2
      have := hspan'.fits
      unfold InRange
      bv_omega
    rw [hagree, Mem.readWord_writeWords _ _ _ (by omega) (by have := hspan'.fits; omega)]
    simp [words, wordsAt]

theorem print_restores_bench :
    ∃ t printed, Steps (step bench) (benchPrompt (fun _ => 7#8) (Spelled.r
          ⟨[1, 0, 0].map (digit false), 32#8, by decide, blank_ends⟩
          ⟨[2].map (digit false), 32#8, by decide, blank_ends⟩).text) t ∧
      t.dev.tx = [] ++ (2#8 :: printed ++ [3#8]) ∧
      ∀ {P' : Platform Uart} {sp' : Addr}, ConsoleBoard P' sp' → ∀ (addr' count' : Numeral)
        (s' : State Uart), count'.value = 2#32 → s'.pc = 0x10000fb4#32 →
        s'.npc = 0x10000fb8#32 → s'.regs.get .sp = sp' →
        s'.dev.input = 119#8 :: (addr'.text ++ count'.text ++ printed) →
        Span P' (Scratch sp' 112) addr'.value 2 →
        ∃ t', Steps (step P') s' t' ∧ t'.pc = 0x10000fb4#32 ∧ t'.npc = 0x10000fb8#32 ∧
          t'.dev.input = [] ∧ t'.dev.tx = s'.dev.tx ++ [6#8] ∧
          ∀ k < 2, t'.mem.readWord (addr'.value + BitVec.ofNat 32 (4 * k)) =
            Mem.readWord (fun _ => 7#8) (0x100#32 + BitVec.ofNat 32 (4 * k)) :=
  print_restores bench_console ⟨[1, 0, 0].map (digit false), 32#8, by decide, blank_ends⟩
    ⟨[2].map (digit false), 32#8, by decide, blank_ends⟩ (benchPrompt (fun _ => 7#8) _) rfl rfl rfl
    (benchPrompt_input _ _) (bench_span (by decide) (by decide))

end W2
