import W2.Firmware.Output
import W2.Firmware.Bench

/-!
# The menu's text output

The menu and its commands report what they do with runs of `puts` and `formatHex`. Such a run is a
list of items that is compared with the image once; then it prints them, ends and leaves alone what
it does not use.
-/

namespace W2

open Mips Transition Miniboot Console

def Miniboot.menu : List Word :=
  [0x0c000117, 0x00000000, 0x00408021, 0x2442ffcf, 0x2c420009, 0x10400016, 0x2602ffcf,
   0x24030001, 0x3c021f80, 0x34420003, 0xac430000, 0x3c041000, 0x0c0000e5, 0x248417e0,
   0x0c000123, 0x00000000, 0x0040a021, 0x3c041000, 0x0c0000e5, 0x248417f4, 0x0c0000ff,
   0x02802021, 0x0c0000e5, 0x00402021, 0x3c041000, 0x0c0000e5, 0x24841600, 0x2602ffcf,
   0x304300ff, 0x2c620036, 0x1040ffdc, 0x00031080, 0x3c031000, 0x246319c0, 0x00431021,
   0x8c420000, 0x00000000, 0x00400008, 0x00000000]

def Miniboot.bootLoader : List Word :=
  [0x3c041000, 0x0c0000e5, 0x24841860, 0x3c041000, 0x0c0000e5, 0x24841880, 0x3c041000,
   0x0c0000e5, 0x24841770, 0x3c041000, 0x0c0000e5, 0x2484188c, 0x3c041000, 0x0c0000e5,
   0x2484180c, 0x3c041000, 0x0c0000e5, 0x24841898, 0x0c0000ff, 0x02802021, 0x0c0000e5,
   0x00402021, 0x3c041000, 0x0c0000e5, 0x24841600, 0x02809021, 0x08000561, 0x00009821,
   0x0c000117, 0x26100001, 0x00021600, 0x00111a02, 0x00438821, 0x24020004, 0x1602fff9,
   0x00000000, 0xae510000, 0x00008021, 0x24112710, 0x0c000112, 0x00000000, 0x14400006,
   0x3c020002, 0x26100001, 0x12110007, 0x3c041000, 0x080004e8, 0x00000000, 0x26730004,
   0x1662006d, 0x26430004, 0x3c041000, 0x0c0000e5, 0x248418c0, 0x0c0000ff, 0x02402021,
   0x0c0000e5, 0x00402021, 0x3c041000, 0x0c0000e5, 0x248418d8, 0x0c0000ff, 0x02602021,
   0x0c0000e5, 0x00402021, 0x3c041000, 0x0c0000e5, 0x248418f0, 0x0c0000ff, 0x02002021,
   0x0c0000e5, 0x00402021, 0x08000564, 0x00008821, 0x0c000112, 0x00000000, 0x14400006,
   0x24022710, 0x26100001, 0x12020008, 0x3c041000, 0x0800050b, 0x00000000, 0x0c000117,
   0x26310001, 0x3c020010, 0x1622004c, 0x3c041000, 0x0c0000e5, 0x24841904, 0x0c0000ff,
   0x02802021, 0x0c0000e5, 0x00402021, 0x3c041000, 0x0c0000e5, 0x2484191c, 0x0c0000ff,
   0x02002021, 0x0c0000e5, 0x00402021, 0x0800043a, 0x00000000]

def Miniboot.bootTails : List Word :=
  [0x00609021, 0x00008021, 0x080004dd, 0x00008821, 0x0800050b, 0x00008021]

def Miniboot.newline : List Word :=
  [0x0000000a]

def Miniboot.menuStrings : List Word :=
  [0x6464410a, 0x73736572, 0x206e6920, 0x3e786568, 0x00000020, 0x72646441, 0x20737365,
   0x0000203d, 0x69206e69, 0x73206332, 0x6576616c, 0x00000a3a, 0x69206e69, 0x73206332,
   0x6576616c, 0x67626420, 0x00000a3a, 0x64206e69, 0x0a3a696d, 0x00000000, 0x64206e69,
   0x6420696d, 0x0a3a6762, 0x00000000, 0x6c61560a, 0x69206575, 0x6568206e, 0x00203e78,
   0x756f430a, 0x6920746e, 0x6568206e, 0x00203e78, 0x6572470a, 0x6e697465, 0x66207367,
   0x206d6f72, 0x20656874, 0x746f6f62, 0x64616f6c, 0x00207265, 0x206e754a, 0x32203231,
   0x00323230, 0x313a3531, 0x33313a34, 0x00000000, 0x6961570a, 0x676e6974, 0x726f6620,
   0x6e696220, 0x20797261, 0x67616d69, 0x696c2065, 0x64656b6e, 0x20746120, 0x00000000,
   0x70200a0d, 0x69662031, 0x206c616e, 0x72646461, 0x3d737365, 0x000a0d20, 0x70200a0d,
   0x69662031, 0x206c616e, 0x65646e69, 0x0d203d78, 0x0000000a, 0x70200a0d, 0x69662031,
   0x206c616e, 0x0d203d6a, 0x0000000a, 0x70200a0d, 0x65732032, 0x6e69646e, 0x6f642067,
   0x0d20656e, 0x0000000a, 0x70200a0d, 0x3d6a2032, 0x000a0d20]

def Miniboot.menuTable : List Word :=
  [0x10001218, 0x1000124c, 0x10001274, 0x10001284, 0x10001304, 0x100014a0, 0x100014d8,
   0x1000151c, 0x100010e8, 0x100010e8, 0x100010e8, 0x100010e8, 0x100010e8, 0x100010e8,
   0x100010e8, 0x100010e8, 0x100010e8, 0x100010e8, 0x100010e8, 0x100010e8, 0x100010e8,
   0x100010e8, 0x100010e8, 0x100010e8, 0x100010e8, 0x100010e8, 0x100010e8, 0x100010e8,
   0x100010e8, 0x100010e8, 0x100010e8, 0x100010e8, 0x100010e8, 0x100010e8, 0x100010e8,
   0x100010e8, 0x100010e8, 0x100010e8, 0x100010e8, 0x100010e8, 0x100010e8, 0x100010e8,
   0x100010e8, 0x100010e8, 0x100010e8, 0x100010e8, 0x100010e8, 0x100010e8, 0x10001198,
   0x100010e8, 0x100011a8, 0x100011c4, 0x100011e0, 0x100011fc]

def bootPieces : List (ℕ × List Word) :=
  [(0x100010fc, menu),
   (0x10001304, bootLoader),
   (0x10001580, bootTails),
   (0x10001600, newline),
   (0x100017e0, menuStrings),
   (0x100019c0, menuTable)]

def bootImage (a : Addr) : Option Word := (code a).or (codeOf bootPieces a)

/-- The board with the menu and its boot loader. The register at 0x1f800003, which the menu sets to
1 for a command that takes an address, has no part in the serial port. -/
structure BootBoard (P : Platform Uart) : Prop extends Board P where
  boot : Pieces P bootPieces
  buffer : HexBuffer P
  selectReg : P.device 0x1f800003#32 = true
  storeSelect : ∀ u, P.store u 0x1f800003#32 1#32 = some u

variable {P : Platform Uart}

theorem BootBoard.image (M : BootBoard P) : Rom P bootImage := M.toHolds.or M.boot

theorem BootBoard.fetch (M : BootBoard P) {a : Addr} {i : Instr}
    (h : (bootImage a).bind decode = some i) : P.fetch a = some i := M.image.fetch h

theorem BootBoard.printer (M : BootBoard P) {sp : Addr} (hstack : Stack P sp 56)
    (hapart : ∀ a, InHexBuffer a → ¬ Below sp 56 a) : Printer P bootImage sp :=
  { M.toBoard with rom := M.image, buffer := M.buffer, stack := hstack, apart := hapart }

theorem boot_prints :
    printsAt bootImage 0x10001128#32 [.text .a0 6112] = true ∧
    printsAt bootImage 0x10001140#32 [.text .a0 6132, .number .s4, .text .a0 5632] = true ∧
    printsAt bootImage 0x10001304#32
      [.text .a0 6240, .text .a0 6272, .text .a0 6000, .text .a0 6284, .text .a0 6156,
        .text .a0 6296, .number .s4, .text .a0 5632] = true ∧
    printsAt bootImage 0x100013d0#32
      [.text .a0 6336, .number .s2, .text .a0 6360, .number .s3, .text .a0 6384, .number .s0] =
        true ∧
    printsAt bootImage 0x10001460#32
      [.text .a0 6404, .number .s4, .text .a0 6428, .number .s0] = true := by
  decide +kernel

section Command

variable {sp start target : Addr} {number : List (ℕ × Byte)} {c : Byte} {d : ℕ}

theorem menu_listing (M : BootBoard P) :
    P.fetch 0x100010fc#32 = some (.jal 0x117) ∧
    P.fetch 0x10001100#32 = some .nop ∧
    P.fetch 0x10001104#32 = some (.addu .s0 .v0 .zero) ∧
    P.fetch 0x10001108#32 = some (.addiu .v0 .v0 (-49)) ∧
    P.fetch 0x1000110c#32 = some (.sltiu .v0 .v0 9) ∧
    P.fetch 0x10001110#32 = some (.beq .v0 .zero 22) ∧
    P.fetch 0x10001114#32 = some (.addiu .v0 .s0 (-49)) ∧
    P.fetch 0x10001118#32 = some (.addiu .v1 .zero 1) ∧
    P.fetch 0x1000111c#32 = some (.lui .v0 0x1f80) ∧
    P.fetch 0x10001120#32 = some (.ori .v0 .v0 0x3) ∧
    P.fetch 0x10001124#32 = some (.sw .v1 0 .v0) ∧
    P.fetch 0x10001134#32 = some (.jal 0x123) ∧
    P.fetch 0x10001138#32 = some .nop ∧
    P.fetch 0x1000113c#32 = some (.addu .s4 .v0 .zero) ∧
    P.fetch 0x10001168#32 = some (.addiu .v0 .s0 (-49)) ∧
    P.fetch 0x1000116c#32 = some (.andi .v1 .v0 0xff) ∧
    P.fetch 0x10001170#32 = some (.sltiu .v0 .v1 54) ∧
    P.fetch 0x10001174#32 = some (.beq .v0 .zero (-36)) ∧
    P.fetch 0x10001178#32 = some (.sll .v0 .v1 2) ∧
    P.fetch 0x1000117c#32 = some (.lui .v1 0x1000) ∧
    P.fetch 0x10001180#32 = some (.addiu .v1 .v1 6592) ∧
    P.fetch 0x10001184#32 = some (.addu .v0 .v0 .v1) ∧
    P.fetch 0x10001188#32 = some (.lw .v0 0 .v0) ∧
    P.fetch 0x1000118c#32 = some .nop ∧
    P.fetch 0x10001190#32 = some (.jr .v0) ∧
    P.fetch 0x10001194#32 = some .nop := by
  constructorm* _ ∧ _ <;> exact M.fetch rfl

def menuPrompt (start : Addr) : List Byte :=
  textBytes bootImage 6112 ++
    (textBytes bootImage 6132 ++
      (Console.puts (Console.formatHex start) ++ textBytes bootImage 5632))

theorem menu_address (M : BootBoard P) (hstack : Stack P sp 72)
    (hapart : ∀ a, InHexBuffer a → ¬ Below sp 56 a)
    (hc : (c.setWidth 32 + 0xffffffcf#32).ult 9#32 = true)
    (hnumber : getword (number.map Prod.snd) = some (start, [])) (queue : List (ℕ × Byte))
    (regs : Regs) (mem : Mem) (busy : ℕ) (tx : List Byte) (hsp : regs.get .sp = sp) :
    ∃ regs' mem' j, Steps (step P)
        ⟨regs, 0x100010fc#32, 0x10001100#32, mem, ⟨(d, c) :: (number ++ queue), busy, tx⟩⟩
        ⟨regs', 0x10001168#32, 0x10001168#32 + 4#32, mem',
          ⟨queue, j, tx ++ menuPrompt start⟩⟩ ∧
      regs'.get .s0 = c.setWidth 32 ∧ regs'.get .s4 = start ∧ regs'.get .sp = sp ∧
      Agree (Scratch sp 72) mem mem' := by
  have R : Printer P bootImage sp := M.printer (hstack.weaken (by omega)) hapart
  let call := regs.set .ra 0x10001104#32
  have hcall (u : Uart) : Steps (step P) ⟨regs, 0x100010fc#32, 0x10001100#32, mem, u⟩
      ⟨call, 0x1000045c#32, 0x10000460#32, mem, u⟩ := by
    apply Steps.of_run (n := 2)
    simp [menu_listing M, call]
  have hsp₀ : call.get .sp = sp := by simp [call, hsp]
  obtain ⟨regs₁, mem₁, hchar, hv0, hkeeps₁, hframe₁⟩ :=
    getchar_spec M.toBoard call mem d c (number ++ queue) busy tx
      (by rw [hsp₀]; exact hstack.weaken (by omega))
  rw [show call.get .ra = 0x10001104#32 by simp [call]] at hchar
  rw [hsp₀] at hframe₁
  let chosen := (((regs₁.set .s0 (c.setWidth 32)).set .v0
    (c.setWidth 32 + 0xffffffcf#32)).set .v1 1#32).set .v0 0x1f800003#32
  have hchosen (u : Uart) : Steps (step P) ⟨regs₁, 0x10001104#32, 0x10001104#32 + 4#32, mem₁, u⟩
      ⟨chosen, 0x10001128#32, 0x10001128#32 + 4#32, mem₁, u⟩ := by
    apply Steps.of_run (n := 9)
    simp [menu_listing M, hv0, hc, M.selectReg, M.storeSelect, chosen]
  have hsp₁ : chosen.get .sp = sp := by simp [chosen, hkeeps₁.get, hsp₀]
  obtain ⟨regs₂, mem₂, j₂, hprompt, hkeeps₂, hagree₂⟩ :=
    prints_spec R boot_prints.1 chosen mem₁ ⟨number ++ queue, busy, tx⟩ hsp₁ (by simp)
  let ask := regs₂.set .ra 0x1000113c#32
  have hask (u : Uart) : Steps (step P) ⟨regs₂, 0x10001134#32, 0x10001134#32 + 4#32, mem₂, u⟩
      ⟨ask, 0x1000048c#32, 0x10000490#32, mem₂, u⟩ := by
    apply Steps.of_run (n := 2)
    simp [menu_listing M, ask]
  have hsp₂ : ask.get .sp = sp := by simp [ask, hkeeps₂.get, hsp₁]
  obtain ⟨regs₃, mem₃, hget, hv0₃, hkeeps₃, hframe₃⟩ :=
    M.toBoard.serial.getword_number ask mem₂ queue j₂
      (tx ++ outputs bootImage chosen [.text .a0 6112])
      (by rwa [hsp₂]) hnumber
  rw [show ask.get .ra = 0x1000113c#32 by simp [ask]] at hget
  rw [hsp₂] at hframe₃
  let typed := regs₃.set .s4 start
  have htyped (u : Uart) : Steps (step P) ⟨regs₃, 0x1000113c#32, 0x1000113c#32 + 4#32, mem₃, u⟩
      ⟨typed, 0x10001140#32, 0x10001140#32 + 4#32, mem₃, u⟩ := by
    apply Steps.of_run (n := 1)
    simp [menu_listing M, hv0₃, typed]
  have hsp₃ : typed.get .sp = sp := by simp [typed, hkeeps₃.get, hsp₂]
  obtain ⟨regs₄, mem₄, j₄, hecho, hkeeps₄, hagree₄⟩ :=
    prints_spec R boot_prints.2.1 typed mem₃
      ⟨queue, j₂, tx ++ outputs bootImage chosen [.text .a0 6112]⟩ hsp₃ (by simp)
  have hs4 : typed.get .s4 = start := by simp [typed]
  refine ⟨regs₄, mem₄, j₄, ?run, ?command, ?address, ?stack, ?memory⟩
  case run =>
    have hread := ((hcall _).trans hchar).trans ((hchosen _).trans hprompt)
    have haddress := ((hask _).trans hget).trans ((htyped _).trans hecho)
    simpa [Uart.sent, outputs, Output.bytes, menuPrompt, hs4, printsEnd, Output.size] using
      hread.trans haddress
  case command => simp [hkeeps₄.get, typed, hkeeps₃.get, ask, hkeeps₂.get, chosen]
  case address => rw [hkeeps₄.get (by simp) (by simp), hs4]
  case stack => rw [hkeeps₄.get (by simp) (by simp), hsp₃]
  case memory =>
    have hwiden {m m' : Mem} (hagree : Agree (Scratch sp 56) m m') : Agree (Scratch sp 72) m m' :=
      hagree.mono fun a ha => ha.weaken (by omega)
    have hchosen := (hframe₁.mono fun a ha => Or.inl (ha.weaken (by omega))).trans (hwiden hagree₂)
    have htyped := (hframe₃.mono fun a ha => Or.inl ha).trans (hwiden hagree₄)
    exact hchosen.trans htyped

theorem menu_jump (M : BootBoard P) (target : Addr) (regs : Regs) (mem : Mem) (u : Uart)
    (hs0 : regs.get .s0 = c.setWidth 32)
    (hlast : ((c.setWidth 32 + 0xffffffcf#32) &&& 0xff#32).ult 54#32 = true)
    (htarget : bootImage (((c.setWidth 32 + 0xffffffcf#32) &&& 0xff#32) <<< 2 + 0x100019c0#32) =
      some target) :
    ∃ regs', Steps (step P) ⟨regs, 0x10001168#32, 0x10001168#32 + 4#32, mem, u⟩
        ⟨regs', target, target + 4#32, mem, u⟩ ∧ regs.Keeps regs' := by
  generalize hentry : ((c.setWidth 32 + 0xffffffcf#32) &&& 0xff#32) <<< 2 + 0x100019c0#32 = entry
    at htarget
  have hindex : ∃ regs', Steps (step P) ⟨regs, 0x10001168#32, 0x10001168#32 + 4#32, mem, u⟩
      ⟨regs', 0x10001188#32, 0x1000118c#32, mem, u⟩ ∧
      regs'.get .v0 + BitVec.signExtend 32 0#16 = entry ∧ regs.Keeps regs' := by
    refine ⟨?regs, Steps.of_run (n := 8) ?run, ?post⟩
    case run =>
      simp [menu_listing M, hs0, hlast]
      rfl
    case post => simp [Regs.keeps_iff, hs0, ← hentry]
  obtain ⟨regs₁, hindex, haddress, hkeeps⟩ := hindex
  have halign : entry.toNat % 4 = 0 := by
    rw [← hentry]
    bv_omega
  have hload := exec_lw_code (w := target) 0x10001188#32 0x1000118c#32 mem u .v0 .v0 0
    haddress (M.image.device _ _ (alignAddr_of_aligned halign ▸ htarget)) halign
      (M.image.code _ _ htarget)
  refine ⟨regs₁.set .v0 target, hindex.trans (Steps.of_run (n := 4) ?jump), ?keeps⟩
  case jump =>
    simp at hload
    simp [menu_listing M, hload]
  case keeps => simp [Regs.keeps_iff, hkeeps.get]

end Command

end W2
