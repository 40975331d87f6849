import W2.Console.Menu
import W2.Firmware.Dump

/-!
# The menu in machine code

The loop at 0x100010e8 prints the screen, waits for a character at 0x100010fc and jumps through a
table. Each round of the menu on byte lists whose memory accesses are allowed is a run of the
machine from where it waits to where it waits again, so the text it sends and the memory it leaves
are those of the byte lists over any number of commands.
-/

namespace W2

open Mips Transition Miniboot Console

def Miniboot.printMenu : List Word :=
  [0x27bdffe8, 0xafbf0010, 0x3c041000, 0x0c0000e5, 0x24841604, 0x3c041000,
   0x0c0000e5, 0x24841618, 0x3c041000, 0x0c0000e5, 0x24841634, 0x3c041000,
   0x0c0000e5, 0x24841644, 0x3c041000, 0x0c0000e5, 0x24841658, 0x3c041000,
   0x0c0000e5, 0x24841668, 0x3c041000, 0x0c0000e5, 0x2484167c, 0x3c041000,
   0x0c0000e5, 0x2484168c, 0x3c041000, 0x0c0000e5, 0x248416a4, 0x3c041000,
   0x0c0000e5, 0x248416bc, 0x3c041000, 0x0c0000e5, 0x248416e8, 0x3c041000,
   0x0c0000e5, 0x24841700, 0x3c041000, 0x0c0000e5, 0x24841710, 0x3c041000,
   0x0c0000e5, 0x2484172c, 0x3c041000, 0x0c0000e5, 0x24841748, 0x3c041000,
   0x0c0000e5, 0x24841764, 0x8fbf0010, 0x00000000, 0x03e00008, 0x27bd0018]

def Miniboot.screenStrings : List Word :=
  [0x4d200a0d, 0x2d756e65, 0x30303030, 0x0d203a2d, 0x0000000a, 0x43202e61,
   0x6c656d61, 0x64757453, 0x43206f69, 0x6f736e6f, 0x0a0d656c, 0x00000000,
   0x69202e63, 0x53206332, 0x6576616c, 0x00000a0d, 0x69202e64, 0x53206332,
   0x6576616c, 0x67626420, 0x00000a0d, 0x64202e65, 0x4a20696d, 0x0d474154,
   0x0000000a, 0x64202e66, 0x4a20696d, 0x20474154, 0x0d676264, 0x0000000a,
   0x2d2d2d2d, 0x2d2d2d2d, 0x0d2d2d2d, 0x0000000a, 0x4d202e31, 0x726f6d65,
   0x72772079, 0x20657469, 0x64726f77, 0x00000a0d, 0x4d202e32, 0x726f6d65,
   0x65722079, 0x77206461, 0x0d64726f, 0x0000000a, 0x4a202e33, 0x20706d75,
   0x61206f74, 0x65726464, 0x2d207373, 0x2e69202d, 0x203a2e67, 0x30317830,
   0x30303030, 0x0a0d3030, 0x00000000, 0x44202e34, 0x20706d75, 0x6d6f7266,
   0x64646120, 0x73736572, 0x00000a0d, 0x42202e35, 0x6c746f6f, 0x6564616f,
   0x000a0d72, 0x4d202e36, 0x726f6d65, 0x6f6c2079, 0x7220706f, 0x20646165,
   0x64726f77]

def Miniboot.lastScreenStrings : List Word :=
  [0x4d202e37, 0x726f6d65, 0x6f6c2079, 0x7720706f, 0x65746972, 0x726f7720,
   0x000a0d64, 0x44202e38, 0x20706d75, 0x64726f77, 0x6f726620, 0x6461206d,
   0x73657264, 0x000a0d73, 0x0000203e]

def Miniboot.readyString : List Word :=
  [0x312e3176, 0x203e2032, 0x00000000]

def Miniboot.menuHead : List Word :=
  [0x0c000300, 0x00000000, 0x3c041000, 0x0c0000e5, 0x248417d4]

def Miniboot.wordCommands : List Word :=
  [0x3c041000, 0x0c0000e5, 0x24841840, 0x0c000123, 0x00000000, 0x00408021,
   0x0c0000ff, 0x00402021, 0x0c0000e5, 0x00402021, 0xae900000, 0x0800043a,
   0x00000000, 0x8e840000, 0x0c0000ff, 0x00000000, 0x0c0000e5, 0x00402021,
   0x3c041000, 0x0c0000e5, 0x24841728, 0x0800043a, 0x00000000]

def Miniboot.loopCommand : List Word :=
  [0x3c041000, 0x0c0000e5, 0x24841840, 0x0c000123, 0x00000000, 0x00408021,
   0x0c0000ff, 0x00402021, 0x0c0000e5, 0x00402021, 0xae900000, 0x0c000112,
   0x00000000, 0x1440fef6, 0x00000000, 0x08000540, 0x00000000]

def menuPieces : List (ℕ × List Word) :=
  [(0x10000c00, printMenu), (0x10001604, screenStrings), (0x1000172c, lastScreenStrings),
   (0x100017d4, readyString), (0x100010e8, menuHead), (0x10001218, wordCommands),
   (0x100014d8, loopCommand)]

structure MenuBoard (P : Platform Uart) (sp : Addr) : Prop extends DumpBoard P where
  menu : Pieces P menuPieces
  stack : Stack P sp 80
  apart : ∀ a, InHexBuffer a → ¬ Below sp 80 a

variable {P : Platform Uart} {sp : Addr}

theorem MenuBoard.apart' (K : MenuBoard P sp) : ∀ a, InHexBuffer a → ¬ Below sp 56 a :=
  fun a ha hb => K.apart a ha (hb.weaken (by omega))

section Texts

def menuImage (a : Addr) : Option Word :=
  (codeOf menuPieces a).or ((codeOf bootPieces a).or (codeOf dumpPieces a))

theorem MenuBoard.printer (K : MenuBoard P sp) {c : Word} (haligned : c.toNat % 4 = 0)
    (hc : (-c).toNat ≤ 24) : Printer P menuImage (sp + c) :=
  { K.toBoard with
    rom := K.menu.or (K.boot.or K.dump)
    buffer := K.buffer
    stack := K.stack.callee haligned (by omega)
    apart := fun a ha hb => K.apart a ha (hb.mono (by omega)) }

theorem MenuBoard.printer' (K : MenuBoard P sp) : Printer P menuImage sp := by
  simpa using K.printer (c := 0#32) (by decide) (by decide)

def screenLows : List (BitVec 16) :=
  [5636, 5656, 5684, 5700, 5720, 5736, 5756, 5772, 5796, 5820, 5864, 5888, 5904, 5932, 5960, 5988]

theorem menu_prints :
    printsAt menuImage 0x10000c08#32 (screenLows.map (.text .a0)) = true ∧
    printsAt menuImage 0x100010f0#32 [.text .a0 6100] = true ∧
    printsAt menuImage 0x10001218#32 [.text .a0 6208] = true ∧
    printsAt menuImage 0x100014d8#32 [.text .a0 6208] = true ∧
    printsAt menuImage 0x10001260#32 [.text .a0 5928] = true := by
  decide +kernel

theorem menu_texts :
    screenLows.map (textBytes menuImage) = screenLines.map sends ∧
    textBytes menuImage 6100 = sends "v1.12 > " ∧
    textBytes menuImage 6208 = sends "\nValue in hex> " ∧
    textBytes menuImage 5928 = sends "\r\n" := by
  decide +kernel

theorem text_outputs (regs : Regs) (low : BitVec 16) :
    outputs menuImage regs [.text .a0 low] = textBytes menuImage low := List.flatMap_singleton ..

theorem screen_outputs (regs : Regs) :
    outputs menuImage regs (screenLows.map (.text .a0)) = screenLines.flatMap sends := by
  rw [outputs, List.flatMap_map]
  exact congrArg List.flatten menu_texts.1

end Texts

theorem menuCode_listing (K : MenuBoard P sp) :
    P.fetch 0x10000c00#32 = some (.addiu .sp .sp (-24)) ∧
    P.fetch 0x10000c04#32 = some (.sw .ra 16 .sp) ∧
    P.fetch 0x10000cc8#32 = some (.lw .ra 16 .sp) ∧
    P.fetch 0x10000ccc#32 = some .nop ∧
    P.fetch 0x10000cd0#32 = some (.jr .ra) ∧
    P.fetch 0x10000cd4#32 = some (.addiu .sp .sp 24) ∧
    P.fetch 0x100010e8#32 = some (.jal 0x300) ∧
    P.fetch 0x100010ec#32 = some .nop ∧
    P.fetch 0x10001224#32 = some (.jal 0x123) ∧
    P.fetch 0x10001228#32 = some .nop ∧
    P.fetch 0x1000122c#32 = some (.addu .s0 .v0 .zero) ∧
    P.fetch 0x10001240#32 = some (.sw .s0 0 .s4) ∧
    P.fetch 0x10001244#32 = some (.j 0x43a) ∧
    P.fetch 0x10001248#32 = some .nop ∧
    P.fetch 0x1000124c#32 = some (.lw .a0 0 .s4) ∧
    P.fetch 0x10001250#32 = some (.jal 0xff) ∧
    P.fetch 0x10001254#32 = some .nop ∧
    P.fetch 0x1000126c#32 = some (.j 0x43a) ∧
    P.fetch 0x10001270#32 = some .nop ∧
    P.fetch 0x100014e4#32 = some (.jal 0x123) ∧
    P.fetch 0x100014e8#32 = some .nop ∧
    P.fetch 0x100014ec#32 = some (.addu .s0 .v0 .zero) ∧
    P.fetch 0x10001500#32 = some (.sw .s0 0 .s4) ∧
    P.fetch 0x10001508#32 = some .nop ∧
    P.fetch 0x1000150c#32 = some (.bne .v0 .zero (-266)) ∧
    P.fetch 0x10001510#32 = some .nop ∧
    P.fetch 0x10001514#32 = some (.j 0x540) ∧
    P.fetch 0x10001518#32 = some .nop := by
  constructorm* _ ∧ _ <;> exact K.menu.fetch rfl

section Screen

theorem printMenu_spec (K : MenuBoard P sp) (regs : Regs) (mem : Mem) (u : Uart)
    (hsp : regs.get .sp = sp) :
    ∃ regs' mem' n, Steps (step P) ⟨regs, 0x10000c00#32, 0x10000c04#32, mem, u⟩
        ⟨regs', regs.get .ra, regs.get .ra + 4#32, mem',
          u.sent n (screenLines.flatMap sends)⟩ ∧
      regs'.get .sp = sp ∧ Frame sp 80 mem mem' := by
  let entry := regs.set .sp (sp + 0xffffffe8#32)
  let saved := mem.writeWord (sp + 0xfffffff8#32) (regs.get .ra)
  have hentry : Steps (step P) ⟨regs, 0x10000c00#32, 0x10000c04#32, mem, u⟩
      ⟨entry, 0x10000c08#32, 0x10000c0c#32, saved, u⟩ := by
    apply Steps.of_run (n := 2)
    simp [menuCode_listing K, BitVec.add_assoc, hsp, K.stack.plain, entry, saved]
  obtain ⟨regs₁, mem₁, n, hlines, hkeeps, hframe⟩ :=
    texts_spec (K.printer (c := 0xffffffe8#32) (by decide) (by decide)) menu_prints.1
      (by simp) entry saved u (by simp [entry])
  have hsp₁ : regs₁.get .sp = sp + 0xffffffe8#32 := by simp [hkeeps.get, entry]
  have hra : mem₁.readWord (sp + 0xfffffff8#32) = regs.get .ra := by
    rw [Frame.readSlot (d := 0xfffffff8#32) hframe (by decide)]
    simp [saved]
  rw [screen_outputs] at hlines
  have hback : Steps (step P) ⟨regs₁, 0x10000cc8#32, 0x10000ccc#32, mem₁,
        u.sent n (screenLines.flatMap sends)⟩
      ⟨(regs₁.set .ra (regs.get .ra)).set .sp sp, regs.get .ra, regs.get .ra + 4#32, mem₁,
        u.sent n (screenLines.flatMap sends)⟩ := by
    apply Steps.of_run (n := 4)
    simp [menuCode_listing K, BitVec.add_assoc, K.stack.ramWord, hsp₁, hra]
  exact ⟨_, mem₁, n, (hentry.trans hlines).trans hback, by simp,
    (Frame.write (Agree.refl _ mem) _ (by decide) (by decide)).trans
      (Frame.caller hframe (by decide))⟩

theorem screen_spec (K : MenuBoard P sp) (regs : Regs) (mem : Mem) (u : Uart)
    (hsp : regs.get .sp = sp) :
    ∃ regs' mem' n, Steps (step P) ⟨regs, 0x100010e8#32, 0x100010ec#32, mem, u⟩
        ⟨regs', 0x100010fc#32, 0x10001100#32, mem', u.sent n menuScreen⟩ ∧
      regs'.get .sp = sp ∧ Frame sp 80 mem mem' := by
  let call := regs.set .ra 0x100010f0#32
  have hcall : Steps (step P) ⟨regs, 0x100010e8#32, 0x100010ec#32, mem, u⟩
      ⟨call, 0x10000c00#32, 0x10000c04#32, mem, u⟩ := by
    apply Steps.of_run (n := 2)
    simp [menuCode_listing K, call]
  obtain ⟨regs₁, mem₁, n₁, hlines, hsp₁, hframe₁⟩ :=
    printMenu_spec K call mem u (by simp [call, hsp])
  rw [show call.get .ra = 0x100010f0#32 by simp [call]] at hlines
  obtain ⟨regs₂, mem₂, n₂, hready, hkeeps₂, hframe₂⟩ :=
    texts_spec K.printer' menu_prints.2.1 (by simp) regs₁ mem₁
      (u.sent n₁ (screenLines.flatMap sends)) hsp₁
  rw [text_outputs, menu_texts.2.1] at hready
  refine ⟨regs₂, mem₂, n₂, ?_, by rw [hkeeps₂.get (by simp) (by simp), hsp₁],
    hframe₁.trans (hframe₂.mono fun x hx => hx.weaken (by omega))⟩
  simpa [menuScreen, printsEnd, Output.size] using (hcall.trans hlines).trans hready

end Screen

section Commands

variable {a : Addr} {v n : Word} {rest : List Byte}

/-- From `s` the machine comes back to the head of the menu's loop, with `rest` still to be read,
`sent` sent and the memory that of `m`. -/
def Returns (P : Platform Uart) (sp : Addr) (s : State Uart) (rest sent : List Byte) (m : Mem) :
    Prop :=
  ∃ regs mem u, Steps (step P) s ⟨regs, 0x100010e8#32, 0x100010ec#32, mem, u⟩ ∧
    regs.get .sp = sp ∧ u.input = rest ∧ u.tx = s.dev.tx ++ sent ∧ Agree (Scratch sp 80) m mem

theorem Returns.head {s t : State Uart} {text sent : List Byte} {m : Mem}
    (hsteps : Steps (step P) s t) (htx : t.dev.tx = s.dev.tx ++ text)
    (h : Returns P sp t rest sent m) : Returns P sp s rest (text ++ sent) m := by
  obtain ⟨regs, mem, u, hrun, hsp, hinput, hsent, hmem⟩ := h
  exact ⟨regs, mem, u, hsteps.trans hrun, hsp, hinput,
    by rw [hsent, htx, List.append_assoc], hmem⟩

theorem Returns.agree {s : State Uart} {sent : List Byte} {m m' : Mem}
    (h : Returns P sp s rest sent m) (hm : Agree (Scratch sp 80) m' m) :
    Returns P sp s rest sent m' := by
  obtain ⟨regs, mem, u, hrun, hsp, hinput, hsent, hmem⟩ := h
  exact ⟨regs, mem, u, hrun, hsp, hinput, hsent, hm.trans hmem⟩

theorem upperHex_sent (w : Word) : Console.puts (formatHex w) = upperHex w := by
  rw [puts_formatHex, formatHex_eq]

theorem value_spec (K : MenuBoard P sp) {pc : Addr}
    (hask : printsAt menuImage pc [.text .a0 6208] = true)
    (hget : Calls P (pc + 12#32) 0x1000048c#32) (hnop : P.fetch (pc + 16#32) = some .nop)
    (hmove : P.fetch (pc + 20#32) = some (.addu .s0 .v0 .zero))
    (hformat : Calls P (pc + 24#32) 0x100003fc#32)
    (hvalue : P.fetch (pc + 28#32) = some (.addu .a0 .v0 .zero))
    (hputs : Calls P (pc + 32#32) 0x10000394#32)
    (hdigits : P.fetch (pc + 36#32) = some (.addu .a0 .v0 .zero)) (regs : Regs) (mem : Mem)
    (u : Uart) (hsp : regs.get .sp = sp) (hs4 : regs.get .s4 = a)
    (hread : getword u.input = some (v, rest)) :
    ∃ regs' mem' u', Steps (step P) ⟨regs, pc, pc + 4#32, mem, u⟩
        ⟨regs', pc + 40#32, pc + 40#32 + 4#32, mem', u'⟩ ∧
      regs'.get .s0 = v ∧ regs'.get .s4 = a ∧ regs'.get .sp = sp ∧ u'.input = rest ∧
      u'.tx = u.tx ++ (sends "\nValue in hex> " ++ upperHex v) ∧
      Agree (Scratch sp 80) mem mem' := by
  obtain ⟨regs₁, mem₁, n₁, hprompt, hkeeps₁, hagree₁⟩ :=
    prints_spec K.printer' hask regs mem u hsp (by simp)
  rw [text_outputs, menu_texts.2.2.1] at hprompt
  have hcall : Steps (step P) ⟨regs₁, pc + 12#32, pc + 12#32 + 4#32, mem₁,
        u.sent n₁ (sends "\nValue in hex> ")⟩
      ⟨regs₁.set .ra (pc + 20#32), 0x1000048c#32, 0x10000490#32, mem₁,
        u.sent n₁ (sends "\nValue in hex> ")⟩ := by
    apply Steps.of_run (n := 2)
    simp [hget.run, hnop, BitVec.add_assoc]
  obtain ⟨regs₂, mem₂, u₂, hnumber, hv0, hkeeps₂, hinput, htx, hframe₂⟩ :=
    getword_call K.toBoard (pc + 20#32) sp hcall (by simp)
      (by simp [hkeeps₁.get, hsp]) (K.stack.weaken (by omega)) hread
  let moved := regs₂.set .s0 v
  have hmoved : Steps (step P) ⟨regs₂, pc + 20#32, pc + 20#32 + 4#32, mem₂, u₂⟩
      ⟨moved, pc + 24#32, pc + 24#32 + 4#32, mem₂, u₂⟩ := by
    apply Steps.of_run (n := 1)
    simp [hmove, BitVec.add_assoc, hv0, moved]
  have hv0' : moved.get .v0 = v := by simp [moved, hv0]
  have hsp₂ : moved.get .sp = sp := by simp [moved, hkeeps₂.get, hkeeps₁.get, hsp]
  have hs4₂ : moved.get .s4 = a := by simp [moved, hkeeps₂.get, hkeeps₁.get, hs4]
  obtain ⟨regs₃, mem₃, n₃, hecho, hkeeps₃, hframe₃⟩ :=
    puts_register K.toBoard K.buffer (r := .v0) hformat
      (by simpa [BitVec.add_assoc] using hvalue) (by simpa [BitVec.add_assoc] using hputs)
      (by simpa [BitVec.add_assoc] using hdigits) (by simp) moved mem₂ u₂ hsp₂
      (K.stack.weaken (by omega)) K.apart'
  rw [hv0', upperHex_sent] at hecho
  have hprompt' : Steps (step P) ⟨regs, pc, pc + 4#32, mem, u⟩
      ⟨regs₁, pc + 12#32, pc + 12#32 + 4#32, mem₁, u.sent n₁ (sends "\nValue in hex> ")⟩ := by
    simpa [printsEnd, Output.size] using hprompt
  refine ⟨regs₃, mem₃, u₂.sent n₃ (upperHex v), ?run, ?value, ?address, ?stack, hinput, ?sent,
    ?memory⟩
  case run =>
    simpa [BitVec.add_assoc] using ((hprompt'.trans hnumber).trans hmoved).trans hecho
  case value => simp [hkeeps₃.get, moved]
  case address => rw [hkeeps₃.get (by simp) (by simp), hs4₂]
  case stack => rw [hkeeps₃.get (by simp) (by simp), hsp₂]
  case sent => simp [htx]
  case memory =>
    have hstack {m m' : Mem} {k : ℕ} (hframe : Frame sp k m m') (hk : k ≤ 80) :
        Agree (Scratch sp 80) m m' := hframe.mono fun x hx => Or.inl (hx.weaken hk)
    rw [hv0'] at hframe₃
    exact ((hagree₁.mono fun x hx => hx.weaken (by omega)).trans
      (hstack hframe₂ (by omega))).trans
        ((hexDigits_scratch sp 80 mem₂ v).trans (hstack hframe₃ (by omega)))

theorem write_returns (K : MenuBoard P sp) (hspan : Span P (Scratch sp 80) a 1) (regs : Regs)
    (mem : Mem) (u : Uart) (hsp : regs.get .sp = sp) (hs4 : regs.get .s4 = a)
    (hread : getword u.input = some (v, rest)) :
    Returns P sp ⟨regs, 0x10001218#32, 0x1000121c#32, mem, u⟩ rest
      (sends "\nValue in hex> " ++ upperHex v) (mem.writeWord a v) := by
  obtain ⟨regs₁, mem₁, u₁, hvalue, hs0, hs4₁, hsp₁, hinput, htx, hagree⟩ :=
    value_spec K menu_prints.2.2.1 ⟨_, K.menu.fetch rfl, rfl⟩ (by simp [menuCode_listing K])
      (by simp [menuCode_listing K]) ⟨_, K.menu.fetch rfl, rfl⟩ (K.menu.fetch rfl)
      ⟨_, K.menu.fetch rfl, rfl⟩ (K.menu.fetch rfl) regs mem u hsp hs4 hread
  have hplain : P.Plain a := by simpa using hspan.word (j := 0) (by omega)
  refine ⟨regs₁, mem₁.writeWord a v, u₁, hvalue.trans (Steps.of_run (n := 3) ?_), hsp₁, hinput, htx,
    hagree.writeWord a v⟩
  simp [menuCode_listing K, hs0, hs4₁, hplain]

theorem read_returns (K : MenuBoard P sp) (hspan : Span P (Scratch sp 80) a 1) (regs : Regs)
    (mem : Mem) (u : Uart) (hsp : regs.get .sp = sp) (hs4 : regs.get .s4 = a) :
    Returns P sp ⟨regs, 0x1000124c#32, 0x10001250#32, mem, u⟩ u.input
      (upperHex (mem.readWord a) ++ sends "\r\n") mem := by
  have hplain : P.Plain a := by simpa using hspan.word (j := 0) (by omega)
  let entry := (regs.set .a0 (mem.readWord a)).set .ra 0x10001258#32
  have hentry : Steps (step P) ⟨regs, 0x1000124c#32, 0x10001250#32, mem, u⟩
      ⟨entry, 0x100003fc#32, 0x10000400#32, mem, u⟩ := by
    apply Steps.of_run (n := 3)
    simp [menuCode_listing K, hs4, hplain.1, entry]
  have hputs : Calls P 0x10001258#32 0x10000394#32 := ⟨_, K.menu.fetch rfl, rfl⟩
  obtain ⟨regs₁, mem₁, n₁, hdigits, hkeeps₁, hframe₁⟩ :=
    puts_digits K.toBoard K.buffer (w := mem.readWord a) hputs (K.menu.fetch rfl) hentry
      (by simp [entry]) (by simp [entry])
      (by simp [entry, hsp]) (K.stack.weaken (by omega)) K.apart'
  rw [upperHex_sent] at hdigits
  have hsp₁ : regs₁.get .sp = sp := by simp [hkeeps₁.get, entry, hsp]
  obtain ⟨regs₂, mem₂, n₂, hline, hkeeps₂, hagree₂⟩ :=
    prints_spec K.printer' menu_prints.2.2.2.2 regs₁ mem₁ (u.sent n₁ (upperHex (mem.readWord a)))
      hsp₁ (by simp)
  rw [text_outputs, menu_texts.2.2.2] at hline
  have hback : Steps (step P) ⟨regs₂, 0x1000126c#32, 0x10001270#32, mem₂,
        u.sent n₂ (upperHex (mem.readWord a) ++ sends "\r\n")⟩
      ⟨regs₂, 0x100010e8#32, 0x100010ec#32, mem₂,
        u.sent n₂ (upperHex (mem.readWord a) ++ sends "\r\n")⟩ := by
    apply Steps.of_run (n := 2)
    simp [menuCode_listing K]
  have hprinted : Steps (step P) ⟨regs, 0x1000124c#32, 0x10001250#32, mem, u⟩
      ⟨regs₂, 0x1000126c#32, 0x10001270#32, mem₂,
        u.sent n₂ (upperHex (mem.readWord a) ++ sends "\r\n")⟩ := by
    simpa [printsEnd, Output.size] using hdigits.trans hline
  refine ⟨regs₂, mem₂, _, hprinted.trans hback, by rw [hkeeps₂.get (by simp) (by simp), hsp₁], rfl,
    rfl, ?_⟩
  exact ((hexDigits_scratch sp 80 mem _).trans
    (hframe₁.mono fun x hx => Or.inl (hx.weaken (by omega)))).trans
      (hagree₂.mono fun x hx => hx.weaken (by omega))

/-- Command `7` stores the word again for every poll that fails. The induction is on the polls until
the next byte is there. -/
theorem storing_loop (K : MenuBoard P sp) (hplain : P.Plain a) (d : ℕ) (c : Byte)
    (queue : List (ℕ × Byte)) (busy : ℕ) (tx : List Byte) (regs : Regs) (mem : Mem)
    (hs0 : regs.get .s0 = v) (hs4 : regs.get .s4 = a) (hsp : regs.get .sp = sp) :
    ∃ regs', Steps (step P) ⟨regs, 0x10001500#32, 0x10001504#32, mem, ⟨(d, c) :: queue, busy, tx⟩⟩
        ⟨regs', 0x100010e8#32, 0x100010ec#32, mem.writeWord a v, ⟨(0, c) :: queue, busy, tx⟩⟩ ∧
      regs'.get .sp = sp := by
  have hpolls : Calls P 0x10001504#32 0x10000448#32 := ⟨_, K.menu.fetch rfl, rfl⟩
  induction d generalizing regs mem with
  | zero =>
    have hstore : Steps (step P)
        ⟨regs, 0x10001500#32, 0x10001504#32, mem, ⟨(0, c) :: queue, busy, tx⟩⟩
        ⟨regs, 0x10001504#32, 0x10001508#32, mem.writeWord a v, ⟨(0, c) :: queue, busy, tx⟩⟩ := by
      apply Steps.of_run (n := 1)
      simp [menuCode_listing K, hs0, hs4, hplain]
    obtain ⟨regs₁, hpoll, hv0, -, hkeeps⟩ :=
      poll_call K.serial hpolls (K.menu.fetch rfl) regs (mem.writeWord a v)
        ⟨(0, c) :: queue, busy, tx⟩
    have hready : regs₁.get .v0 = 1#32 := hv0
    have hend : Steps (step P)
        ⟨regs₁, 0x1000150c#32, 0x10001510#32, mem.writeWord a v, ⟨(0, c) :: queue, busy, tx⟩⟩
        ⟨regs₁, 0x100010e8#32, 0x100010ec#32, mem.writeWord a v, ⟨(0, c) :: queue, busy, tx⟩⟩ := by
      apply Steps.of_run (n := 2)
      simp [menuCode_listing K, hready]
    exact ⟨regs₁, (hstore.trans hpoll).trans hend, by rw [hkeeps.get (by simp) (by simp), hsp]⟩
  | succ d ih =>
    have hstore : Steps (step P)
        ⟨regs, 0x10001500#32, 0x10001504#32, mem, ⟨(d + 1, c) :: queue, busy, tx⟩⟩
        ⟨regs, 0x10001504#32, 0x10001508#32, mem.writeWord a v,
          ⟨(d + 1, c) :: queue, busy, tx⟩⟩ := by
      apply Steps.of_run (n := 1)
      simp [menuCode_listing K, hs0, hs4, hplain]
    obtain ⟨regs₁, hpoll, hv0, hs0₁, hkeeps⟩ :=
      poll_call K.serial hpolls (K.menu.fetch rfl) regs (mem.writeWord a v)
        ⟨(d + 1, c) :: queue, busy, tx⟩
    have hready : regs₁.get .v0 = 0#32 := hv0
    have hback : Steps (step P)
        ⟨regs₁, 0x1000150c#32, 0x10001510#32, mem.writeWord a v, ⟨(d, c) :: queue, busy, tx⟩⟩
        ⟨regs₁, 0x10001500#32, 0x10001504#32, mem.writeWord a v, ⟨(d, c) :: queue, busy, tx⟩⟩ := by
      apply Steps.of_run (n := 4)
      simp [menuCode_listing K, hready]
    obtain ⟨regs₂, hrest, hsp₂⟩ := ih regs₁ (mem.writeWord a v) (hs0₁.trans hs0)
      (by rw [hkeeps.get (by simp) (by simp), hs4]) (by rw [hkeeps.get (by simp) (by simp), hsp])
    rw [Mem.writeWord_twice] at hrest
    exact ⟨regs₂, ((hstore.trans hpoll).trans hback).trans hrest, hsp₂⟩

theorem storing_returns (K : MenuBoard P sp) (hspan : Span P (Scratch sp 80) a 1) (regs : Regs)
    (mem : Mem) (u : Uart) (hsp : regs.get .sp = sp) (hs4 : regs.get .s4 = a)
    (hread : getword u.input = some (v, rest)) (hmore : rest ≠ []) :
    Returns P sp ⟨regs, 0x100014d8#32, 0x100014dc#32, mem, u⟩ rest
      (sends "\nValue in hex> " ++ upperHex v) (mem.writeWord a v) := by
  obtain ⟨regs₁, mem₁, u₁, hvalue, hs0, hs4₁, hsp₁, hinput, htx, hagree⟩ :=
    value_spec K menu_prints.2.2.2.1 ⟨_, K.menu.fetch rfl, rfl⟩ (by simp [menuCode_listing K])
      (by simp [menuCode_listing K]) ⟨_, K.menu.fetch rfl, rfl⟩ (K.menu.fetch rfl)
      ⟨_, K.menu.fetch rfl, rfl⟩ (K.menu.fetch rfl) regs mem u hsp hs4 hread
  have hplain : P.Plain a := by simpa using hspan.word (j := 0) (by omega)
  obtain ⟨rx, busy, tx⟩ := u₁
  obtain _ | ⟨⟨d, c⟩, queue⟩ := rx
  · exact absurd hinput.symm hmore
  obtain ⟨regs₂, hloop, hsp₂⟩ :=
    storing_loop K hplain d c queue busy tx regs₁ mem₁ hs0 hs4₁ hsp₁
  exact ⟨regs₂, _, _, hvalue.trans hloop, hsp₂, hinput, htx, hagree.writeWord a v⟩

structure WordsPrinted (sp a n : Addr) (m₀ : Mem) (total : ℕ) (u₀ : Uart) (k : ℕ) (t : State Uart) :
    Prop where
  pc : t.pc = if k < total then dumpEntry k else 0x100012f0#32
  npc : t.npc = t.pc + 4#32
  loop : k < total → Dumping sp a n m₀ k t.regs t.mem
  address : k < total → k % 4 ≠ 0 → t.regs.get .v0 = a + BitVec.ofNat 32 (4 * k)
  stack : t.regs.get .sp = sp
  memory : Agree (Scratch sp 72) m₀ t.mem
  input : t.dev.rx = u₀.rx
  sent : t.dev.tx = u₀.tx ++ rows m₀ a k

theorem span_limit (K : MenuBoard P sp) {hidden : Addr → Prop} {k : ℕ}
    (hspan : Span P hidden a k) : 4 * k < 4294967296 := by
  have hfits := hspan.fits
  by_contra hall
  have hram := (hspan.plain 0x10000c00#32 (by unfold InRange; bv_omega)).1.2
  have hcode := K.menu.code 0x10000c00#32 0x27bdffe8#32 rfl
  rw [show alignAddr 0x10000c00#32 = 0x10000c00#32 by decide, hcode] at hram
  cases hram

theorem wordsPrinted_round (K : MenuBoard P sp) {m₀ : Mem} {u₀ : Uart} {total : ℕ}
    (htotal : total = (n.toNat + 3) / 4) (hspan : Span P (Scratch sp 80) a total) (k : ℕ)
    (hk : k < total) (s : State Uart) (h : WordsPrinted sp a n m₀ total u₀ k s) :
    ∃ t, Steps (step P) s t ∧ WordsPrinted sp a n m₀ total u₀ (k + 1) t := by
  have hlimit := span_limit K hspan
  obtain ⟨regs, pc, npc, mem, u⟩ := s
  obtain rfl : pc = dumpEntry k := h.pc.trans (if_pos hk)
  obtain rfl : npc = dumpEntry k + 4#32 := h.npc
  have hstack : Stack P sp 72 := K.stack.weaken (by omega)
  have hplain := hspan.word hk
  obtain ⟨regs₁, mem₁, j₁, hbreak, hv0, hloop⟩ :=
    dump_break K.toDumpBoard hstack regs mem u (h.loop hk) (h.address hk)
  have hword : mem₁.readWord (a + BitVec.ofNat 32 (4 * k)) =
      m₀.readWord (a + BitVec.ofNat 32 (4 * k)) :=
    (hspan.mono fun x hx => hx.weaken (by omega)).readWord hk hloop.memory
  have hload : P.loadWord mem₁ (u.sent j₁ (if k % 4 = 0 then lineBreak else []))
      (a + BitVec.ofNat 32 (4 * k)) = some (m₀.readWord (a + BitVec.ofNat 32 (4 * k)),
        u.sent j₁ (if k % 4 = 0 then lineBreak else [])) := by
    simp [Platform.loadWord, hplain.1.1.1, hplain.1.readWord, hword]
  obtain ⟨regs₂, mem₂, j₂, hprint, hs0, hkeeps, hagree⟩ :=
    dump_load K.toDumpBoard hstack K.apart' regs₁ mem₁ _ hloop hv0 hload
  have hs4 : regs₂.get .s4 = a := by rw [hkeeps.get (by simp) (by simp), hloop.base]
  have hs2 : regs₂.get .s2 = n := by rw [hkeeps.get (by simp) (by simp), hloop.count]
  have hsp : regs₂.get .sp = sp := by rw [hkeeps.get (by simp) (by simp), hloop.stack]
  obtain ⟨regs₃, hnext, hs1, hv0₃, hkeeps₃⟩ :=
    dump_next K.toDumpBoard regs₂ mem₂ ((u.sent j₁ (if k % 4 = 0 then lineBreak else [])).sent j₂
      (formatHex (m₀.readWord (a + BitVec.ofNat 32 (4 * k))) ++ [32#8])) hs0 hs4 hs2
  have hmore : (BitVec.ofNat 32 (4 * (k + 1))).ult n = true ↔ k + 1 < total := by
    rw [BitVec.ult_iff_lt]
    bv_omega
  have hsent : u.tx = u₀.tx ++ rows m₀ a k := h.sent
  refine ⟨_, (hbreak.trans hprint).trans hnext, ?_⟩
  have hrow : u.tx ++ ((if k % 4 = 0 then lineBreak else []) ++
      (formatHex (m₀.readWord (a + BitVec.ofNat 32 (4 * k))) ++ [32#8])) =
        u₀.tx ++ rows m₀ a (k + 1) := by
    rw [hsent, rows_succ, rowWord, ← formatHex_eq, List.append_assoc]
    rfl
  by_cases hlast : k + 1 < total
  · rw [if_pos (hmore.mpr hlast)]
    constructor
    case pc => exact (if_pos hlast).symm
    case npc => rfl
    case loop =>
      intro _
      constructor
      case offset => rw [hkeeps₃.get (by simp) (by simp), hs0]
      case last => exact hs1
      case base => rw [hkeeps₃.get (by simp) (by simp), hs4]
      case count => rw [hkeeps₃.get (by simp) (by simp), hs2]
      case stack => rw [hkeeps₃.get (by simp) (by simp), hsp]
      case memory => exact hagree
    case address => exact fun _ hline => hv0₃ hline (hmore.mpr hlast)
    case stack => rw [hkeeps₃.get (by simp) (by simp), hsp]
    case memory => exact hagree
    case input => exact h.input
    case sent => simpa using hrow
  · rw [if_neg fun hult => hlast (hmore.mp hult)]
    constructor
    case pc => exact (if_neg hlast).symm
    case npc => rfl
    case loop => exact fun hlt => absurd hlt hlast
    case address => exact fun hlt => absurd hlt hlast
    case stack => rw [hkeeps₃.get (by simp) (by simp), hsp]
    case memory => exact hagree
    case input => exact h.input
    case sent => simpa using hrow

theorem dump_rows (K : MenuBoard P sp) {m₀ : Mem} {total : ℕ} (htotal : total = (n.toNat + 3) / 4)
    (hspan : Span P (Scratch sp 80) a total) (hn : n ≠ 0#32) (regs : Regs) (mem : Mem) (u : Uart)
    (hv0 : regs.get .v0 = n) (hs4 : regs.get .s4 = a) (hsp : regs.get .sp = sp)
    (hmem : Agree (Scratch sp 72) m₀ mem) :
    ∃ t, Steps (step P) ⟨regs, 0x10001298#32, 0x1000129c#32, mem, u⟩ t ∧
      WordsPrinted sp a n m₀ total u total t := by
  have hpos : 0 < total := by bv_omega
  let entry := ((regs.set .s2 n).set .s0 0#32).set .s1 0#32
  have hbranch : Steps (step P) ⟨regs, 0x10001298#32, 0x1000129c#32, mem, u⟩
      ⟨entry, 0x100012b8#32, 0x100012bc#32, mem, u⟩ := by
    apply Steps.of_run (n := 5)
    simp [dump_listing K.toDumpBoard, hv0, hn, entry]
  have hstart : WordsPrinted sp a n m₀ total u 0 ⟨entry, 0x100012b8#32, 0x100012bc#32, mem, u⟩ := by
    refine ⟨(if_pos hpos).symm, rfl, fun _ => ?_, by simp, by simp [entry, hsp], hmem, rfl,
      by simp [rows]⟩
    constructor <;> simp [entry, hs4, hsp, hmem]
  obtain ⟨t, hrounds, ht⟩ := Steps.iterate (wordsPrinted_round K htotal hspan) hstart
  exact ⟨t, hbranch.trans hrounds, ht⟩

theorem dump_leaves (K : MenuBoard P sp) (regs : Regs) (mem : Mem) (u : Uart)
    (hsp : regs.get .sp = sp) :
    Returns P sp ⟨regs, 0x100012f0#32, 0x100012f4#32, mem, u⟩ u.input (sends "\r\n") mem := by
  obtain ⟨regs₁, mem₁, j, hbreak, hkeeps, hagree⟩ :=
    line_break K.toDumpBoard 0x100012f0#32 (by simp [dump_listing K.toDumpBoard])
      ⟨_, K.dump.fetch rfl, rfl⟩ (by simp [dump_listing K.toDumpBoard])
      (K.stack.weaken (by omega)) regs mem u hsp
  refine ⟨regs₁, mem₁, u.sent j lineBreak, hbreak.trans (Steps.of_run (n := 2) ?_),
    by rw [hkeeps.get (by simp) (by simp), hsp], rfl, rfl,
    hagree.mono fun x hx => hx.weaken (by omega)⟩
  simp [dump_listing K.toDumpBoard]

theorem countText : textBytes bootImage 6224 = sends "\nCount in hex> " := by decide +kernel

theorem dump_returns (K : MenuBoard P sp)
    (hspan : 0 < (n.toNat + 3) / 4 → Span P (Scratch sp 80) a ((n.toNat + 3) / 4))
    (regs : Regs) (mem : Mem) (u : Uart) (hsp : regs.get .sp = sp) (hs4 : regs.get .s4 = a)
    (hread : getword u.input = some (n, rest)) :
    Returns P sp ⟨regs, 0x10001284#32, 0x10001288#32, mem, u⟩ rest
      (sends "\nCount in hex> " ++ (rows mem a ((n.toNat + 3) / 4) ++ sends "\r\n")) mem := by
  have hstack : Stack P sp 72 := K.stack.weaken (by omega)
  obtain ⟨regs₁, mem₁, j₁, hask, hkeeps₁, hagree₁⟩ :=
    dump_question K.toDumpBoard hstack regs mem u hsp
  rw [countText] at hask
  let call := regs₁.set .ra 0x10001298#32
  have hcall : Steps (step P) ⟨regs₁, 0x10001290#32, 0x10001294#32, mem₁,
        u.sent j₁ (sends "\nCount in hex> ")⟩
      ⟨call, 0x1000048c#32, 0x10000490#32, mem₁, u.sent j₁ (sends "\nCount in hex> ")⟩ := by
    apply Steps.of_run (n := 2)
    simp [dump_listing K.toDumpBoard, call]
  obtain ⟨regs₂, mem₂, u₂, hnumber, hv0, hkeeps₂, hinput, htx, hframe₂⟩ :=
    getword_call K.toBoard 0x10001298#32 sp hcall (by simp [call])
      (by simp [call, hkeeps₁.get, hsp]) hstack hread
  have hs4₂ : regs₂.get .s4 = a := by simp [hkeeps₂.get, call, hkeeps₁.get, hs4]
  have hsp₂ : regs₂.get .sp = sp := by simp [hkeeps₂.get, call, hkeeps₁.get, hsp]
  have hagree : Agree (Scratch sp 72) mem mem₂ := hagree₁.trans (hframe₂.mono fun x hx => Or.inl hx)
  have htx' : u₂.tx = u.tx ++ sends "\nCount in hex> " := by simpa using htx
  by_cases hn : n = 0#32
  · subst hn
    have hbranch : Steps (step P) ⟨regs₂, 0x10001298#32, 0x1000129c#32, mem₂, u₂⟩
        ⟨regs₂.set .s2 0#32, 0x100012f0#32, 0x100012f4#32, mem₂, u₂⟩ := by
      apply Steps.of_run (n := 2)
      simp [dump_listing K.toDumpBoard, hv0]
    have hleaves := dump_leaves K (regs₂.set .s2 0#32) mem₂ u₂ (by simp [hsp₂])
    rw [hinput] at hleaves
    exact (hleaves.head ((hask.trans hnumber).trans hbranch) htx').agree
      (hagree.mono fun x hx => hx.weaken (by omega))
  · obtain ⟨t, hrows, ht⟩ := dump_rows K rfl (hspan (by bv_omega)) hn regs₂ mem₂ u₂ hv0 hs4₂ hsp₂
      hagree
    obtain ⟨regs₃, pc, npc, mem₃, u₃⟩ := t
    obtain rfl : pc = 0x100012f0#32 := ht.pc.trans (if_neg (Nat.lt_irrefl _))
    obtain rfl : npc = 0x100012f4#32 := ht.npc
    have hleaves := dump_leaves K regs₃ mem₃ u₃ ht.stack
    have hinput₃ : u₃.input = rest := (congrArg (List.map Prod.snd) ht.input).trans hinput
    rw [hinput₃] at hleaves
    have hsent : u₃.tx = u₂.tx ++ rows mem a ((n.toNat + 3) / 4) := ht.sent
    exact ((hleaves.head hrows hsent).head (hask.trans hnumber) htx').agree
      (ht.memory.mono fun x hx => hx.weaken (by omega))

end Commands

section Rounds

variable {a : Addr} {c : Byte} {input rest : List Byte}

theorem menuTexts : textBytes bootImage 6112 = sends "\nAddress in hex> " ∧
    textBytes bootImage 6132 = sends "Address = " ∧ textBytes bootImage 5632 = sends "\n" := by
  decide +kernel

theorem menuPrompt_eq (a : Addr) : menuPrompt a = addressText a := by
  obtain ⟨hask, haddress, hline⟩ := menuTexts
  rw [menuPrompt, addressText, hask, haddress, hline, upperHex_sent]
  simp

theorem address_spec (K : MenuBoard P sp) (hc : (c.setWidth 32 + 0xffffffcf#32).ult 9#32 = true)
    (regs : Regs) (mem : Mem) (u : Uart) (hsp : regs.get .sp = sp) (hinput : u.input = c :: input)
    (hread : getword input = some (a, rest)) :
    ∃ regs' mem' u', Steps (step P) ⟨regs, 0x100010fc#32, 0x10001100#32, mem, u⟩
        ⟨regs', 0x10001168#32, 0x1000116c#32, mem', u'⟩ ∧
      regs'.get .s0 = c.setWidth 32 ∧ regs'.get .s4 = a ∧ regs'.get .sp = sp ∧ u'.input = rest ∧
      u'.tx = u.tx ++ addressText a ∧ Agree (Scratch sp 80) mem mem' := by
  obtain ⟨number, rfl, hnumber⟩ := getwordFrom_split hread
  obtain ⟨rx, busy, tx⟩ := u
  obtain ⟨⟨d, c'⟩, rx, rfl, hc', hrest⟩ := List.map_eq_cons_iff.mp hinput
  obtain rfl : c' = c := hc'
  obtain ⟨typed, queue, rfl, htyped, hqueue⟩ := List.map_eq_append_iff.mp hrest
  have hget : getword (typed.map Prod.snd) = some (a, []) := htyped ▸ hnumber
  obtain ⟨regs', mem', j, hsteps, hs0, hs4, hsp', hagree⟩ :=
    menu_address K.toBootBoard (K.stack.weaken (by omega)) K.apart' hc hget queue regs mem busy tx
      hsp (d := d)
  rw [menuPrompt_eq] at hsteps
  exact ⟨regs', mem', _, hsteps, hs0, hs4, hsp', hqueue, rfl,
    hagree.mono fun x hx => hx.weaken (by omega)⟩

structure MenuEntry (c : Byte) (target : Addr) : Prop where
  digit : (c.setWidth 32 + 0xffffffcf#32).ult 9#32 = true
  last : ((c.setWidth 32 + 0xffffffcf#32) &&& 0xff#32).ult 54#32 = true
  target : bootImage (((c.setWidth 32 + 0xffffffcf#32) &&& 0xff#32) <<< 2 + 0x100019c0#32) =
    some target

theorem menuEntries : MenuEntry 49#8 0x10001218#32 ∧ MenuEntry 50#8 0x1000124c#32 ∧
    MenuEntry 52#8 0x10001284#32 ∧ MenuEntry 55#8 0x100014d8#32 ∧
    MenuEntry 57#8 0x100010e8#32 := by
  refine ⟨?_, ?_, ?_, ?_, ?_⟩ <;> exact ⟨rfl, rfl, rfl⟩

theorem command_returns (K : MenuBoard P sp) (m : Mem → Mem) (sent : List Byte) {target : Addr}
    {rest' : List Byte} (hentry : MenuEntry c target)
    (regs : Regs) (mem : Mem) (u : Uart) (hsp : regs.get .sp = sp) (hinput : u.input = c :: input)
    (hread : getword input = some (a, rest))
    (hcode : ∀ regs' mem' u', regs'.get .sp = sp → regs'.get .s4 = a → u'.input = rest →
      Agree (Scratch sp 80) mem mem' →
      Returns P sp ⟨regs', target, target + 4#32, mem', u'⟩ rest' sent (m mem'))
    (hm : ∀ mem', Agree (Scratch sp 80) mem mem' → Agree (Scratch sp 80) (m mem) (m mem')) :
    Returns P sp ⟨regs, 0x100010fc#32, 0x10001100#32, mem, u⟩ rest' (addressText a ++ sent)
      (m mem) := by
  obtain ⟨regs₁, mem₁, u₁, haddress, hs0, hs4, hsp₁, hinput₁, htx₁, hagree₁⟩ :=
    address_spec K hentry.digit regs mem u hsp hinput hread
  obtain ⟨regs₂, hjump, hkeeps⟩ :=
    menu_jump K.toBootBoard target regs₁ mem₁ u₁ hs0 hentry.last hentry.target
  have hreturns := hcode regs₂ mem₁ u₁ (by rw [hkeeps.get (by simp), hsp₁])
    (by rw [hkeeps.get (by simp), hs4]) hinput₁ hagree₁
  exact (hreturns.head (haddress.trans hjump) htx₁).agree (hm mem₁ hagree₁)

theorem menuTable_other {k : ℕ} (hk : k < 54)
    (h : k ∉ [0, 1, 2, 3, 4, 5, 6, 7, 48, 50, 51, 52, 53]) :
    bootImage (BitVec.ofNat 32 k <<< 2 + 0x100019c0#32) = some 0x100010e8#32 := by
  interval_cases k <;> first | rfl | simp at h

theorem unknown_keys : (List.range 256).all (fun k =>
    decide (BitVec.ofNat 8 k ∈ [49#8, 50#8, 52#8, 55#8, 57#8]) ||
      decide (MenuOther (BitVec.ofNat 8 k)) ||
      (! (BitVec.ofNat 32 k + 0xffffffcf#32).ult 9#32 &&
        decide (((BitVec.ofNat 32 k + 0xffffffcf#32) &&& 0xff#32).toNat ∉
          [0, 1, 2, 3, 4, 5, 6, 7, 48, 50, 51, 52, 53]))) = true := by decide +kernel

theorem unknown_key (hknown : c ∉ [49#8, 50#8, 52#8, 55#8, 57#8]) (hother : ¬ MenuOther c) :
    (c.setWidth 32 + 0xffffffcf#32).ult 9#32 = false ∧
      ((c.setWidth 32 + 0xffffffcf#32) &&& 0xff#32).toNat ∉
        [0, 1, 2, 3, 4, 5, 6, 7, 48, 50, 51, 52, 53] := by
  have hbyte := List.all_eq_true.mp unknown_keys c.toNat (List.mem_range.mpr c.isLt)
  simp only [BitVec.ofNat_toNat, BitVec.setWidth_eq, Bool.or_eq_true, Bool.and_eq_true,
    Bool.not_eq_true', decide_eq_true_eq] at hbyte
  exact hbyte.resolve_left fun h => h.elim hknown hother

theorem letter_spec (K : MenuBoard P sp) (hc : (c.setWidth 32 + 0xffffffcf#32).ult 9#32 = false)
    (regs : Regs) (mem : Mem) (u : Uart) (hsp : regs.get .sp = sp) (hinput : u.input = c :: input) :
    ∃ regs' mem' u', Steps (step P) ⟨regs, 0x100010fc#32, 0x10001100#32, mem, u⟩
        ⟨regs', 0x1000116c#32, 0x10001170#32, mem', u'⟩ ∧
      regs'.get .v0 = c.setWidth 32 + 0xffffffcf#32 ∧ regs'.get .sp = sp ∧ u'.input = input ∧
      u'.tx = u.tx ∧ Agree (Scratch sp 80) mem mem' := by
  have M := K.toBootBoard
  obtain ⟨rx, busy, tx⟩ := u
  obtain ⟨⟨d, c'⟩, queue, rfl, hc', hqueue⟩ := List.map_eq_cons_iff.mp hinput
  obtain rfl : c' = c := hc'
  let call := regs.set .ra 0x10001104#32
  have hcall (u : Uart) : Steps (step P) ⟨regs, 0x100010fc#32, 0x10001100#32, mem, u⟩
      ⟨call, 0x1000045c#32, 0x10000460#32, mem, u⟩ := by
    apply Steps.of_run (n := 2)
    simp [menu_listing M, call]
  obtain ⟨regs₁, mem₁, hchar, hv0, hkeeps₁, hframe₁⟩ :=
    getchar_spec K.toBoard call mem d c' queue busy tx
      (by simpa [call, hsp] using K.stack.weaken (by omega))
  rw [show call.get .ra = 0x10001104#32 by simp [call]] at hchar
  rw [show call.get .sp = sp by simp [call, hsp]] at hframe₁
  let chosen := ((regs₁.set .s0 (c'.setWidth 32)).set .v0 0#32).set .v0
    (c'.setWidth 32 + 0xffffffcf#32)
  have hchosen (u : Uart) : Steps (step P) ⟨regs₁, 0x10001104#32, 0x10001104#32 + 4#32, mem₁, u⟩
      ⟨chosen, 0x1000116c#32, 0x10001170#32, mem₁, u⟩ := by
    apply Steps.of_run (n := 5)
    simp [menu_listing M, hv0, hc, chosen]
  exact ⟨chosen, mem₁, ⟨queue, busy, tx⟩, ((hcall _).trans hchar).trans (hchosen _),
    by simp [chosen],
    by simp [chosen, hkeeps₁.get, call, hsp], hqueue, rfl,
    hframe₁.mono fun x hx => Or.inl (hx.weaken (by omega))⟩

theorem letter_jump (K : MenuBoard P sp) {target : Addr} {key : Word}
    (hlast : (key &&& 0xff#32).ult 54#32 = true)
    (htarget : bootImage ((key &&& 0xff#32) <<< 2 + 0x100019c0#32) = some target)
    (regs : Regs) (mem : Mem) (u : Uart) (hv0 : regs.get .v0 = key) :
    ∃ regs', Steps (step P) ⟨regs, 0x1000116c#32, 0x10001170#32, mem, u⟩
        ⟨regs', target, target + 4#32, mem, u⟩ ∧ regs.Keeps regs' := by
  have M := K.toBootBoard
  generalize hkey : key &&& 0xff#32 = index at hlast htarget
  have halign : (index <<< 2 + 0x100019c0#32).toNat % 4 = 0 := by
    have hlt : index.toNat < 54 := by simpa [BitVec.ult] using hlast
    bv_omega
  have hindex : ∃ regs₁, Steps (step P) ⟨regs, 0x1000116c#32, 0x10001170#32, mem, u⟩
      ⟨regs₁, 0x10001188#32, 0x1000118c#32, mem, u⟩ ∧
      regs₁.get .v0 + BitVec.signExtend 32 0#16 = index <<< 2 + 0x100019c0#32 ∧
      regs.Keeps regs₁ := by
    refine ⟨?regs, Steps.of_run (n := 7) ?run, ?post⟩
    case run =>
      simp [menu_listing M, hv0, hkey, hlast]
      rfl
    case post => simp [Regs.keeps_iff]
  obtain ⟨regs₁, hindex, haddress, hkeeps⟩ := hindex
  have hload := exec_lw_code (w := target) 0x10001188#32 0x1000118c#32 mem u .v0 .v0 0
    haddress (M.image.device _ _ (alignAddr_of_aligned halign ▸ htarget)) halign
      (M.image.code _ _ htarget)
  refine ⟨regs₁.set .v0 target, hindex.trans (Steps.of_run (n := 4) ?jump), ?keeps⟩
  case jump =>
    simp at hload
    simp [menu_listing M, hload]
  case keeps => simp [Regs.keeps_iff, hkeeps.get]

theorem unknown_skips (K : MenuBoard P sp) (hknown : c ∉ [49#8, 50#8, 52#8, 55#8, 57#8])
    (hother : ¬ MenuOther c) (regs : Regs) (mem : Mem) (u : Uart)
    (hv0 : regs.get .v0 = c.setWidth 32 + 0xffffffcf#32) :
    ∃ regs', Steps (step P) ⟨regs, 0x1000116c#32, 0x10001170#32, mem, u⟩
        ⟨regs', 0x100010e8#32, 0x100010ec#32, mem, u⟩ ∧ regs.Keeps regs' := by
  cases hlast : ((c.setWidth 32 + 0xffffffcf#32) &&& 0xff#32).ult 54#32 with
  | false =>
    refine ⟨?skip, Steps.of_run (n := 4) ?run, ?keeps⟩
    case run =>
      simp [menu_listing K.toBootBoard, hv0, hlast]
      rfl
    case keeps => simp [Regs.keeps_iff]
  | true =>
    have hk : ((c.setWidth 32 + 0xffffffcf#32) &&& 0xff#32).toNat < 54 :=
      of_decide_eq_true hlast
    have htarget := menuTable_other hk (unknown_key hknown hother).2
    rw [BitVec.ofNat_toNat, BitVec.setWidth_eq] at htarget
    exact letter_jump K hlast htarget regs mem u hv0

/-- The machine waits for a command of the menu, with what is still to be read, the memory and the
output those of `c`. -/
structure AtMenu (sp : Addr) (c : Session) (s : State Uart) : Prop where
  pc : s.pc = 0x100010fc#32
  npc : s.npc = 0x10001100#32
  stack : s.regs.get .sp = sp
  input : s.dev.input = c.input
  output : s.dev.tx = c.output
  mem : Agree (Scratch sp 80) c.mem s.mem

def Console.MenuCommand.Within (P : Platform Uart) (hidden : Addr → Prop) (cmd : MenuCommand) :
    Prop :=
  0 < cmd.count → Span P hidden cmd.target cmd.count

def MenuAllowed (P : Platform Uart) (hidden : Addr → Prop) (c : Session) : Prop :=
  ∀ letter input cmd rest, c.input = letter :: input → parseMenu letter input = some (cmd, rest) →
    cmd.Within P hidden

theorem rows_agree {hidden : Addr → Prop} {m m' : Mem} {k : ℕ}
    (hspan : 0 < k → Span P hidden a k) (hagree : Agree hidden m m') :
    rows m' a k = rows m a k := by
  refine List.flatMap_congr fun j hj => ?_
  have hjk : j < k := List.mem_range.mp hj
  rw [rowWord, rowWord, (hspan (by omega)).readWord hjk hagree]

theorem unknown_returns (K : MenuBoard P sp) (hknown : c ∉ [49#8, 50#8, 52#8, 55#8, 57#8])
    (hother : ¬ MenuOther c) (regs : Regs) (mem : Mem) (u : Uart) (hsp : regs.get .sp = sp)
    (hinput : u.input = c :: input) :
    Returns P sp ⟨regs, 0x100010fc#32, 0x10001100#32, mem, u⟩ input [] mem := by
  obtain ⟨regs₁, mem₁, u₁, hletter, hv0, hsp₁, hinput₁, htx₁, hagree₁⟩ :=
    letter_spec K (unknown_key hknown hother).1 regs mem u hsp hinput
  obtain ⟨regs₂, hskip, hkeeps₂⟩ := unknown_skips K hknown hother regs₁ mem₁ u₁ hv0
  exact ⟨regs₂, mem₁, u₁, hletter.trans hskip, by rw [hkeeps₂.get (by simp), hsp₁], hinput₁,
    by simp [htx₁], hagree₁⟩

theorem parsed_returns (K : MenuBoard P sp) {cmd : MenuCommand} {m : Mem}
    (hparse : parseMenu c input = some (cmd, rest)) (hwithin : cmd.Within P (Scratch sp 80))
    (regs : Regs) (mem : Mem) (u : Uart) (hsp : regs.get .sp = sp) (hinput : u.input = c :: input)
    (hmem : Agree (Scratch sp 80) m mem) :
    Returns P sp ⟨regs, 0x100010fc#32, 0x10001100#32, mem, u⟩ rest (cmd.reply m) (cmd.store m) := by
  unfold parseMenu at hparse
  split_ifs at hparse with hwrite hread hdump hloop haddress hother
  · simp only [Option.bind_eq_bind, Option.bind_eq_some_iff, Prod.exists, Option.some.injEq,
      Prod.mk.injEq] at hparse
    obtain ⟨a, input₁, haddr, v, input₂, hvalue, rfl, rfl⟩ := hparse
    subst hwrite
    have hspan : Span P (Scratch sp 80) a 1 := hwithin Nat.one_pos
    have hreturns := command_returns K (fun m => m.writeWord a v) _ menuEntries.1 regs mem u hsp
      hinput haddr
      (fun regs' mem' u' hsp' hs4 hinput' _ =>
        write_returns K hspan regs' mem' u' hsp' hs4 (hinput' ▸ hvalue))
      (fun mem' h => h.writeWord a v)
    simpa [MenuCommand.reply, MenuCommand.store] using hreturns.agree (hmem.writeWord a v)
  · simp only [Option.bind_eq_bind, Option.bind_eq_some_iff, Prod.exists, Option.some.injEq,
      Prod.mk.injEq] at hparse
    obtain ⟨a, input₁, haddr, rfl, rfl⟩ := hparse
    subst hread
    have hspan : Span P (Scratch sp 80) a 1 := hwithin Nat.one_pos
    have hreturns := command_returns K id (upperHex (m.readWord a) ++ sends "\r\n")
      menuEntries.2.1 regs mem u hsp hinput haddr
      (fun regs' mem' u' hsp' hs4 hinput' hmem' => by
        have hword := hspan.readWord Nat.one_pos (hmem.trans hmem')
        simp only [Nat.mul_zero, BitVec.add_zero] at hword
        simpa [hword, hinput'] using read_returns K hspan regs' mem' u' hsp' hs4)
      (fun mem' h => h)
    simpa [MenuCommand.reply, MenuCommand.store] using hreturns.agree hmem
  · simp only [Option.bind_eq_bind, Option.bind_eq_some_iff, Prod.exists, Option.some.injEq,
      Prod.mk.injEq] at hparse
    obtain ⟨a, input₁, haddr, n, input₂, hcount, rfl, rfl⟩ := hparse
    subst hdump
    have hreturns := command_returns K id
      (sends "\nCount in hex> " ++ (rows m a ((n.toNat + 3) / 4) ++ sends "\r\n"))
      menuEntries.2.2.1 regs mem u hsp hinput haddr
      (fun regs' mem' u' hsp' hs4 hinput' hmem' => by
        have hrows : rows mem' a ((n.toNat + 3) / 4) = rows m a ((n.toNat + 3) / 4) :=
          rows_agree hwithin (hmem.trans hmem')
        rw [← hrows]
        exact dump_returns K hwithin regs' mem' u' hsp' hs4 (hinput' ▸ hcount))
      (fun mem' h => h)
    simpa [MenuCommand.reply, MenuCommand.store] using hreturns.agree hmem
  · simp only [Option.bind_eq_bind, Option.bind_eq_some_iff, Prod.exists] at hparse
    obtain ⟨a, input₁, haddr, v, input₂, hvalue, hmore⟩ := hparse
    split_ifs at hmore with hnone
    obtain ⟨rfl, rfl⟩ := Prod.mk.inj (Option.some.inj hmore)
    subst hloop
    have hspan : Span P (Scratch sp 80) a 1 := hwithin Nat.one_pos
    have hreturns := command_returns K (fun m => m.writeWord a v) _ menuEntries.2.2.2.1 regs mem u
      hsp hinput haddr
      (fun regs' mem' u' hsp' hs4 hinput' _ =>
        storing_returns K hspan regs' mem' u' hsp' hs4 (hinput' ▸ hvalue) hnone)
      (fun mem' h => h.writeWord a v)
    simpa [MenuCommand.reply, MenuCommand.store] using hreturns.agree (hmem.writeWord a v)
  · simp only [Option.bind_eq_bind, Option.bind_eq_some_iff, Prod.exists, Option.some.injEq,
      Prod.mk.injEq] at hparse
    obtain ⟨a, input₁, haddr, rfl, rfl⟩ := hparse
    subst haddress
    have hreturns := command_returns K id [] menuEntries.2.2.2.2 regs mem u hsp hinput haddr
      (fun regs' mem' u' hsp' hs4 hinput' _ =>
        ⟨regs', mem', u', Steps.refl _, hsp', hinput', by simp, Agree.refl _ _⟩)
      (fun mem' h => h)
    simpa [MenuCommand.reply, MenuCommand.store] using hreturns.agree hmem
  · obtain ⟨rfl, rfl⟩ := Prod.mk.inj (Option.some.inj hparse)
    exact (unknown_returns K (by simp [hwrite, hread, hdump, hloop, haddress]) hother regs mem u hsp
      hinput).agree hmem

/-- A round of the menu on byte lists is a run of the machine from where it waits to where it waits
again. -/
theorem menu_refines (K : MenuBoard P sp) {c c' : Session} {s : State Uart} (hs : AtMenu sp c s)
    (hround : menuRound c = some c') (hallowed : MenuAllowed P (Scratch sp 80) c) :
    ∃ s', Steps (step P) s s' ∧ AtMenu sp c' s' := by
  unfold menuRound at hround
  split at hround
  next => cases hround
  next letter input hinput =>
    obtain ⟨⟨cmd, rest⟩, hparse, rfl⟩ := Option.map_eq_some_iff.mp hround
    obtain ⟨regs, pc, npc, mem, u⟩ := s
    obtain ⟨rfl, rfl, hsp, hin, htx, hmem⟩ := hs
    obtain ⟨regs₁, mem₁, u₁, hcommand, hsp₁, hinput₁, htx₁, hmem₁⟩ :=
      parsed_returns K hparse (hallowed letter input cmd rest hinput hparse) regs mem u hsp
        (hin.trans hinput) hmem
    obtain ⟨regs₂, mem₂, n, hscreen, hsp₂, hframe⟩ := screen_spec K regs₁ mem₁ u₁ hsp₁
    refine ⟨_, hcommand.trans hscreen, rfl, rfl, hsp₂, hinput₁, ?output,
      hmem₁.trans (hframe.mono fun x hx => Or.inl hx)⟩
    case output =>
      have hsent : u.tx = c.output := htx
      simp [htx₁, hsent]

/-- The menu takes its commands one after the other, each with the memory the one before has left,
and prints its screen after each. -/
theorem menu_runs (K : MenuBoard P sp) {c c' : Session} {s : State Uart} (hs : AtMenu sp c s)
    (hrun : Relation.ReflTransGen
      (fun a b => menuRound a = some b ∧ MenuAllowed P (Scratch sp 80) a) c c') :
    ∃ s', Steps (step P) s s' ∧ AtMenu sp c' s' :=
  Steps.simulate (AtMenu sp) (fun _ _ _ hround hs => menu_refines K hs hround.1 hround.2) hrun hs

theorem parsed_round {hidden : Addr → Prop} {letter : Byte} {cmd : MenuCommand} (m : Mem)
    (out : List Byte) (hparse : parseMenu letter input = some (cmd, rest))
    (hwithin : cmd.Within P hidden) :
    menuRound ⟨letter :: input, m, out⟩ =
        some ⟨rest, cmd.store m, out ++ cmd.reply m ++ menuScreen⟩ ∧
      MenuAllowed P hidden ⟨letter :: input, m, out⟩ := by
  refine ⟨by simp [menuRound, hparse], fun letter' input' cmd' rest' hinput hparse' => ?_⟩
  obtain ⟨rfl, rfl⟩ := List.cons.inj hinput
  obtain ⟨rfl, -⟩ := Prod.mk.inj (Option.some.inj (hparse.symm.trans hparse'))
  exact hwithin

end Rounds

section Bench

def menuBench : Platform Uart :=
  { benchWith (bootPieces ++ (dumpPieces ++ menuPieces)) with store := bootBench.store }

theorem menuPieces_placed : Placed (bootPieces ++ (dumpPieces ++ menuPieces)) := by decide

theorem menuBench_low : LowMemory menuBench := benchWith_low menuPieces_placed

theorem menuBench_pieces : Pieces menuBench (bootPieces ++ (dumpPieces ++ menuPieces)) :=
  (benchWith_pieces menuPieces_placed (by decide)).congr rfl rfl

theorem menuBench_board : MenuBoard menuBench 0x01000f00#32 where
  toBoard :=
    { benchWith_board menuPieces_placed with
      storeSend := fun u b hu => ⟨u.busy, by simp [menuBench, bootBench, bench]⟩ }
  boot := menuBench_pieces.mono fun a w h => by simp [codeOf_append, h]
  dump :=
    have hfree : Apart dumpPieces bootPieces := by decide
    menuBench_pieces.mono fun a w h => by simp [codeOf_append, codeOf_apart hfree h, h]
  menu :=
    have hboot : Apart menuPieces bootPieces := by decide
    have hdump : Apart menuPieces dumpPieces := by decide
    menuBench_pieces.mono fun a w h => by
      simp [codeOf_append, codeOf_apart hboot h, codeOf_apart hdump h, h]
  buffer := menuBench_low.buffer
  selectReg := by decide
  storeSelect _ := rfl
  stack := menuBench_low.stack (by decide)
  apart := buffer_apart (by decide)

def menuTyped : List Byte := characters "1100 5 2100 "

def menuWaits (typed : List Byte) : State Uart where
  regs r := if r = .sp then 0x01000f00#32 else 0#32
  pc := 0x100010fc#32
  npc := 0x10001100#32
  mem _ := 0#8
  dev := ⟨typed.map (fun b => (0, b)), 0, []⟩

theorem menu_runs_bench : ∃ s', Steps (step menuBench) (menuWaits menuTyped) s' ∧
    AtMenu 0x01000f00#32 ⟨[], Mem.writeWord (fun _ => 0#8) 0x100#32 5#32,
      ([] ++ MenuCommand.reply (fun _ => 0#8) (.write 0x100#32 5#32) ++ menuScreen) ++
        MenuCommand.reply (Mem.writeWord (fun _ => 0#8) 0x100#32 5#32) (.read 0x100#32) ++
          menuScreen⟩ s' := by
  have hwithin (cmd : MenuCommand) (ht : cmd.target = 0x100#32) (hc : cmd.count = 1) :
      cmd.Within menuBench (Scratch 0x01000f00#32 80) := by
    intro _
    rw [ht, hc]
    exact menuBench_low.span (by decide) (by decide) (by decide)
  have hwrite := parsed_round (fun _ => 0#8) []
    (show parseMenu 49#8 (characters "100 5 2100 ") =
      some (.write 0x100#32 5#32, characters "2100 ") by decide) (hwithin _ rfl rfl)
  have hread := parsed_round (Mem.writeWord (fun _ => 0#8) 0x100#32 5#32)
    ([] ++ MenuCommand.reply (fun _ => 0#8) (.write 0x100#32 5#32) ++ menuScreen)
    (show parseMenu 50#8 (characters "100 ") = some (.read 0x100#32, []) by decide)
    (hwithin _ rfl rfl)
  have hstart : AtMenu 0x01000f00#32 ⟨menuTyped, fun _ => 0#8, []⟩ (menuWaits menuTyped) :=
    ⟨rfl, rfl, rfl, rfl, rfl, Agree.refl _ _⟩
  exact menu_runs menuBench_board hstart (.head hwrite (.head hread .refl))

end Bench

end W2
