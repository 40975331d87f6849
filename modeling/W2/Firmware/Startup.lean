import W2.Firmware.MenuRun
import W2.Firmware.Wrapper

/-!
# From reset to the menu

The code at the reset address sets the stack, enables the interrupts, sets the device registers and
reads two straps, which choose between the slave, the menu and the program in flash. The menu is
entered with its banner and its screen.
-/

namespace W2

open Mips Transition Miniboot Console

def Miniboot.resetCode : List Word :=
  [0x00000000, 0x08000009, 0x00000000, 0x08000038, 0x00000000, 0x08000038,
   0x00000000, 0x08000038, 0x00000000, 0x3c1c0100, 0x379c1ff0, 0x3c040000,
   0x34840000, 0x3c050000, 0x34a50000, 0x3c1d0100, 0x37bd0ff0, 0xac800000,
   0x0085182a, 0x1460fffd, 0x24840004, 0x401a6000, 0x375affff, 0x409a6000,
   0x00000000, 0x3c051f80, 0x34a50007, 0x240404e6, 0xaca40000, 0x00000000,
   0x34a50070, 0x3c041f80, 0x34840700, 0xac850003, 0x8c850006, 0x00052e82,
   0x30a50001, 0x14a00004, 0x00000000, 0x24040000, 0x0c0003d3, 0x00000000,
   0x00000000, 0x8c850000, 0x00052fc2, 0x30a50001, 0x14a00006, 0x00000000,
   0x00000000, 0x0c000430, 0x00000000, 0x08000033, 0x00000000, 0x3c041000,
   0x00800008, 0x00000000]

def Miniboot.registerInit : List Word :=
  [0x3c031f80, 0x34640703, 0x3c020145, 0xac820000, 0x34620502, 0x240400ff,
   0xac440000, 0x34620503, 0xac440000, 0x34620500, 0xac400000, 0x34620704,
   0xac400000, 0x34630c00, 0xac600000, 0x3c020100, 0x34431ff4, 0xac600000,
   0x34421ffc, 0xac400000, 0x03e00008, 0x00000000]

def Miniboot.consoleBanner : List Word :=
  [0x27bdffe8, 0xafbf0010, 0x3c041000, 0x0c0000e5, 0x24841598, 0x8fbf0010,
   0x00000000, 0x03e00008, 0x27bd0018]

def Miniboot.consoleEntry : List Word :=
  [0x27bdffe8, 0xafbf0010, 0x0c000162, 0x00000000, 0x0c000182, 0x00000000]

def Miniboot.menuEntry : List Word :=
  [0x27bdffe8, 0xafbf0010, 0x3c020145, 0x3c031f80, 0x34630703, 0xac620000,
   0x0c0000dc, 0x2404000a, 0x0c0000dc, 0x2404000d, 0x3c041000, 0x0c0000e5,
   0x248417ac, 0x0c0000dc, 0x2404000a, 0x0c0000dc, 0x2404000d, 0x8fbf0010,
   0x00000000, 0x03e00008, 0x27bd0018, 0x27bdffd8, 0xafbf0024, 0xafb40020,
   0xafb3001c, 0xafb20018, 0xafb10014, 0x0c000162, 0xafb00010, 0x0c00041b,
   0x0000a021]

def Miniboot.consoleCommand : List Word :=
  [0x0c0003e7, 0x00002021]

def Miniboot.consoleString : List Word :=
  [0x61616161, 0x35353535, 0x00000000]

def Miniboot.bannerString : List Word :=
  [0x2d2d0a0d, 0x6f6f4220, 0x616f6c74, 0x20726564, 0x312e3156, 0x20206232,
   0x32323032, 0x2d36302d, 0x2d203031, 0x000a0d2d]

def startPieces : List (ℕ × List Word) :=
  [(0x10000000, resetCode), (0x10000588, registerInit), (0x10000608, consoleBanner),
   (0x10000f9c, consoleEntry), (0x1000106c, menuEntry), (0x10001198, consoleCommand),
   (0x10001598, consoleString), (0x100017ac, bannerString)]

def startStores : List (Addr × Word) :=
  [(0x1f800007#32, 1254#32), (0x1f800703#32, 0x1f800077#32), (0x1f800703#32, 0x01450000#32),
   (0x1f800502#32, 255#32), (0x1f800503#32, 255#32), (0x1f800500#32, 0#32),
   (0x1f800704#32, 0#32), (0x1f800c00#32, 0#32)]

/-- The board with the reset code. Its device registers have no part in the serial port, and the
words that the code clears are plain memory. -/
structure StartBoard (P : Platform Uart) : Prop extends MenuBoard P 0x01000fc8#32 where
  start : Pieces P startPieces
  room : Stack P 0x01000ff0#32 176
  registers : ∀ p ∈ startStores, P.device p.1 = true ∧ ∀ u, P.store u p.1 p.2 = some u
  words : ∀ a ∈ [0x0#32, 0x01001ff4#32, 0x01001ffc#32], P.Plain a
  straps : ∀ a ∈ [0x1f800706#32, 0x1f800700#32], P.device a = true

structure MenuStraps (P : Platform Uart) : Prop where
  master : ∀ u, ∃ w, P.load u 0x1f800706#32 = some (w, u) ∧ w >>> 26 &&& 1#32 = 1#32
  menu : ∀ u, ∃ w, P.load u 0x1f800700#32 = some (w, u) ∧ w >>> 31 &&& 1#32 = 0#32

variable {P : Platform Uart}

def cleared (m : Mem) : Mem := (m.writeWord 0x01001ff4#32 0#32).writeWord 0x01001ffc#32 0#32

section Registers

theorem registerInit_listing (h : Pieces P startPieces) :
    P.fetch 0x10000588#32 = some (.lui .v1 0x1f80) ∧
    P.fetch 0x1000058c#32 = some (.ori .a0 .v1 0x703) ∧
    P.fetch 0x10000590#32 = some (.lui .v0 0x145) ∧
    P.fetch 0x10000594#32 = some (.sw .v0 0 .a0) ∧
    P.fetch 0x10000598#32 = some (.ori .v0 .v1 0x502) ∧
    P.fetch 0x1000059c#32 = some (.addiu .a0 .zero 255) ∧
    P.fetch 0x100005a0#32 = some (.sw .a0 0 .v0) ∧
    P.fetch 0x100005a4#32 = some (.ori .v0 .v1 0x503) ∧
    P.fetch 0x100005a8#32 = some (.sw .a0 0 .v0) ∧
    P.fetch 0x100005ac#32 = some (.ori .v0 .v1 0x500) ∧
    P.fetch 0x100005b0#32 = some (.sw .zero 0 .v0) ∧
    P.fetch 0x100005b4#32 = some (.ori .v0 .v1 0x704) ∧
    P.fetch 0x100005b8#32 = some (.sw .zero 0 .v0) ∧
    P.fetch 0x100005bc#32 = some (.ori .v1 .v1 0xc00) ∧
    P.fetch 0x100005c0#32 = some (.sw .zero 0 .v1) ∧
    P.fetch 0x100005c4#32 = some (.lui .v0 0x100) ∧
    P.fetch 0x100005c8#32 = some (.ori .v1 .v0 0x1ff4) ∧
    P.fetch 0x100005cc#32 = some (.sw .zero 0 .v1) ∧
    P.fetch 0x100005d0#32 = some (.ori .v0 .v0 0x1ffc) ∧
    P.fetch 0x100005d4#32 = some (.sw .zero 0 .v0) ∧
    P.fetch 0x100005d8#32 = some (.jr .ra) ∧
    P.fetch 0x100005dc#32 = some .nop := by
  constructorm* _ ∧ _ <;> exact h.fetch rfl

theorem registerInit_spec (K : StartBoard P) (regs : Regs) (mem : Mem) (u : Uart) :
    ∃ regs', Steps (step P) ⟨regs, 0x10000588#32, 0x1000058c#32, mem, u⟩
        ⟨regs', regs.get .ra, regs.get .ra + 4#32, cleared mem, u⟩ ∧ regs.Keeps regs' := by
  have hregs := K.registers
  have hwords := K.words
  simp only [startStores, List.forall_mem_cons, List.not_mem_nil, false_implies, implies_true,
    and_true] at hregs hwords
  obtain ⟨-, -, ⟨hmode, hsetMode⟩, ⟨hfirst, hsetFirst⟩, ⟨hsecond, hsetSecond⟩, ⟨hslave, hsetSlave⟩,
    ⟨hmaster, hsetMaster⟩, hlast, hsetLast⟩ := hregs
  refine ⟨?regs, Steps.of_run (n := 22) ?run, ?keeps⟩
  case run =>
    simp [registerInit_listing K.start, hmode, hsetMode, hfirst, hsetFirst, hsecond, hsetSecond,
      hslave, hsetSlave, hmaster, hsetMaster, hlast, hsetLast, hwords, cleared]
    rfl
  case keeps => simp [Regs.keeps_iff]

end Registers

section Menu

def bannerText : List Byte :=
  [10#8, 13#8] ++ (sends "\r\n-- Bootloader V1.12b  2022-06-10 --\r\n" ++ [10#8, 13#8])

theorem menuEntry_listing (h : Pieces P startPieces) :
    P.fetch 0x1000106c#32 = some (.addiu .sp .sp (-24)) ∧
    P.fetch 0x10001070#32 = some (.sw .ra 16 .sp) ∧
    P.fetch 0x10001074#32 = some (.lui .v0 0x145) ∧
    P.fetch 0x10001078#32 = some (.lui .v1 0x1f80) ∧
    P.fetch 0x1000107c#32 = some (.ori .v1 .v1 0x703) ∧
    P.fetch 0x10001080#32 = some (.sw .v0 0 .v1) ∧
    P.fetch 0x100010b0#32 = some (.lw .ra 16 .sp) ∧
    P.fetch 0x100010b4#32 = some .nop ∧
    P.fetch 0x100010b8#32 = some (.jr .ra) ∧
    P.fetch 0x100010bc#32 = some (.addiu .sp .sp 24) ∧
    P.fetch 0x100010c0#32 = some (.addiu .sp .sp (-40)) ∧
    P.fetch 0x100010c4#32 = some (.sw .ra 36 .sp) ∧
    P.fetch 0x100010c8#32 = some (.sw .s4 32 .sp) ∧
    P.fetch 0x100010cc#32 = some (.sw .s3 28 .sp) ∧
    P.fetch 0x100010d0#32 = some (.sw .s2 24 .sp) ∧
    P.fetch 0x100010d4#32 = some (.sw .s1 20 .sp) ∧
    P.fetch 0x100010d8#32 = some (.jal 0x162) ∧
    P.fetch 0x100010dc#32 = some (.sw .s0 16 .sp) ∧
    P.fetch 0x100010e0#32 = some (.jal 0x41b) ∧
    P.fetch 0x100010e4#32 = some (.addu .s4 .zero .zero) := by
  constructorm* _ ∧ _ <;> exact h.fetch rfl

theorem byte_call (B : Board P) {pc sp : Addr} {k : BitVec 16} (hcall : Calls P pc 0x10000370#32)
    (harg : P.fetch (pc + 4#32) = some (.addiu .a0 .zero k)) (regs : Regs) (mem : Mem) (u : Uart)
    (hsp : regs.get .sp = sp) (hstack : Stack P sp 24) :
    ∃ regs' mem' n, Steps (step P) ⟨regs, pc, pc + 4#32, mem, u⟩
        ⟨regs', pc + 8#32, pc + 8#32 + 4#32, mem', u.sent n [(k.signExtend 32).setWidth 8]⟩ ∧
      regs'.get .sp = sp ∧ Frame sp 24 mem mem' := by
  let entry := (regs.set .ra (pc + 8#32)).set .a0 (k.signExtend 32)
  have hentry : Steps (step P) ⟨regs, pc, pc + 4#32, mem, u⟩
      ⟨entry, 0x10000370#32, 0x10000374#32, mem, u⟩ := by
    apply Steps.of_run (n := 2)
    simp [hcall.run, harg, entry]
  obtain ⟨regs', mem', n, hsend, hkeeps, hframe⟩ :=
    sendByte_spec B entry mem u (by simpa [entry, hsp] using hstack)
  rw [show entry.get .ra = pc + 8#32 by simp [entry],
    show entry.get .a0 = k.signExtend 32 by simp [entry]] at hsend
  rw [show entry.get .sp = sp by simp [entry, hsp]] at hframe
  exact ⟨regs', mem', n, hentry.trans hsend, by simp [hkeeps.get, entry, hsp], hframe⟩

theorem banner_calls (h : Pieces P startPieces) :
    Calls P 0x10001084#32 0x10000370#32 ∧ Calls P 0x1000108c#32 0x10000370#32 ∧
    Calls P 0x10001098#32 0x10000394#32 ∧ Calls P 0x100010a0#32 0x10000370#32 ∧
    Calls P 0x100010a8#32 0x10000370#32 := by
  constructorm* _ ∧ _ <;> exact ⟨_, h.fetch rfl, rfl⟩

theorem banner_spec (K : StartBoard P) {sp : Addr} (regs : Regs) (mem : Mem) (u : Uart)
    (hsp : regs.get .sp = sp) (hstack : Stack P sp 80) :
    ∃ regs' mem' n, Steps (step P) ⟨regs, 0x1000106c#32, 0x10001070#32, mem, u⟩
        ⟨regs', regs.get .ra, regs.get .ra + 4#32, mem', u.sent n bannerText⟩ ∧
      regs'.get .sp = sp ∧ Frame sp 80 mem mem' := by
  obtain ⟨hmode, hsetMode⟩ := K.registers (0x1f800703#32, 0x01450000#32) (by simp [startStores])
  obtain ⟨hfeed, hreturn, hputs, hfeed', hreturn'⟩ := banner_calls K.start
  let entry := (((regs.set .sp (sp + 0xffffffe8#32)).set .v0 0x01450000#32).set .v1
    0x1f800000#32).set .v1 0x1f800703#32
  let saved := mem.writeWord (sp + 0xfffffff8#32) (regs.get .ra)
  have hcallee : Stack P (sp + 0xffffffe8#32) 56 := hstack.callee (by decide) (by decide)
  have hentry : Steps (step P) ⟨regs, 0x1000106c#32, 0x10001070#32, mem, u⟩
      ⟨entry, 0x10001084#32, 0x10001088#32, saved, u⟩ := by
    apply Steps.of_run (n := 6)
    simp [menuEntry_listing K.start, BitVec.add_assoc, hsp, hstack.plain, hmode, hsetMode, entry,
      saved]
  obtain ⟨regs₁, mem₁, n₁, hfirst, hsp₁, hframe₁⟩ :=
    byte_call K.toBoard (k := 10) hfeed (K.start.fetch rfl) entry saved u (by simp [entry])
      (hcallee.weaken (by omega))
  obtain ⟨regs₂, mem₂, n₂, hsecond, hsp₂, hframe₂⟩ :=
    byte_call K.toBoard (k := 13) hreturn (K.start.fetch rfl) regs₁ mem₁ _ hsp₁
      (hcallee.weaken (by omega))
  have htext : textIn (fun a => (codeOf startPieces a).or (codeOf menuPieces a)) 64
      (0x10000000#32 + BitVec.signExtend 32 6060#16) =
        some (characters "\r\n-- Bootloader V1.12b  2022-06-10 --\r\n") := by decide +kernel
  have hupper : P.fetch 0x10001094#32 = some (.lui .a0 0x1000) := K.start.fetch rfl
  obtain ⟨regs₃, mem₃, n₃, hbanner, hkeeps₃, hframe₃⟩ :=
    puts_literal K.toBoard hupper (Or.inl rfl) hputs (K.start.fetch rfl) regs₂ mem₂ _
      hsp₂ hcallee (textIn_string (K.start.or K.menu) _ mem₂ htext)
  have hsp₃ : regs₃.get .sp = sp + 0xffffffe8#32 := by rw [hkeeps₃.get (by simp) (by simp), hsp₂]
  obtain ⟨regs₄, mem₄, n₄, hthird, hsp₄, hframe₄⟩ :=
    byte_call K.toBoard (k := 10) hfeed' (K.start.fetch rfl) regs₃ mem₃ _ hsp₃
      (hcallee.weaken (by omega))
  obtain ⟨regs₅, mem₅, n₅, hfourth, hsp₅, hframe₅⟩ :=
    byte_call K.toBoard (k := 13) hreturn' (K.start.fetch rfl) regs₄ mem₄ _ hsp₄
      (hcallee.weaken (by omega))
  have hframe : Frame (sp + 0xffffffe8#32) 56 saved mem₅ := by
    have hwide {m m' : Mem} (h : Frame (sp + 0xffffffe8#32) 24 m m') :
        Frame (sp + 0xffffffe8#32) 56 m m' := h.mono fun x hx => hx.weaken (by omega)
    exact ((((hwide hframe₁).trans (hwide hframe₂)).trans hframe₃).trans (hwide hframe₄)).trans
      (hwide hframe₅)
  have hra : mem₅.readWord (sp + 0xfffffff8#32) = regs.get .ra := by
    rw [hframe.readSlot (d := 0xfffffff8#32) (by decide)]
    simp [saved]
  let sent := (((((u.sent n₁ [10#8]).sent n₂ [13#8]).sent n₃
    (sends "\r\n-- Bootloader V1.12b  2022-06-10 --\r\n")).sent n₄ [10#8]).sent n₅ [13#8])
  have hprinted : Steps (step P) ⟨regs, 0x1000106c#32, 0x10001070#32, mem, u⟩
      ⟨regs₅, 0x100010b0#32, 0x100010b4#32, mem₅, sent⟩ :=
    ((((hentry.trans hfirst).trans hsecond).trans hbanner).trans hthird).trans hfourth
  have hback : Steps (step P) ⟨regs₅, 0x100010b0#32, 0x100010b4#32, mem₅, sent⟩
      ⟨(regs₅.set .ra (regs.get .ra)).set .sp sp, regs.get .ra, regs.get .ra + 4#32, mem₅,
        sent⟩ := by
    apply Steps.of_run (n := 4)
    simp [menuEntry_listing K.start, BitVec.add_assoc, hstack.ramWord, hsp₅, hra]
  have hsent : sent = u.sent n₅ bannerText := by simp [sent, bannerText]
  rw [hsent] at hprinted hback
  exact ⟨_, mem₅, n₅, hprinted.trans hback, by simp,
    (Frame.write (Agree.refl _ mem) _ (by decide) (by decide)).trans (hframe.caller (by decide))⟩

def menuSlots : Slots :=
  [(0xfffffffc, .ra), (0xfffffff8, .s4), (0xfffffff4, .s3), (0xfffffff0, .s2), (0xffffffec, .s1),
   (0xffffffe8, .s0)]

theorem menu_entered (K : StartBoard P) (regs : Regs) (mem : Mem) (u : Uart)
    (hsp : regs.get .sp = 0x01000ff0#32) :
    ∃ s, Steps (step P) ⟨regs, 0x100010c0#32, 0x100010c4#32, mem, u⟩ s ∧
      AtMenu 0x01000fc8#32 ⟨u.input, s.mem, u.tx ++ bannerText ++ menuScreen⟩ s ∧
      Agree (Below 0x01000ff0#32 120) (cleared mem) s.mem := by
  have hroom := K.room
  rw [← hsp] at hroom
  let saved := save mem (regs.get .sp) regs menuSlots
  let entry := (regs.set .sp (regs.get .sp + 0xffffffd8#32)).set .ra 0x100010e0#32
  have hentry : Steps (step P) ⟨regs, 0x100010c0#32, 0x100010c4#32, mem, u⟩
      ⟨entry, 0x10000588#32, 0x1000058c#32, saved, u⟩ := by
    apply Steps.of_run (n := 8)
    simp [menuEntry_listing K.start, BitVec.add_assoc, hroom.plain, save, menuSlots, saved, entry]
  have hsaved : Frame 0x01000ff0#32 120 mem saved := by
    rw [← hsp]
    exact save_frame (by decide) mem (regs.get .sp) regs
  obtain ⟨regs₁, hinit, hkeeps₁⟩ := registerInit_spec K entry saved u
  rw [show entry.get .ra = 0x100010e0#32 by simp [entry]] at hinit
  have hsp₁ : regs₁.get .sp = 0x01000fc8#32 := by simp [hkeeps₁.get, entry, hsp]
  let call := (regs₁.set .ra 0x100010e8#32).set .s4 0#32
  have hcall : Steps (step P) ⟨regs₁, 0x100010e0#32, 0x100010e0#32 + 4#32, cleared saved, u⟩
      ⟨call, 0x1000106c#32, 0x10001070#32, cleared saved, u⟩ := by
    apply Steps.of_run (n := 2)
    simp [menuEntry_listing K.start, call]
  obtain ⟨regs₂, mem₂, n₂, hbanner, hsp₂, hframe₂⟩ :=
    banner_spec K call (cleared saved) u (by simp [call, hsp₁]) K.stack
  rw [show call.get .ra = 0x100010e8#32 by simp [call]] at hbanner
  obtain ⟨regs₃, mem₃, n₃, hscreen, hsp₃, hframe₃⟩ :=
    screen_spec K.toMenuBoard regs₂ mem₂ (u.sent n₂ bannerText) hsp₂
  refine ⟨_, (((hentry.trans hinit).trans hcall).trans hbanner).trans hscreen,
    ⟨rfl, rfl, hsp₃, rfl, by simp, Agree.refl _ _⟩, ?memory⟩
  case memory =>
    have hmenu : Frame (0x01000ff0#32 + 0xffffffd8#32) 80 (cleared saved) mem₃ :=
      hframe₂.trans hframe₃
    exact Agree.trans ((hsaved.writeWord _ _).writeWord _ _) (hmenu.caller (by decide))

end Menu

section Reset

/-- The instructions of the reset code that are not among the exception handler's. `mtc0` writes the
status register. -/
inductive StartInstr
  | slt (rd rs rt : Reg)
  | mtc0 (rt : Reg)
  deriving DecidableEq, Repr

def decodeStart (w : Word) : Option StartInstr :=
  let rs := Reg.ofField (w.extractLsb' 21 5)
  let rt := Reg.ofField (w.extractLsb' 16 5)
  let rd := w.extractLsb' 11 5
  match (w.extractLsb' 26 6).toNat, (w.extractLsb' 0 6).toNat with
  | 0x00, 0x2a => some (.slt (.ofField rd) rs rt)
  | 0x10, _ =>
    if w.extractLsb' 21 5 = 4#5 ∧ Cop0.ofField rd = some .status then some (.mtc0 rt) else none
  | _, _ => none

def execStart (c : Cpu Uart) : StartInstr → Option (Cpu Uart)
  | .slt rd rs rt =>
    some { c with
      core := c.core.put rd (if (c.core.regs.get rs).slt (c.core.regs.get rt) then 1#32 else 0#32) }
  | .mtc0 rt => some { c with core := c.core.skip, status := c.core.regs.get rt }

/-- A step of the processor, in which no interrupt arrives. -/
def startStep (P : Platform Uart) : Cpu Uart → Option (Cpu Uart) :=
  cpuStep P fun c => andThen ((P.code c.core.pc).bind decodeStart) (execStart c)

theorem startStep_other {c : Cpu Uart} {w : Word} {i : StartInstr} (hw : P.code c.core.pc = some w)
    (hsys : decodeSys w = none) (hi : decodeStart w = some i) : startStep P c = execStart c i := by
  have hnone : P.fetchSys c.core.pc = none := by simp [Platform.fetchSys, hw, hsys]
  rw [startStep, cpuStep, hnone]
  simp [Mips.dispatch, hw, hi]

theorem startStep_sys {c : Cpu Uart} {i : SysInstr} (h : P.fetchSys c.core.pc = some i) :
    startStep P c = execSys P c i := by
  rw [startStep, cpuStep, h, dispatch_some]

theorem reset_listing (h : Pieces P startPieces) :
    P.fetch 0x10000000#32 = some .nop ∧
    P.fetch 0x10000004#32 = some (.j 0x9) ∧
    P.fetch 0x10000008#32 = some .nop ∧
    P.fetch 0x10000024#32 = some (.lui .gp 0x100) ∧
    P.fetch 0x10000028#32 = some (.ori .gp .gp 0x1ff0) ∧
    P.fetch 0x1000002c#32 = some (.lui .a0 0x0) ∧
    P.fetch 0x10000030#32 = some (.ori .a0 .a0 0x0) ∧
    P.fetch 0x10000034#32 = some (.lui .a1 0x0) ∧
    P.fetch 0x10000038#32 = some (.ori .a1 .a1 0x0) ∧
    P.fetch 0x1000003c#32 = some (.lui .sp 0x100) ∧
    P.fetch 0x10000040#32 = some (.ori .sp .sp 0xff0) ∧
    P.fetch 0x10000044#32 = some (.sw .zero 0 .a0) ∧
    P.fetch 0x1000004c#32 = some (.bne .v1 .zero (-3)) ∧
    P.fetch 0x10000050#32 = some (.addiu .a0 .a0 4) ∧
    P.fetch 0x10000058#32 = some (.ori .k0 .k0 0xffff) ∧
    P.fetch 0x10000060#32 = some .nop ∧
    P.fetch 0x10000064#32 = some (.lui .a1 0x1f80) ∧
    P.fetch 0x10000068#32 = some (.ori .a1 .a1 0x7) ∧
    P.fetch 0x1000006c#32 = some (.addiu .a0 .zero 1254) ∧
    P.fetch 0x10000070#32 = some (.sw .a0 0 .a1) ∧
    P.fetch 0x10000074#32 = some .nop ∧
    P.fetch 0x10000078#32 = some (.ori .a1 .a1 0x70) ∧
    P.fetch 0x1000007c#32 = some (.lui .a0 0x1f80) ∧
    P.fetch 0x10000080#32 = some (.ori .a0 .a0 0x700) ∧
    P.fetch 0x10000084#32 = some (.sw .a1 3 .a0) ∧
    P.fetch 0x10000088#32 = some (.lw .a1 6 .a0) ∧
    P.fetch 0x1000008c#32 = some (.srl .a1 .a1 26) ∧
    P.fetch 0x10000090#32 = some (.andi .a1 .a1 0x1) ∧
    P.fetch 0x10000094#32 = some (.bne .a1 .zero 4) ∧
    P.fetch 0x10000098#32 = some .nop ∧
    P.fetch 0x100000a8#32 = some .nop ∧
    P.fetch 0x100000ac#32 = some (.lw .a1 0 .a0) ∧
    P.fetch 0x100000b0#32 = some (.srl .a1 .a1 31) ∧
    P.fetch 0x100000b4#32 = some (.andi .a1 .a1 0x1) ∧
    P.fetch 0x100000b8#32 = some (.bne .a1 .zero 6) ∧
    P.fetch 0x100000bc#32 = some .nop ∧
    P.fetch 0x100000c0#32 = some .nop ∧
    P.fetch 0x100000c4#32 = some (.jal 0x430) ∧
    P.fetch 0x100000c8#32 = some .nop := by
  constructorm* _ ∧ _ <;> exact h.fetch rfl

/-- The reset code sets the stack, clears the first word of the memory and enables the interrupts.
Its loop clears the empty section from 0 to 0, whose first word it clears before it compares. -/
theorem reset_spec (K : StartBoard P) (regs : Regs) (mem : Mem) (u : Uart)
    (hi lo epc status : Word) :
    ∃ regs', Steps (startStep P)
        ⟨⟨regs, 0x10000000#32, 0x10000004#32, mem, u⟩, hi, lo, epc, status⟩
        ⟨⟨regs', 0x10000064#32, 0x10000068#32, mem.writeWord 0#32 0#32, u⟩, hi, lo, epc,
          status ||| 0xffff#32⟩ ∧
      regs'.get .sp = 0x01000ff0#32 := by
  have hzero : P.Plain 0#32 := K.words _ (by simp)
  let stack := (((((((regs.set .gp 0x01000000#32).set .gp 0x01001ff0#32).set .a0 0#32).set .a0
    0#32).set .a1 0#32).set .a1 0#32).set .sp 0x01000000#32).set .sp 0x01000ff0#32
  let clear := mem.writeWord 0#32 0#32
  have hclear : Steps (step P) ⟨regs, 0x10000000#32, 0x10000004#32, mem, u⟩
      ⟨stack, 0x10000048#32, 0x1000004c#32, clear, u⟩ := by
    apply Steps.of_run (n := 12)
    simp [reset_listing K.start, hzero, stack, clear]
  have hcompare :
      startStep P ⟨⟨stack, 0x10000048#32, 0x1000004c#32, clear, u⟩, hi, lo, epc, status⟩ =
        some ⟨⟨stack.set .v1 0#32, 0x1000004c#32, 0x10000050#32, clear, u⟩, hi, lo, epc,
          status⟩ := by
    have hcode : P.code 0x10000048#32 = some 0x0085182a#32 := K.start.code _ _ rfl
    have hdecode : decodeStart 0x0085182a#32 = some (.slt .v1 .a0 .a1) := rfl
    rw [startStep_other hcode rfl hdecode]
    simp [execStart, State.put, stack]
  let leave := (stack.set .v1 0#32).set .a0 4#32
  have hleave : Steps (step P) ⟨stack.set .v1 0#32, 0x1000004c#32, 0x10000050#32, clear, u⟩
      ⟨leave, 0x10000054#32, 0x10000058#32, clear, u⟩ := by
    apply Steps.of_run (n := 2)
    simp [reset_listing K.start, leave, stack]
  have hread : startStep P ⟨⟨leave, 0x10000054#32, 0x10000058#32, clear, u⟩, hi, lo, epc, status⟩ =
      some ⟨⟨leave.set .k0 status, 0x10000058#32, 0x1000005c#32, clear, u⟩, hi, lo, epc,
        status⟩ := by
    have hfetch : P.fetchSys 0x10000054#32 = some (.mfc0 .k0 .status) := K.start.fetchSys rfl
    rw [startStep_sys hfetch, execSys_mfc0]
    rfl
  let enable := leave.set .k0 (status ||| 0xffff#32)
  have henable : Steps (step P) ⟨leave.set .k0 status, 0x10000058#32, 0x1000005c#32, clear, u⟩
      ⟨enable, 0x1000005c#32, 0x10000060#32, clear, u⟩ := by
    apply Steps.of_run (n := 1)
    simp [reset_listing K.start, enable]
  have hwrite :
      startStep P ⟨⟨enable, 0x1000005c#32, 0x10000060#32, clear, u⟩, hi, lo, epc, status⟩ =
      some ⟨⟨enable, 0x10000060#32, 0x10000064#32, clear, u⟩, hi, lo, epc,
        status ||| 0xffff#32⟩ := by
    have hcode : P.code 0x1000005c#32 = some 0x409a6000#32 := K.start.code _ _ rfl
    have hdecode : decodeStart 0x409a6000#32 = some (.mtc0 .k0) := rfl
    rw [startStep_other hcode rfl hdecode]
    simp [execStart, State.skip, State.goto, enable]
  have hend : Steps (step P) ⟨enable, 0x10000060#32, 0x10000064#32, clear, u⟩
      ⟨enable, 0x10000064#32, 0x10000068#32, clear, u⟩ := by
    apply Steps.of_run (n := 1)
    simp [reset_listing K.start]
  have hloop := ((cpuSteps_base hclear hi lo epc status).trans (Steps.single hcompare)).trans
    (cpuSteps_base hleave hi lo epc status)
  have hstatus := (((Steps.single hread).trans (cpuSteps_base henable hi lo epc status)).trans
    (Steps.single hwrite)).trans (cpuSteps_base hend hi lo epc (status ||| 0xffff#32))
  exact ⟨enable, hloop.trans hstatus, by simp [enable, leave, stack]⟩

theorem straps_menu (K : StartBoard P) (hstraps : MenuStraps P) (regs : Regs) (mem : Mem)
    (u : Uart) :
    ∃ regs', Steps (step P) ⟨regs, 0x10000064#32, 0x10000068#32, mem, u⟩
        ⟨regs', 0x100010c0#32, 0x100010c4#32, mem, u⟩ ∧ regs'.get .sp = regs.get .sp := by
  obtain ⟨hclock, hsetClock⟩ := K.registers (0x1f800007#32, 1254#32) (by simp [startStores])
  obtain ⟨hmode, hsetMode⟩ := K.registers (0x1f800703#32, 0x1f800077#32) (by simp [startStores])
  have hmaster : P.device 0x1f800706#32 = true := K.straps _ (by simp)
  have hboot : P.device 0x1f800700#32 = true := K.straps _ (by simp)
  obtain ⟨w, hload, hbit⟩ := hstraps.master u
  obtain ⟨v, hload', hbit'⟩ := hstraps.menu u
  refine ⟨?regs, Steps.of_run (n := 23) ?run, ?stack⟩
  case run =>
    simp [reset_listing K.start, hclock, hsetClock, hmode, hsetMode, hmaster, hload, hbit, hboot,
      hload', hbit']
    rfl
  case stack => simp

/-- From reset the board comes to the menu, whatever the registers and the memory hold. -/
theorem startup_menu (K : StartBoard P) (hstraps : MenuStraps P) (c : Cpu Uart)
    (hpc : c.core.pc = 0x10000000#32) (hnpc : c.core.npc = 0x10000004#32) :
    ∃ s, Steps (startStep P) c ⟨s, c.hi, c.lo, c.epc, c.status ||| 0xffff#32⟩ ∧
      AtMenu 0x01000fc8#32
        ⟨c.core.dev.input, s.mem, c.core.dev.tx ++ bannerText ++ menuScreen⟩ s ∧
      Agree (Below 0x01000ff0#32 120) (cleared (c.core.mem.writeWord 0#32 0#32)) s.mem := by
  obtain ⟨⟨regs, pc, npc, mem, u⟩, hi, lo, epc, status⟩ := c
  obtain rfl : pc = 0x10000000#32 := hpc
  obtain rfl : npc = 0x10000004#32 := hnpc
  obtain ⟨regs₁, hreset, hsp₁⟩ := reset_spec K regs mem u hi lo epc status
  obtain ⟨regs₂, hstrap, hsp₂⟩ :=
    straps_menu K hstraps regs₁ (mem.writeWord 0#32 0#32) u
  obtain ⟨s, hmenu, hat, hmem⟩ :=
    menu_entered K regs₂ (mem.writeWord 0#32 0#32) u (hsp₂.trans hsp₁)
  exact ⟨s, hreset.trans (cpuSteps_base (hstrap.trans hmenu) hi lo epc _), hat, hmem⟩

end Reset

end W2
