import W2.Firmware.Output
import W2.Mips.Service

/-!
# The traces of the I2C and DMI slaves

With the debug argument 1 the two slaves print a line for every request they serve: texts of the
image and the values of registers. A trace reaches the serial port, the stack and the hex buffer,
and nothing else.
-/

namespace W2

open Mips Transition Miniboot

namespace Miniboot

def dmi : List Word :=
  [0x27bdffc8, 0xafbf0034, 0xafbe0030, 0xafb7002c, 0xafb60028, 0xafb50024,
   0xafb40020, 0xafb3001c, 0xafb20018, 0xafb10014, 0xafb00010, 0x0080a021,
   0x3c171f80, 0x3c021f80, 0x34560d10, 0x34530d12, 0x24150001, 0x3c1e1000,
   0x36e20d15, 0x8c500000, 0x00000000, 0x32020002, 0x1040001c, 0x32020004,
   0x8ed10000, 0x00000000, 0x8e320000, 0x00000000, 0xae720000, 0x16950015,
   0x32020004, 0x3c021f80, 0x34420003, 0xac540000, 0x3c041000, 0x0c0000e5,
   0x24841768, 0x0c0000e5, 0x27c41774, 0x0c0000ff, 0x02202021, 0x0c0000e5,
   0x00402021, 0x3c021000, 0x0c0000e5, 0x2444177c, 0x0c0000ff, 0x02402021,
   0x0c0000e5, 0x00402021, 0x32020004, 0x1040ffdf, 0x36e20d15, 0x8ed00000,
   0x8e710000, 0x00000000, 0xae110000, 0x240200a5, 0xae620000, 0x1695ffd6,
   0x3c021f80, 0x34420003, 0xac540000, 0x3c041000, 0x0c0000e5, 0x24841788,
   0x0c0000e5, 0x27c41774, 0x0c0000ff, 0x02002021, 0x0c0000e5, 0x00402021,
   0x3c021000, 0x0c0000e5, 0x2444177c, 0x0c0000ff, 0x02202021, 0x0c0000e5,
   0x00402021, 0x08000349, 0x36e20d15]

def i2cStep : List Word :=
  [0x27bdffe0, 0xafbf0018, 0xafb10014, 0xafb00010, 0x3c051f80, 0x34a20d25,
   0x8c430000, 0x00000000, 0x30620004, 0x1040001e, 0x30620008, 0x34a20d20,
   0x8c500000, 0x00000000, 0x8e110000, 0x34a20d22, 0xac510000, 0x24020001,
   0x14820033, 0x34a20003, 0xac440000, 0x3c041000, 0x0c0000e5, 0x24841794,
   0x3c041000, 0x0c0000e5, 0x24841774, 0x0c0000ff, 0x02002021, 0x0c0000e5,
   0x00402021, 0x3c041000, 0x0c0000e5, 0x2484177c, 0x0c0000ff, 0x02202021,
   0x0c0000e5, 0x00402021, 0x080003ce, 0x00001021, 0x1040001d, 0x3c031f80,
   0x34620d20, 0x8c500000, 0x34620d22, 0x8c510000, 0x00000000, 0xae110000,
   0x24020001, 0x14820015, 0x00001021, 0x34620003, 0xac440000, 0x3c041000,
   0x0c0000e5, 0x248417a0, 0x3c041000, 0x0c0000e5, 0x24841774, 0x0c0000ff,
   0x02002021, 0x0c0000e5, 0x00402021, 0x3c041000, 0x0c0000e5, 0x2484177c,
   0x0c0000ff, 0x02202021, 0x0c0000e5, 0x00402021, 0x00001021, 0x8fbf0018,
   0x8fb10014, 0x8fb00010, 0x03e00008, 0x27bd0020]

def i2cLoop : List Word :=
  [0x27bdffe8, 0xafbf0014, 0xafb00010, 0x00808021, 0x3c031f80, 0x34640d24,
   0x240200f8, 0xac820000, 0x34640d27, 0x24020079, 0xac820000, 0x34620d23,
   0x24040001, 0xac440000, 0x34630d25, 0xac640000, 0x0c000387, 0x02002021,
   0x080003e3, 0x00000000]

def traceStart : List Word :=
  [0x494d440a, 0x3a647220]

def traceStrings : List Word :=
  [0x72646441, 0x00203d20, 0x61442020, 0x3d206174, 0x00000020, 0x494d440a,
   0x3a747720, 0x00000020, 0x2053490a, 0x203a6472, 0x00000000, 0x2053490a,
   0x203a7477, 0x00000000]

end Miniboot

def slavePieces : List (ℕ × List Word) :=
  [(0x10000cd8, dmi),
   (0x10000e1c, i2cStep),
   (0x10000f4c, i2cLoop),
   (0x10001768, traceStart),
   (0x10001774, traceStrings)]

def slaveImage (a : Addr) : Option Word := (code a).or (codeOf slavePieces a)

/-- The registers the console uses itself: those of the serial port, and 0x1f800003. -/
def consoleReg (a : Addr) : Prop :=
  a ∈ [0x1f800000#32, 0x1f800001#32, 0x1f800002#32, 0x1f800003#32, 0x1f800005#32]

instance : DecidablePred consoleReg := fun a => inferInstanceAs (Decidable (a ∈ _))

/-- Where the slaves access memory and registers for the bus master. -/
def servicePoints : List Addr :=
  [0x10000d24#32, 0x10000d38#32, 0x10000d40#32, 0x10000d48#32, 0x10000dac#32, 0x10000db0#32,
   0x10000db8#32, 0x10000dc0#32, 0x10000e34#32, 0x10000e4c#32, 0x10000e54#32, 0x10000e5c#32,
   0x10000ec8#32, 0x10000ed0#32, 0x10000ed8#32, 0x10000f68#32, 0x10000f74#32, 0x10000f80#32,
   0x10000f88#32]

def servicePoint (a : Addr) : Prop := a ∈ servicePoints

instance : DecidablePred servicePoint := fun a => inferInstanceAs (Decidable (a ∈ _))

/-- The board with the two slaves. Storing 1 in the register at 0x1f800003, as a trace does first,
has no part in the serial port. -/
structure SlaveBoard (P : Platform Uart) : Prop extends Board P where
  slaves : Pieces P slavePieces
  buffer : HexBuffer P
  selectReg : P.device 0x1f800003#32 = true
  storeSelect : ∀ u, P.store u 0x1f800003#32 1#32 = some u

section Quiet

variable {P : Platform Uart}

abbrev quietBoard (P : Platform Uart) : Platform Uart := P.quiet consoleReg servicePoint

theorem Board.only (B : Board P) : Board (P.only consoleReg) :=
  ⟨⟨B.dataReg, B.busyReg, B.sendReg, B.readyReg, B.loadReady, B.loadData, B.loadBusy,
      B.storeSend⟩,
    B.toHolds.congr rfl rfl⟩

theorem points_code (a : Addr) (h : servicePoint a) : code a = none := by
  have hall : servicePoints.all (fun a => (code a).isNone) = true := rfl
  exact Option.isNone_iff_eq_none.mp (List.all_eq_true.mp hall a h)

theorem SlaveBoard.quiet (S : SlaveBoard P) : Board (quietBoard P) :=
  S.toBoard.only.breakAt points_code

theorem SlaveBoard.hex (S : SlaveBoard P) : HexBuffer (quietBoard P) :=
  fun a ha => ⟨Platform.Ram.breakAt (P := P.only consoleReg) (S.buffer a ha).1, (S.buffer a ha).2⟩

theorem quiet_stack {sp : Addr} {n : ℕ} (h : Stack P sp n) : Stack (quietBoard P) sp n :=
  Stack.breakAt (P := P.only consoleReg) ⟨h.aligned, h.room⟩

def quietImage (a : Addr) : Option Word := if servicePoint a then none else slaveImage a

theorem SlaveBoard.image (S : SlaveBoard P) : Rom P slaveImage := S.toHolds.or S.slaves

theorem SlaveBoard.quietRom (S : SlaveBoard P) : Rom (quietBoard P) quietImage := by
  have hsub {a : Addr} {w : Word} (h : quietImage a = some w) : slaveImage a = some w := by
    unfold quietImage at h
    split at h
    next => cases h
    next => exact h
  have hrom : Rom (P.only consoleReg) quietImage :=
    (S.image.mono fun _ _ => hsub).congr rfl rfl
  exact hrom.breakAt fun a ha => if_pos ha

theorem SlaveBoard.fetch (S : SlaveBoard P) {a : Addr} {i : Instr}
    (h : (quietImage a).bind decode = some i) : (quietBoard P).fetch a = some i :=
  S.quietRom.fetch h

end Quiet

theorem slave_traces :
    printsAt quietImage 0x10000d60#32
      [.text .a0 5992, .label 6004, .number .s1, .text .v0 6012, .number .s2] = true ∧
    printsAt quietImage 0x10000dd4#32
      [.text .a0 6024, .label 6004, .number .s0, .text .v0 6012, .number .s1] = true ∧
    printsAt quietImage 0x10000e70#32
      [.text .a0 6036, .text .a0 6004, .number .s0, .text .a0 6012, .number .s1] = true ∧
    printsAt quietImage 0x10000ef0#32
      [.text .a0 6048, .text .a0 6004, .number .s0, .text .a0 6012, .number .s1] = true := by
  decide +kernel

section Serving

inductive Slave
  | i2c
  | dmi

def Slave.addressReg : Slave → Addr
  | .i2c => 0x1f800d20#32
  | .dmi => 0x1f800d10#32

def Slave.dataReg : Slave → Addr
  | .i2c => 0x1f800d22#32
  | .dmi => 0x1f800d12#32

def Slave.statusReg : Slave → Addr
  | .i2c => 0x1f800d25#32
  | .dmi => 0x1f800d15#32

def Slave.registers : Slave → List Addr
  | .i2c => [0x1f800d20#32, 0x1f800d22#32, 0x1f800d23#32, 0x1f800d24#32, 0x1f800d25#32,
      0x1f800d27#32]
  | .dmi => [0x1f800d10#32, 0x1f800d12#32, 0x1f800d15#32]

/-- A board with a bus master. The addresses it requests are none of the console's registers, and
not in the hex buffer or the stack. -/
structure Serving {ε : Type} (P : Platform Uart) (bus : Bus ε) (sp : Addr) (slave : Slave) : Prop
    extends SlaveBoard P where
  stack : Stack P sp 112
  apart : ∀ a, InHexBuffer a → ¬ Below sp 112 a
  registers : ∀ a ∈ slave.registers, P.device a = true
  requests : ∀ e w e', bus.load e slave.addressReg = some (w, e') →
    Clear P consoleReg (Scratch sp 112) w

variable {ε : Type} {P : Platform Uart} {bus : Bus ε} {sp : Addr} {slave : Slave}

abbrev Serves (P : Platform Uart) (bus : Bus ε) (sp : Addr) (Q : State Uart → Prop) :
    State Uart → ε → Service → Prop :=
  Performs P consoleReg servicePoint (Scratch sp 112) bus Q

theorem points_listing (S : SlaveBoard P) :
    P.fetch 0x10000d24#32 = some (.lw .s0 0 .v0) ∧
    P.fetch 0x10000d38#32 = some (.lw .s1 0 .s6) ∧
    P.fetch 0x10000d40#32 = some (.lw .s2 0 .s1) ∧
    P.fetch 0x10000d48#32 = some (.sw .s2 0 .s3) ∧
    P.fetch 0x10000dac#32 = some (.lw .s0 0 .s6) ∧
    P.fetch 0x10000db0#32 = some (.lw .s1 0 .s3) ∧
    P.fetch 0x10000db8#32 = some (.sw .s1 0 .s0) ∧
    P.fetch 0x10000dc0#32 = some (.sw .v0 0 .s3) ∧
    P.fetch 0x10000e34#32 = some (.lw .v1 0 .v0) ∧
    P.fetch 0x10000e4c#32 = some (.lw .s0 0 .v0) ∧
    P.fetch 0x10000e54#32 = some (.lw .s1 0 .s0) ∧
    P.fetch 0x10000e5c#32 = some (.sw .s1 0 .v0) ∧
    P.fetch 0x10000ec8#32 = some (.lw .s0 0 .v0) ∧
    P.fetch 0x10000ed0#32 = some (.lw .s1 0 .v0) ∧
    P.fetch 0x10000ed8#32 = some (.sw .s1 0 .s0) ∧
    P.fetch 0x10000f68#32 = some (.sw .v0 0 .a0) ∧
    P.fetch 0x10000f74#32 = some (.sw .v0 0 .a0) ∧
    P.fetch 0x10000f80#32 = some (.sw .a0 0 .v0) ∧
    P.fetch 0x10000f88#32 = some (.sw .a0 0 .v1) := by
  constructorm* _ ∧ _ <;> exact S.slaves.fetch rfl

theorem Serving.register (V : Serving P bus sp slave) {a : Addr} (ha : a ∈ slave.registers) :
    Clear P consoleReg (Scratch sp 112) a := by
  have hall : slave.registers.all (fun a => ! decide (consoleReg a)) = true := by
    cases slave <;> rfl
  refine ⟨by simpa using List.all_eq_true.mp hall a ha, fun hdev => ?_⟩
  simp [V.registers a ha] at hdev

theorem Serving.load (V : Serving P bus sp slave) {a : Addr} (ha : a ∈ slave.registers) {m : Mem}
    {e e' : ε} {w : Word} (h : (P.facing bus).loadWord m e a = some (w, e')) :
    bus.load e a = some (w, e') := by
  have hdev : (P.facing bus).device a = true := V.registers a ha
  exact (if_pos hdev).symm.trans h

theorem Serving.requested (V : Serving P bus sp slave) {m : Mem} {e e' : ε} {a : Addr}
    (h : (P.facing bus).loadWord m e slave.addressReg = some (a, e')) :
    Clear P consoleReg (Scratch sp 112) a :=
  V.requests e a e' (V.load (by cases slave <;> decide) h)

theorem SlaveBoard.select (S : SlaveBoard P) : (quietBoard P).device 0x1f800003#32 = true ∧
    ∀ u, (quietBoard P).store u 0x1f800003#32 1#32 = some u := by
  have hown : consoleReg 0x1f800003#32 := by decide
  simp [Platform.quiet, Platform.breakAt, Platform.only, S.selectReg, S.storeSelect, hown]

theorem scratch_frames {a : Addr} (h : Scratch (sp + 0xffffffc8#32) 56 a) : Scratch sp 112 a :=
  h.imp_left fun hb => hb.mono (by decide)

theorem Serving.printer (V : Serving P bus sp slave) :
    Printer (quietBoard P) quietImage (sp + 0xffffffc8#32) :=
  { V.toSlaveBoard.quiet with
    rom := V.quietRom
    buffer := V.hex
    stack := quiet_stack (V.stack.callee (by decide) (by decide))
    apart := fun a ha hb => V.apart a ha (hb.mono (by decide)) }

end Serving

end W2
