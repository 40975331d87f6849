import W2.Firmware.Bench
import W2.Firmware.Dmi
import W2.Firmware.I2c

/-!
# Tracing leaves the slaves alone

Whatever the debug argument is, a run of a slave makes for its bus master the accesses of the same
service: the setup and one poll after another. Two runs on the same memory and the same bus with
different debug arguments differ in what they print and in the memory below the stack pointer.
-/

namespace W2

open Mips Transition Miniboot

variable {ε : Type}

def Slave.entry : Slave → Addr
  | .i2c => 0x10000f4c#32
  | .dmi => 0x10000cd8#32

def Slave.head : Slave → Addr
  | .i2c => 0x10000f8c#32
  | .dmi => 0x10000d24#32

def Slave.serve (n : ℕ) : Slave → Service
  | .i2c => i2cSetup.andThen (i2cPoll.times n)
  | .dmi => dmiPoll.times n

def Slave.start (slave : Slave) (regs : Regs) (mem : Mem) (u : Uart) (e : ε) : State (Uart × ε) :=
  ⟨regs, slave.entry, slave.entry + 4#32, mem, (u, e)⟩

abbrev Accesses (P : Platform Uart) (bus : Bus ε) (s : State (Uart × ε)) (log : List Access)
    (t : State (Uart × ε)) : Prop :=
  Logs (step (P.beside consoleReg bus)) (watch (P.beside consoleReg bus) consoleReg servicePoint) s
    log t

/-- The two runs come to the same outcome for the bus master: the same accesses, the same bus, the
same memory outside the hidden part, and a poll that is still to come or an access that is
refused. -/
structure Alike (P : Platform Uart) (bus : Bus ε) (slave : Slave) (hidden : Addr → Prop)
    (o : Outcome ε) (s₁ s₀ t₁ t₀ : State (Uart × ε)) : Prop where
  traced : Accesses P bus s₁ o.log t₁
  silent : Accesses P bus s₀ o.log t₀
  master : t₁.dev.2 = o.dev ∧ t₀.dev.2 = o.dev
  memory : Agree hidden t₁.mem t₀.mem
  last : if o.served then t₁.pc = slave.head ∧ t₀.pc = slave.head
    else step (P.beside consoleReg bus) t₁ = none ∧ step (P.beside consoleReg bus) t₀ = none

section Alike

variable {P : Platform Uart} {bus : Bus ε} {sp : Addr} {slave : Slave}

theorem slave_start (V : Serving P bus sp slave) (regs : Regs) (mem : Mem) (u : Uart) (e : ε)
    (hsp : regs.get .sp = sp) (n : ℕ) :
    Serves P bus sp (fun t => t.pc = slave.head) ⟨regs, slave.entry, slave.entry + 4#32, mem, u⟩ e
      (slave.serve n) := by
  cases slave with
  | i2c => exact (i2c_start V regs mem u e hsp n).mono fun t ht => ht.pc
  | dmi => exact (dmi_start V regs mem u e hsp n).mono fun t ht => ht.pc

/-- The debug argument in `a0`, which turns the traces on if it is 1, may be another in each of the
two runs, and the other registers too, but for the stack pointer. -/
theorem tracing_alike (V : Serving P bus sp slave) (mem : Mem) (e : ε) (n : ℕ) {regs₁ regs₀ : Regs}
    (u₁ u₀ : Uart) (hsp₁ : regs₁.get .sp = sp) (hsp₀ : regs₀.get .sp = sp) :
    ∃ t₁ t₀, Alike P bus slave (Scratch sp 112) ((slave.serve n).run (P.facing bus) mem e)
      (slave.start regs₁ mem u₁ e) (slave.start regs₀ mem u₀ e) t₁ t₀ := by
  obtain ⟨t₁, hlogs₁, hmem₁, hlast₁⟩ := (slave_start V regs₁ mem u₁ e hsp₁ n).run (Agree.refl _ mem)
  obtain ⟨t₀, hlogs₀, hmem₀, hlast₀⟩ := (slave_start V regs₀ mem u₀ e hsp₀ n).run (Agree.refl _ mem)
  refine ⟨_, _, hlogs₁, hlogs₀, ⟨rfl, rfl⟩, fun a ha => ?_, ?_⟩
  · exact (hmem₀ a ha).trans (hmem₁ a ha).symm
  · split
    next hserved =>
      rw [if_pos hserved] at hlast₁ hlast₀
      exact ⟨hlast₁, hlast₀⟩
    next hrefused =>
      rw [if_neg hrefused] at hlast₁ hlast₀
      exact ⟨hlast₁, hlast₀⟩

theorem i2c_refused {P : Platform Uart} {bus : Bus ε} {sp : Addr} (V : Serving P bus sp .i2c)
    {mem : Mem} {e : ε} {n : ℕ} {o : Outcome ε}
    (ho : (Slave.i2c.serve n).run (P.facing bus) mem e = o) (hserved : o.served = true)
    (hstatus : bus.load o.dev 0x1f800d25#32 = none) {regs : Regs} {u : Uart}
    (hsp : regs.get .sp = sp) {t : State (Uart × ε)}
    (ht : Steps (step (P.beside consoleReg bus)) (Slave.i2c.start regs mem u e) t)
    (hstuck : step (P.beside consoleReg bus) t = none) :
    t.mem.readWord (sp + 0xffffffd8#32) = regs.get .a0 := by
  subst ho
  have hstart : Serves P bus sp (I2cHead sp (regs.get .a0))
      ⟨regs, 0x10000f4c#32, 0x10000f50#32, mem, u⟩ e (Slave.i2c.serve n) :=
    i2c_start V regs mem u e hsp n
  obtain ⟨⟨regs₁, pc, npc, mem₁, u₁⟩, hlogs, -, hhead⟩ := hstart.run (Agree.refl _ mem)
  rw [if_pos hserved] at hhead
  obtain ⟨rfl, rfl, hs0, hsp₁⟩ := hhead
  obtain ⟨regs₂, mem₂, hcall, hv0, -, -, hsaved, -⟩ := i2c_call V hs0 hsp₁ mem₁ u₁
  have hload : (P.facing bus).loadWord mem₂ ((Slave.i2c.serve n).run (P.facing bus) mem e).dev
      0x1f800d25#32 = none :=
    (if_pos (V.registers 0x1f800d25#32 (by decide))).trans hstatus
  have hend : step (P.beside consoleReg bus) (State.beside
      ⟨regs₂, 0x10000e34#32, 0x10000e38#32, mem₂, u₁⟩
      ((Slave.i2c.serve n).run (P.facing bus) mem e).dev) = none := by
    have haddr : regs₂.get .v0 + BitVec.signExtend 32 0#16 = 0x1f800d25#32 := by simp [hv0]
    rw [(point_load bus (show servicePoint 0x10000e34#32 by decide)
      (show P.fetch 0x10000e34#32 = some (.lw .v1 0 .v0) by simp [points_listing V.toSlaveBoard])
      haddr (by decide) _).1, hload]
    rfl
  have hsteps := hlogs.steps.trans (quiet_logs bus hcall _).steps
  rw [(hsteps.before_stuck hend ht).eq_of_stuck hstuck]
  exact hsaved.argument

end Alike

section Bench

structure Master (allowed : Addr → Prop) where
  status : List Word
  address : List {a : Addr // allowed a}
  data : List Word

variable {allowed : Addr → Prop}

/-- It answers a load with the next value of the register, until there is none, and takes every
store. -/
def masterBus (slave : Slave) (allowed : Addr → Prop) : Bus (Master allowed) where
  load e a :=
    if a = slave.statusReg then
      match e.status with
      | [] => none
      | w :: rest => some (w, { e with status := rest })
    else if a = slave.addressReg then
      match e.address with
      | [] => none
      | w :: rest => some (w.1, { e with address := rest })
    else if a = slave.dataReg then
      match e.data with
      | [] => none
      | w :: rest => some (w, { e with data := rest })
    else none
  store e _ _ := some e

theorem masterBus_requests (slave : Slave) {e e' : Master allowed} {w : Word}
    (h : (masterBus slave allowed).load e slave.addressReg = some (w, e')) : allowed w := by
  have hne : slave.addressReg ≠ slave.statusReg := by cases slave <;> decide
  simp only [masterBus, hne, if_false, if_true] at h
  split at h
  next => cases h
  next w' rest haddress =>
    cases h
    exact w'.2

def slaveBench : Platform Uart :=
  { benchWith slavePieces with
    device := fun a => bench.device a || decide (0x1f800d10 ≤ a.toNat ∧ a.toNat < 0x1f800d28)
    store := fun u a w => if a = 0x1f800003#32 then some u else bench.store u a w }

theorem slavePieces_placed : Placed slavePieces := by decide

theorem slaveBench_device {a : Addr} {w : Word} (h : slaveBench.code (alignAddr a) = some w) :
    slaveBench.device a = false := by
  have hrange := benchWith_range slavePieces_placed h
  have halign := alignAddr_near a
  simp only [slaveBench, bench, Bool.or_eq_false_iff, decide_eq_false_iff_not]
  omega

theorem slaveBench_low : LowMemory slaveBench := by
  refine fun a h => ⟨⟨?_, (benchWith_ram slavePieces_placed h).2⟩, rfl⟩
  simp only [slaveBench, bench, Bool.or_eq_false_iff, decide_eq_false_iff_not]
  omega

theorem slaveBench_board : SlaveBoard slaveBench where
  toBoard :=
    have hboard := benchWith_board slavePieces_placed
    { toHolds := ⟨hboard.code, fun a w h => slaveBench_device (hboard.code _ w h)⟩
      dataReg := by decide
      busyReg := by decide
      sendReg := by decide
      readyReg := by decide
      loadReady := hboard.loadReady
      loadData := hboard.loadData
      loadBusy := hboard.loadBusy
      storeSend := fun u b hu => ⟨u.busy, by simp [slaveBench, bench]⟩ }
  slaves :=
    have hpieces := benchWith_pieces slavePieces_placed (by decide)
    ⟨hpieces.code, fun a w h => slaveBench_device (hpieces.code _ w h)⟩
  buffer := slaveBench_low.buffer
  selectReg := by decide
  storeSelect _ := rfl

theorem slaveBench_serving (slave : Slave) :
    Serving slaveBench
      (masterBus slave (Clear slaveBench consoleReg (Scratch 0x01000f00#32 112))) 0x01000f00#32
      slave where
  toSlaveBoard := slaveBench_board
  stack := slaveBench_low.stack (by decide)
  apart := buffer_apart (by decide)
  registers := by
    have hall : slave.registers.all slaveBench.device = true := by cases slave <;> rfl
    exact fun a ha => List.all_eq_true.mp hall a ha
  requests e w e' h := masterBus_requests slave h

theorem slaveBench_clear {a : Addr} (h : a.toNat + 4 ≤ 0x01000000) :
    Clear slaveBench consoleReg (Scratch 0x01000f00#32 112) a := by
  constructor
  · intro hown
    simp only [consoleReg, List.mem_cons, List.not_mem_nil, or_false] at hown
    rcases hown with rfl | rfl | rfl | rfl | rfl <;> exact absurd h (by decide)
  · rintro - i hi (hbelow | hbuffer)
    · unfold Below at hbelow
      bv_omega
    · unfold InHexBuffer at hbuffer
      bv_omega

def slaveRegs (debug : Word) : Regs :=
  fun r => if r = .sp then 0x01000f00#32 else if r = .a0 then debug else 0#32

/-- It reads the word at 0x100 and writes one to 0x104 in the same poll. -/
def dmiMaster : Master (Clear slaveBench consoleReg (Scratch 0x01000f00#32 112)) where
  status := [6#32, 0#32]
  address := [⟨0x100#32, slaveBench_clear (by decide)⟩, ⟨0x104#32, slaveBench_clear (by decide)⟩]
  data := [0x12345678#32]

theorem tracing_alike_dmi :
    ∃ t₁ t₀, Alike slaveBench (masterBus .dmi _) .dmi (Scratch 0x01000f00#32 112)
      ((Slave.dmi.serve 2).run (slaveBench.facing (masterBus .dmi _)) (fun _ => 0#8) dmiMaster)
      (Slave.dmi.start (slaveRegs 1#32) (fun _ => 0#8) ⟨[], 0, []⟩ dmiMaster)
      (Slave.dmi.start (slaveRegs 0#32) (fun _ => 0#8) ⟨[], 0, []⟩ dmiMaster) t₁ t₀ :=
  tracing_alike (slaveBench_serving .dmi) (fun _ => 0#8) dmiMaster 2 ⟨[], 0, []⟩ ⟨[], 0, []⟩ rfl rfl

/-- One poll without a request, and the two frames of the I2C slave are not the same. -/
theorem tracing_alike_frames :
    ¬ ∃ t₁ t₀, Alike slaveBench
      (masterBus .i2c (Clear slaveBench consoleReg (Scratch 0x01000f00#32 112))) .i2c InHexBuffer
      ((Slave.i2c.serve 2).run (slaveBench.facing (masterBus .i2c _)) (fun _ => 0#8)
        ⟨[0#32], [], []⟩)
      (Slave.i2c.start (slaveRegs 1#32) (fun _ => 0#8) ⟨[], 0, []⟩ ⟨[0#32], [], []⟩)
      (Slave.i2c.start (slaveRegs 0#32) (fun _ => 0#8) ⟨[], 0, []⟩ ⟨[0#32], [], []⟩) t₁ t₀ := by
  rintro ⟨t₁, t₀, h⟩
  obtain ⟨hstuck₁, hstuck₀⟩ := h.last
  have hdebug :=
    i2c_refused (slaveBench_serving .i2c) (n := 1) rfl rfl rfl rfl h.traced.steps hstuck₁
  have hplain :=
    i2c_refused (slaveBench_serving .i2c) (n := 1) rfl rfl rfl rfl h.silent.steps hstuck₀
  have hframe : t₀.mem.readWord (0x01000f00#32 + 0xffffffd8#32) =
      t₁.mem.readWord (0x01000f00#32 + 0xffffffd8#32) :=
    h.memory.readWord fun i hi => by interval_cases i <;> decide
  rw [hdebug, hplain] at hframe
  exact absurd hframe (by decide)

end Bench

end W2
