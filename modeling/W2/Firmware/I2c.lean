import W2.Firmware.Tracing

/-!
# The I2C slave

The loop at 0x10000f4c sets its registers up and calls the step at 0x10000e1c again and again. The
step polls the status register once: bit 2 asks for the word at an address, bit 3 for one to be
stored there.
-/

namespace W2

open Mips Transition Miniboot

def i2cSetup : Service :=
  .store 0x1f800d24#32 0xf8#32 (.store 0x1f800d27#32 0x79#32
    (.store 0x1f800d23#32 1#32 (.store 0x1f800d25#32 1#32 .done)))

def i2cRead : Service :=
  .load 0x1f800d20#32 fun a => .load a fun w => .store 0x1f800d22#32 w .done

def i2cWrite : Service :=
  .load 0x1f800d20#32 fun a => .load 0x1f800d22#32 fun w => .store a w .done

def i2cPoll : Service :=
  .load 0x1f800d25#32 fun status =>
    if status &&& 4#32 = 0#32 then if status &&& 8#32 = 0#32 then .done else i2cWrite
    else i2cRead

variable {ε : Type} {P : Platform Uart} {bus : Bus ε} {sp debug : Addr} {regs regs' : Regs}
  {mem mem' : Mem} {u : Uart} {e : ε}

theorem i2c_listing (S : SlaveBoard P) :
    (quietBoard P).fetch 0x10000e1c#32 = some (.addiu .sp .sp (-32)) ∧
    (quietBoard P).fetch 0x10000e20#32 = some (.sw .ra 24 .sp) ∧
    (quietBoard P).fetch 0x10000e24#32 = some (.sw .s1 20 .sp) ∧
    (quietBoard P).fetch 0x10000e28#32 = some (.sw .s0 16 .sp) ∧
    (quietBoard P).fetch 0x10000e2c#32 = some (.lui .a1 0x1f80) ∧
    (quietBoard P).fetch 0x10000e30#32 = some (.ori .v0 .a1 0xd25) ∧
    (quietBoard P).fetch 0x10000e38#32 = some .nop ∧
    (quietBoard P).fetch 0x10000e3c#32 = some (.andi .v0 .v1 0x4) ∧
    (quietBoard P).fetch 0x10000e40#32 = some (.beq .v0 .zero 30) ∧
    (quietBoard P).fetch 0x10000e44#32 = some (.andi .v0 .v1 0x8) ∧
    (quietBoard P).fetch 0x10000e48#32 = some (.ori .v0 .a1 0xd20) ∧
    (quietBoard P).fetch 0x10000e50#32 = some .nop ∧
    (quietBoard P).fetch 0x10000e58#32 = some (.ori .v0 .a1 0xd22) ∧
    (quietBoard P).fetch 0x10000e60#32 = some (.addiu .v0 .zero 1) ∧
    (quietBoard P).fetch 0x10000e64#32 = some (.bne .a0 .v0 51) ∧
    (quietBoard P).fetch 0x10000e68#32 = some (.ori .v0 .a1 0x3) ∧
    (quietBoard P).fetch 0x10000e6c#32 = some (.sw .a0 0 .v0) ∧
    (quietBoard P).fetch 0x10000eb4#32 = some (.j 0x3ce) ∧
    (quietBoard P).fetch 0x10000eb8#32 = some (.addu .v0 .zero .zero) ∧
    (quietBoard P).fetch 0x10000ebc#32 = some (.beq .v0 .zero 29) ∧
    (quietBoard P).fetch 0x10000ec0#32 = some (.lui .v1 0x1f80) ∧
    (quietBoard P).fetch 0x10000ec4#32 = some (.ori .v0 .v1 0xd20) ∧
    (quietBoard P).fetch 0x10000ecc#32 = some (.ori .v0 .v1 0xd22) ∧
    (quietBoard P).fetch 0x10000ed4#32 = some .nop ∧
    (quietBoard P).fetch 0x10000edc#32 = some (.addiu .v0 .zero 1) ∧
    (quietBoard P).fetch 0x10000ee0#32 = some (.bne .a0 .v0 21) ∧
    (quietBoard P).fetch 0x10000ee4#32 = some (.addu .v0 .zero .zero) ∧
    (quietBoard P).fetch 0x10000ee8#32 = some (.ori .v0 .v1 0x3) ∧
    (quietBoard P).fetch 0x10000eec#32 = some (.sw .a0 0 .v0) ∧
    (quietBoard P).fetch 0x10000f34#32 = some (.addu .v0 .zero .zero) ∧
    (quietBoard P).fetch 0x10000f38#32 = some (.lw .ra 24 .sp) ∧
    (quietBoard P).fetch 0x10000f3c#32 = some (.lw .s1 20 .sp) ∧
    (quietBoard P).fetch 0x10000f40#32 = some (.lw .s0 16 .sp) ∧
    (quietBoard P).fetch 0x10000f44#32 = some (.jr .ra) ∧
    (quietBoard P).fetch 0x10000f48#32 = some (.addiu .sp .sp 32) ∧
    (quietBoard P).fetch 0x10000f4c#32 = some (.addiu .sp .sp (-24)) ∧
    (quietBoard P).fetch 0x10000f50#32 = some (.sw .ra 20 .sp) ∧
    (quietBoard P).fetch 0x10000f54#32 = some (.sw .s0 16 .sp) ∧
    (quietBoard P).fetch 0x10000f58#32 = some (.addu .s0 .a0 .zero) ∧
    (quietBoard P).fetch 0x10000f5c#32 = some (.lui .v1 0x1f80) ∧
    (quietBoard P).fetch 0x10000f60#32 = some (.ori .a0 .v1 0xd24) ∧
    (quietBoard P).fetch 0x10000f64#32 = some (.addiu .v0 .zero 248) ∧
    (quietBoard P).fetch 0x10000f6c#32 = some (.ori .a0 .v1 0xd27) ∧
    (quietBoard P).fetch 0x10000f70#32 = some (.addiu .v0 .zero 121) ∧
    (quietBoard P).fetch 0x10000f78#32 = some (.ori .v0 .v1 0xd23) ∧
    (quietBoard P).fetch 0x10000f7c#32 = some (.addiu .a0 .zero 1) ∧
    (quietBoard P).fetch 0x10000f84#32 = some (.ori .v1 .v1 0xd25) ∧
    (quietBoard P).fetch 0x10000f8c#32 = some (.jal 0x387) ∧
    (quietBoard P).fetch 0x10000f90#32 = some (.addu .a0 .s0 .zero) ∧
    (quietBoard P).fetch 0x10000f94#32 = some (.j 0x3e3) ∧
    (quietBoard P).fetch 0x10000f98#32 = some .nop := by
  constructorm* _ ∧ _ <;> exact S.fetch rfl

structure I2cHead (sp debug : Word) (t : State Uart) : Prop where
  pc : t.pc = 0x10000f8c#32
  npc : t.npc = 0x10000f90#32
  argument : t.regs.get .s0 = debug
  stack : t.regs.get .sp = sp + 0xffffffe8#32

structure I2cSaved (sp debug : Word) (mem : Mem) : Prop where
  caller : mem.readWord (sp + 0xffffffe0#32) = 0x10000f94#32
  argument : mem.readWord (sp + 0xffffffd8#32) = debug

theorem I2cSaved.keep (h : I2cSaved sp debug mem) (hmem : ∀ x, Below sp 56 x → mem' x = mem x) :
    I2cSaved sp debug mem' := by
  constructor
  · rw [← h.caller]
    exact Mem.readWord_congr fun i hi => hmem _ (by unfold Below; bv_omega)
  · rw [← h.argument]
    exact Mem.readWord_congr fun i hi => hmem _ (by unfold Below; bv_omega)

theorem I2cSaved.traced (h : I2cSaved sp debug mem) (V : Serving P bus sp .i2c)
    (hmem : Agree (Scratch (sp + 0xffffffc8#32) 56) mem mem') : I2cSaved sp debug mem' := by
  refine h.keep fun x hx => hmem x ?_
  rintro (hbelow | hbuffer)
  · unfold Below at hx hbelow
    bv_omega
  · exact V.apart x hbuffer (hx.weaken (by omega))

theorem I2cSaved.served (h : I2cSaved sp debug mem) {a : Addr} {w : Word} {e' : ε}
    (hclear : Clear P consoleReg (Scratch sp 112) a)
    (hstore : (P.facing bus).storeWord mem e a w = some (mem', e')) : I2cSaved sp debug mem' := by
  refine h.keep fun x hx => ?_
  have hclear' : Clear (P.facing bus) consoleReg (Scratch sp 112) a := hclear
  exact hclear'.storeWord hstore (Or.inl (hx.weaken (by omega)))

structure I2cStep (sp debug : Word) (regs : Regs) : Prop where
  argument : regs.get .a0 = debug
  stack : regs.get .sp = sp + 0xffffffc8#32

theorem i2c_read_traced (V : Serving P bus sp .i2c) (h : I2cStep sp debug regs)
    (ha1 : regs.get .a1 = 0x1f800000#32) (mem : Mem) (u : Uart) :
    ∃ regs' mem' u', Steps (step (quietBoard P)) ⟨regs, 0x10000e60#32, 0x10000e64#32, mem, u⟩
        ⟨regs', 0x10000f38#32, 0x10000f3c#32, mem', u'⟩ ∧
      regs'.get .sp = sp + 0xffffffc8#32 ∧ Agree (Scratch (sp + 0xffffffc8#32) 56) mem mem' := by
  by_cases hdebug : debug = 1#32
  · let entry := (regs.set .v0 1#32).set .v0 0x1f800003#32
    have hentry : Steps (step (quietBoard P)) ⟨regs, 0x10000e60#32, 0x10000e64#32, mem, u⟩
        ⟨entry, 0x10000e70#32, 0x10000e70#32 + 4#32, mem, u⟩ := by
      apply Steps.of_run (n := 4)
      simp [i2c_listing V.toSlaveBoard, h.argument, ha1, hdebug, V.select, entry]
    obtain ⟨regs₁, mem₁, n, htrace, hkeeps, hagree⟩ :=
      prints_spec V.printer slave_traces.2.2.1 entry mem u (by simp [entry, h.stack]) (by simp)
    generalize u.sent n _ = u₁ at htrace
    refine ⟨regs₁.set .v0 0#32, mem₁, u₁,
      (hentry.trans htrace).trans (Steps.of_run (n := 2) ?run), ?stack, hagree⟩
    case run => simp [printsEnd, Output.size, i2c_listing V.toSlaveBoard]
    case stack => simp [hkeeps.get, entry, h.stack]
  · refine ⟨((regs.set .v0 1#32).set .v0 0x1f800003#32).set .v0 0#32, mem, u,
      Steps.of_run (n := 4) ?_, by simp [h.stack], Agree.refl _ mem⟩
    simp [i2c_listing V.toSlaveBoard, h.argument, ha1, hdebug]

theorem i2c_write_traced (V : Serving P bus sp .i2c) (h : I2cStep sp debug regs)
    (hv1 : regs.get .v1 = 0x1f800000#32) (mem : Mem) (u : Uart) :
    ∃ regs' mem' u', Steps (step (quietBoard P)) ⟨regs, 0x10000edc#32, 0x10000ee0#32, mem, u⟩
        ⟨regs', 0x10000f38#32, 0x10000f3c#32, mem', u'⟩ ∧
      regs'.get .sp = sp + 0xffffffc8#32 ∧ Agree (Scratch (sp + 0xffffffc8#32) 56) mem mem' := by
  by_cases hdebug : debug = 1#32
  · let entry := ((regs.set .v0 1#32).set .v0 0#32).set .v0 0x1f800003#32
    have hentry : Steps (step (quietBoard P)) ⟨regs, 0x10000edc#32, 0x10000ee0#32, mem, u⟩
        ⟨entry, 0x10000ef0#32, 0x10000ef0#32 + 4#32, mem, u⟩ := by
      apply Steps.of_run (n := 5)
      simp [i2c_listing V.toSlaveBoard, h.argument, hv1, hdebug, V.select, entry]
    obtain ⟨regs₁, mem₁, n, htrace, hkeeps, hagree⟩ :=
      prints_spec V.printer slave_traces.2.2.2 entry mem u (by simp [entry, h.stack]) (by simp)
    generalize u.sent n _ = u₁ at htrace
    refine ⟨regs₁.set .v0 0#32, mem₁, u₁,
      (hentry.trans htrace).trans (Steps.of_run (n := 1) ?run), ?stack, hagree⟩
    case run => simp [printsEnd, Output.size, i2c_listing V.toSlaveBoard]
    case stack => simp [hkeeps.get, entry, h.stack]
  · refine ⟨(regs.set .v0 1#32).set .v0 0#32, mem, u, Steps.of_run (n := 3) ?_,
      by simp [h.stack], Agree.refl _ mem⟩
    simp [i2c_listing V.toSlaveBoard, h.argument, hdebug]

theorem i2c_return (V : Serving P bus sp .i2c) (regs : Regs)
    (hsp : regs.get .sp = sp + 0xffffffc8#32) (hsaved : I2cSaved sp debug mem) (u : Uart) :
    ∃ t, Steps (step (quietBoard P)) ⟨regs, 0x10000f38#32, 0x10000f3c#32, mem, u⟩ t ∧
      I2cHead sp debug t ∧ t.mem = mem := by
  have hstack : Stack (quietBoard P) sp 112 := quiet_stack V.stack
  let left := (((regs.set .ra 0x10000f94#32).set .s1 (mem.readWord (sp + 0xffffffdc#32))).set .s0
    debug).set .sp (sp + 0xffffffe8#32)
  refine ⟨⟨left, 0x10000f8c#32, 0x10000f90#32, mem, u⟩, Steps.of_run (n := 7) ?run,
    ⟨rfl, rfl, by simp [left], by simp [left]⟩, rfl⟩
  simp [i2c_listing V.toSlaveBoard, hsp, BitVec.add_assoc, hstack.ramWord, hsaved.caller,
    hsaved.argument, left]

theorem i2c_read (V : Serving P bus sp .i2c) (h : I2cStep sp debug regs)
    (ha1 : regs.get .a1 = 0x1f800000#32) (hsaved : I2cSaved sp debug mem) (u : Uart) (e : ε) :
    Serves P bus sp (I2cHead sp debug) ⟨regs, 0x10000e48#32, 0x10000e4c#32, mem, u⟩ e i2cRead := by
  have hpoints := points_listing V.toSlaveBoard
  have hori : Steps (step (quietBoard P)) ⟨regs, 0x10000e48#32, 0x10000e4c#32, mem, u⟩
      ⟨regs.set .v0 0x1f800d20#32, 0x10000e4c#32, 0x10000e50#32, mem, u⟩ := by
    apply Steps.of_run (n := 1)
    simp [i2c_listing V.toSlaveBoard, ha1]
  refine .load_mk .s0 .v0 0 hori (Agree.refl _ _) (by decide)
    (by simp [hpoints]) (by simp) (V.register (by decide)) fun a e₁ ha => ?_
  have hclear : Clear P consoleReg (Scratch sp 112) a := V.requested ha
  let asked := (regs.set .v0 0x1f800d20#32).set .s0 a
  have hnop : Steps (step (quietBoard P)) ⟨asked, 0x10000e50#32, 0x10000e54#32, mem, u⟩
      ⟨asked, 0x10000e54#32, 0x10000e58#32, mem, u⟩ := by
    apply Steps.of_run (n := 1)
    simp [i2c_listing V.toSlaveBoard]
  refine .load_mk .s1 .s0 0 hnop (Agree.refl _ _) (by decide)
    (by simp [hpoints]) (by simp [asked]) hclear fun w e₂ _ => ?_
  let reply := (asked.set .s1 w).set .v0 0x1f800d22#32
  have hreply : Steps (step (quietBoard P)) ⟨asked.set .s1 w, 0x10000e58#32, 0x10000e5c#32, mem, u⟩
      ⟨reply, 0x10000e5c#32, 0x10000e60#32, mem, u⟩ := by
    apply Steps.of_run (n := 1)
    simp [i2c_listing V.toSlaveBoard, ha1, asked, reply]
  refine .store_mk .s1 .v0 0 hreply (Agree.refl _ _) (by decide)
    (by simp [hpoints]) (by simp [reply]) (by simp [reply]) (V.register (by decide))
    fun m e₃ hm => ?_
  have hsaved₁ : I2cSaved sp debug m := hsaved.served (V.register (by decide)) hm
  have hstep : I2cStep sp debug reply :=
    ⟨by simp [reply, asked, h.argument], by simp [reply, asked, h.stack]⟩
  obtain ⟨regs', mem', u', htraced, hsp, hagree⟩ :=
    i2c_read_traced V hstep (by simp [reply, asked, ha1]) m u
  obtain ⟨t, hreturn, hhead, hmem⟩ := i2c_return V regs' hsp (hsaved₁.traced V hagree) u'
  exact .done (htraced.trans hreturn) (hmem ▸ hagree.mono fun a => scratch_frames) hhead

theorem i2c_write (V : Serving P bus sp .i2c) (h : I2cStep sp debug regs)
    (hv1 : regs.get .v1 = 0x1f800000#32) (hsaved : I2cSaved sp debug mem) (u : Uart) (e : ε) :
    Serves P bus sp (I2cHead sp debug) ⟨regs, 0x10000ec4#32, 0x10000ec8#32, mem, u⟩ e i2cWrite := by
  have hpoints := points_listing V.toSlaveBoard
  have hori : Steps (step (quietBoard P)) ⟨regs, 0x10000ec4#32, 0x10000ec8#32, mem, u⟩
      ⟨regs.set .v0 0x1f800d20#32, 0x10000ec8#32, 0x10000ecc#32, mem, u⟩ := by
    apply Steps.of_run (n := 1)
    simp [i2c_listing V.toSlaveBoard, hv1]
  refine .load_mk .s0 .v0 0 hori (Agree.refl _ _) (by decide)
    (by simp [hpoints]) (by simp) (V.register (by decide)) fun a e₁ ha => ?_
  have hclear : Clear P consoleReg (Scratch sp 112) a := V.requested ha
  let asked := ((regs.set .v0 0x1f800d20#32).set .s0 a).set .v0 0x1f800d22#32
  have hdata : Steps (step (quietBoard P))
      ⟨(regs.set .v0 0x1f800d20#32).set .s0 a, 0x10000ecc#32, 0x10000ed0#32, mem, u⟩
      ⟨asked, 0x10000ed0#32, 0x10000ed4#32, mem, u⟩ := by
    apply Steps.of_run (n := 1)
    simp [i2c_listing V.toSlaveBoard, hv1, asked]
  refine .load_mk .s1 .v0 0 hdata (Agree.refl _ _) (by decide)
    (by simp [hpoints]) (by simp [asked]) (V.register (by decide)) fun w e₂ _ => ?_
  let loaded := asked.set .s1 w
  have hnop : Steps (step (quietBoard P)) ⟨loaded, 0x10000ed4#32, 0x10000ed8#32, mem, u⟩
      ⟨loaded, 0x10000ed8#32, 0x10000edc#32, mem, u⟩ := by
    apply Steps.of_run (n := 1)
    simp [i2c_listing V.toSlaveBoard]
  refine .store_mk .s1 .s0 0 hnop (Agree.refl _ _) (by decide)
    (by simp [hpoints]) (by simp [loaded, asked]) (by simp [loaded]) hclear fun m e₃ hm => ?_
  have hsaved₁ : I2cSaved sp debug m := hsaved.served hclear hm
  have hstep : I2cStep sp debug loaded :=
    ⟨by simp [loaded, asked, h.argument], by simp [loaded, asked, h.stack]⟩
  obtain ⟨regs', mem', u', htraced, hsp, hagree⟩ :=
    i2c_write_traced V hstep (by simp [loaded, asked, hv1]) m u
  obtain ⟨t, hreturn, hhead, hmem⟩ := i2c_return V regs' hsp (hsaved₁.traced V hagree) u'
  exact .done (htraced.trans hreturn) (hmem ▸ hagree.mono fun a => scratch_frames) hhead

/-- Where the step saves registers: below the frame of the loop, in one of its own. -/
def i2cSlots : Slots := [(0xffffffe0#32, .ra), (0xffffffdc#32, .s1), (0xffffffd8#32, .s0)]

theorem i2c_call (V : Serving P bus sp .i2c) (hs0 : regs.get .s0 = debug)
    (hsp : regs.get .sp = sp + 0xffffffe8#32) (mem : Mem) (u : Uart) :
    ∃ regs' mem', Steps (step (quietBoard P)) ⟨regs, 0x10000f8c#32, 0x10000f90#32, mem, u⟩
        ⟨regs', 0x10000e34#32, 0x10000e38#32, mem', u⟩ ∧
      regs'.get .v0 = 0x1f800d25#32 ∧ regs'.get .a1 = 0x1f800000#32 ∧ I2cStep sp debug regs' ∧
      I2cSaved sp debug mem' ∧ Frame sp 112 mem mem' := by
  have hstack : Stack (quietBoard P) sp 112 := quiet_stack V.stack
  let call := (regs.set .ra 0x10000f94#32).set .a0 debug
  let entry := ((call.set .sp (sp + 0xffffffc8#32)).set .a1 0x1f800000#32).set .v0 0x1f800d25#32
  refine ⟨entry, save mem sp call i2cSlots, Steps.of_run (n := 8) ?run, by simp [entry],
    by simp [entry], ⟨by simp [entry, call], by simp [entry]⟩, ?saved,
    save_frame (by decide) mem sp call⟩
  case run =>
    simp [i2c_listing V.toSlaveBoard, BitVec.add_assoc, hstack.plain, hs0, hsp, entry, call, save,
      i2cSlots]
  case saved => constructor <;> simp [save, i2cSlots, call, hs0]

theorem i2c_poll (V : Serving P bus sp .i2c) (s : State Uart) (e : ε) (h : I2cHead sp debug s) :
    Serves P bus sp (I2cHead sp debug) s e i2cPoll := by
  obtain ⟨regs, pc, npc, mem, u⟩ := s
  obtain ⟨rfl, rfl, hs0, hsp⟩ := h
  have hpoints := points_listing V.toSlaveBoard
  obtain ⟨entry, saved, hcall, hv0, ha1, hentry, hsaved, hframe⟩ := i2c_call V hs0 hsp mem u
  refine .load_mk .v1 .v0 0 hcall (hframe.mono fun a => Or.inl)
    (by decide) (by simp [hpoints]) (by simp [hv0]) (V.register (by decide)) fun status e₁ _ => ?_
  let polled := (entry.set .v1 status).set .v0 (status &&& 8#32)
  have hbranch : Steps (step (quietBoard P)) ⟨entry.set .v1 status, 0x10000e38#32, 0x10000e3c#32,
      saved, u⟩ ⟨polled, if status &&& 4#32 = 0#32 then 0x10000ebc#32 else 0x10000e48#32,
        if status &&& 4#32 = 0#32 then 0x10000ec0#32 else 0x10000e4c#32, saved, u⟩ := by
    apply Steps.of_run (n := 4)
    by_cases hnone : status &&& 4#32 = 0#32 <;>
      simp [i2c_listing V.toSlaveBoard, hnone, polled]
  have hstep : I2cStep sp debug polled :=
    ⟨by simp [polled, hentry.argument], by simp [polled, hentry.stack]⟩
  have hstatus : polled.get .v0 = status &&& 8#32 := by simp [polled]
  by_cases hread : status &&& 4#32 = 0#32
  -- the branch at 0x10000ebc tests bit 3, which is in v0 from the delay slot before
  · rw [if_pos hread]
    simp only [hread, if_true] at hbranch
    have hstep' : I2cStep sp debug (polled.set .v1 0x1f800000#32) :=
      ⟨by simp [hstep.argument], by simp [hstep.stack]⟩
    have hbranch' : Steps (step (quietBoard P)) ⟨polled, 0x10000ebc#32, 0x10000ec0#32, saved, u⟩
        ⟨polled.set .v1 0x1f800000#32,
          if status &&& 8#32 = 0#32 then 0x10000f34#32 else 0x10000ec4#32,
          if status &&& 8#32 = 0#32 then 0x10000f38#32 else 0x10000ec8#32, saved, u⟩ := by
      apply Steps.of_run (n := 2)
      by_cases hnone : status &&& 8#32 = 0#32 <;>
        simp [i2c_listing V.toSlaveBoard, hstatus, hnone]
    by_cases hwrite : status &&& 8#32 = 0#32
    · rw [if_pos hwrite]
      simp only [hwrite, if_true] at hbranch'
      let idle := (polled.set .v1 0x1f800000#32).set .v0 0#32
      have hzero : Steps (step (quietBoard P))
          ⟨polled.set .v1 0x1f800000#32, 0x10000f34#32, 0x10000f38#32, saved, u⟩
          ⟨idle, 0x10000f38#32, 0x10000f3c#32, saved, u⟩ := by
        apply Steps.of_run (n := 1)
        simp [i2c_listing V.toSlaveBoard, idle]
      obtain ⟨t, hreturn, hhead, hmem⟩ :=
        i2c_return V idle (by simp [idle, hstep.stack]) hsaved u
      exact .done (((hbranch.trans hbranch').trans hzero).trans hreturn)
        (hmem ▸ Agree.refl _ _) hhead
    · rw [if_neg hwrite]
      simp only [hwrite, if_false] at hbranch'
      exact (i2c_write V hstep' (by simp) hsaved u e₁).head (hbranch.trans hbranch')
        (Agree.refl _ _)
  · rw [if_neg hread]
    simp only [hread, if_false] at hbranch
    exact (i2c_read V hstep (by simp [polled, ha1]) hsaved u e₁).head hbranch (Agree.refl _ _)

theorem i2c_setup (V : Serving P bus sp .i2c) (regs : Regs) (mem : Mem) (u : Uart) (e : ε)
    (hsp : regs.get .sp = sp) :
    Serves P bus sp (I2cHead sp (regs.get .a0)) ⟨regs, 0x10000f4c#32, 0x10000f50#32, mem, u⟩ e
      i2cSetup := by
  have hpoints := points_listing V.toSlaveBoard
  have hstack : Stack (quietBoard P) sp 112 := quiet_stack V.stack
  let slots : Slots := [(0xfffffffc#32, .ra), (0xfffffff8#32, .s0)]
  let entry := (((((regs.set .sp (sp + 0xffffffe8#32)).set .s0 (regs.get .a0)).set .v1
    0x1f800000#32).set .a0 0x1f800d24#32).set .v0 0xf8#32)
  have hentry : Steps (step (quietBoard P)) ⟨regs, 0x10000f4c#32, 0x10000f50#32, mem, u⟩
      ⟨entry, 0x10000f68#32, 0x10000f6c#32, save mem sp regs slots, u⟩ := by
    apply Steps.of_run (n := 7)
    simp [i2c_listing V.toSlaveBoard, BitVec.add_assoc, hstack.plain, hsp, entry, save, slots]
  have hframe : Frame sp 112 mem (save mem sp regs slots) := save_frame (by decide) mem sp regs
  refine .store_mk .v0 .a0 0 hentry (hframe.mono fun a => Or.inl)
    (by decide) (by simp [hpoints]) (by simp [entry]) (by simp [entry]) (V.register (by decide))
    fun m₁ e₁ _ => ?_
  let second := (entry.set .a0 0x1f800d27#32).set .v0 0x79#32
  have hsecond : Steps (step (quietBoard P)) ⟨entry, 0x10000f6c#32, 0x10000f70#32, m₁, u⟩
      ⟨second, 0x10000f74#32, 0x10000f78#32, m₁, u⟩ := by
    apply Steps.of_run (n := 2)
    simp [i2c_listing V.toSlaveBoard, entry, second]
  refine .store_mk .v0 .a0 0 hsecond (Agree.refl _ _) (by decide)
    (by simp [hpoints]) (by simp [second]) (by simp [second]) (V.register (by decide))
    fun m₂ e₂ _ => ?_
  let third := (second.set .v0 0x1f800d23#32).set .a0 1#32
  have hthird : Steps (step (quietBoard P)) ⟨second, 0x10000f78#32, 0x10000f7c#32, m₂, u⟩
      ⟨third, 0x10000f80#32, 0x10000f84#32, m₂, u⟩ := by
    apply Steps.of_run (n := 2)
    simp [i2c_listing V.toSlaveBoard, entry, second, third]
  refine .store_mk .a0 .v0 0 hthird (Agree.refl _ _) (by decide)
    (by simp [hpoints]) (by simp [third]) (by simp [third]) (V.register (by decide))
    fun m₃ e₃ _ => ?_
  let fourth := third.set .v1 0x1f800d25#32
  have hfourth : Steps (step (quietBoard P)) ⟨third, 0x10000f84#32, 0x10000f88#32, m₃, u⟩
      ⟨fourth, 0x10000f88#32, 0x10000f8c#32, m₃, u⟩ := by
    apply Steps.of_run (n := 1)
    simp [i2c_listing V.toSlaveBoard, entry, second, third, fourth]
  refine .store_mk .a0 .v1 0 hfourth (Agree.refl _ _) (by decide)
    (by simp [hpoints]) (by simp [fourth]) (by simp [fourth, third]) (V.register (by decide))
    fun m₄ e₄ _ => ?_
  exact .done (Steps.refl _) (Agree.refl _ _)
    ⟨rfl, rfl, by simp [fourth, third, second, entry], by simp [fourth, third, second, entry]⟩

theorem i2c_start (V : Serving P bus sp .i2c) (regs : Regs) (mem : Mem) (u : Uart) (e : ε)
    (hsp : regs.get .sp = sp) (n : ℕ) :
    Serves P bus sp (I2cHead sp (regs.get .a0)) ⟨regs, 0x10000f4c#32, 0x10000f50#32, mem, u⟩ e
      (i2cSetup.andThen (i2cPoll.times n)) :=
  (i2c_setup V regs mem u e hsp).andThen fun _ _ ht => .times (i2c_poll V) ht n

end W2
