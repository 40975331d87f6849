import W2.Firmware.Tracing

/-!
# The DMI slave

The loop at 0x10000cd8 polls its status register. Bit 1 asks for the word at an address, bit 2 for
one to be stored there; after that the reply register is set to 0xa5. A poll serves both, the read
first.
-/

namespace W2

open Mips Transition Miniboot

def dmiWrite : Service :=
  .load 0x1f800d10#32 fun a => .load 0x1f800d12#32 fun w =>
    .store a w (.store 0x1f800d12#32 0xa5#32 .done)

def dmiRest (status : Word) : Service := if status &&& 4#32 = 0#32 then .done else dmiWrite

def dmiPoll : Service :=
  .load 0x1f800d15#32 fun status =>
    if status &&& 2#32 = 0#32 then dmiRest status
    else .load 0x1f800d10#32 fun a => .load a fun w => .store 0x1f800d12#32 w (dmiRest status)

variable {ε : Type} {P : Platform Uart} {bus : Bus ε} {sp debug : Addr} {regs regs' : Regs}
  {mem : Mem} {u : Uart} {e : ε}

theorem dmi_listing (S : SlaveBoard P) :
    (quietBoard P).fetch 0x10000cd8#32 = some (.addiu .sp .sp (-56)) ∧
    (quietBoard P).fetch 0x10000cdc#32 = some (.sw .ra 52 .sp) ∧
    (quietBoard P).fetch 0x10000ce0#32 = some (.sw .s8 48 .sp) ∧
    (quietBoard P).fetch 0x10000ce4#32 = some (.sw .s7 44 .sp) ∧
    (quietBoard P).fetch 0x10000ce8#32 = some (.sw .s6 40 .sp) ∧
    (quietBoard P).fetch 0x10000cec#32 = some (.sw .s5 36 .sp) ∧
    (quietBoard P).fetch 0x10000cf0#32 = some (.sw .s4 32 .sp) ∧
    (quietBoard P).fetch 0x10000cf4#32 = some (.sw .s3 28 .sp) ∧
    (quietBoard P).fetch 0x10000cf8#32 = some (.sw .s2 24 .sp) ∧
    (quietBoard P).fetch 0x10000cfc#32 = some (.sw .s1 20 .sp) ∧
    (quietBoard P).fetch 0x10000d00#32 = some (.sw .s0 16 .sp) ∧
    (quietBoard P).fetch 0x10000d04#32 = some (.addu .s4 .a0 .zero) ∧
    (quietBoard P).fetch 0x10000d08#32 = some (.lui .s7 0x1f80) ∧
    (quietBoard P).fetch 0x10000d0c#32 = some (.lui .v0 0x1f80) ∧
    (quietBoard P).fetch 0x10000d10#32 = some (.ori .s6 .v0 0xd10) ∧
    (quietBoard P).fetch 0x10000d14#32 = some (.ori .s3 .v0 0xd12) ∧
    (quietBoard P).fetch 0x10000d18#32 = some (.addiu .s5 .zero 1) ∧
    (quietBoard P).fetch 0x10000d1c#32 = some (.lui .s8 0x1000) ∧
    (quietBoard P).fetch 0x10000d20#32 = some (.ori .v0 .s7 0xd15) ∧
    (quietBoard P).fetch 0x10000d28#32 = some .nop ∧
    (quietBoard P).fetch 0x10000d2c#32 = some (.andi .v0 .s0 0x2) ∧
    (quietBoard P).fetch 0x10000d30#32 = some (.beq .v0 .zero 28) ∧
    (quietBoard P).fetch 0x10000d34#32 = some (.andi .v0 .s0 0x4) ∧
    (quietBoard P).fetch 0x10000d3c#32 = some .nop ∧
    (quietBoard P).fetch 0x10000d44#32 = some .nop ∧
    (quietBoard P).fetch 0x10000d4c#32 = some (.bne .s4 .s5 21) ∧
    (quietBoard P).fetch 0x10000d50#32 = some (.andi .v0 .s0 0x4) ∧
    (quietBoard P).fetch 0x10000d54#32 = some (.lui .v0 0x1f80) ∧
    (quietBoard P).fetch 0x10000d58#32 = some (.ori .v0 .v0 0x3) ∧
    (quietBoard P).fetch 0x10000d5c#32 = some (.sw .s4 0 .v0) ∧
    (quietBoard P).fetch 0x10000da0#32 = some (.andi .v0 .s0 0x4) ∧
    (quietBoard P).fetch 0x10000da4#32 = some (.beq .v0 .zero (-33)) ∧
    (quietBoard P).fetch 0x10000da8#32 = some (.ori .v0 .s7 0xd15) ∧
    (quietBoard P).fetch 0x10000db4#32 = some .nop ∧
    (quietBoard P).fetch 0x10000dbc#32 = some (.addiu .v0 .zero 165) ∧
    (quietBoard P).fetch 0x10000dc4#32 = some (.bne .s4 .s5 (-42)) ∧
    (quietBoard P).fetch 0x10000dc8#32 = some (.lui .v0 0x1f80) ∧
    (quietBoard P).fetch 0x10000dcc#32 = some (.ori .v0 .v0 0x3) ∧
    (quietBoard P).fetch 0x10000dd0#32 = some (.sw .s4 0 .v0) ∧
    (quietBoard P).fetch 0x10000e14#32 = some (.j 0x349) ∧
    (quietBoard P).fetch 0x10000e18#32 = some (.ori .v0 .s7 0xd15) := by
  constructorm* _ ∧ _ <;> exact S.fetch rfl

structure DmiLoop (sp debug : Word) (regs : Regs) : Prop where
  reply : regs.get .s3 = 0x1f800d12#32
  argument : regs.get .s4 = debug
  one : regs.get .s5 = 1#32
  address : regs.get .s6 = 0x1f800d10#32
  base : regs.get .s7 = 0x1f800000#32
  text : regs.get .s8 = 0x10000000#32
  stack : regs.get .sp = sp + 0xffffffc8#32

theorem DmiLoop.keep (h : DmiLoop sp debug regs)
    (hkeeps : regs.KeepsBut [.s0, .s1, .s2, .ra] regs') : DmiLoop sp debug regs' := by
  constructor
  case reply => rw [hkeeps.get (by simp) (by simp), h.reply]
  case argument => rw [hkeeps.get (by simp) (by simp), h.argument]
  case one => rw [hkeeps.get (by simp) (by simp), h.one]
  case address => rw [hkeeps.get (by simp) (by simp), h.address]
  case base => rw [hkeeps.get (by simp) (by simp), h.base]
  case text => rw [hkeeps.get (by simp) (by simp), h.text]
  case stack => rw [hkeeps.get (by simp) (by simp), h.stack]

structure DmiHead (sp debug : Word) (t : State Uart) : Prop where
  pc : t.pc = 0x10000d24#32
  npc : t.npc = 0x10000d28#32
  status : t.regs.get .v0 = 0x1f800d15#32
  loop : DmiLoop sp debug t.regs

theorem dmi_read_traced (V : Serving P bus sp .dmi) (h : DmiLoop sp debug regs) (mem : Mem)
    (u : Uart) :
    ∃ regs' mem' u', Steps (step (quietBoard P)) ⟨regs, 0x10000d4c#32, 0x10000d50#32, mem, u⟩
        ⟨regs', 0x10000da4#32, 0x10000da8#32, mem', u'⟩ ∧
      regs'.get .v0 = regs.get .s0 &&& 4#32 ∧ regs.KeepsBut [.ra] regs' ∧
      Agree (Scratch sp 112) mem mem' := by
  by_cases hdebug : debug = 1#32
  · let entry := ((regs.set .v0 (regs.get .s0 &&& 4#32)).set .v0 0x1f800000#32).set .v0
      0x1f800003#32
    have hentry : Steps (step (quietBoard P)) ⟨regs, 0x10000d4c#32, 0x10000d50#32, mem, u⟩
        ⟨entry, 0x10000d60#32, 0x10000d60#32 + 4#32, mem, u⟩ := by
      apply Steps.of_run (n := 5)
      simp [dmi_listing V.toSlaveBoard, h.argument, h.one, hdebug, V.select, entry]
    obtain ⟨regs₁, mem₁, n, htrace, hkeeps, hagree⟩ :=
      prints_spec V.printer slave_traces.1 entry mem u (by simp [entry, h.stack])
        (by simp [entry, h.text])
    generalize u.sent n _ = u₁ at htrace
    have hs0 : regs₁.get .s0 = regs.get .s0 := by simp [hkeeps.get, entry]
    refine ⟨regs₁.set .v0 (regs.get .s0 &&& 4#32), mem₁, u₁,
      (hentry.trans htrace).trans (Steps.of_run (n := 1) ?run), by simp, ?keeps,
      hagree.mono fun a => scratch_frames⟩
    case run => simp [printsEnd, Output.size, dmi_listing V.toSlaveBoard, hs0]
    case keeps => simp [Regs.keepsBut_iff, hkeeps.get, entry]
  · refine ⟨regs.set .v0 (regs.get .s0 &&& 4#32), mem, u, Steps.of_run (n := 2) ?_, by simp,
      by simp [Regs.keepsBut_iff], Agree.refl _ mem⟩
    simp [dmi_listing V.toSlaveBoard, h.argument, h.one, hdebug]

theorem dmi_write_traced (V : Serving P bus sp .dmi) (h : DmiLoop sp debug regs) (mem : Mem)
    (u : Uart) :
    ∃ regs' mem' u', Steps (step (quietBoard P)) ⟨regs, 0x10000dc4#32, 0x10000dc8#32, mem, u⟩
        ⟨regs', 0x10000d24#32, 0x10000d28#32, mem', u'⟩ ∧
      regs'.get .v0 = 0x1f800d15#32 ∧ regs.KeepsBut [.ra] regs' ∧
      Agree (Scratch sp 112) mem mem' := by
  by_cases hdebug : debug = 1#32
  · let entry := (regs.set .v0 0x1f800000#32).set .v0 0x1f800003#32
    have hentry : Steps (step (quietBoard P)) ⟨regs, 0x10000dc4#32, 0x10000dc8#32, mem, u⟩
        ⟨entry, 0x10000dd4#32, 0x10000dd4#32 + 4#32, mem, u⟩ := by
      apply Steps.of_run (n := 4)
      simp [dmi_listing V.toSlaveBoard, h.argument, h.one, hdebug, V.select, entry]
    obtain ⟨regs₁, mem₁, n, htrace, hkeeps, hagree⟩ :=
      prints_spec V.printer slave_traces.2.1 entry mem u (by simp [entry, h.stack])
        (by simp [entry, h.text])
    generalize u.sent n _ = u₁ at htrace
    have hs7' : regs₁.get .s7 = 0x1f800000#32 := by simp [hkeeps.get, entry, h.base]
    refine ⟨regs₁.set .v0 0x1f800d15#32, mem₁, u₁,
      (hentry.trans htrace).trans (Steps.of_run (n := 2) ?run), by simp, ?keeps,
      hagree.mono fun a => scratch_frames⟩
    case run => simp [printsEnd, Output.size, dmi_listing V.toSlaveBoard, hs7']
    case keeps => simp [Regs.keepsBut_iff, hkeeps.get, entry]
  · refine ⟨(regs.set .v0 0x1f800000#32).set .v0 0x1f800d15#32, mem, u, Steps.of_run (n := 3) ?_,
      by simp, by simp [Regs.keepsBut_iff], Agree.refl _ mem⟩
    simp [dmi_listing V.toSlaveBoard, h.argument, h.one, h.base, hdebug]

theorem dmi_write (V : Serving P bus sp .dmi) (h : DmiLoop sp debug regs) (mem : Mem) (u : Uart)
    (e : ε) :
    Serves P bus sp (DmiHead sp debug) ⟨regs, 0x10000dac#32, 0x10000db0#32, mem, u⟩ e dmiWrite := by
  have hpoints := points_listing V.toSlaveBoard
  refine .load_mk .s0 .s6 0 (Steps.refl _) (Agree.refl _ _) (by decide)
    (by simp [hpoints]) (by simp [h.address]) (V.register (by decide)) fun a e₁ ha => ?_
  have hclear : Clear P consoleReg (Scratch sp 112) a := V.requested ha
  refine .load_mk .s1 .s3 0 (Steps.refl _) (Agree.refl _ _) (by decide)
    (by simp [hpoints]) (by simp [h.reply]) (V.register (by decide)) fun w e₂ _ => ?_
  let loaded := (regs.set .s0 a).set .s1 w
  have hloaded : DmiLoop sp debug loaded := h.keep (by simp [Regs.keepsBut_iff, loaded])
  have hnop : Steps (step (quietBoard P)) ⟨loaded, 0x10000db4#32, 0x10000db8#32, mem, u⟩
      ⟨loaded, 0x10000db8#32, 0x10000dbc#32, mem, u⟩ := by
    apply Steps.of_run (n := 1)
    simp [dmi_listing V.toSlaveBoard]
  refine .store_mk .s1 .s0 0 hnop (Agree.refl _ _) (by decide)
    (by simp [hpoints]) (by simp [loaded]) (by simp [loaded]) hclear fun m e₃ _ => ?_
  let reply := loaded.set .v0 0xa5#32
  have hreply : DmiLoop sp debug reply := hloaded.keep (by simp [Regs.keepsBut_iff, reply])
  have hli : Steps (step (quietBoard P)) ⟨loaded, 0x10000dbc#32, 0x10000dc0#32, m, u⟩
      ⟨reply, 0x10000dc0#32, 0x10000dc4#32, m, u⟩ := by
    apply Steps.of_run (n := 1)
    simp [dmi_listing V.toSlaveBoard, reply]
  refine .store_mk .v0 .s3 0 hli (Agree.refl _ _) (by decide)
    (by simp [hpoints]) (by simp [hreply.reply]) (by simp [reply]) (V.register (by decide))
    fun m' e₄ _ => ?_
  obtain ⟨regs', mem', u', hsteps, hv0, hkeeps, hagree⟩ := dmi_write_traced V hreply m' u
  exact .done hsteps hagree ⟨rfl, rfl, hv0, hreply.keep (hkeeps.mono (by simp))⟩

theorem dmi_rest (V : Serving P bus sp .dmi) (h : DmiLoop sp debug regs) {status : Word}
    (hv0 : regs.get .v0 = status &&& 4#32) (mem : Mem) (u : Uart) (e : ε) :
    Serves P bus sp (DmiHead sp debug) ⟨regs, 0x10000da4#32, 0x10000da8#32, mem, u⟩ e
      (dmiRest status) := by
  have hnext : DmiLoop sp debug (regs.set .v0 0x1f800d15#32) :=
    h.keep (by simp [Regs.keepsBut_iff])
  have hbranch : Steps (step (quietBoard P)) ⟨regs, 0x10000da4#32, 0x10000da8#32, mem, u⟩
      ⟨regs.set .v0 0x1f800d15#32, if status &&& 4#32 = 0#32 then 0x10000d24#32 else 0x10000dac#32,
        if status &&& 4#32 = 0#32 then 0x10000d28#32 else 0x10000db0#32, mem, u⟩ := by
    apply Steps.of_run (n := 2)
    by_cases hnone : status &&& 4#32 = 0#32 <;>
      simp [dmi_listing V.toSlaveBoard, hv0, hnone, h.base]
  unfold dmiRest
  split
  next hnone =>
    simp only [hnone, if_true] at hbranch
    exact .done hbranch (Agree.refl _ _) ⟨rfl, rfl, by simp, hnext⟩
  next hwrite =>
    simp only [hwrite, if_false] at hbranch
    exact (dmi_write V hnext mem u e).head hbranch (Agree.refl _ _)

theorem dmi_poll (V : Serving P bus sp .dmi) (s : State Uart) (e : ε) (h : DmiHead sp debug s) :
    Serves P bus sp (DmiHead sp debug) s e dmiPoll := by
  obtain ⟨regs, pc, npc, mem, u⟩ := s
  obtain ⟨rfl, rfl, hstatus, hloop⟩ := h
  have hpoints := points_listing V.toSlaveBoard
  refine .load_mk .s0 .v0 0 (Steps.refl _) (Agree.refl _ _) (by decide) (by simp [hpoints])
    (by simp [hstatus]) (V.register (by decide)) fun status e₁ _ => ?_
  let polled := (regs.set .s0 status).set .v0 (status &&& 4#32)
  have hpolled : DmiLoop sp debug polled := hloop.keep (by simp [Regs.keepsBut_iff, polled])
  have hbranch : Steps (step (quietBoard P))
      ⟨regs.set .s0 status, 0x10000d28#32, 0x10000d2c#32, mem, u⟩
      ⟨polled, if status &&& 2#32 = 0#32 then 0x10000da4#32 else 0x10000d38#32,
        if status &&& 2#32 = 0#32 then 0x10000da8#32 else 0x10000d3c#32, mem, u⟩ := by
    apply Steps.of_run (n := 4)
    by_cases hnone : status &&& 2#32 = 0#32 <;>
      simp [dmi_listing V.toSlaveBoard, hnone, polled]
  split
  next hnone =>
    simp only [hnone, if_true] at hbranch
    exact (dmi_rest V hpolled (by simp [polled]) mem u e₁).head hbranch (Agree.refl _ _)
  next hread =>
    simp only [hread, if_false] at hbranch
    refine .load_mk .s1 .s6 0 hbranch (Agree.refl _ _) (by decide)
      (by simp [hpoints]) (by simp [hpolled.address]) (V.register (by decide)) fun a e₂ ha => ?_
    have hclear : Clear P consoleReg (Scratch sp 112) a := V.requested ha
    have hnop : Steps (step (quietBoard P)) ⟨polled.set .s1 a, 0x10000d3c#32, 0x10000d40#32, mem, u⟩
        ⟨polled.set .s1 a, 0x10000d40#32, 0x10000d44#32, mem, u⟩ := by
      apply Steps.of_run (n := 1)
      simp [dmi_listing V.toSlaveBoard]
    refine .load_mk .s2 .s1 0 hnop (Agree.refl _ _) (by decide)
      (by simp [hpoints]) (by simp) hclear fun w e₃ _ => ?_
    let loaded := (polled.set .s1 a).set .s2 w
    have hloaded : DmiLoop sp debug loaded := hpolled.keep (by simp [Regs.keepsBut_iff, loaded])
    have hnop' : Steps (step (quietBoard P)) ⟨loaded, 0x10000d44#32, 0x10000d48#32, mem, u⟩
        ⟨loaded, 0x10000d48#32, 0x10000d4c#32, mem, u⟩ := by
      apply Steps.of_run (n := 1)
      simp [dmi_listing V.toSlaveBoard]
    refine .store_mk .s2 .s3 0 hnop' (Agree.refl _ _) (by decide)
      (by simp [hpoints]) (by simp [hloaded.reply]) (by simp [loaded]) (V.register (by decide))
      fun m e₄ _ => ?_
    obtain ⟨regs', mem', u', hsteps, hv0, hkeeps, hagree⟩ := dmi_read_traced V hloaded m u
    have hloop' : DmiLoop sp debug regs' := hloaded.keep (hkeeps.mono (by simp))
    exact (dmi_rest V hloop' (by simpa [loaded, polled] using hv0) mem' u' e₄).head hsteps hagree

def dmiSlots : Slots :=
  [(0xfffffffc#32, .ra), (0xfffffff8#32, .s8), (0xfffffff4#32, .s7), (0xfffffff0#32, .s6),
   (0xffffffec#32, .s5), (0xffffffe8#32, .s4), (0xffffffe4#32, .s3), (0xffffffe0#32, .s2),
   (0xffffffdc#32, .s1), (0xffffffd8#32, .s0)]

theorem dmi_start (V : Serving P bus sp .dmi) (regs : Regs) (mem : Mem) (u : Uart) (e : ε)
    (hsp : regs.get .sp = sp) (n : ℕ) :
    Serves P bus sp (DmiHead sp (regs.get .a0)) ⟨regs, 0x10000cd8#32, 0x10000cdc#32, mem, u⟩ e
      (dmiPoll.times n) := by
  have hstack : Stack (quietBoard P) sp 112 := quiet_stack V.stack
  let entry := ((((((((regs.set .sp (sp + 0xffffffc8#32)).set .s4 (regs.get .a0)).set .s7
    0x1f800000#32).set .v0 0x1f800000#32).set .s6 0x1f800d10#32).set .s3 0x1f800d12#32).set .s5
    1#32).set .s8 0x10000000#32).set .v0 0x1f800d15#32
  have hentry : Steps (step (quietBoard P)) ⟨regs, 0x10000cd8#32, 0x10000cdc#32, mem, u⟩
      ⟨entry, 0x10000d24#32, 0x10000d28#32, save mem sp regs dmiSlots, u⟩ := by
    apply Steps.of_run (n := 19)
    simp [dmi_listing V.toSlaveBoard, BitVec.add_assoc, hstack.plain, hsp, entry, save, dmiSlots]
  have hframe : Frame sp 112 mem (save mem sp regs dmiSlots) := save_frame (by decide) mem sp regs
  refine Performs.head hentry (hframe.mono fun a => Or.inl) ?_
  exact .times (dmi_poll V) ⟨rfl, rfl, by simp [entry], by constructor <;> simp [entry]⟩ n

end W2
