import W2.Mips.Exception
import W2.Firmware.Bench

/-!
# The interrupt wrapper

The wrapper at 0x100000e0 saves what the interrupted program has in registers, has the stub at
0x100005e0 call the user's handler at 0x10000008, and goes back with `rfe`. It makes its frame with
`addi`, which traps on overflow; the frames of the routines are made with `addiu`.
-/

namespace W2

open Mips Transition Miniboot

def Miniboot.wrapper : List Word :=
  [0x23bdff98, 0xafa10010, 0xafa20014, 0xafa30018, 0xafa4001c, 0xafa50020,
   0xafa60024, 0xafa70028, 0xafa8002c, 0xafa90030, 0xafaa0034, 0xafab0038,
   0xafac003c, 0xafad0040, 0xafae0044, 0xafaf0048, 0xafb8004c, 0xafb90050,
   0xafbf0054, 0x401a7000, 0xafba0058, 0x0000d810, 0xafbb005c, 0x0000d812,
   0xafbb0060, 0x0c000178, 0x00000000, 0x23a50000, 0x8fa10010, 0x8fa20014,
   0x8fa30018, 0x8fa4001c, 0x8fa50020, 0x8fa60024, 0x8fa70028, 0x8fa8002c,
   0x8fa90030, 0x8faa0034, 0x8fab0038, 0x8fac003c, 0x8fad0040, 0x8fae0044,
   0x8faf0048, 0x8fb8004c, 0x8fb90050, 0x8fbf0054, 0x8fba0058, 0x8fbb005c,
   0x03600011, 0x8fbb0060, 0x03600013, 0x23bd0068, 0x03400008, 0x42000010]

def Miniboot.handlerStub : List Word :=
  [0x27bdffe8, 0xafbf0010, 0x3c021000, 0x34420008, 0x0040f809, 0x00000000,
   0x8fbf0010, 0x00000000, 0x03e00008, 0x27bd0018]

def wrapperPieces : List (ℕ × List Word) :=
  [(0x100000e0, Miniboot.wrapper), (0x100005e0, handlerStub)]

variable {δ : Type} {P : Platform δ} {other : Cpu δ → Option (Cpu δ)} {c d e : Cpu δ}

theorem Miniboot.Pieces.fetchSys {pieces : List (ℕ × List Word)} (h : Pieces P pieces) {a : Addr}
    {i : SysInstr} (hi : (codeOf pieces a).bind decodeSys = some i) : P.fetchSys a = some i := by
  obtain ⟨w, hw, hd⟩ := Option.bind_eq_some_iff.mp hi
  rw [Platform.fetchSys, h.code a w hw]
  exact hd

theorem wrapper_listing (h : Pieces P wrapperPieces) :
    P.fetchSys 0x100000e0#32 = some (.addi .sp .sp (-104)) ∧
    P.fetchSys 0x100000e4#32 = some (.base (.sw .at_ 16 .sp)) ∧
    P.fetchSys 0x100000e8#32 = some (.base (.sw .v0 20 .sp)) ∧
    P.fetchSys 0x100000ec#32 = some (.base (.sw .v1 24 .sp)) ∧
    P.fetchSys 0x100000f0#32 = some (.base (.sw .a0 28 .sp)) ∧
    P.fetchSys 0x100000f4#32 = some (.base (.sw .a1 32 .sp)) ∧
    P.fetchSys 0x100000f8#32 = some (.base (.sw .a2 36 .sp)) ∧
    P.fetchSys 0x100000fc#32 = some (.base (.sw .a3 40 .sp)) ∧
    P.fetchSys 0x10000100#32 = some (.base (.sw .t0 44 .sp)) ∧
    P.fetchSys 0x10000104#32 = some (.base (.sw .t1 48 .sp)) ∧
    P.fetchSys 0x10000108#32 = some (.base (.sw .t2 52 .sp)) ∧
    P.fetchSys 0x1000010c#32 = some (.base (.sw .t3 56 .sp)) ∧
    P.fetchSys 0x10000110#32 = some (.base (.sw .t4 60 .sp)) ∧
    P.fetchSys 0x10000114#32 = some (.base (.sw .t5 64 .sp)) ∧
    P.fetchSys 0x10000118#32 = some (.base (.sw .t6 68 .sp)) ∧
    P.fetchSys 0x1000011c#32 = some (.base (.sw .t7 72 .sp)) ∧
    P.fetchSys 0x10000120#32 = some (.base (.sw .t8 76 .sp)) ∧
    P.fetchSys 0x10000124#32 = some (.base (.sw .t9 80 .sp)) ∧
    P.fetchSys 0x10000128#32 = some (.base (.sw .ra 84 .sp)) ∧
    P.fetchSys 0x1000012c#32 = some (.mfc0 .k0 .epc) ∧
    P.fetchSys 0x10000130#32 = some (.base (.sw .k0 88 .sp)) ∧
    P.fetchSys 0x10000134#32 = some (.mfhi .k1) ∧
    P.fetchSys 0x10000138#32 = some (.base (.sw .k1 92 .sp)) ∧
    P.fetchSys 0x1000013c#32 = some (.mflo .k1) ∧
    P.fetchSys 0x10000140#32 = some (.base (.sw .k1 96 .sp)) ∧
    P.fetchSys 0x10000144#32 = some (.base (.jal 0x178)) ∧
    P.fetchSys 0x10000148#32 = some (.base .nop) ∧
    P.fetchSys 0x1000014c#32 = some (.addi .a1 .sp 0) ∧
    P.fetchSys 0x10000150#32 = some (.base (.lw .at_ 16 .sp)) ∧
    P.fetchSys 0x10000154#32 = some (.base (.lw .v0 20 .sp)) ∧
    P.fetchSys 0x10000158#32 = some (.base (.lw .v1 24 .sp)) ∧
    P.fetchSys 0x1000015c#32 = some (.base (.lw .a0 28 .sp)) ∧
    P.fetchSys 0x10000160#32 = some (.base (.lw .a1 32 .sp)) ∧
    P.fetchSys 0x10000164#32 = some (.base (.lw .a2 36 .sp)) ∧
    P.fetchSys 0x10000168#32 = some (.base (.lw .a3 40 .sp)) ∧
    P.fetchSys 0x1000016c#32 = some (.base (.lw .t0 44 .sp)) ∧
    P.fetchSys 0x10000170#32 = some (.base (.lw .t1 48 .sp)) ∧
    P.fetchSys 0x10000174#32 = some (.base (.lw .t2 52 .sp)) ∧
    P.fetchSys 0x10000178#32 = some (.base (.lw .t3 56 .sp)) ∧
    P.fetchSys 0x1000017c#32 = some (.base (.lw .t4 60 .sp)) ∧
    P.fetchSys 0x10000180#32 = some (.base (.lw .t5 64 .sp)) ∧
    P.fetchSys 0x10000184#32 = some (.base (.lw .t6 68 .sp)) ∧
    P.fetchSys 0x10000188#32 = some (.base (.lw .t7 72 .sp)) ∧
    P.fetchSys 0x1000018c#32 = some (.base (.lw .t8 76 .sp)) ∧
    P.fetchSys 0x10000190#32 = some (.base (.lw .t9 80 .sp)) ∧
    P.fetchSys 0x10000194#32 = some (.base (.lw .ra 84 .sp)) ∧
    P.fetchSys 0x10000198#32 = some (.base (.lw .k0 88 .sp)) ∧
    P.fetchSys 0x1000019c#32 = some (.base (.lw .k1 92 .sp)) ∧
    P.fetchSys 0x100001a0#32 = some (.mthi .k1) ∧
    P.fetchSys 0x100001a4#32 = some (.base (.lw .k1 96 .sp)) ∧
    P.fetchSys 0x100001a8#32 = some (.mtlo .k1) ∧
    P.fetchSys 0x100001ac#32 = some (.addi .sp .sp 104) ∧
    P.fetchSys 0x100001b0#32 = some (.base (.jr .k0)) ∧
    P.fetchSys 0x100001b4#32 = some .rfe := by
  constructorm* _ ∧ _ <;> exact h.fetchSys rfl

theorem handlerStub_listing (h : Pieces P wrapperPieces) :
    P.fetchSys 0x100005e0#32 = some (.base (.addiu .sp .sp (-24))) ∧
    P.fetchSys 0x100005e4#32 = some (.base (.sw .ra 16 .sp)) ∧
    P.fetchSys 0x100005e8#32 = some (.base (.lui .v0 0x1000)) ∧
    P.fetchSys 0x100005ec#32 = some (.base (.ori .v0 .v0 0x8)) ∧
    P.fetchSys 0x100005f0#32 = some (.base (.jalr .ra .v0)) ∧
    P.fetchSys 0x100005f4#32 = some (.base .nop) ∧
    P.fetchSys 0x100005f8#32 = some (.base (.lw .ra 16 .sp)) ∧
    P.fetchSys 0x100005fc#32 = some (.base .nop) ∧
    P.fetchSys 0x10000600#32 = some (.base (.jr .ra)) ∧
    P.fetchSys 0x10000604#32 = some (.base (.addiu .sp .sp 24)) := by
  constructorm* _ ∧ _ <;> exact h.fetchSys rfl

abbrev wrapperSlots : Slots :=
  [(0xffffffa8#32, .at_), (0xffffffac#32, .v0), (0xffffffb0#32, .v1), (0xffffffb4#32, .a0),
   (0xffffffb8#32, .a1), (0xffffffbc#32, .a2), (0xffffffc0#32, .a3), (0xffffffc4#32, .t0),
   (0xffffffc8#32, .t1), (0xffffffcc#32, .t2), (0xffffffd0#32, .t3), (0xffffffd4#32, .t4),
   (0xffffffd8#32, .t5), (0xffffffdc#32, .t6), (0xffffffe0#32, .t7), (0xffffffe4#32, .t8),
   (0xffffffe8#32, .t9), (0xffffffec#32, .ra)]

structure Enters (c d : Cpu δ) : Prop where
  pc : d.core.pc = 0x10000008#32
  npc : d.core.npc = 0x1000000c#32
  sp : d.core.regs.get .sp = c.core.regs.get .sp + 0xffffff80#32
  ra : d.core.regs.get .ra = 0x100005f8#32
  regs : ∀ r, r ∉ [Reg.v0, .k0, .k1, .sp, .ra] → d.core.regs.get r = c.core.regs.get r
  mem : Frame (c.core.regs.get .sp) 128 c.core.mem d.core.mem
  dev : d.core.dev = c.core.dev
  hi : d.hi = c.hi
  lo : d.lo = c.lo
  epc : d.epc = c.epc
  status : d.status = c.status

structure Holding (c : Cpu δ) (mem : Mem) : Prop where
  regs : Saved wrapperSlots mem (c.core.regs.get .sp) c.core.regs
  epc : mem.readWord (c.core.regs.get .sp + 0xfffffff0#32) = c.epc
  hi : mem.readWord (c.core.regs.get .sp + 0xfffffff4#32) = c.hi
  lo : mem.readWord (c.core.regs.get .sp + 0xfffffff8#32) = c.lo
  ra : mem.readWord (c.core.regs.get .sp + 0xffffff90#32) = 0x1000014c#32

theorem Holding.agree {mem mem' : Mem} (h : Holding c mem)
    (hmem : ∀ a, Below (c.core.regs.get .sp) 112 a → mem' a = mem a) : Holding c mem' := by
  have hword {w : Word} (hlo : 4 ≤ (-w).toNat) (hhi : (-w).toNat ≤ 112) :
      mem'.readWord (c.core.regs.get .sp + w) = mem.readWord (c.core.regs.get .sp + w) :=
    Mem.readWord_congr fun i hi => hmem _ (by unfold Below; bv_omega)
  constructor
  · exact h.regs.agree (by decide) hmem
  · rw [hword (by decide) (by decide), h.epc]
  · rw [hword (by decide) (by decide), h.hi]
  · rw [hword (by decide) (by decide), h.lo]
  · rw [hword (by decide) (by decide), h.ra]

structure Resumes (c e f : Cpu δ) : Prop where
  pc : f.core.pc = c.epc
  npc : f.core.npc = c.epc + 4#32
  regs : ∀ r, r ≠ .k0 → r ≠ .k1 → f.core.regs.get r = c.core.regs.get r
  hi : f.hi = c.hi
  lo : f.lo = c.lo
  mem : f.core.mem = e.core.mem
  dev : f.core.dev = e.core.dev

/-- The handler obeys the convention when it is entered for `c`: the 112 bytes above its argument
area are what is left of the frames of the stub and the wrapper. -/
def Obeys (P : Platform δ) (other : Cpu δ → Option (Cpu δ)) (c : Cpu δ) : Prop :=
  ∀ d, Enters c d → ∃ e, Steps (cpuStep P other) d e ∧ Returned 112 d e

/-- The wrapper enters the handler and, when that returns, the interrupted program resumes. -/
def Transparent (P : Platform δ) (other : Cpu δ → Option (Cpu δ)) (c : Cpu δ) : Prop :=
  ∃ d e f, Steps (cpuStep P other) c d ∧ Enters c d ∧
    Steps (cpuStep P other) d e ∧ Returned 112 d e ∧
    Steps (cpuStep P other) e f ∧ Resumes c e f

theorem frame_overflow (sp : Addr) :
    BitVec.saddOverflow sp 0xffffff98#32 = true ↔
      0x80000000 ≤ sp.toNat ∧ sp.toNat < 0x80000068 := by
  simp only [BitVec.saddOverflow, Bool.or_eq_true, decide_eq_true_eq]
  have hframe : (0xffffff98#32).toInt = -104 := by decide
  rw [hframe, BitVec.toInt_eq_toNat_cond]
  have := sp.isLt
  split <;> omega

theorem frame_return {sp : Addr} (h : BitVec.saddOverflow sp 0xffffff98#32 = false) :
    BitVec.saddOverflow (sp + 0xffffff98#32) 104#32 = false := by
  have hframe : (0xffffff98#32).toInt = -104 := by decide
  have hsum := BitVec.toInt_add_of_not_saddOverflow (by simpa using h)
  simp only [BitVec.saddOverflow, Bool.or_eq_false_iff, decide_eq_false_iff_not] at h ⊢
  have hback : (104#32).toInt = 104 := by decide
  rw [hsum, hframe, hback]
  have := sp.toInt_lt
  have := sp.le_toInt
  omega

theorem wrapper_enters (other : Cpu δ → Option (Cpu δ)) (hcode : Pieces P wrapperPieces)
    (regs : Regs) (mem : Mem) (dev : δ) (hi lo epc status : Word)
    (hstack : Stack P (regs.get .sp) 128)
    (hsp : BitVec.saddOverflow (regs.get .sp) 0xffffff98#32 = false) :
    ∃ d, Steps (cpuStep P other)
        ⟨⟨regs, 0x100000e0#32, 0x100000e4#32, mem, dev⟩, hi, lo, epc, status⟩ d ∧
      Enters ⟨⟨regs, 0x100000e0#32, 0x100000e4#32, mem, dev⟩, hi, lo, epc, status⟩ d ∧
      Holding ⟨⟨regs, 0x100000e0#32, 0x100000e4#32, mem, dev⟩, hi, lo, epc, status⟩ d.core.mem := by
  let sp := regs.get .sp
  let saved := (((save mem sp regs wrapperSlots).writeWord (sp + 0xfffffff0#32) epc).writeWord
    (sp + 0xfffffff4#32) hi).writeWord (sp + 0xfffffff8#32) lo
  let framed := (((regs.set .sp (sp + 0xffffff98#32)).set .k0 epc).set .k1 hi).set .k1 lo
  have hsave : Steps (cpuStep P other)
      ⟨⟨regs, 0x100000e0#32, 0x100000e4#32, mem, dev⟩, hi, lo, epc, status⟩
      ⟨⟨framed, 0x10000144#32, 0x10000148#32, saved, dev⟩, hi, lo, epc, status⟩ := by
    apply Steps.of_run (n := 25)
    simp [wrapper_listing hcode, BitVec.add_assoc, hstack.plain, addSigned_some hsp, Cpu.cop0, save,
      saved, framed, sp]
  have hcall : Steps (cpuStep P other)
      ⟨⟨framed, 0x10000144#32, 0x10000148#32, saved, dev⟩, hi, lo, epc, status⟩
      ⟨⟨(((framed.set .ra 0x1000014c#32).set .sp (sp + 0xffffff80#32)).set .v0 0x10000008#32).set
          .ra 0x100005f8#32, 0x10000008#32, 0x1000000c#32,
        saved.writeWord (sp + 0xffffff90#32) 0x1000014c#32, dev⟩, hi, lo, epc, status⟩ := by
    apply Steps.of_run (n := 8)
    simp [wrapper_listing hcode, handlerStub_listing hcode, BitVec.add_assoc, hstack.plain, framed,
      sp]
  have hframe : Frame sp 128 mem (saved.writeWord (sp + 0xffffff90#32) 0x1000014c#32) :=
    ((((save_frame (by decide) mem sp regs).write _ (by decide) (by decide)).write _ (by decide)
      (by decide)).write _ (by decide) (by decide)).write _ (by decide) (by decide)
  refine ⟨_, hsave.trans hcall, ?enters, ?holding⟩
  case enters =>
    refine ⟨rfl, rfl, by simp [sp], by simp, fun r hr => ?_, hframe, rfl, rfl, rfl, rfl, rfl⟩
    simp only [List.mem_cons, List.not_mem_nil, or_false, not_or] at hr
    by_cases hzero : r = .zero
    · simp [hzero]
    · simp [framed, hr, hzero]
  case holding => constructor <;> simp [Saved, save, saved, sp]

theorem wrapper_restores (other : Cpu δ → Option (Cpu δ)) (hcode : Pieces P wrapperPieces)
    (hstack : Stack P (c.core.regs.get .sp) 128) (regs : Regs) (mem : Mem) (dev : δ)
    (hi lo epc status : Word) (hmem : Holding c mem)
    (hsp : regs.get .sp = c.core.regs.get .sp + 0xffffff80#32) :
    ∃ regs', Steps (cpuStep P other)
        ⟨⟨regs, 0x100005f8#32, 0x100005fc#32, mem, dev⟩, hi, lo, epc, status⟩
        ⟨⟨regs', 0x10000198#32, 0x1000019c#32, mem, dev⟩, hi, lo, epc, status⟩ ∧
      regs'.get .sp = c.core.regs.get .sp + 0xffffff98#32 ∧
      ∀ r, r ∈ wrapperSlots.map Prod.snd ∨ r ≠ .sp ∧ regs.get r = c.core.regs.get r →
        regs'.get r = c.core.regs.get r := by
  let sp := c.core.regs.get .sp
  let framed := (regs.set .ra 0x1000014c#32).set .sp (sp + 0xffffff98#32)
  have hreturn : Steps (cpuStep P other)
      ⟨⟨regs, 0x100005f8#32, 0x100005fc#32, mem, dev⟩, hi, lo, epc, status⟩
      ⟨⟨framed, 0x1000014c#32, 0x10000150#32, mem, dev⟩, hi, lo, epc, status⟩ := by
    apply Steps.of_run (n := 4)
    simp [handlerStub_listing hcode, BitVec.add_assoc, hsp, hstack.ramWord, hmem.ra, framed, sp]
  have hargument : Steps (cpuStep P other)
      ⟨⟨framed, 0x1000014c#32, 0x10000150#32, mem, dev⟩, hi, lo, epc, status⟩
      ⟨⟨framed.set .a1 (sp + 0xffffff98#32), 0x10000150#32, 0x10000154#32, mem, dev⟩,
        hi, lo, epc, status⟩ := by
    apply Steps.single
    simp [wrapper_listing hcode, framed]
  have hrestore : Steps (cpuStep P other)
      ⟨⟨framed.set .a1 (sp + 0xffffff98#32), 0x10000150#32, 0x10000154#32, mem, dev⟩,
        hi, lo, epc, status⟩
      ⟨⟨restore mem sp (framed.set .a1 (sp + 0xffffff98#32)) wrapperSlots, 0x10000198#32,
        0x1000019c#32, mem, dev⟩, hi, lo, epc, status⟩ := by
    apply Steps.of_run (n := 18)
    simp [wrapper_listing hcode, BitVec.add_assoc, hstack.ramWord, restore, framed, sp]
  refine ⟨_, (hreturn.trans hargument).trans hrestore, by simp [restore, framed, sp],
    fun r hr => ?_⟩
  refine hmem.regs.restore _ ?_
  by_cases hslot : r ∈ wrapperSlots.map Prod.snd
  · exact Or.inl hslot
  · obtain ⟨hne, hkept⟩ := hr.resolve_left hslot
    have hra : r ≠ .ra := by
      rintro rfl
      exact hslot (by decide)
    have ha1 : r ≠ .a1 := by
      rintro rfl
      exact hslot (by decide)
    right
    by_cases hzero : r = .zero
    · simp [hzero]
    · simp [framed, hzero, hne, hra, ha1, hkept]

theorem wrapper_resumes (other : Cpu δ → Option (Cpu δ)) (hcode : Pieces P wrapperPieces)
    (hstack : Stack P (c.core.regs.get .sp) 128)
    (hsp : BitVec.saddOverflow (c.core.regs.get .sp) 0xffffff98#32 = false)
    (he : Holding c e.core.mem) (hpc : e.core.pc = 0x100005f8#32)
    (hnpc : e.core.npc = 0x100005fc#32)
    (hesp : e.core.regs.get .sp = c.core.regs.get .sp + 0xffffff80#32)
    (hsaved : ∀ r ∈ Reg.calleeSaved, r ≠ .sp → e.core.regs.get r = c.core.regs.get r) :
    ∃ f, Steps (cpuStep P other) e f ∧ Resumes c e f := by
  obtain ⟨⟨regs, pc, npc, mem, dev⟩, hi, lo, epc, status⟩ := e
  obtain rfl : pc = 0x100005f8#32 := hpc
  obtain rfl : npc = 0x100005fc#32 := hnpc
  obtain ⟨restored, hrestore, hrsp, hkept⟩ :=
    wrapper_restores other hcode hstack regs mem dev hi lo epc status he hesp
  have hleave : Steps (cpuStep P other)
      ⟨⟨restored, 0x10000198#32, 0x1000019c#32, mem, dev⟩, hi, lo, epc, status⟩
      ⟨⟨(((restored.set .k0 c.epc).set .k1 c.hi).set .k1 c.lo).set .sp (c.core.regs.get .sp),
        c.epc, c.epc + 4#32, mem, dev⟩, c.hi, c.lo, epc,
        status &&& 0xfffffff0#32 ||| status >>> 2 &&& 0xf#32⟩ := by
    apply Steps.of_run (n := 8)
    simp [wrapper_listing hcode, BitVec.add_assoc, hstack.ramWord, hrsp, he.epc, he.hi, he.lo,
      addSigned_some (frame_return hsp)]
  refine ⟨_, hrestore.trans hleave, ⟨rfl, rfl, fun r h0 h1 => ?_, rfl, rfl, rfl, rfl⟩⟩
  by_cases hzero : r = .zero
  · simp [hzero]
  · by_cases hr : r = .sp
    · simp [hr]
    · have hrestored : restored.get r = c.core.regs.get r := by
        refine hkept r ((?_ : r ∈ wrapperSlots.map Prod.snd ∨ r ∈ Reg.calleeSaved).imp_right
          fun hmem => ⟨hr, hsaved r hmem hr⟩)
        cases r <;> first | contradiction | decide
      simp [hzero, hr, h0, h1, hrestored]

theorem wrapper_traps (hcode : Pieces P wrapperPieces) (hpc : c.core.pc = 0x100000e0#32)
    (hsp : BitVec.saddOverflow (c.core.regs.get .sp) 0xffffff98#32 = true) :
    ¬ Transparent P other c := by
  obtain ⟨⟨regs, pc, npc, mem, dev⟩, hi, lo, epc, status⟩ := c
  obtain rfl : pc = 0x100000e0#32 := hpc
  rintro ⟨d, e, f, hsteps, henters, -⟩
  have hstuck : cpuStep P other
      ⟨⟨regs, 0x100000e0#32, npc, mem, dev⟩, hi, lo, epc, status⟩ = none := by
    simp [wrapper_listing hcode, addSigned_none hsp]
  obtain rfl := hsteps.eq_of_stuck hstuck
  exact absurd henters.pc (by simp)

theorem wrapper_misaligned (hcode : Pieces P wrapperPieces)
    (hroom : ∀ a, Below (c.core.regs.get .sp) 128 a → P.Ram a ∧ P.writable a = true)
    (hpc : c.core.pc = 0x100000e0#32) (hnpc : c.core.npc = 0x100000e4#32)
    (hsp : BitVec.saddOverflow (c.core.regs.get .sp) 0xffffff98#32 = false)
    (halign : (c.core.regs.get .sp).toNat % 4 ≠ 0) : ¬ Transparent P other c := by
  obtain ⟨⟨regs, pc, npc, mem, dev⟩, hi, lo, epc, status⟩ := c
  obtain rfl : pc = 0x100000e0#32 := hpc
  obtain rfl : npc = 0x100000e4#32 := hnpc
  rintro ⟨d, e, f, hsteps, henters, -⟩
  have hdevice : P.device (regs.get .sp + 0xffffffa8#32) = false :=
    (hroom _ (by unfold Below; bv_omega)).1.1
  have hplain : ¬ P.Plain (regs.get .sp + 0xffffffa8#32) := by
    rintro ⟨⟨-, hword⟩, -⟩
    simp only at halign
    bv_omega
  let framed := regs.set .sp (regs.get .sp + 0xffffff98#32)
  have hframe : cpuStep P other
      ⟨⟨regs, 0x100000e0#32, 0x100000e4#32, mem, dev⟩, hi, lo, epc, status⟩ =
        some ⟨⟨framed, 0x100000e4#32, 0x100000e8#32, mem, dev⟩, hi, lo, epc, status⟩ := by
    simp [wrapper_listing hcode, addSigned_some hsp, framed]
  have hstuck : cpuStep P other
      ⟨⟨framed, 0x100000e4#32, 0x100000e8#32, mem, dev⟩, hi, lo, epc, status⟩ = none := by
    simp [wrapper_listing hcode, exec, BitVec.add_assoc, hdevice, hplain, framed]
  rcases Relation.ReflTransGen.cases_head hsteps with rfl | ⟨u, hu, hrest⟩
  · exact absurd henters.pc (by simp)
  · obtain rfl := Option.some.inj (hframe.symm.trans hu)
    obtain rfl := Steps.eq_of_stuck hrest hstuck
    exact absurd henters.pc (by simp)

/-- The wrapper is transparent for the stack pointers that are a multiple of 4, except those where
its frame would cross from the upper to the lower half of the address space. -/
theorem wrapper_transparent (hcode : Pieces P wrapperPieces)
    (hroom : ∀ a, Below (c.core.regs.get .sp) 128 a → P.Ram a ∧ P.writable a = true)
    (hpc : c.core.pc = 0x100000e0#32) (hnpc : c.core.npc = 0x100000e4#32)
    (hobeys : Obeys P other c) :
    Transparent P other c ↔ (c.core.regs.get .sp).toNat % 4 = 0 ∧
      ¬ (0x80000000 ≤ (c.core.regs.get .sp).toNat ∧ (c.core.regs.get .sp).toNat < 0x80000068) := by
  rw [← frame_overflow]
  constructor
  · intro h
    have hsp : ¬ BitVec.saddOverflow (c.core.regs.get .sp) 0xffffff98#32 = true :=
      fun hover => wrapper_traps hcode hpc hover h
    refine ⟨?_, hsp⟩
    by_contra halign
    exact wrapper_misaligned hcode hroom hpc hnpc (by simpa using hsp) halign h
  · rintro ⟨halign, hover⟩
    have hstack : Stack P (c.core.regs.get .sp) 128 := ⟨halign, hroom⟩
    obtain ⟨⟨regs, pc, npc, mem, dev⟩, hi, lo, epc, status⟩ := c
    obtain rfl : pc = 0x100000e0#32 := hpc
    obtain rfl : npc = 0x100000e4#32 := hnpc
    have hsp : BitVec.saddOverflow (regs.get .sp) 0xffffff98#32 = false := by simpa using hover
    obtain ⟨d, hcalls, henters, hholding⟩ :=
      wrapper_enters other hcode regs mem dev hi lo epc status hstack hsp
    obtain ⟨e, hhandler, hreturned⟩ := hobeys d henters
    have hframes := hholding.agree fun a ha => hreturned.frames a (by
      rw [henters.sp]
      unfold InRange
      unfold Below at ha
      bv_omega)
    have hkept (r : Reg) (hr : r ∈ Reg.calleeSaved) (hne : r ≠ .sp) :
        e.core.regs.get r = regs.get r := by
      refine (hreturned.saved r hr).trans (henters.regs r ?_)
      revert hr hne
      cases r <;> decide
    obtain ⟨f, hresume, hresumes⟩ := wrapper_resumes other hcode hstack hsp hframes
      (hreturned.pc.trans henters.ra) (by rw [hreturned.npc, henters.ra]; rfl)
      ((hreturned.saved .sp (by decide)).trans henters.sp) hkept
    exact ⟨d, e, f, hcalls, henters, hhandler, hreturned, hresume, hresumes⟩

def countHandler : List Word :=
  [0x25080001, 0x01000013, 0xafa80000, 0x03e00008, 0x00001021]

def wrapperBench : Platform Uart :=
  { bench with code := codeOf (wrapperPieces ++ [(0x10000008, countHandler)]) }

def interrupted (sp : Addr) : Cpu Uart where
  core := ⟨fun r => if r = .sp then sp else 7#32, 0x100000e0#32, 0x100000e4#32, fun _ => 0#8,
    ⟨[], 0, []⟩⟩
  hi := 5#32
  lo := 3#32
  epc := 0x00002000#32
  status := 0#32

theorem wrapperBench_range {a : Addr} {w : Word} (h : wrapperBench.code a = some w) :
    0x10000000 ≤ a.toNat ∧ a.toNat < 0x10010000 :=
  codeOf_range (show Placed (wrapperPieces ++ [(0x10000008, countHandler)]) by decide) h

theorem wrapperBench_code : Pieces wrapperBench wrapperPieces := by
  have hcode (a : Addr) (w : Word) (h : codeOf wrapperPieces a = some w) :
      wrapperBench.code a = some w := by
    simp only [wrapperBench, codeOf, List.findSome?_append] at h ⊢
    simp [h]
  refine ⟨hcode, fun a w h => ?_⟩
  have hrange := wrapperBench_range (hcode _ w h)
  have halign := alignAddr_near a
  simp only [wrapperBench, bench, decide_eq_false_iff_not]
  omega

theorem wrapperBench_stack {sp : Addr} (halign : sp.toNat % 4 = 0)
    (hroom : ∀ a, Below sp 128 a → a.toNat < 0x10000000 ∨ 0x20000000 ≤ a.toNat) :
    Stack wrapperBench sp 128 := by
  refine ⟨halign, fun a ha => ⟨⟨?_, ?_⟩, rfl⟩⟩
  · have hfar := hroom a ha
    simp only [wrapperBench, bench, decide_eq_false_iff_not]
    omega
  · cases hc : wrapperBench.code (alignAddr a) with
    | none => rfl
    | some w =>
      have hrange := wrapperBench_range hc
      have hnear := alignAddr_near a
      have hfar := hroom a ha
      omega

theorem countHandler_obeys {sp : Addr} (hplain : wrapperBench.Plain (sp + 0xffffff80#32)) :
    Obeys wrapperBench (fun _ => none) (interrupted sp) := by
  intro d henters
  obtain ⟨⟨regs, pc, npc, mem, dev⟩, hi, lo, epc, status⟩ := d
  obtain rfl : pc = 0x10000008#32 := henters.pc
  obtain rfl : npc = 0x1000000c#32 := henters.npc
  have hsp : regs.get .sp = sp + 0xffffff80#32 := henters.sp
  have hra : regs.get .ra = 0x100005f8#32 := henters.ra
  have hcode : wrapperBench.fetchSys 0x10000008#32 = some (.base (.addiu .t0 .t0 1)) ∧
      wrapperBench.fetchSys 0x1000000c#32 = some (.mtlo .t0) ∧
      wrapperBench.fetchSys 0x10000010#32 = some (.base (.sw .t0 0 .sp)) ∧
      wrapperBench.fetchSys 0x10000014#32 = some (.base (.jr .ra)) ∧
      wrapperBench.fetchSys 0x10000018#32 = some (.base (.addu .v0 .zero .zero)) := by
    constructorm* _ ∧ _ <;> rfl
  refine ⟨⟨⟨(regs.set .t0 (regs.get .t0 + 1#32)).set .v0 0#32, 0x100005f8#32, 0x100005fc#32,
    mem.writeWord (sp + 0xffffff80#32) (regs.get .t0 + 1#32), dev⟩, hi, regs.get .t0 + 1#32, epc,
    status⟩, .of_run (n := 5) (by simp [hcode, hsp, hra, hplain]), by simp [hra], by simp [hra],
    fun r hr => ?saved, fun a ha => ?frames⟩
  case saved =>
    revert hr
    cases r <;> simp [Reg.calleeSaved]
  case frames =>
    simp only [hsp, InRange] at ha
    exact Mem.writeWord_outside _ _ _ (by bv_omega)

theorem wrapper_transparent_count :
    Transparent wrapperBench (fun _ => none) (interrupted 0x01000f00#32) ↔
      (0x01000f00#32).toNat % 4 = 0 ∧
        ¬ (0x80000000 ≤ (0x01000f00#32).toNat ∧ (0x01000f00#32).toNat < 0x80000068) :=
  have hstack : Stack wrapperBench 0x01000f00#32 128 :=
    wrapperBench_stack (by decide) fun a ha => by unfold Below at ha; bv_omega
  wrapper_transparent (c := interrupted 0x01000f00#32) wrapperBench_code hstack.room rfl rfl
    (countHandler_obeys (hstack.plain (by decide) (by decide)))

/-- The same handler, and room for the frames, but the frame starts at 0x7fffff98. -/
theorem wrapper_transparent_middle :
    Stack wrapperBench 0x80000000#32 128 ∧
      Obeys wrapperBench (fun _ => none) (interrupted 0x80000000#32) ∧
      ¬ Transparent wrapperBench (fun _ => none) (interrupted 0x80000000#32) := by
  have hstack : Stack wrapperBench 0x80000000#32 128 :=
    wrapperBench_stack (by decide) fun a ha => by unfold Below at ha; bv_omega
  exact ⟨hstack, countHandler_obeys (hstack.plain (by decide) (by decide)),
    wrapper_traps wrapperBench_code rfl (by decide)⟩

end W2
