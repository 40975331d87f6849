import W2.Mips.Exec

/-!
# Exceptions

What an exception handler sees of the processor besides the machine: the registers `HI` and
`LO` of the multiplier, and of coprocessor 0 the address that was interrupted and the status
register, whose low bits are a stack of modes that `rfe` pops. An instruction that is not
among these, or that is not in the read-only code, is a parameter.
-/

namespace Mips

open Transition

structure Cpu (δ : Type) where
  core : State δ
  hi : Word
  lo : Word
  epc : Word
  status : Word

inductive Cop0
  | status | epc
  deriving DecidableEq, Repr

def Cop0.ofField (n : BitVec 5) : Option Cop0 :=
  match n.toNat with
  | 12 => some .status
  | 14 => some .epc
  | _ => none

inductive SysInstr
  | base (i : Instr)
  | addi (rt rs : Reg) (imm : BitVec 16)
  | mfhi (rd : Reg)
  | mflo (rd : Reg)
  | mthi (rs : Reg)
  | mtlo (rs : Reg)
  | mfc0 (rt : Reg) (rd : Cop0)
  | rfe
  deriving DecidableEq, Repr

def decodeSys (w : Word) : Option SysInstr :=
  let rs := Reg.ofField (w.extractLsb' 21 5)
  let rt := Reg.ofField (w.extractLsb' 16 5)
  let rd := w.extractLsb' 11 5
  match (w.extractLsb' 26 6).toNat, (w.extractLsb' 0 6).toNat with
  | 0x00, 0x10 => some (.mfhi (.ofField rd))
  | 0x00, 0x11 => some (.mthi rs)
  | 0x00, 0x12 => some (.mflo (.ofField rd))
  | 0x00, 0x13 => some (.mtlo rs)
  | 0x08, _ => some (.addi rt rs (w.extractLsb' 0 16))
  | 0x10, _ =>
    if w = 0x42000010#32 then some .rfe
    else if w.extractLsb' 21 5 = 0#5 then (Cop0.ofField rd).map (.mfc0 rt)
    else none
  | _, _ => (decode w).map .base

variable {δ : Type}

def Cpu.cop0 (c : Cpu δ) : Cop0 → Word
  | .status => c.status
  | .epc => c.epc

def addSigned (v w : Word) : Option Word :=
  if BitVec.saddOverflow v w then none else some (v + w)

theorem addSigned_some {v w : Word} (h : BitVec.saddOverflow v w = false) :
    addSigned v w = some (v + w) := by
  rw [addSigned, h]
  rfl

theorem addSigned_none {v w : Word} (h : BitVec.saddOverflow v w = true) :
    addSigned v w = none := by
  rw [addSigned, h]
  rfl

@[simp] theorem addSigned_zero (v : Word) : addSigned v 0#32 = some v := by
  have := v.toInt_lt
  have := v.le_toInt
  rw [addSigned_some, BitVec.add_zero]
  simp only [BitVec.saddOverflow, BitVec.toInt_zero, Bool.or_eq_false_iff, decide_eq_false_iff_not]
  omega

def execSys (P : Platform δ) (c : Cpu δ) : SysInstr → Option (Cpu δ)
  | .base i => (exec P c.core i).map fun s => { c with core := s }
  | .addi rt rs imm =>
    (addSigned (c.core.regs.get rs) (imm.signExtend 32)).map fun v =>
      { c with core := c.core.put rt v }
  | .mfhi rd => some { c with core := c.core.put rd c.hi }
  | .mflo rd => some { c with core := c.core.put rd c.lo }
  | .mthi rs => some { c with core := c.core.skip, hi := c.core.regs.get rs }
  | .mtlo rs => some { c with core := c.core.skip, lo := c.core.regs.get rs }
  | .mfc0 rt rd => some { c with core := c.core.put rt (c.cop0 rd) }
  | .rfe =>
    some { c with
      core := c.core.skip, status := c.status &&& 0xfffffff0#32 ||| c.status >>> 2 &&& 0xf#32 }

def Platform.fetchSys (P : Platform δ) (a : Addr) : Option SysInstr := (P.code a).bind decodeSys

/-- What happens at an instruction, if it is one of these. It is kept apart from `Option.elim` so
that it unfolds only at a known instruction. -/
def dispatch (i : Option SysInstr) (otherwise : Option (Cpu δ))
    (exec : SysInstr → Option (Cpu δ)) : Option (Cpu δ) := i.elim otherwise exec

@[simp] theorem dispatch_some (i : SysInstr) (otherwise : Option (Cpu δ))
    (exec : SysInstr → Option (Cpu δ)) : dispatch (some i) otherwise exec = exec i := (rfl)

/-- A step of the processor, where `other` is what it does at an instruction that is none of
these. -/
def cpuStep (P : Platform δ) (other : Cpu δ → Option (Cpu δ)) (c : Cpu δ) : Option (Cpu δ) :=
  dispatch (P.fetchSys c.core.pc) (other c) (execSys P c)

section Instructions

variable (P : Platform δ) (other : Cpu δ → Option (Cpu δ)) (core : State δ)
  (regs : Regs) (pc npc : Addr) (mem : Mem) (dev : δ) (hi lo epc status : Word)

@[simp] theorem cpuStep_mk :
    cpuStep P other ⟨⟨regs, pc, npc, mem, dev⟩, hi, lo, epc, status⟩ =
      dispatch (P.fetchSys pc) (other ⟨⟨regs, pc, npc, mem, dev⟩, hi, lo, epc, status⟩)
        (execSys P ⟨⟨regs, pc, npc, mem, dev⟩, hi, lo, epc, status⟩) := (rfl)

@[simp] theorem execSys_base (i : Instr) :
    execSys P ⟨core, hi, lo, epc, status⟩ (.base i) =
      (exec P core i).map fun s => ⟨s, hi, lo, epc, status⟩ := (rfl)

@[simp] theorem execSys_addi (rt rs : Reg) (imm : BitVec 16) :
    execSys P ⟨⟨regs, pc, npc, mem, dev⟩, hi, lo, epc, status⟩ (.addi rt rs imm) =
      (addSigned (regs.get rs) (imm.signExtend 32)).map fun v =>
        ⟨⟨regs.set rt v, npc, npc + 4#32, mem, dev⟩, hi, lo, epc, status⟩ := (rfl)

@[simp] theorem execSys_mfhi (rd : Reg) :
    execSys P ⟨⟨regs, pc, npc, mem, dev⟩, hi, lo, epc, status⟩ (.mfhi rd) =
      some ⟨⟨regs.set rd hi, npc, npc + 4#32, mem, dev⟩, hi, lo, epc, status⟩ := (rfl)

@[simp] theorem execSys_mflo (rd : Reg) :
    execSys P ⟨⟨regs, pc, npc, mem, dev⟩, hi, lo, epc, status⟩ (.mflo rd) =
      some ⟨⟨regs.set rd lo, npc, npc + 4#32, mem, dev⟩, hi, lo, epc, status⟩ := (rfl)

@[simp] theorem execSys_mthi (rs : Reg) :
    execSys P ⟨⟨regs, pc, npc, mem, dev⟩, hi, lo, epc, status⟩ (.mthi rs) =
      some ⟨⟨regs, npc, npc + 4#32, mem, dev⟩, regs.get rs, lo, epc, status⟩ := (rfl)

@[simp] theorem execSys_mtlo (rs : Reg) :
    execSys P ⟨⟨regs, pc, npc, mem, dev⟩, hi, lo, epc, status⟩ (.mtlo rs) =
      some ⟨⟨regs, npc, npc + 4#32, mem, dev⟩, hi, regs.get rs, epc, status⟩ := (rfl)

@[simp] theorem execSys_mfc0 (rt : Reg) (rd : Cop0) :
    execSys P ⟨⟨regs, pc, npc, mem, dev⟩, hi, lo, epc, status⟩ (.mfc0 rt rd) =
      some ⟨⟨regs.set rt (Cpu.cop0 ⟨⟨regs, pc, npc, mem, dev⟩, hi, lo, epc, status⟩ rd),
        npc, npc + 4#32, mem, dev⟩, hi, lo, epc, status⟩ := (rfl)

@[simp] theorem execSys_rfe :
    execSys P ⟨⟨regs, pc, npc, mem, dev⟩, hi, lo, epc, status⟩ .rfe =
      some ⟨⟨regs, npc, npc + 4#32, mem, dev⟩, hi, lo, epc,
        status &&& 0xfffffff0#32 ||| status >>> 2 &&& 0xf#32⟩ := (rfl)

end Instructions

section Base

variable {P : Platform δ} {other : Cpu δ → Option (Cpu δ)} {s t : State δ}

theorem decodeSys_base {w : Word} {i : Instr} (h : decode w = some i) :
    decodeSys w = some (.base i) := by
  unfold decodeSys
  split
  case h_7 => rw [h, Option.map_some]
  all_goals simp_all [decode, decodeSpecial]

theorem cpuStep_base (h : step P s = some t) (hi lo epc status : Word) :
    cpuStep P other ⟨s, hi, lo, epc, status⟩ = some ⟨t, hi, lo, epc, status⟩ := by
  obtain ⟨i, hfetch, hexec⟩ := Option.bind_eq_some_iff.mp h
  obtain ⟨w, hw, hd⟩ := Option.bind_eq_some_iff.mp hfetch
  have hsys : P.fetchSys s.pc = some (.base i) :=
    Option.bind_eq_some_iff.mpr ⟨w, hw, decodeSys_base hd⟩
  rw [cpuStep, hsys, dispatch_some, execSys_base, hexec]
  rfl

theorem cpuSteps_base (h : Steps (step P) s t) (hi lo epc status : Word) :
    Steps (cpuStep P other) ⟨s, hi, lo, epc, status⟩ ⟨t, hi, lo, epc, status⟩ := by
  induction h with
  | refl => exact Steps.refl _
  | tail _ hlast ih => exact ih.trans (Steps.single (cpuStep_base hlast hi lo epc status))

end Base

def Reg.calleeSaved : List Reg := [.s0, .s1, .s2, .s3, .s4, .s5, .s6, .s7, .s8, .gp, .sp]

/-- `d` is a return, by the o32 convention, from the subroutine that was entered with `c`. The `n`
bytes above the argument area are the callers' frames. -/
structure Returned (n : ℕ) (c d : Cpu δ) : Prop where
  pc : d.core.pc = c.core.regs.get .ra
  npc : d.core.npc = c.core.regs.get .ra + 4#32
  saved : ∀ r ∈ Reg.calleeSaved, d.core.regs.get r = c.core.regs.get r
  frames : ∀ a, InRange (c.core.regs.get .sp + 16#32) n a → d.core.mem a = c.core.mem a

end Mips
