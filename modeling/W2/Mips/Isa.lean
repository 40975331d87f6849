import Mathlib.Data.BitVec

/-!
# A MIPS-I integer subset

Registers, instructions in assembly operand order, and the decoder from machine words.
The encodings are those of the MIPS-I manual; a word outside the subset decodes to `none`.
-/

namespace Mips

abbrev Byte := BitVec 8
abbrev Word := BitVec 32
abbrev Addr := BitVec 32

inductive Reg
  | zero | at_ | v0 | v1 | a0 | a1 | a2 | a3
  | t0 | t1 | t2 | t3 | t4 | t5 | t6 | t7
  | s0 | s1 | s2 | s3 | s4 | s5 | s6 | s7
  | t8 | t9 | k0 | k1 | gp | sp | s8 | ra
  deriving DecidableEq, Repr

def Reg.all : List Reg :=
  [.zero, .at_, .v0, .v1, .a0, .a1, .a2, .a3, .t0, .t1, .t2, .t3, .t4, .t5, .t6, .t7,
   .s0, .s1, .s2, .s3, .s4, .s5, .s6, .s7, .t8, .t9, .k0, .k1, .gp, .sp, .s8, .ra]

def Reg.ofField (n : BitVec 5) : Reg := Reg.all.getD n.toNat .zero

/-- Registers a subroutine returns with the values it was entered with: the callee-saved
ones of the o32 convention, and `ra`, which every routine restores before `jr ra`. -/
abbrev Reg.Kept (r : Reg) : Prop :=
  r ∈ [.s0, .s1, .s2, .s3, .s4, .s5, .s6, .s7, .s8, .gp, .sp, .ra]

inductive Instr
  | sll (rd rt : Reg) (sa : BitVec 5)
  | srl (rd rt : Reg) (sa : BitVec 5)
  | jr (rs : Reg)
  | jalr (rd rs : Reg)
  | addu (rd rs rt : Reg)
  | sltu (rd rs rt : Reg)
  | beq (rs rt : Reg) (offset : BitVec 16)
  | bne (rs rt : Reg) (offset : BitVec 16)
  | blez (rs : Reg) (offset : BitVec 16)
  | addiu (rt rs : Reg) (imm : BitVec 16)
  | slti (rt rs : Reg) (imm : BitVec 16)
  | sltiu (rt rs : Reg) (imm : BitVec 16)
  | andi (rt rs : Reg) (imm : BitVec 16)
  | ori (rt rs : Reg) (imm : BitVec 16)
  | lui (rt : Reg) (imm : BitVec 16)
  | lb (rt : Reg) (offset : BitVec 16) (base : Reg)
  | lbu (rt : Reg) (offset : BitVec 16) (base : Reg)
  | lw (rt : Reg) (offset : BitVec 16) (base : Reg)
  | sb (rt : Reg) (offset : BitVec 16) (base : Reg)
  | sw (rt : Reg) (offset : BitVec 16) (base : Reg)
  | j (target : BitVec 26)
  | jal (target : BitVec 26)
  deriving DecidableEq, Repr

/-- `nop` is the all-zero word, a shift of `zero` into itself. -/
abbrev Instr.nop : Instr := .sll .zero .zero 0

def decodeSpecial (w : Word) : Option Instr :=
  let rs := Reg.ofField (w.extractLsb' 21 5)
  let rt := Reg.ofField (w.extractLsb' 16 5)
  let rd := Reg.ofField (w.extractLsb' 11 5)
  match (w.extractLsb' 0 6).toNat with
  | 0x00 => some (.sll rd rt (w.extractLsb' 6 5))
  | 0x02 => some (.srl rd rt (w.extractLsb' 6 5))
  | 0x08 => some (.jr rs)
  | 0x09 => some (.jalr rd rs)
  | 0x21 => some (.addu rd rs rt)
  | 0x2b => some (.sltu rd rs rt)
  | _ => none

def decode (w : Word) : Option Instr :=
  let rs := Reg.ofField (w.extractLsb' 21 5)
  let rt := Reg.ofField (w.extractLsb' 16 5)
  let imm := w.extractLsb' 0 16
  match (w.extractLsb' 26 6).toNat with
  | 0x00 => decodeSpecial w
  | 0x02 => some (.j (w.extractLsb' 0 26))
  | 0x03 => some (.jal (w.extractLsb' 0 26))
  | 0x04 => some (.beq rs rt imm)
  | 0x05 => some (.bne rs rt imm)
  | 0x06 => if rt = .zero then some (.blez rs imm) else none
  | 0x09 => some (.addiu rt rs imm)
  | 0x0a => some (.slti rt rs imm)
  | 0x0b => some (.sltiu rt rs imm)
  | 0x0c => some (.andi rt rs imm)
  | 0x0d => some (.ori rt rs imm)
  | 0x0f => some (.lui rt imm)
  | 0x20 => some (.lb rt imm rs)
  | 0x23 => some (.lw rt imm rs)
  | 0x24 => some (.lbu rt imm rs)
  | 0x28 => some (.sb rt imm rs)
  | 0x2b => some (.sw rt imm rs)
  | _ => none

end Mips
