import W2.Mips.Machine

/-!
# Symbolic execution

One equation for each instruction, on a state given by its components. With the listing of a
routine they let `simp` compute the state after a run of literal length; loads and stores
carry the side condition that says what the address is.
-/

namespace Mips

open Transition

section Instructions

variable {δ : Type} (P : Platform δ) (regs : Regs) (pc npc : Addr) (mem : Mem) (dev : δ)

@[simp] theorem step_mk :
    step P ⟨regs, pc, npc, mem, dev⟩ =
      andThen (P.fetch pc) (exec P ⟨regs, pc, npc, mem, dev⟩) := (rfl)

@[simp] theorem exec_sll (rd rt : Reg) (sa : BitVec 5) :
    exec P ⟨regs, pc, npc, mem, dev⟩ (.sll rd rt sa) =
      some ⟨regs.set rd (regs.get rt <<< sa.toNat), npc, npc + 4#32, mem, dev⟩ := (rfl)

@[simp] theorem exec_srl (rd rt : Reg) (sa : BitVec 5) :
    exec P ⟨regs, pc, npc, mem, dev⟩ (.srl rd rt sa) =
      some ⟨regs.set rd (regs.get rt >>> sa.toNat), npc, npc + 4#32, mem, dev⟩ := (rfl)

@[simp] theorem exec_jr (rs : Reg) :
    exec P ⟨regs, pc, npc, mem, dev⟩ (.jr rs) = some ⟨regs, npc, regs.get rs, mem, dev⟩ := (rfl)

@[simp] theorem exec_jalr (rd rs : Reg) :
    exec P ⟨regs, pc, npc, mem, dev⟩ (.jalr rd rs) =
      some ⟨regs.set rd (pc + 8#32), npc, regs.get rs, mem, dev⟩ := (rfl)

@[simp] theorem exec_addu (rd rs rt : Reg) :
    exec P ⟨regs, pc, npc, mem, dev⟩ (.addu rd rs rt) =
      some ⟨regs.set rd (regs.get rs + regs.get rt), npc, npc + 4#32, mem, dev⟩ := (rfl)

@[simp] theorem exec_sltu (rd rs rt : Reg) :
    exec P ⟨regs, pc, npc, mem, dev⟩ (.sltu rd rs rt) =
      some ⟨regs.set rd (if (regs.get rs).ult (regs.get rt) then 1#32 else 0#32),
        npc, npc + 4#32, mem, dev⟩ := (rfl)

@[simp] theorem exec_beq (rs rt : Reg) (offset : BitVec 16) :
    exec P ⟨regs, pc, npc, mem, dev⟩ (.beq rs rt offset) =
      some ⟨regs, npc,
        if regs.get rs = regs.get rt then branchTarget pc offset else npc + 4#32, mem, dev⟩ :=
  (rfl)

@[simp] theorem exec_bne (rs rt : Reg) (offset : BitVec 16) :
    exec P ⟨regs, pc, npc, mem, dev⟩ (.bne rs rt offset) =
      some ⟨regs, npc,
        if regs.get rs = regs.get rt then npc + 4#32 else branchTarget pc offset, mem, dev⟩ :=
  (rfl)

@[simp] theorem exec_blez (rs : Reg) (offset : BitVec 16) :
    exec P ⟨regs, pc, npc, mem, dev⟩ (.blez rs offset) =
      some ⟨regs, npc,
        if (regs.get rs).toInt ≤ 0 then branchTarget pc offset else npc + 4#32, mem, dev⟩ :=
  (rfl)

@[simp] theorem exec_addiu (rt rs : Reg) (imm : BitVec 16) :
    exec P ⟨regs, pc, npc, mem, dev⟩ (.addiu rt rs imm) =
      some ⟨regs.set rt (regs.get rs + imm.signExtend 32), npc, npc + 4#32, mem, dev⟩ := (rfl)

@[simp] theorem exec_slti (rt rs : Reg) (imm : BitVec 16) :
    exec P ⟨regs, pc, npc, mem, dev⟩ (.slti rt rs imm) =
      some ⟨regs.set rt (if (regs.get rs).slt (imm.signExtend 32) then 1#32 else 0#32),
        npc, npc + 4#32, mem, dev⟩ := (rfl)

@[simp] theorem exec_sltiu (rt rs : Reg) (imm : BitVec 16) :
    exec P ⟨regs, pc, npc, mem, dev⟩ (.sltiu rt rs imm) =
      some ⟨regs.set rt (if (regs.get rs).ult (imm.signExtend 32) then 1#32 else 0#32),
        npc, npc + 4#32, mem, dev⟩ := (rfl)

@[simp] theorem exec_andi (rt rs : Reg) (imm : BitVec 16) :
    exec P ⟨regs, pc, npc, mem, dev⟩ (.andi rt rs imm) =
      some ⟨regs.set rt (regs.get rs &&& imm.setWidth 32), npc, npc + 4#32, mem, dev⟩ := (rfl)

@[simp] theorem exec_ori (rt rs : Reg) (imm : BitVec 16) :
    exec P ⟨regs, pc, npc, mem, dev⟩ (.ori rt rs imm) =
      some ⟨regs.set rt (regs.get rs ||| imm.setWidth 32), npc, npc + 4#32, mem, dev⟩ := (rfl)

@[simp] theorem exec_lui (rt : Reg) (imm : BitVec 16) :
    exec P ⟨regs, pc, npc, mem, dev⟩ (.lui rt imm) =
      some ⟨regs.set rt (imm ++ 0#16), npc, npc + 4#32, mem, dev⟩ := (rfl)

@[simp] theorem exec_j (target : BitVec 26) :
    exec P ⟨regs, pc, npc, mem, dev⟩ (.j target) =
      some ⟨regs, npc, jumpTarget pc target, mem, dev⟩ := (rfl)

@[simp] theorem exec_jal (target : BitVec 26) :
    exec P ⟨regs, pc, npc, mem, dev⟩ (.jal target) =
      some ⟨regs.set .ra (pc + 8#32), npc, jumpTarget pc target, mem, dev⟩ := (rfl)

def Calls (P : Platform δ) (pc target : Addr) : Prop :=
  ∃ t, P.fetch pc = some (.jal t) ∧ jumpTarget pc t = target

def Jumps (P : Platform δ) (pc target : Addr) : Prop :=
  ∃ t, P.fetch pc = some (.j t) ∧ jumpTarget pc t = target

variable {P pc}

theorem Calls.run {target : Addr} (h : Calls P pc target) :
    andThen (P.fetch pc) (exec P ⟨regs, pc, npc, mem, dev⟩) =
      some ⟨regs.set .ra (pc + 8#32), npc, target, mem, dev⟩ := by
  obtain ⟨t, ht, rfl⟩ := h
  rw [ht]
  rfl

theorem Jumps.run {target : Addr} (h : Jumps P pc target) :
    andThen (P.fetch pc) (exec P ⟨regs, pc, npc, mem, dev⟩) =
      some ⟨regs, npc, target, mem, dev⟩ := by
  obtain ⟨t, ht, rfl⟩ := h
  rw [ht]
  rfl

variable (pc) {regs}

theorem Platform.Ram.readByte {a : Addr} (h : P.Ram a) (m : Mem) :
    P.readByte m a = some (m a) := by
  simp [Platform.readByte, h.1, h.2]

theorem alignAddr_of_aligned {a : Addr} (h : a.toNat % 4 = 0) : alignAddr a = a := by
  have h0 : a &&& 3#32 = 0#32 := by
    apply BitVec.eq_of_toNat_eq
    rw [BitVec.toNat_and, show (3#32).toNat = 2 ^ 2 - 1 from rfl, Nat.and_two_pow_sub_one_eq_mod]
    simpa using h
  have hsplit : a = (a &&& 0xfffffffc#32) ||| (a &&& 3#32) := by
    rw [← BitVec.and_or_distrib_left]
    exact BitVec.and_allOnes.symm
  rw [h0, BitVec.or_zero] at hsplit
  exact hsplit.symm

theorem Platform.RamWord.readWord {a : Addr} (h : P.RamWord a) (m : Mem) :
    P.readWord m a = some (m.readWord a) := by
  have hcode : P.code a = none := alignAddr_of_aligned h.2 ▸ h.1.2
  simp [Platform.readWord, h.1.1, h.2, hcode]

theorem Platform.RamWord.fetch {a : Addr} (h : P.RamWord a) : P.fetch a = none := by
  have hcode : P.code a = none := alignAddr_of_aligned h.2 ▸ h.1.2
  rw [Platform.fetch, hcode]
  rfl

@[simp] theorem exec_lb (rt base : Reg) (offset : BitVec 16) :
    exec P ⟨regs, pc, npc, mem, dev⟩ (.lb rt offset base) =
      (P.readByte mem (regs.get base + offset.signExtend 32)).map fun b =>
        ⟨regs.set rt (b.signExtend 32), npc, npc + 4#32, mem, dev⟩ := (rfl)

@[simp] theorem exec_lbu (rt base : Reg) (offset : BitVec 16) :
    exec P ⟨regs, pc, npc, mem, dev⟩ (.lbu rt offset base) =
      (P.readByte mem (regs.get base + offset.signExtend 32)).map fun b =>
        ⟨regs.set rt (b.setWidth 32), npc, npc + 4#32, mem, dev⟩ := (rfl)

@[simp] theorem exec_lw (rt base : Reg) (offset : BitVec 16)
    (h : P.RamWord (regs.get base + offset.signExtend 32)) :
    exec P ⟨regs, pc, npc, mem, dev⟩ (.lw rt offset base) =
      some ⟨regs.set rt (mem.readWord (regs.get base + offset.signExtend 32)),
        npc, npc + 4#32, mem, dev⟩ := by
  simp only [exec, h.1.1, h.readWord, Bool.false_eq_true, if_false, Option.map_some]
  rfl

theorem exec_lw_code (rt base : Reg) (offset : BitVec 16) {a w : Word}
    (ha : regs.get base + offset.signExtend 32 = a) (hd : P.device a = false)
    (halign : a.toNat % 4 = 0) (hw : P.code a = some w) :
    exec P ⟨regs, pc, npc, mem, dev⟩ (.lw rt offset base) =
      some ⟨regs.set rt w, npc, npc + 4#32, mem, dev⟩ := by
  subst ha
  simp only [exec, hd, Bool.false_eq_true, if_false, Platform.readWord, halign, and_self, if_true,
    hw, Option.map_some]
  rfl

@[simp] theorem exec_lw_device (rt base : Reg) (offset : BitVec 16)
    (h : P.device (regs.get base + offset.signExtend 32) = true) :
    exec P ⟨regs, pc, npc, mem, dev⟩ (.lw rt offset base) =
      (P.load dev (regs.get base + offset.signExtend 32)).map fun r =>
        ⟨regs.set rt r.1, npc, npc + 4#32, mem, r.2⟩ := by
  simp only [exec, h, if_true]
  rfl

@[simp] theorem exec_sw (rt base : Reg) (offset : BitVec 16)
    (h : P.Plain (regs.get base + offset.signExtend 32)) :
    exec P ⟨regs, pc, npc, mem, dev⟩ (.sw rt offset base) =
      some ⟨regs, npc, npc + 4#32,
        mem.writeWord (regs.get base + offset.signExtend 32) (regs.get rt), dev⟩ := by
  simp only [exec, h.1.1.1, Bool.false_eq_true, if_false, h, if_true]
  rfl

@[simp] theorem exec_sw_device (rt base : Reg) (offset : BitVec 16)
    (h : P.device (regs.get base + offset.signExtend 32) = true) :
    exec P ⟨regs, pc, npc, mem, dev⟩ (.sw rt offset base) =
      (P.store dev (regs.get base + offset.signExtend 32) (regs.get rt)).map fun d =>
        ⟨regs, npc, npc + 4#32, mem, d⟩ := by
  simp only [exec, h, if_true]
  rfl

@[simp] theorem exec_sb (rt base : Reg) (offset : BitVec 16)
    (h : P.Ram (regs.get base + offset.signExtend 32))
    (hw : P.writable (regs.get base + offset.signExtend 32) = true) :
    exec P ⟨regs, pc, npc, mem, dev⟩ (.sb rt offset base) =
      some ⟨regs, npc, npc + 4#32,
        mem.writeByte (regs.get base + offset.signExtend 32) ((regs.get rt).setWidth 8), dev⟩ := by
  simp only [exec, h.1, Bool.false_eq_true, if_false, h, hw, and_self, if_true]
  rfl

@[simp] theorem exec_sb_device (rt base : Reg) (offset : BitVec 16)
    (h : P.device (regs.get base + offset.signExtend 32) = true) :
    exec P ⟨regs, pc, npc, mem, dev⟩ (.sb rt offset base) =
      (P.store dev (regs.get base + offset.signExtend 32)
        (((regs.get rt).setWidth 8).setWidth 32)).map fun d =>
          ⟨regs, npc, npc + 4#32, mem, d⟩ := by
  simp only [exec, h, if_true]
  rfl

end Instructions

section Stack

variable {δ : Type} {P : Platform δ}

structure Stack (P : Platform δ) (sp : Addr) (n : ℕ) : Prop where
  aligned : sp.toNat % 4 = 0
  room : ∀ a, Below sp n a → P.Ram a ∧ P.writable a = true

variable {sp : Addr} {n k : ℕ} {c : Word}

theorem Stack.plain (h : Stack P sp n) (hc : c.toNat % 4 = 0) (hn : 4294967296 ≤ c.toNat + n) :
    P.Plain (sp + c) := by
  have hb : Below sp n (sp + c) := by unfold Below; bv_omega
  have ha := h.aligned
  exact ⟨⟨(h.room _ hb).1, by bv_omega⟩, (h.room _ hb).2⟩

theorem Stack.ramWord (h : Stack P sp n) (hc : c.toNat % 4 = 0)
    (hn : 4294967296 ≤ c.toNat + n) : P.RamWord (sp + c) := (h.plain hc hn).1

theorem Stack.weaken (h : Stack P sp n) (hk : k ≤ n) : Stack P sp k :=
  ⟨h.aligned, fun a ha => h.room a (ha.weaken hk)⟩

theorem Stack.callee (h : Stack P sp n) (hc : c.toNat % 4 = 0) (hk : (-c).toNat + k ≤ n) :
    Stack P (sp + c) k := by
  have ha := h.aligned
  exact ⟨by bv_omega, fun a hb => h.room a (hb.mono hk)⟩

theorem Stack.confine {area : Addr → Prop} [DecidablePred area] (h : Stack P sp n)
    (harea : ∀ a, Below sp n a → area a) : Stack (P.confine area) sp n :=
  ⟨h.aligned, fun a ha => ⟨(h.room a ha).1, by simp [Platform.confine, h.room a ha, harea a ha]⟩⟩

/-- `n` words from `a` upwards that a program may load and store: aligned, without wrapping,
in plain memory and apart from the hidden addresses. -/
structure Span (P : Platform δ) (hidden : Addr → Prop) (a : Addr) (n : ℕ) : Prop where
  aligned : a.toNat % 4 = 0
  fits : a.toNat + 4 * n ≤ 4294967296
  plain : ∀ x, InRange a (4 * n) x → P.Ram x ∧ P.writable x = true ∧ ¬ hidden x

variable {hidden hidden' : Addr → Prop} {a : Addr} {j : ℕ}

theorem Span.word (h : Span P hidden a n) (hj : j < n) : P.Plain (a + BitVec.ofNat 32 (4 * j)) := by
  have ha := h.aligned
  have hfits := h.fits
  have hin : InRange a (4 * n) (a + BitVec.ofNat 32 (4 * j)) := by unfold InRange; bv_omega
  obtain ⟨hram, hw, -⟩ := h.plain _ hin
  exact ⟨⟨hram, by bv_omega⟩, hw⟩

theorem Span.tail (h : Span P hidden a (n + 1)) (hn : 0 < n) : Span P hidden (a + 4#32) n := by
  have ha := h.aligned
  have hfits := h.fits
  exact ⟨by bv_omega, by bv_omega, fun x hx => h.plain x (by unfold InRange at *; bv_omega)⟩

theorem Span.first {k : ℕ} (h : Span P hidden a n) (hk : k ≤ n) : Span P hidden a k :=
  ⟨h.aligned, by have := h.fits; omega, fun x hx => h.plain x (by unfold InRange at *; omega)⟩

theorem Span.readWord {m m' : Mem} (h : Span P hidden a n) (hj : j < n)
    (hagree : Agree hidden m m') :
    m'.readWord (a + BitVec.ofNat 32 (4 * j)) = m.readWord (a + BitVec.ofNat 32 (4 * j)) := by
  refine hagree.readWord fun i hi => (h.plain _ ?_).2.2
  have hfits := h.fits
  unfold InRange
  bv_omega

theorem Span.confine {area : Addr → Prop} [DecidablePred area] (h : Span P hidden a n)
    (harea : ∀ x, InRange a (4 * n) x → area x) : Span (P.confine area) hidden a n :=
  ⟨h.aligned, h.fits, fun x hx =>
    ⟨(h.plain x hx).1, by simp [Platform.confine, h.plain x hx, harea x hx], (h.plain x hx).2.2⟩⟩

theorem Span.mono (h : Span P hidden a n) (hsub : ∀ x, hidden' x → hidden x) :
    Span P hidden' a n :=
  ⟨h.aligned, h.fits, fun x hx =>
    ⟨(h.plain x hx).1, (h.plain x hx).2.1, fun hh => (h.plain x hx).2.2 (hsub x hh)⟩⟩

end Stack

section Saved

/-- Where a routine saves registers, as offsets from the caller's stack pointer. -/
abbrev Slots := List (Word × Reg)

def Slots.Within (slots : Slots) (n : ℕ) : Prop :=
  ∀ p ∈ slots, 4 ≤ (-p.1).toNat ∧ (-p.1).toNat ≤ n

instance (slots : Slots) (n : ℕ) : Decidable (slots.Within n) :=
  inferInstanceAs (Decidable (∀ p ∈ slots, _))

def save (mem : Mem) (sp : Addr) (regs : Regs) : Slots → Mem
  | [] => mem
  | p :: slots => save (mem.writeWord (sp + p.1) (regs.get p.2)) sp regs slots

def restore (mem : Mem) (sp : Addr) (regs : Regs) : Slots → Regs
  | [] => regs
  | p :: slots => restore mem sp (regs.set p.2 (mem.readWord (sp + p.1))) slots

def Saved (slots : Slots) (mem : Mem) (sp : Addr) (regs : Regs) : Prop :=
  ∀ p ∈ slots, mem.readWord (sp + p.1) = regs.get p.2

variable {slots : Slots} {mem mem' : Mem} {sp : Addr} {regs : Regs} {n k : ℕ}

theorem save_frame (h : slots.Within n) (mem : Mem) (sp : Addr) (regs : Regs) :
    Frame sp n mem (save mem sp regs slots) := by
  induction slots generalizing mem with
  | nil => exact Agree.refl _ mem
  | cons p slots ih =>
    obtain ⟨hlo, hhi⟩ := h p (by simp)
    exact (Frame.write (Agree.refl _ mem) _ hhi hlo).trans (ih (fun q hq => h q (by simp [hq])) _)

theorem Saved.restore (h : Saved slots mem sp regs) (regs' : Regs) {r : Reg}
    (hr : r ∈ slots.map Prod.snd ∨ regs'.get r = regs.get r) :
    (restore mem sp regs' slots).get r = regs.get r := by
  induction slots generalizing regs' with
  | nil =>
    rw [Mips.restore]
    simpa using hr
  | cons p slots ih =>
    refine ih (fun q hq => h q (by simp [hq])) _ ?_
    by_cases hp : r = p.2
    · subst hp
      right
      by_cases hzero : p.2 = .zero <;> simp [hzero, h p]
    · refine hr.imp (fun hmem => ?_) fun hkept => ?_
      · simpa [hp] using hmem
      · by_cases hzero : r = .zero <;> simp [hzero, hp, hkept]

theorem Saved.agree (h : Saved slots mem sp regs) (hs : slots.Within n)
    (hmem : ∀ x, Below sp n x → mem' x = mem x) : Saved slots mem' sp regs := by
  intro p hp
  obtain ⟨hlo, hhi⟩ := hs p hp
  rw [← h p hp]
  exact Mem.readWord_congr fun i hi => hmem _ (by unfold Below; bv_omega)

theorem Saved.frame {c : Word} (h : Saved slots mem sp regs) (hs : slots.Within (-c).toNat)
    (hmem : Frame (sp + c) k mem mem') (hk : (-c).toNat + k < 4294967296) :
    Saved slots mem' sp regs :=
  h.agree hs fun x hx => hmem x (by unfold Below at *; bv_omega)

end Saved

end Mips
