import W2.Mips.Memory
import W2.Transition

/-!
# The MIPS machine

The machine executes read-only code next to byte memory and memory-mapped devices. The
pair `pc`, `npc` carries the branch delay slot: a branch only changes `npc`, so the
instruction after it is executed before the target is. A loaded value is visible to the
next instruction. An access the hardware would answer with an exception, and a store into
the code or into memory that is not writable, leaves the machine without a next state.
-/

namespace Mips

open Transition

def Regs := Reg → Word

def Regs.get (regs : Regs) (r : Reg) : Word := if r = .zero then 0#32 else regs r

def Regs.set (regs : Regs) (r : Reg) (v : Word) : Regs :=
  fun x => if x = r ∧ r ≠ .zero then v else regs x

@[simp] theorem Regs.get_zero (regs : Regs) : regs.get .zero = 0#32 := (rfl)

@[simp] theorem Regs.set_zero (regs : Regs) (v : Word) : regs.set .zero v = regs := by
  funext x
  simp [Regs.set]

@[simp] theorem Regs.set_set (regs : Regs) (r : Reg) (v w : Word) :
    (regs.set r v).set r w = regs.set r w := by
  funext x
  by_cases h : x = r ∧ r ≠ .zero <;> simp [Regs.set, h]

@[simp] theorem Regs.get_set (regs : Regs) (r r' : Reg) (v : Word) :
    (regs.set r v).get r' = if r' = .zero then 0#32 else if r' = r then v else regs.get r' := by
  by_cases h : r' = .zero
  · simp [Regs.get, h]
  · by_cases hr : r' = r
    · subst hr
      simp [Regs.get, Regs.set, h]
    · simp [Regs.get, Regs.set, h, hr]

def Regs.Keeps (regs regs' : Regs) : Prop := ∀ r : Reg, r.Kept → regs'.get r = regs.get r

theorem Regs.keeps_iff {regs regs' : Regs} :
    regs.Keeps regs' ↔
      regs'.get .s0 = regs.get .s0 ∧ regs'.get .s1 = regs.get .s1 ∧
      regs'.get .s2 = regs.get .s2 ∧ regs'.get .s3 = regs.get .s3 ∧
      regs'.get .s4 = regs.get .s4 ∧ regs'.get .s5 = regs.get .s5 ∧
      regs'.get .s6 = regs.get .s6 ∧ regs'.get .s7 = regs.get .s7 ∧
      regs'.get .s8 = regs.get .s8 ∧ regs'.get .gp = regs.get .gp ∧
      regs'.get .sp = regs.get .sp ∧ regs'.get .ra = regs.get .ra := by
  simp [Regs.Keeps]

theorem Regs.Keeps.refl (regs : Regs) : regs.Keeps regs := fun _ _ => rfl

theorem Regs.Keeps.get {regs regs' : Regs} (h : regs.Keeps regs') {r : Reg}
    (hr : r.Kept) : regs'.get r = regs.get r := h r hr

theorem Regs.Keeps.trans {r₁ r₂ r₃ : Regs} (h : r₁.Keeps r₂) (h' : r₂.Keeps r₃) :
    r₁.Keeps r₃ := fun r hr => (h' r hr).trans (h r hr)

def Regs.KeepsBut (used : List Reg) (regs regs' : Regs) : Prop :=
  ∀ r : Reg, r.Kept → r ∉ used → regs'.get r = regs.get r

theorem Regs.keepsBut_iff {used : List Reg} {regs regs' : Regs} :
    regs.KeepsBut used regs' ↔
      (.s0 ∉ used → regs'.get .s0 = regs.get .s0) ∧ (.s1 ∉ used → regs'.get .s1 = regs.get .s1) ∧
      (.s2 ∉ used → regs'.get .s2 = regs.get .s2) ∧ (.s3 ∉ used → regs'.get .s3 = regs.get .s3) ∧
      (.s4 ∉ used → regs'.get .s4 = regs.get .s4) ∧ (.s5 ∉ used → regs'.get .s5 = regs.get .s5) ∧
      (.s6 ∉ used → regs'.get .s6 = regs.get .s6) ∧ (.s7 ∉ used → regs'.get .s7 = regs.get .s7) ∧
      (.s8 ∉ used → regs'.get .s8 = regs.get .s8) ∧ (.gp ∉ used → regs'.get .gp = regs.get .gp) ∧
      (.sp ∉ used → regs'.get .sp = regs.get .sp) ∧
      (.ra ∉ used → regs'.get .ra = regs.get .ra) := by
  simp [Regs.KeepsBut]

theorem Regs.KeepsBut.get {used : List Reg} {regs regs' : Regs} (h : regs.KeepsBut used regs')
    {r : Reg} (hr : r.Kept) (hu : r ∉ used) : regs'.get r = regs.get r := h r hr hu

theorem Regs.KeepsBut.trans {used : List Reg} {r₁ r₂ r₃ : Regs} (h : r₁.KeepsBut used r₂)
    (h' : r₂.KeepsBut used r₃) : r₁.KeepsBut used r₃ :=
  fun r hr hu => (h' r hr hu).trans (h r hr hu)

theorem Regs.KeepsBut.mono {used used' : List Reg} {regs regs' : Regs}
    (h : regs.KeepsBut used regs') (hsub : used ⊆ used') : regs.KeepsBut used' regs' :=
  fun r hr hu => h r hr fun hmem => hu (hsub hmem)

theorem Regs.Keeps.but {regs regs' : Regs} (h : regs.Keeps regs') (used : List Reg) :
    regs.KeepsBut used regs' := fun r hr _ => h r hr

structure State (δ : Type) where
  regs : Regs
  pc : Addr
  npc : Addr
  mem : Mem
  dev : δ

/-- What surrounds the processor: the code in read-only memory, the addresses that belong to
devices, the memory that accepts stores, and the devices themselves. -/
structure Platform (δ : Type) where
  code : Addr → Option Word
  device : Addr → Bool
  writable : Addr → Bool
  load : δ → Addr → Option (Word × δ)
  store : δ → Addr → Word → Option δ

def alignAddr (a : Addr) : Addr := a &&& 0xfffffffc#32

namespace Platform

variable {δ : Type} (P : Platform δ)

/-- Neither a device nor code: a load from `a` reads the memory. -/
def Ram (a : Addr) : Prop := P.device a = false ∧ P.code (alignAddr a) = none

def RamWord (a : Addr) : Prop := P.Ram a ∧ a.toNat % 4 = 0

def Plain (a : Addr) : Prop := P.RamWord a ∧ P.writable a = true

instance (a : Addr) : Decidable (P.Ram a) := inferInstanceAs (Decidable (_ ∧ _))
instance (a : Addr) : Decidable (P.RamWord a) := inferInstanceAs (Decidable (_ ∧ _))
instance (a : Addr) : Decidable (P.Plain a) := inferInstanceAs (Decidable (_ ∧ _))

/-- The platform with its memory write-protected: a run of it is a run of `P` in which no
store reaches the memory. -/
def protect : Platform δ := { P with writable := fun _ => false }

/-- The platform with stores to memory refused unless they start in the area. -/
def confine (area : Addr → Prop) [DecidablePred area] : Platform δ :=
  { P with writable := fun a => P.writable a && decide (area a) }

def readWord (m : Mem) (a : Addr) : Option Word :=
  if P.device a = false ∧ a.toNat % 4 = 0 then
    match P.code a with
    | some w => some w
    | none => some (m.readWord a)
  else none

def readByte (m : Mem) (a : Addr) : Option Byte :=
  if P.device a = false then
    match P.code (alignAddr a) with
    | some w => some (byteOf w (a.toNat % 4))
    | none => some (m a)
  else none

def fetch (a : Addr) : Option Instr := (P.code a).bind decode

end Platform

/-- The target of a branch at `pc`: relative to the delay slot, in words. -/
@[simp] def branchTarget (pc : Addr) (offset : BitVec 16) : Addr :=
  pc + 4#32 + offset.signExtend 32 <<< 2

/-- The target of a jump at `pc`: a word address inside the 256 MB segment of the delay slot. -/
@[simp] def jumpTarget (pc : Addr) (target : BitVec 26) : Addr :=
  (pc + 4#32).extractLsb' 28 4 ++ target ++ 0#2

variable {δ : Type}

def State.put (s : State δ) (r : Reg) (v : Word) : State δ :=
  { s with regs := s.regs.set r v, pc := s.npc, npc := s.npc + 4#32 }

def State.goto (s : State δ) (a : Addr) : State δ := { s with pc := s.npc, npc := a }

def State.skip (s : State δ) : State δ := s.goto (s.npc + 4#32)

def exec (P : Platform δ) (s : State δ) : Instr → Option (State δ)
  | .sll rd rt sa => some (s.put rd (s.regs.get rt <<< sa.toNat))
  | .srl rd rt sa => some (s.put rd (s.regs.get rt >>> sa.toNat))
  | .jr rs => some (s.goto (s.regs.get rs))
  | .jalr rd rs => some { s.goto (s.regs.get rs) with regs := s.regs.set rd (s.pc + 8#32) }
  | .addu rd rs rt => some (s.put rd (s.regs.get rs + s.regs.get rt))
  | .sltu rd rs rt => some (s.put rd (if (s.regs.get rs).ult (s.regs.get rt) then 1#32 else 0#32))
  | .beq rs rt offset =>
    some (s.goto (if s.regs.get rs = s.regs.get rt then branchTarget s.pc offset else s.npc + 4#32))
  | .bne rs rt offset =>
    some (s.goto (if s.regs.get rs = s.regs.get rt then s.npc + 4#32 else branchTarget s.pc offset))
  | .blez rs offset =>
    some (s.goto (if (s.regs.get rs).toInt ≤ 0 then branchTarget s.pc offset else s.npc + 4#32))
  | .addiu rt rs imm => some (s.put rt (s.regs.get rs + imm.signExtend 32))
  | .slti rt rs imm =>
    some (s.put rt (if (s.regs.get rs).slt (imm.signExtend 32) then 1#32 else 0#32))
  | .sltiu rt rs imm =>
    some (s.put rt (if (s.regs.get rs).ult (imm.signExtend 32) then 1#32 else 0#32))
  | .andi rt rs imm => some (s.put rt (s.regs.get rs &&& imm.setWidth 32))
  | .ori rt rs imm => some (s.put rt (s.regs.get rs ||| imm.setWidth 32))
  | .lui rt imm => some (s.put rt (imm ++ 0#16))
  | .lb rt offset base =>
    (P.readByte s.mem (s.regs.get base + offset.signExtend 32)).map fun b =>
      s.put rt (b.signExtend 32)
  | .lbu rt offset base =>
    (P.readByte s.mem (s.regs.get base + offset.signExtend 32)).map fun b =>
      s.put rt (b.setWidth 32)
  | .lw rt offset base =>
    let a := s.regs.get base + offset.signExtend 32
    if P.device a then
      (P.load s.dev a).map fun r => { s.put rt r.1 with dev := r.2 }
    else
      (P.readWord s.mem a).map (s.put rt)
  | .sb rt offset base =>
    let a := s.regs.get base + offset.signExtend 32
    let b := (s.regs.get rt).setWidth 8
    if P.device a then
      (P.store s.dev a (b.setWidth 32)).map fun d => { s.skip with dev := d }
    else if P.Ram a ∧ P.writable a = true then some { s.skip with mem := s.mem.writeByte a b }
    else none
  | .sw rt offset base =>
    let a := s.regs.get base + offset.signExtend 32
    if P.device a then
      (P.store s.dev a (s.regs.get rt)).map fun d => { s.skip with dev := d }
    else if P.Plain a then some { s.skip with mem := s.mem.writeWord a (s.regs.get rt) }
    else none
  | .j target => some (s.goto (jumpTarget s.pc target))
  | .jal target =>
    some { s.goto (jumpTarget s.pc target) with regs := s.regs.set .ra (s.pc + 8#32) }

def step (P : Platform δ) (s : State δ) : Option (State δ) := andThen (P.fetch s.pc) (exec P s)

theorem exec_protect {P : Platform δ} {s t : State δ} {i : Instr}
    (h : exec P.protect s i = some t) : exec P s i = some t ∧ t.mem = s.mem := by
  cases i with
  | lb rt offset base | lbu rt offset base =>
    refine ⟨h, ?_⟩
    obtain ⟨b, -, rfl⟩ := Option.map_eq_some_iff.mp h
    rfl
  | lw rt offset base =>
    refine ⟨h, ?_⟩
    simp only [exec] at h
    split at h <;> obtain ⟨r, -, rfl⟩ := Option.map_eq_some_iff.mp h <;> rfl
  | sb rt offset base | sw rt offset base =>
    simp only [exec, Platform.protect, Platform.Plain, Bool.false_eq_true, and_false, if_false] at h
    simp only [exec]
    split at h
    next hdev =>
      obtain ⟨d, hd, rfl⟩ := Option.map_eq_some_iff.mp h
      exact ⟨by simp [hdev, hd], rfl⟩
    next => cases h
  | _ =>
    refine ⟨h, ?_⟩
    obtain rfl := Option.some.inj h
    rfl

theorem step_protect {P : Platform δ} {s t : State δ} (h : step P.protect s = some t) :
    step P s = some t ∧ t.mem = s.mem := by
  obtain ⟨i, hi, hexec⟩ := Option.bind_eq_some_iff.mp h
  obtain ⟨hstep, hmem⟩ := exec_protect hexec
  exact ⟨Option.bind_eq_some_iff.mpr ⟨i, hi, hstep⟩, hmem⟩

theorem steps_protect {P : Platform δ} {s t : State δ} (h : Steps (step P.protect) s t) :
    Steps (step P) s t ∧ t.mem = s.mem := by
  induction h with
  | refl => exact ⟨Steps.refl s, rfl⟩
  | tail _ hlast ih =>
    obtain ⟨hstep, hmem⟩ := step_protect hlast
    exact ⟨ih.1.trans (Steps.single hstep), hmem.trans ih.2⟩

theorem step_confine {P : Platform δ} {area : Addr → Prop} [DecidablePred area] {s t : State δ}
    (h : step (P.confine area) s = some t) : step P s = some t := by
  obtain ⟨i, hi, hexec⟩ := Option.bind_eq_some_iff.mp h
  refine Option.bind_eq_some_iff.mpr ⟨i, hi, ?_⟩
  cases i with
  | sb rt offset base =>
    simp only [exec, Platform.confine, Bool.and_eq_true] at hexec
    simp only [exec]
    split at hexec
    next hdev => simpa [hdev] using hexec
    next hdev =>
      split at hexec
      next hplain =>
        have hram : P.Ram (s.regs.get base + offset.signExtend 32) := hplain.1
        simpa [hdev, hram, hplain.2.1] using hexec
      next => cases hexec
  | sw rt offset base =>
    simp only [exec, Platform.confine, Platform.Plain, Bool.and_eq_true] at hexec
    simp only [exec]
    split at hexec
    next hdev => simpa [hdev] using hexec
    next hdev =>
      split at hexec
      next hplain =>
        have hram : P.RamWord (s.regs.get base + offset.signExtend 32) := hplain.1
        simpa [hdev, Platform.Plain, hram, hplain.2.1] using hexec
      next => cases hexec
  | _ => exact hexec

theorem steps_confine {P : Platform δ} {area : Addr → Prop} [DecidablePred area] {s t : State δ}
    (h : Steps (step (P.confine area)) s t) : Steps (step P) s t :=
  h.mono fun _ _ hstep => step_confine hstep

def WholeWords (area : Addr → Prop) : Prop :=
  ∀ a, area a → a.toNat % 4 = 0 → ∀ i < 4, area (a + BitVec.ofNat 32 i)

theorem Mem.writeWord_confined {area : Addr → Prop} (hwords : WholeWords area) {a x : Addr}
    (ha : area a) (haligned : a.toNat % 4 = 0) (hx : ¬ area x) (m : Mem) (v : Word) :
    m.writeWord a v x = m x := by
  refine m.writeWord_outside a v (Nat.le_of_not_lt fun hlt => hx ?_)
  have hin := hwords a ha haligned _ hlt
  rwa [show a + BitVec.ofNat 32 (x - a).toNat = x by bv_omega] at hin

theorem step_confine_outside {P : Platform δ} {area : Addr → Prop} [DecidablePred area]
    (hwords : WholeWords area) {s t : State δ} (h : step (P.confine area) s = some t) {x : Addr}
    (hx : ¬ area x) : t.mem x = s.mem x := by
  obtain ⟨i, -, hexec⟩ := Option.bind_eq_some_iff.mp h
  cases i with
  | lb rt offset base | lbu rt offset base =>
    obtain ⟨b, -, rfl⟩ := Option.map_eq_some_iff.mp hexec
    rfl
  | lw rt offset base =>
    simp only [exec] at hexec
    split at hexec <;> obtain ⟨r, -, rfl⟩ := Option.map_eq_some_iff.mp hexec <;> rfl
  | sb rt offset base =>
    simp only [exec, Platform.confine, Bool.and_eq_true, decide_eq_true_eq] at hexec
    split at hexec
    next =>
      obtain ⟨d, -, rfl⟩ := Option.map_eq_some_iff.mp hexec
      rfl
    next =>
      split at hexec
      next hplain =>
        obtain rfl := Option.some.inj hexec
        refine if_neg fun heq => hx ?_
        rw [heq]
        exact hplain.2.2
      next => cases hexec
  | sw rt offset base =>
    simp only [exec, Platform.confine, Platform.Plain, Bool.and_eq_true, decide_eq_true_eq] at hexec
    split at hexec
    next =>
      obtain ⟨d, -, rfl⟩ := Option.map_eq_some_iff.mp hexec
      rfl
    next =>
      split at hexec
      next hplain =>
        obtain rfl := Option.some.inj hexec
        exact Mem.writeWord_confined hwords hplain.2.2 hplain.1.2 hx _ _
      next => cases hexec
  | _ =>
    obtain rfl := Option.some.inj hexec
    rfl

theorem steps_confine_outside {P : Platform δ} {area : Addr → Prop} [DecidablePred area]
    (hwords : WholeWords area) {s t : State δ} (h : Steps (step (P.confine area)) s t) {x : Addr}
    (hx : ¬ area x) : t.mem x = s.mem x := by
  induction h with
  | refl => rfl
  | tail _ hlast ih => exact (step_confine_outside hwords hlast hx).trans ih

end Mips
