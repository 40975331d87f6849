import W2.Mips.Breakpoint

/-!
# Device registers of two owners

Some of the device registers of a platform belong to its program, behind all others is a bus. What
the bus can tell of a run are the accesses to its own registers and those made at certain
instructions, the service points. A run that reaches neither the bus nor a service point is a run
of the platform without a bus.
-/

namespace Mips

open Transition

structure Bus (ε : Type) where
  load : ε → Addr → Option (Word × ε)
  store : ε → Addr → Word → Option ε

variable {δ ε : Type} {P : Platform δ} {own points hidden : Addr → Prop} [DecidablePred own]
  [DecidablePred points] {bus : Bus ε}

namespace Platform

/-- The platform with all device registers but its own out of reach. -/
def only (P : Platform δ) (own : Addr → Prop) [DecidablePred own] : Platform δ :=
  { P with
    load := fun d a => if own a then P.load d a else none
    store := fun d a w => if own a then P.store d a w else none }

/-- The platform with the bus behind all device registers but its own. -/
def beside (P : Platform δ) (own : Addr → Prop) [DecidablePred own] (bus : Bus ε) :
    Platform (δ × ε) where
  code := P.code
  device := P.device
  writable := P.writable
  load d a :=
    if own a then (P.load d.1 a).map fun r => (r.1, (r.2, d.2))
    else (bus.load d.2 a).map fun r => (r.1, (d.1, r.2))
  store d a w :=
    if own a then (P.store d.1 a w).map fun d' => (d', d.2)
    else (bus.store d.2 a w).map fun e => (d.1, e)

/-- The platform as the bus uses it. -/
def facing (P : Platform δ) (bus : Bus ε) : Platform ε where
  code := P.code
  device := P.device
  writable := P.writable
  load := bus.load
  store := bus.store

def storeWord (P : Platform δ) (m : Mem) (d : δ) (a : Addr) (w : Word) : Option (Mem × δ) :=
  if P.device a then (P.store d a w).map fun d' => (m, d')
  else if P.Plain a then some (m.writeWord a w, d)
  else none

end Platform

theorem exec_sw_storeWord (P : Platform δ) (regs : Regs) (pc npc : Addr) (mem : Mem) (dev : δ)
    (rt base : Reg) (offset : BitVec 16) :
    exec P ⟨regs, pc, npc, mem, dev⟩ (.sw rt offset base) =
      (P.storeWord mem dev (regs.get base + offset.signExtend 32) (regs.get rt)).map fun r =>
        ⟨regs, npc, npc + 4#32, r.1, r.2⟩ := by
  simp only [exec, Platform.storeWord]
  split
  · rw [Option.map_map]
    rfl
  · split <;> rfl

def State.beside (s : State δ) (e : ε) : State (δ × ε) :=
  ⟨s.regs, s.pc, s.npc, s.mem, (s.dev, e)⟩

inductive Access
  | load (a : Addr) (w : Word)
  | store (a : Addr) (w : Word)
  deriving DecidableEq

def Access.addr : Access → Addr
  | .load a _ => a
  | .store a _ => a

def access (P : Platform δ) (s : State δ) : Option Access :=
  (P.fetch s.pc).bind fun
    | .lw _ offset base =>
      let a := s.regs.get base + offset.signExtend 32
      (P.loadWord s.mem s.dev a).map fun r => .load a r.1
    | .sb rt offset base =>
      let b := (s.regs.get rt).setWidth 8
      some (.store (s.regs.get base + offset.signExtend 32) (b.setWidth 32))
    | .sw rt offset base =>
      some (.store (s.regs.get base + offset.signExtend 32) (s.regs.get rt))
    | _ => none

def watch (P : Platform δ) (own points : Addr → Prop) [DecidablePred own] [DecidablePred points]
    (s : State δ) : Option Access :=
  (access P s).filter fun x => points s.pc ∨ (P.device x.addr = true ∧ ¬ own x.addr)

theorem only_load {d : δ} {a : Addr} {r : Word × δ} (h : (P.only own).load d a = some r) :
    own a ∧ P.load d a = some r := by
  simpa [Platform.only] using h

theorem only_store {d d' : δ} {a : Addr} {w : Word} (h : (P.only own).store d a w = some d') :
    own a ∧ P.store d a w = some d' := by
  simpa [Platform.only] using h

theorem exec_beside {s t : State δ} {i : Instr} (h : exec (P.only own) s i = some t) (e : ε) :
    exec (P.beside own bus) (s.beside e) i = some (t.beside e) := by
  cases i with
  | lb rt offset base | lbu rt offset base =>
    obtain ⟨b, hb, rfl⟩ := Option.map_eq_some_iff.mp h
    exact Option.map_eq_some_iff.mpr ⟨b, hb, rfl⟩
  | lw rt offset base =>
    simp only [exec] at h ⊢
    split at h
    next hdev =>
      obtain ⟨r, hr, rfl⟩ := Option.map_eq_some_iff.mp h
      obtain ⟨hown, hload⟩ := only_load hr
      have hdev' : P.device (s.regs.get base + offset.signExtend 32) = true := hdev
      simp [Platform.beside, State.beside, State.put, hdev', hown, hload]
    next hdev =>
      obtain ⟨w, hw, rfl⟩ := Option.map_eq_some_iff.mp h
      refine (if_neg hdev).trans ?_
      exact Option.map_eq_some_iff.mpr ⟨w, hw, rfl⟩
  | sb rt offset base =>
    simp only [exec] at h ⊢
    split at h
    next hdev =>
      obtain ⟨d, hd, rfl⟩ := Option.map_eq_some_iff.mp h
      obtain ⟨hown, hstore⟩ := only_store hd
      have hdev' : P.device (s.regs.get base + offset.signExtend 32) = true := hdev
      simp [Platform.beside, State.beside, State.skip, State.goto, hdev', hown, hstore]
    next hdev =>
      refine (if_neg hdev).trans ?_
      split at h
      next hplain =>
        obtain rfl := Option.some.inj h
        exact if_pos hplain
      next => cases h
  | sw rt offset base =>
    simp only [exec] at h ⊢
    split at h
    next hdev =>
      obtain ⟨d, hd, rfl⟩ := Option.map_eq_some_iff.mp h
      obtain ⟨hown, hstore⟩ := only_store hd
      have hdev' : P.device (s.regs.get base + offset.signExtend 32) = true := hdev
      simp [Platform.beside, State.beside, State.skip, State.goto, hdev', hown, hstore]
    next hdev =>
      refine (if_neg hdev).trans ?_
      split at h
      next hplain =>
        obtain rfl := Option.some.inj h
        exact if_pos hplain
      next => cases h
  | _ =>
    obtain rfl := Option.some.inj h
    rfl

theorem access_own {s t : State δ} (h : step (P.only own) s = some t) {x : Access} {e : ε}
    (hx : access (P.beside own bus) (s.beside e) = some x) (hdev : P.device x.addr = true) :
    own x.addr := by
  obtain ⟨i, hi, hexec⟩ := Option.bind_eq_some_iff.mp h
  have hi' : (P.beside own bus).fetch (s.beside e).pc = some i := hi
  rw [access, hi', Option.bind_some] at hx
  cases i with
  | lw rt offset base =>
    obtain ⟨r, -, rfl⟩ := Option.map_eq_some_iff.mp hx
    simp only [exec] at hexec
    split at hexec
    next =>
      obtain ⟨r', hr', -⟩ := Option.map_eq_some_iff.mp hexec
      exact (only_load hr').1
    next hplain => exact absurd hdev hplain
  | sb rt offset base | sw rt offset base =>
    obtain rfl := Option.some.inj hx
    simp only [exec] at hexec
    split at hexec
    next =>
      obtain ⟨d, hd, -⟩ := Option.map_eq_some_iff.mp hexec
      exact (only_store hd).1
    next hplain => exact absurd hdev hplain
  | _ => cases hx

/-- The platform for the runs that reach neither the bus nor a service point. -/
def Platform.quiet (P : Platform δ) (own points : Addr → Prop) [DecidablePred own]
    [DecidablePred points] : Platform δ :=
  (P.only own).breakAt points

theorem quiet_step (bus : Bus ε) {s t : State δ} (h : step (P.quiet own points) s = some t)
    (e : ε) :
    step (P.beside own bus) (s.beside e) = some (t.beside e) ∧
      watch (P.beside own bus) own points (s.beside e) = none := by
  obtain ⟨hstep, hpoint⟩ := step_breakAt h
  constructor
  · obtain ⟨i, hi, hexec⟩ := Option.bind_eq_some_iff.mp hstep
    exact Option.bind_eq_some_iff.mpr ⟨i, hi, exec_beside hexec e⟩
  · refine Option.filter_eq_none_iff.mpr fun x hx hseen => ?_
    rcases of_decide_eq_true hseen with hin | ⟨hdev, hown⟩
    · exact hpoint hin
    · exact hown (access_own hstep hx hdev)

theorem quiet_logs (bus : Bus ε) {s t : State δ} (h : Steps (step (P.quiet own points)) s t)
    (e : ε) :
    Logs (step (P.beside own bus)) (watch (P.beside own bus) own points) (s.beside e) []
      (t.beside e) := by
  induction h using Relation.ReflTransGen.head_induction_on with
  | refl => exact .refl _
  | head hfirst _ ih =>
    obtain ⟨hstep, hseen⟩ := quiet_step bus hfirst e
    simpa [hseen] using Logs.head hstep ih

end Mips
