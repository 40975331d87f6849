import W2.Mips.Exec

/-!
# Breakpoints

A platform with breakpoints stops before the instructions at certain addresses. Their words can
still be loaded, as if they belonged to a device. Every step of it is a step of the platform, so a
run of it is a run that does not pass the breakpoints.
-/

namespace Mips

open Transition

variable {δ : Type} {P : Platform δ} {stops : Addr → Prop} [DecidablePred stops]

namespace Platform

/-- The bytes of the instructions at the breakpoints. -/
def stopped (P : Platform δ) (stops : Addr → Prop) [DecidablePred stops] (a : Addr) : Bool :=
  decide (stops (alignAddr a)) && (P.code (alignAddr a)).isSome

def breakAt (P : Platform δ) (stops : Addr → Prop) [DecidablePred stops] : Platform δ where
  code a := if stops a then none else P.code a
  device a := P.device a || P.stopped stops a
  writable := P.writable
  load d a :=
    if P.device a then P.load d a
    else if a.toNat % 4 = 0 then (P.code a).map fun w => (w, d)
    else none
  store d a w := if P.device a then P.store d a w else none

def loadWord (P : Platform δ) (m : Mem) (d : δ) (a : Addr) : Option (Word × δ) :=
  if P.device a then P.load d a else (P.readWord m a).map fun w => (w, d)

end Platform

theorem exec_lw_loadWord (P : Platform δ) (regs : Regs) (pc npc : Addr) (mem : Mem) (dev : δ)
    (rt base : Reg) (offset : BitVec 16) :
    exec P ⟨regs, pc, npc, mem, dev⟩ (.lw rt offset base) =
      (P.loadWord mem dev (regs.get base + offset.signExtend 32)).map fun r =>
        ⟨regs.set rt r.1, npc, npc + 4#32, mem, r.2⟩ := by
  simp only [exec, Platform.loadWord]
  split
  · rfl
  · rw [Option.map_map]
    rfl

theorem breakAt_device {a : Addr} (h : (P.breakAt stops).device a = false) :
    P.device a = false ∧ (P.breakAt stops).code (alignAddr a) = P.code (alignAddr a) := by
  simp only [Platform.breakAt, Platform.stopped, Bool.or_eq_false_iff, Bool.and_eq_false_iff,
    decide_eq_false_iff_not] at *
  refine ⟨h.1, ?_⟩
  split
  next hin =>
    have hnone : P.code (alignAddr a) = none := by simpa using h.2.resolve_left (not_not_intro hin)
    exact hnone.symm
  next => rfl

theorem breakAt_loadWord (m : Mem) (d : δ) (a : Addr) :
    (P.breakAt stops).loadWord m d a = P.loadWord m d a := by
  unfold Platform.loadWord
  cases hdev : P.device a with
  | true => simp [Platform.breakAt, hdev]
  | false =>
    cases hbreak : (P.breakAt stops).device a with
    | true =>
      by_cases halign : a.toNat % 4 = 0
      · have hcode : (P.code a).isSome = true := by
          simp only [Platform.breakAt, hdev, Bool.false_or, Platform.stopped,
            alignAddr_of_aligned halign, Bool.and_eq_true] at hbreak
          exact hbreak.2
        obtain ⟨w, hw⟩ := Option.isSome_iff_exists.mp hcode
        simp [Platform.breakAt, Platform.readWord, hdev, halign, hw]
      · simp [Platform.breakAt, Platform.readWord, hdev, halign]
    | false =>
      by_cases halign : a.toNat % 4 = 0
      · have hcode := (breakAt_device hbreak).2
        rw [alignAddr_of_aligned halign] at hcode
        simp [Platform.readWord, hdev, hbreak, hcode]
      · simp [Platform.readWord, halign]

theorem breakAt_readByte {m : Mem} {a : Addr} {b : Byte}
    (h : (P.breakAt stops).readByte m a = some b) : P.readByte m a = some b := by
  unfold Platform.readByte at *
  split at h
  next hdev =>
    obtain ⟨hdev', hcode⟩ := breakAt_device hdev
    rw [hcode] at h
    simpa [hdev'] using h
  next => cases h

theorem breakAt_ram {a : Addr} (h : (P.breakAt stops).Ram a) : P.Ram a := by
  obtain ⟨hdev, hcode⟩ := breakAt_device h.1
  exact ⟨hdev, hcode ▸ h.2⟩

theorem Platform.Ram.breakAt {a : Addr} (h : P.Ram a) : (P.breakAt stops).Ram a := by
  simp only [Platform.Ram, Platform.breakAt, Platform.stopped, h.1, h.2]
  simp

theorem breakAt_store {a : Addr} {d d' : δ} {w : Word}
    (h : (P.breakAt stops).store d a w = some d') :
    P.device a = true ∧ P.store d a w = some d' := by
  simp only [Platform.breakAt] at h
  split at h
  next hdev => exact ⟨hdev, h⟩
  next => cases h

theorem exec_breakAt {s t : State δ} {i : Instr} (h : exec (P.breakAt stops) s i = some t) :
    exec P s i = some t := by
  obtain ⟨regs, pc, npc, mem, dev⟩ := s
  cases i with
  | lb rt offset base | lbu rt offset base =>
    obtain ⟨b, hb, rfl⟩ := Option.map_eq_some_iff.mp h
    exact Option.map_eq_some_iff.mpr ⟨b, breakAt_readByte hb, rfl⟩
  | lw rt offset base => rwa [exec_lw_loadWord, breakAt_loadWord, ← exec_lw_loadWord] at h
  | sb rt offset base =>
    simp only [exec] at h ⊢
    split at h
    next =>
      obtain ⟨d, hd, rfl⟩ := Option.map_eq_some_iff.mp h
      obtain ⟨hdev, hstore⟩ := breakAt_store hd
      simp [hdev, hstore]
    next hdev =>
      split at h
      next hplain =>
        have hram : P.Ram (regs.get base + offset.signExtend 32) := breakAt_ram hplain.1
        have hw : P.writable (regs.get base + offset.signExtend 32) = true := hplain.2
        simpa [hram.1, hram, hw] using h
      next => cases h
  | sw rt offset base =>
    simp only [exec] at h ⊢
    split at h
    next =>
      obtain ⟨d, hd, rfl⟩ := Option.map_eq_some_iff.mp h
      obtain ⟨hdev, hstore⟩ := breakAt_store hd
      simp [hdev, hstore]
    next hdev =>
      split at h
      next hplain =>
        have hword : P.Plain (regs.get base + offset.signExtend 32) :=
          ⟨⟨breakAt_ram hplain.1.1, hplain.1.2⟩, hplain.2⟩
        simpa [hword.1.1.1, hword] using h
      next => cases h
  | _ => exact h

theorem step_breakAt {s t : State δ} (h : step (P.breakAt stops) s = some t) :
    step P s = some t ∧ ¬ stops s.pc := by
  obtain ⟨i, hi, hexec⟩ := Option.bind_eq_some_iff.mp h
  obtain ⟨w, hw, hdecode⟩ := Option.bind_eq_some_iff.mp hi
  simp only [Platform.breakAt] at hw
  split at hw
  next => cases hw
  next hpc =>
    exact ⟨Option.bind_eq_some_iff.mpr ⟨i, Option.bind_eq_some_iff.mpr ⟨w, hw, hdecode⟩,
      exec_breakAt hexec⟩, hpc⟩

theorem Stack.breakAt {sp : Addr} {n : ℕ} (h : Stack P sp n) : Stack (P.breakAt stops) sp n :=
  ⟨h.aligned, fun a ha => ⟨(h.room a ha).1.breakAt, (h.room a ha).2⟩⟩

end Mips
