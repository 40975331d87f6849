import W2.Mips.Bus

/-!
# Services for a bus

A service is what a program does for a bus: loads and stores, each depending on the values loaded
before it. `Service.run` is its meaning on the memory and the bus alone. A program performs a
service if its accesses at the service points are those of the service and in between it reaches
nothing but its own registers and hidden memory; `Performs.run` is what a run of it comes to.
-/

namespace Mips

open Transition

variable {δ ε : Type}

inductive Service
  | done
  | load (a : Addr) (next : Word → Service)
  | store (a : Addr) (w : Word) (next : Service)

/-- What a service has come to: its accesses, whether none of them was refused, and the memory and
the devices after it. -/
structure Outcome (ε : Type) where
  log : List Access
  served : Bool
  mem : Mem
  dev : ε

def Outcome.after (o : Outcome ε) (x : Access) : Outcome ε := { o with log := x :: o.log }

namespace Service

def run (P : Platform ε) : Service → Mem → ε → Outcome ε
  | done, m, e => ⟨[], true, m, e⟩
  | load a next, m, e =>
    match P.loadWord m e a with
    | none => ⟨[], false, m, e⟩
    | some r => ((next r.1).run P m r.2).after (.load a r.1)
  | store a w next, m, e =>
    match P.storeWord m e a w with
    | none => ⟨[], false, m, e⟩
    | some r => (next.run P r.1 r.2).after (.store a w)

def andThen : Service → Service → Service
  | done, q => q
  | load a next, q => load a fun w => (next w).andThen q
  | store a w next, q => store a w (next.andThen q)

def times (p : Service) : ℕ → Service
  | 0 => done
  | n + 1 => p.andThen (p.times n)

theorem run_andThen {P : Platform ε} {p q : Service} {m : Mem} {e : ε}
    (h : (p.run P m e).served = true) :
    ((p.andThen q).run P m e).served = (q.run P (p.run P m e).mem (p.run P m e).dev).served ∧
      ((p.andThen q).run P m e).mem = (q.run P (p.run P m e).mem (p.run P m e).dev).mem ∧
      ((p.andThen q).run P m e).dev = (q.run P (p.run P m e).mem (p.run P m e).dev).dev := by
  induction p generalizing m e with
  | done => exact ⟨rfl, rfl, rfl⟩
  | load a next ih =>
    simp only [run, andThen] at h ⊢
    cases hload : P.loadWord m e a with
    | none => simp [hload] at h
    | some r =>
      simp only [hload] at h
      exact ih r.1 h
  | store a w next ih =>
    simp only [run, andThen] at h ⊢
    cases hstore : P.storeWord m e a w with
    | none => simp [hstore] at h
    | some r =>
      simp only [hstore] at h
      exact ih h

end Service

section Clear

variable {P : Platform ε} {own hidden : Addr → Prop} {m m' : Mem} {a : Addr}

def Clear (P : Platform δ) (own hidden : Addr → Prop) (a : Addr) : Prop :=
  ¬ own a ∧ (P.device a = false → ∀ i < 4, ¬ hidden (a + BitVec.ofNat 32 i))

theorem Clear.loadWord (h : Clear P own hidden a) (hm : Agree hidden m m') (e : ε) :
    P.loadWord m' e a = P.loadWord m e a := by
  cases hdev : P.device a with
  | true => simp only [Platform.loadWord, hdev, if_true]
  | false => simp only [Platform.loadWord, Platform.readWord, hm.readWord (h.2 hdev)]

theorem Clear.storeWord (h : Clear P own hidden a) {e e' : ε} {w : Word}
    (hstore : P.storeWord m e a w = some (m', e')) {x : Addr} (hx : hidden x) : m' x = m x := by
  unfold Platform.storeWord at hstore
  split at hstore
  next =>
    obtain ⟨d, -, hd⟩ := Option.map_eq_some_iff.mp hstore
    cases hd
    rfl
  next hdev =>
    split at hstore
    next =>
      cases hstore
      refine m.writeWord_outside a w ?_
      by_contra hnear
      have hbyte : a + BitVec.ofNat 32 (x - a).toNat = x := by
        rw [BitVec.ofNat_toNat, BitVec.setWidth_eq]
        bv_omega
      exact h.2 (by simpa using hdev) _ (Nat.not_le.mp hnear) (hbyte.symm ▸ hx)
    next => cases hstore

theorem storeWord_agree (hm : Agree hidden m m') (e : ε) (a : Addr) (w : Word) :
    (P.storeWord m e a w = none ∧ P.storeWord m' e a w = none) ∨
      ∃ n n' e', P.storeWord m e a w = some (n, e') ∧ P.storeWord m' e a w = some (n', e') ∧
        Agree hidden n n' := by
  unfold Platform.storeWord
  split
  · cases P.store e a w with
    | none => exact Or.inl ⟨rfl, rfl⟩
    | some e' => exact Or.inr ⟨m, m', e', rfl, rfl, hm⟩
  · split
    · exact Or.inr ⟨_, _, e, rfl, rfl, hm.writeWord a w⟩
    · exact Or.inl ⟨rfl, rfl⟩

end Clear

variable {P : Platform δ} {own points hidden : Addr → Prop} [DecidablePred own]
  [DecidablePred points] {bus : Bus ε} {Q Q' : State δ → Prop} {s t : State δ} {e : ε}
  {p q : Service} {m : Mem} {a : Addr} {w : Word} {rt base : Reg} {offset : BitVec 16}

theorem beside_loadWord (P : Platform δ) (bus : Bus ε) (hown : ¬ own a) (m : Mem) (d : δ) (e : ε) :
    (P.beside own bus).loadWord m (d, e) a =
      ((P.facing bus).loadWord m e a).map fun r => (r.1, (d, r.2)) := by
  unfold Platform.loadWord
  by_cases hdev : P.device a = true
  · rw [if_pos (show (P.beside own bus).device a = true from hdev),
      if_pos (show (P.facing bus).device a = true from hdev)]
    exact if_neg hown
  · rw [if_neg (show ¬ (P.beside own bus).device a = true from hdev),
      if_neg (show ¬ (P.facing bus).device a = true from hdev), Option.map_map]
    rfl

theorem beside_storeWord (P : Platform δ) (bus : Bus ε) (hown : ¬ own a) (m : Mem) (d : δ) (e : ε)
    (w : Word) :
    (P.beside own bus).storeWord m (d, e) a w =
      ((P.facing bus).storeWord m e a w).map fun r => (r.1, (d, r.2)) := by
  unfold Platform.storeWord
  by_cases hdev : P.device a = true
  · rw [if_pos (show (P.beside own bus).device a = true from hdev),
      if_pos (show (P.facing bus).device a = true from hdev), Option.map_map]
    refine (congrArg _ (if_neg hown)).trans ?_
    rw [Option.map_map]
    rfl
  · rw [if_neg (show ¬ (P.beside own bus).device a = true from hdev),
      if_neg (show ¬ (P.facing bus).device a = true from hdev)]
    by_cases hplain : P.Plain a
    · rw [if_pos (show (P.beside own bus).Plain a from hplain),
        if_pos (show (P.facing bus).Plain a from hplain)]
      rfl
    · rw [if_neg (show ¬ (P.beside own bus).Plain a from hplain),
        if_neg (show ¬ (P.facing bus).Plain a from hplain)]
      rfl

theorem point_load (bus : Bus ε) (hpoint : points t.pc)
    (hfetch : P.fetch t.pc = some (.lw rt offset base))
    (haddr : t.regs.get base + offset.signExtend 32 = a) (hown : ¬ own a) (e : ε) :
    step (P.beside own bus) (t.beside e) =
        ((P.facing bus).loadWord t.mem e a).map (fun r => (t.put rt r.1).beside r.2) ∧
      watch (P.beside own bus) own points (t.beside e) =
        ((P.facing bus).loadWord t.mem e a).map fun r => .load a r.1 := by
  have hfetch' : (P.beside own bus).fetch (t.beside e).pc = some (.lw rt offset base) := hfetch
  have hload := beside_loadWord P bus hown t.mem t.dev e
  constructor
  · rw [step, hfetch', andThen_some, State.beside, exec_lw_loadWord, haddr, hload, Option.map_map]
    rfl
  · rw [watch, access, hfetch', Option.bind_some]
    simp only [State.beside, haddr, hload]
    cases (P.facing bus).loadWord t.mem e a with
    | none => rfl
    | some r => simp [hpoint]

theorem point_store (bus : Bus ε) (hpoint : points t.pc)
    (hfetch : P.fetch t.pc = some (.sw rt offset base))
    (haddr : t.regs.get base + offset.signExtend 32 = a) (hvalue : t.regs.get rt = w)
    (hown : ¬ own a) (e : ε) :
    step (P.beside own bus) (t.beside e) =
        ((P.facing bus).storeWord t.mem e a w).map
          (fun r => State.beside { t.skip with mem := r.1 } r.2) ∧
      watch (P.beside own bus) own points (t.beside e) = some (.store a w) := by
  have hfetch' : (P.beside own bus).fetch (t.beside e).pc = some (.sw rt offset base) := hfetch
  have hstore := beside_storeWord P bus hown t.mem t.dev e w
  constructor
  · rw [step, hfetch', andThen_some, State.beside, exec_sw_storeWord, haddr, hvalue, hstore,
      Option.map_map]
    rfl
  · rw [watch, access, hfetch', Option.bind_some]
    simp [State.beside, haddr, hvalue, hpoint]

/-- From `s` the program performs the service and comes to a state with `Q`, unless an access is
refused. -/
inductive Performs (P : Platform δ) (own points hidden : Addr → Prop) [DecidablePred own]
    [DecidablePred points] (bus : Bus ε) (Q : State δ → Prop) : State δ → ε → Service → Prop
  | done {s t : State δ} {e : ε} (hrun : Steps (step (P.quiet own points)) s t)
      (hmem : Agree hidden s.mem t.mem) (hend : Q t) :
      Performs P own points hidden bus Q s e .done
  | load {s t : State δ} {e : ε} {a : Addr} {next : Word → Service} {rt base : Reg}
      {offset : BitVec 16} (hrun : Steps (step (P.quiet own points)) s t)
      (hmem : Agree hidden s.mem t.mem) (hpoint : points t.pc)
      (hfetch : P.fetch t.pc = some (.lw rt offset base))
      (haddr : t.regs.get base + offset.signExtend 32 = a) (hclear : Clear P own hidden a)
      (hnext : ∀ w e', (P.facing bus).loadWord t.mem e a = some (w, e') →
        Performs P own points hidden bus Q (t.put rt w) e' (next w)) :
      Performs P own points hidden bus Q s e (.load a next)
  | store {s t : State δ} {e : ε} {a : Addr} {w : Word} {next : Service} {rt base : Reg}
      {offset : BitVec 16} (hrun : Steps (step (P.quiet own points)) s t)
      (hmem : Agree hidden s.mem t.mem) (hpoint : points t.pc)
      (hfetch : P.fetch t.pc = some (.sw rt offset base))
      (haddr : t.regs.get base + offset.signExtend 32 = a) (hvalue : t.regs.get rt = w)
      (hclear : Clear P own hidden a)
      (hnext : ∀ m e', (P.facing bus).storeWord t.mem e a w = some (m, e') →
        Performs P own points hidden bus Q { t.skip with mem := m } e' next) :
      Performs P own points hidden bus Q s e (.store a w next)

namespace Performs

theorem head (hrun : Steps (step (P.quiet own points)) s t) (hmem : Agree hidden s.mem t.mem)
    (h : Performs P own points hidden bus Q t e p) : Performs P own points hidden bus Q s e p := by
  cases h with
  | done hrun' hmem' hend => exact done (hrun.trans hrun') (hmem.trans hmem') hend
  | load hrun' hmem' hpoint hfetch haddr hclear hnext =>
    exact load (hrun.trans hrun') (hmem.trans hmem') hpoint hfetch haddr hclear hnext
  | store hrun' hmem' hpoint hfetch haddr hvalue hclear hnext =>
    exact store (hrun.trans hrun') (hmem.trans hmem') hpoint hfetch haddr hvalue hclear hnext

theorem andThen (h : Performs P own points hidden bus Q s e p)
    (hq : ∀ t e, Q t → Performs P own points hidden bus Q' t e q) :
    Performs P own points hidden bus Q' s e (p.andThen q) := by
  induction h with
  | done hrun hmem hend => exact (hq _ _ hend).head hrun hmem
  | load hrun hmem hpoint hfetch haddr hclear _ ih =>
    exact load hrun hmem hpoint hfetch haddr hclear ih
  | store hrun hmem hpoint hfetch haddr hvalue hclear _ ih =>
    exact store hrun hmem hpoint hfetch haddr hvalue hclear ih

theorem mono (h : Performs P own points hidden bus Q s e p) (hsub : ∀ t, Q t → Q' t) :
    Performs P own points hidden bus Q' s e p := by
  induction h with
  | done hrun hmem hend => exact done hrun hmem (hsub _ hend)
  | load hrun hmem hpoint hfetch haddr hclear _ ih =>
    exact load hrun hmem hpoint hfetch haddr hclear ih
  | store hrun hmem hpoint hfetch haddr hvalue hclear _ ih =>
    exact store hrun hmem hpoint hfetch haddr hvalue hclear ih

theorem load_mk (rt base : Reg) (offset : BitVec 16) {regs : Regs} {pc npc : Addr} {mem : Mem}
    {dev : δ} {next : Word → Service}
    (hrun : Steps (step (P.quiet own points)) s ⟨regs, pc, npc, mem, dev⟩)
    (hmem : Agree hidden s.mem mem) (hpoint : points pc)
    (hfetch : P.fetch pc = some (.lw rt offset base))
    (haddr : regs.get base + offset.signExtend 32 = a) (hclear : Clear P own hidden a)
    (hnext : ∀ w e', (P.facing bus).loadWord mem e a = some (w, e') →
      Performs P own points hidden bus Q ⟨regs.set rt w, npc, npc + 4#32, mem, dev⟩ e' (next w)) :
    Performs P own points hidden bus Q s e (.load a next) :=
  load hrun hmem hpoint hfetch haddr hclear hnext

theorem store_mk (rt base : Reg) (offset : BitVec 16) {regs : Regs} {pc npc : Addr} {mem : Mem}
    {dev : δ}
    (hrun : Steps (step (P.quiet own points)) s ⟨regs, pc, npc, mem, dev⟩)
    (hmem : Agree hidden s.mem mem) (hpoint : points pc)
    (hfetch : P.fetch pc = some (.sw rt offset base))
    (haddr : regs.get base + offset.signExtend 32 = a) (hvalue : regs.get rt = w)
    (hclear : Clear P own hidden a)
    (hnext : ∀ m e', (P.facing bus).storeWord mem e a w = some (m, e') →
      Performs P own points hidden bus Q ⟨regs, npc, npc + 4#32, m, dev⟩ e' p) :
    Performs P own points hidden bus Q s e (.store a w p) :=
  store hrun hmem hpoint hfetch haddr hvalue hclear hnext

theorem times (hround : ∀ s e, Q s → Performs P own points hidden bus Q s e p) (hs : Q s) (n : ℕ) :
    Performs P own points hidden bus Q s e (p.times n) := by
  induction n generalizing s e with
  | zero => exact done (Steps.refl s) (Agree.refl hidden s.mem) hs
  | succ n ih => exact (hround s e hs).andThen fun t e ht => ih ht

/-- A run of the program makes the accesses of the service, leaves the bus as the service does and
the memory too, the hidden part apart, and does not go on if the service does not. -/
theorem run (h : Performs P own points hidden bus Q s e p) (hm : Agree hidden m s.mem) :
    ∃ t, Logs (step (P.beside own bus)) (watch (P.beside own bus) own points) (s.beside e)
        (p.run (P.facing bus) m e).log (t.beside (p.run (P.facing bus) m e).dev) ∧
      Agree hidden (p.run (P.facing bus) m e).mem t.mem ∧
      if (p.run (P.facing bus) m e).served then Q t
      else step (P.beside own bus) (t.beside (p.run (P.facing bus) m e).dev) = none := by
  induction h generalizing m with
  | @done s t e hrun hmem hend =>
    exact ⟨t, quiet_logs bus hrun e, hm.trans hmem, hend⟩
  | @load s t e a next rt base offset hrun hmem hpoint hfetch haddr hclear hnext ih =>
    have hagree : Agree hidden m t.mem := hm.trans hmem
    obtain ⟨hstep, hseen⟩ := point_load bus hpoint hfetch haddr hclear.1 e
    -- the word is clear of the hidden memory, so it is the one the service loads
    have hword : (P.facing bus).loadWord t.mem e a = (P.facing bus).loadWord m e a :=
      Clear.loadWord (P := P.facing bus) hclear hagree e
    rw [hword] at hstep hseen
    simp only [Service.run]
    cases hload : (P.facing bus).loadWord m e a with
    | none =>
      rw [hload] at hstep
      exact ⟨t, quiet_logs bus hrun e, hagree, hstep⟩
    | some r =>
      rw [hload] at hstep hseen
      obtain ⟨t', hlogs, hmem', hend⟩ :=
        ih r.1 r.2 (hword.trans hload) (m := m) hagree
      exact ⟨t', (quiet_logs bus hrun e).trans (hlogs.head_event hstep hseen), hmem', hend⟩
  | @store s t e a w next rt base offset hrun hmem hpoint hfetch haddr hvalue hclear hnext ih =>
    have hagree : Agree hidden m t.mem := hm.trans hmem
    obtain ⟨hstep, hseen⟩ := point_store bus hpoint hfetch haddr hvalue hclear.1 e
    simp only [Service.run]
    rcases storeWord_agree (P := P.facing bus) hagree e a w with ⟨hnone, hnone'⟩ |
      ⟨n, n', e', hsome, hsome', hn⟩
    · rw [hnone'] at hstep
      simp only [hnone]
      exact ⟨t, quiet_logs bus hrun e, hagree, hstep⟩
    · rw [hsome'] at hstep
      simp only [hsome]
      obtain ⟨t', hlogs, hmem', hend⟩ := ih n' e' hsome' hn
      exact ⟨t', (quiet_logs bus hrun e).trans (hlogs.head_event hstep hseen), hmem', hend⟩

end Performs

end Mips
