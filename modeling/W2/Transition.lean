import Mathlib.Logic.Relation
import Mathlib.Order.Basic

/-!
# Runs of transition systems

Two kinds of system occur. A deterministic machine is a partial step function: `none` is a
state the machine cannot leave, and `Steps` is the closure of its successful steps. A
concurrent system is a step function that also takes the action scheduled next; its runs
are the closure over arbitrary schedules, and a restricted run only takes the steps a
condition allows.
-/

namespace Transition

variable {σ : Type*} {α : Type*} {β : Type*}

/-- Sequencing of partial steps. It is kept apart from `Option.bind` so that a run of
literal length unfolds one step at a time. -/
def andThen (x : Option α) (f : α → Option β) : Option β := x.bind f

@[simp] theorem andThen_some (a : α) (f : α → Option β) : andThen (some a) f = f a := (rfl)

def run (step : σ → Option σ) : ℕ → σ → Option σ
  | 0, s => some s
  | n + 1, s => andThen (step s) (run step n)

@[simp] theorem run_zero (step : σ → Option σ) (s : σ) : run step 0 s = some s := (rfl)

@[simp] theorem run_succ (step : σ → Option σ) (n : ℕ) (s : σ) :
    run step (n + 1) s = andThen (step s) (run step n) := (rfl)

def Steps (step : σ → Option σ) : σ → σ → Prop :=
  Relation.ReflTransGen fun s t => step s = some t

namespace Steps

variable {step step' : σ → Option σ} {s t u : σ}

theorem refl (s : σ) : Steps step s s := Relation.ReflTransGen.refl

theorem single (h : step s = some t) : Steps step s t := Relation.ReflTransGen.single h

theorem trans (h₁ : Steps step s t) (h₂ : Steps step t u) : Steps step s u :=
  Relation.ReflTransGen.trans h₁ h₂

theorem of_run {n : ℕ} (h : run step n s = some t) : Steps step s t := by
  induction n generalizing s with
  | zero =>
    obtain rfl : s = t := by simpa using h
    exact refl s
  | succ n ih =>
    cases hs : step s with
    | none => simp [hs, andThen] at h
    | some m => exact (single hs).trans (ih (by simpa [hs] using h))

theorem mono (hstep : ∀ a b, step a = some b → step' a = some b) (h : Steps step s t) :
    Steps step' s t := by
  induction h with
  | refl => exact refl s
  | tail _ hlast ih => exact ih.trans (single (hstep _ _ hlast))

theorem total (h : Steps step s t) (h' : Steps step s u) : Steps step t u ∨ Steps step u t :=
  Relation.ReflTransGen.total_of_right_unique
    (fun _ _ _ hb hc => Option.some.inj (hb.symm.trans hc)) h h'

theorem eq_of_stuck (h : Steps step s t) (hs : step s = none) : s = t := by
  rcases Relation.ReflTransGen.cases_head h with rfl | ⟨u, hu, -⟩
  · rfl
  · rw [hs] at hu
    cases hu

theorem before_stuck (h : Steps step s t) (ht : step t = none) (h' : Steps step s u) :
    Steps step u t := by
  rcases h.total h' with htu | hut
  · rw [htu.eq_of_stuck ht]
    exact refl u
  · exact hut

/-- A loop whose round `k` leads from the invariant at `k` to the invariant at `k + 1`. -/
theorem iterate {I : ℕ → σ → Prop} {n : ℕ}
    (round : ∀ k < n, ∀ a, I k a → ∃ b, Steps step a b ∧ I (k + 1) b) (h : I 0 s) :
    ∃ b, Steps step s b ∧ I n b := by
  induction n with
  | zero => exact ⟨s, refl s, h⟩
  | succ n ih =>
    obtain ⟨a, ha, hia⟩ := ih fun k hk => round k (by omega)
    obtain ⟨b, hb, hib⟩ := round n (by omega) a hia
    exact ⟨b, ha.trans hb, hib⟩

theorem simulate {γ : Type*} {R : γ → γ → Prop} (I : γ → σ → Prop)
    (hround : ∀ a b s, R a b → I a s → ∃ t, Steps step s t ∧ I b t) {c d : γ}
    (hrun : Relation.ReflTransGen R c d) (h : I c s) : ∃ t, Steps step s t ∧ I d t := by
  induction hrun with
  | refl => exact ⟨s, refl s, h⟩
  | tail _ hlast ih =>
    obtain ⟨t, hsteps, ht⟩ := ih
    obtain ⟨u, hsteps', hu⟩ := hround _ _ t hlast ht
    exact ⟨u, hsteps.trans hsteps', hu⟩

end Steps

section Ending

variable {step : σ → Option σ} {Q : σ → Prop} {s t u v : σ}

theorem run_add (step : σ → Option σ) (j k : ℕ) (s : σ) :
    run step (j + k) s = andThen (run step j s) (run step k) := by
  induction j generalizing s with
  | zero => simp
  | succ j ih =>
    rw [Nat.add_right_comm, run_succ, run_succ]
    cases step s with
    | none => rfl
    | some m => exact ih m

/-- The run from `s` ends in `t`: the first state of it with the property, or a state without a
next one before there has been any with the property. -/
def EndsAt (step : σ → Option σ) (Q : σ → Prop) (s t : σ) : Prop :=
  ∃ k, run step k s = some t ∧ (Q t ∨ step t = none) ∧
    ∀ j < k, ∀ u, run step j s = some u → ¬ Q u

theorem EndsAt.here (h : Q t ∨ step t = none) : EndsAt step Q t t := ⟨0, rfl, h, by simp⟩

theorem EndsAt.head (hs : ¬ Q s) (hstep : step s = some v) (h : EndsAt step Q v t) :
    EndsAt step Q s t := by
  obtain ⟨k, hrun, hend, hbefore⟩ := h
  refine ⟨k + 1, by simpa [hstep] using hrun, hend, fun j hj u hu => ?_⟩
  cases j with
  | zero =>
    obtain rfl : s = u := by simpa using hu
    exact hs
  | succ j => exact hbefore j (by omega) u (by simpa [hstep] using hu)

theorem EndsAt.of_steps (hs : Steps step s v)
    (hbefore : ∀ u, Steps step s u → Steps step u v → ¬ Q u) (h : EndsAt step Q v t) :
    EndsAt step Q s t := by
  induction hs using Relation.ReflTransGen.head_induction_on with
  | refl => exact h
  | head hlast hrest ih =>
    exact .head (hbefore _ (.refl _) ((Steps.single hlast).trans hrest)) hlast
      (ih fun u hu huv => hbefore u ((Steps.single hlast).trans hu) huv)

theorem EndsAt.steps (h : EndsAt step Q s t) : Steps step s t := by
  obtain ⟨k, hrun, -, -⟩ := h
  exact .of_run hrun

theorem EndsAt.unique (h : EndsAt step Q s t) (h' : EndsAt step Q s u) : t = u := by
  have hle {t u : σ} {j k : ℕ} (hj : run step j s = some t) (hend : Q t ∨ step t = none)
      (hk : run step k s = some u) (hbefore : ∀ i < k, ∀ v, run step i s = some v → ¬ Q v) :
      k ≤ j := by
    by_contra hlt
    have hstuck : step t = none := hend.resolve_left (hbefore j (by omega) t hj)
    have hsucc : run step k s = none := by
      rw [show k = j + (1 + (k - j - 1)) by omega, run_add, hj, andThen_some, run_add]
      simp [hstuck, andThen]
    rw [hk] at hsucc
    cases hsucc
  obtain ⟨j, hj, hend, hbefore⟩ := h
  obtain ⟨k, hk, hend', hbefore'⟩ := h'
  obtain rfl : j = k := Nat.le_antisymm (hle hk hend' hj hbefore) (hle hj hend hk hbefore')
  exact Option.some.inj (hj.symm.trans hk)

end Ending

section Restricted

variable {step step' : σ → Option σ} {s t v : σ}

def Diverges (step : σ → Option σ) (s : σ) : Prop := ∀ n, ∃ t, run step n s = some t

theorem Steps.to_run (h : Steps step s t) : ∃ n, run step n s = some t := by
  induction h using Relation.ReflTransGen.head_induction_on with
  | refl => exact ⟨0, rfl⟩
  | head hlast _ ih =>
    obtain ⟨n, hn⟩ := ih
    exact ⟨n + 1, by simpa [hlast] using hn⟩

theorem run_mono (hstep : ∀ a b, step' a = some b → step a = some b) {n : ℕ}
    (h : run step' n s = some t) : run step n s = some t := by
  induction n generalizing s with
  | zero => exact h
  | succ n ih =>
    cases hs : step' s with
    | none => simp [hs, andThen] at h
    | some m =>
      rw [run_succ, hstep s m hs, andThen_some]
      exact ih (by simpa [hs] using h)

theorem Diverges.of_rounds {I : σ → Prop}
    (round : ∀ a, I a → ∃ b, Steps step a b ∧ a ≠ b ∧ I b) (h : I s) : Diverges step s := by
  intro n
  suffices ∃ t m, n ≤ m ∧ run step m s = some t by
    obtain ⟨t, m, hm, hrun⟩ := this
    rw [← Nat.add_sub_cancel' hm, run_add] at hrun
    cases hn : run step n s with
    | none => simp [hn, andThen] at hrun
    | some u => exact ⟨u, rfl⟩
  induction n generalizing s with
  | zero => exact ⟨s, 0, Nat.le_refl 0, rfl⟩
  | succ n ih =>
    obtain ⟨b, hsteps, hne, hb⟩ := round s h
    obtain ⟨t, m, hm, hrun⟩ := ih hb
    obtain ⟨k, hk⟩ := hsteps.to_run
    have hpos : k ≠ 0 := by
      rintro rfl
      exact hne (Option.some.inj hk)
    exact ⟨t, k + m, by omega, by rw [run_add, hk, andThen_some, hrun]⟩

theorem Diverges.closed {I : σ → Prop} (hnext : ∀ a, I a → ∃ b, step a = some b ∧ I b)
    (h : I s) : Diverges step s ∧ ∀ t, Steps step s t → I t := by
  constructor
  · intro n
    induction n generalizing s with
    | zero => exact ⟨s, rfl⟩
    | succ n ih =>
      obtain ⟨b, hstep, hb⟩ := hnext s h
      obtain ⟨t, ht⟩ := ih hb
      exact ⟨t, by rwa [run_succ, hstep, andThen_some]⟩
  · intro t ht
    induction ht with
    | refl => exact h
    | @tail b c _ hlast ih =>
      obtain ⟨d, hstep, hd⟩ := hnext b ih
      obtain rfl : d = c := Option.some.inj (hstep.symm.trans hlast)
      exact hd

theorem Diverges.of_steps (hs : Steps step s t) (h : Diverges step t) : Diverges step s := by
  intro n
  obtain ⟨k, hk⟩ := hs.to_run
  obtain ⟨u, hu⟩ := h n
  have hrun : run step (n + k) s = some u := by rw [Nat.add_comm, run_add, hk, andThen_some, hu]
  rw [run_add] at hrun
  cases hn : run step n s with
  | none => simp [hn, andThen] at hrun
  | some v => exact ⟨v, rfl⟩

theorem Diverges.passes (hstep : ∀ a b, step' a = some b → step a = some b)
    (h : Diverges step' s) (ht : Steps step s t) : ∃ u, step' t = some u := by
  obtain ⟨n, hn⟩ := ht.to_run
  obtain ⟨u, hu⟩ := h (n + 1)
  rw [run_add] at hu
  obtain ⟨t', ht'⟩ := h n
  obtain rfl : t' = t := Option.some.inj ((run_mono hstep ht').symm.trans hn)
  rw [ht', andThen_some, run_succ] at hu
  cases hs : step' t' with
  | none => simp [hs, andThen] at hu
  | some w => exact ⟨w, rfl⟩

theorem Diverges.steps (hstep : ∀ a b, step' a = some b → step a = some b)
    (h : Diverges step' s) (ht : Steps step s t) : Steps step' s t := by
  obtain ⟨n, hn⟩ := ht.to_run
  obtain ⟨u, hu⟩ := h n
  obtain rfl : u = t := Option.some.inj ((run_mono hstep hu).symm.trans hn)
  exact Steps.of_run hu

theorem Steps.passes (hstep : ∀ a b, step' a = some b → step a = some b)
    (h : Steps step' s v) (ht : Steps step s t) : Steps step v t ∨ ∃ u, step' t = some u := by
  induction h using Relation.ReflTransGen.head_induction_on with
  | refl => exact Or.inl ht
  | head hfirst _ ih =>
    rcases Relation.ReflTransGen.cases_head ht with rfl | ⟨m, hm, hrest⟩
    · exact Or.inr ⟨_, hfirst⟩
    · obtain rfl := Option.some.inj ((hstep _ _ hfirst).symm.trans hm)
      exact ih hrest

theorem Steps.split (hstep : ∀ a b, step' a = some b → step a = some b)
    (h : Steps step' s v) (ht : Steps step s t) :
    (Steps step' s t ∧ Steps step' t v) ∨ Steps step v t := by
  induction h using Relation.ReflTransGen.head_induction_on with
  | refl => exact Or.inr ht
  | head hfirst hrest ih =>
    rcases Relation.ReflTransGen.cases_head ht with rfl | ⟨m, hm, hmt⟩
    · exact Or.inl ⟨refl _, (single hfirst).trans hrest⟩
    · obtain rfl := Option.some.inj ((hstep _ _ hfirst).symm.trans hm)
      rcases ih hmt with ⟨hbefore, hafter⟩ | hafter
      · exact Or.inl ⟨(single hfirst).trans hbefore, hafter⟩
      · exact Or.inr hafter

end Restricted

section Logged

variable {step step' : σ → Option σ} {event : σ → Option β} {s t u : σ} {log more : List β}

inductive Logs (step : σ → Option σ) (event : σ → Option β) : σ → List β → σ → Prop
  | refl (s : σ) : Logs step event s [] s
  | head {s t u : σ} {log : List β} : step s = some t → Logs step event t log u →
      Logs step event s ((event s).toList ++ log) u

theorem Logs.trans (h : Logs step event s log t) (h' : Logs step event t more u) :
    Logs step event s (log ++ more) u := by
  induction h with
  | refl => exact h'
  | head hstep _ ih =>
    rw [List.append_assoc]
    exact .head hstep (ih h')

theorem Logs.head_event {x : β} (hstep : step s = some t) (hx : event s = some x)
    (h : Logs step event t log u) : Logs step event s (x :: log) u := by
  simpa [hx] using Logs.head hstep h

theorem Logs.steps (h : Logs step event s log t) : Steps step s t := by
  induction h with
  | refl => exact Steps.refl _
  | head hstep _ ih => exact (Steps.single hstep).trans ih

end Logged

section Scheduled

/-- The states of a scheduled system that are reached from an initial state by actions taken in
any order, as long as each of them is allowed where it is taken. -/
inductive Reachable (init : σ → Prop) (step : σ → α → Option σ) (allowed : σ → α → Prop) : σ → Prop
  | init {s : σ} : init s → Reachable init step allowed s
  | step {s t : σ} {a : α} : Reachable init step allowed s → allowed s a → step s a = some t →
      Reachable init step allowed t

variable {init : σ → Prop} {step : σ → α → Option σ} {allowed : σ → α → Prop} {I : σ → Prop}

def anyAction (_ : σ) (_ : α) : Prop := True

theorem Reachable.invariant {s : σ} (h : Reachable init step allowed s)
    (hinit : ∀ s, init s → I s)
    (hstep : ∀ s a t, I s → allowed s a → step s a = some t → I t) : I s := by
  induction h with
  | init h => exact hinit _ h
  | step _ hallowed hlast ih => exact hstep _ _ _ ih hallowed hlast

theorem Reachable.mono {allowed' : σ → α → Prop} {s : σ} (h : Reachable init step allowed s)
    (hsub : ∀ s a, allowed s a → allowed' s a) : Reachable init step allowed' s := by
  induction h with
  | init h => exact .init h
  | step _ hallowed hlast ih => exact .step ih (hsub _ _ hallowed) hlast

def Leads (step : σ → α → Option σ) : σ → σ → Prop :=
  Relation.ReflTransGen fun s t => ∃ a, step s a = some t

theorem Leads.trans {s t u : σ} (h : Leads step s t) (h' : Leads step t u) : Leads step s u :=
  Relation.ReflTransGen.trans h h'

theorem Leads.head {s t u : σ} {a : α} (hstep : step s a = some t) (h : Leads step t u) :
    Leads step s u := Relation.ReflTransGen.head ⟨a, hstep⟩ h

theorem Leads.single {s t : σ} {a : α} (hstep : step s a = some t) : Leads step s t :=
  .head hstep .refl

def runSchedule (step : σ → α → Option σ) (allowed : σ → α → Prop)
    [∀ s a, Decidable (allowed s a)] : List α → σ → Option σ
  | [], s => some s
  | a :: schedule, s =>
    if allowed s a then (step s a).bind (runSchedule step allowed schedule) else none

instance (s : σ) (a : α) : Decidable (anyAction s a) := inferInstanceAs (Decidable True)

theorem Reachable.runSchedule [∀ s a, Decidable (allowed s a)] {schedule : List α} {s t : σ}
    (h : Reachable init step allowed s)
    (hrun : Transition.runSchedule step allowed schedule s = some t) :
    Reachable init step allowed t := by
  induction schedule generalizing s with
  | nil =>
    obtain rfl : s = t := by simpa [Transition.runSchedule] using hrun
    exact h
  | cons a schedule ih =>
    rw [Transition.runSchedule] at hrun
    split at hrun
    next hallowed =>
      obtain ⟨m, hm, hrest⟩ := Option.bind_eq_some_iff.mp hrun
      exact ih (.step h hallowed hm) hrest
    next => cases hrun

theorem Reachable.of_schedule [∀ s a, Decidable (allowed s a)] {schedule : List α} {s : σ}
    (h : Reachable init step allowed s) {f : σ → β} {y : β}
    (hrun : (Transition.runSchedule step allowed schedule s).map f = some y) :
    ∃ t, Reachable init step allowed t ∧ f t = y := by
  obtain ⟨t, ht, hf⟩ := Option.map_eq_some_iff.mp hrun
  exact ⟨t, h.runSchedule ht, hf⟩

end Scheduled

end Transition
