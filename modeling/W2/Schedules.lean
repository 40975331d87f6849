import W2.Transition

/-!
# Schedules without end

A scheduled system under an infinite schedule, where an action that cannot be taken is passed over.
A system that has a rank which every change of state lowers settles: under a schedule that does not
pass over the chances for a change for ever, it comes to a state which no action changes. A system
that never settles is driven by actions of certain kinds that have their turn again and again: what
one state leads to is followed through its stages.
-/

namespace Transition

variable {σ : Type*} {α : Type*} {step : σ → α → Option σ} {schedule : ℕ → α} {s t : σ} {n m : ℕ}

def trace (step : σ → α → Option σ) (schedule : ℕ → α) (s : σ) : ℕ → σ
  | 0 => s
  | n + 1 => (step (trace step schedule s n) (schedule n)).getD (trace step schedule s n)

def Moves (step : σ → α → Option σ) (s : σ) : Prop := ∃ a t, step s a = some t ∧ t ≠ s

def Settled (step : σ → α → Option σ) (s : σ) : Prop := ∀ a t, step s a = some t → t = s

theorem not_moves : ¬ Moves step s ↔ Settled step s := by
  simp only [Moves, Settled, not_exists, not_and, not_not]

/-- Where the state can change, it does so later on. -/
def Lively (step : σ → α → Option σ) (schedule : ℕ → α) (s : σ) : Prop :=
  ∀ n, Moves step (trace step schedule s n) →
    ∃ m ≥ n, trace step schedule s (m + 1) ≠ trace step schedule s m

theorem trace_succ (step : σ → α → Option σ) (schedule : ℕ → α) (s : σ) (n : ℕ) :
    trace step schedule s (n + 1) = trace step schedule s n ∨
      step (trace step schedule s n) (schedule n) = some (trace step schedule s (n + 1)) := by
  cases h : step (trace step schedule s n) (schedule n) with
  | none => exact Or.inl (by simp [trace, h])
  | some t => exact Or.inr (by simp [trace, h])

theorem trace_reachable {init : σ → Prop} (hs : init s) (n : ℕ) :
    Reachable init step anyAction (trace step schedule s n) := by
  induction n with
  | zero => exact .init hs
  | succ n ih =>
    rcases trace_succ step schedule s n with hsame | hstep
    · rwa [hsame]
    · exact .step ih trivial hstep

theorem Settled.trace_eq (h : Settled step (trace step schedule s n)) (k : ℕ) :
    trace step schedule s (n + k) = trace step schedule s n := by
  induction k with
  | zero => rfl
  | succ k ih =>
    rcases trace_succ step schedule s (n + k) with hsame | hstep
    · exact hsame.trans ih
    · rw [ih] at hstep
      exact h _ _ hstep

theorem lively_of_turns
    (h : ∀ s, Moves step s → ∃ a t, step s a = some t ∧ t ≠ s ∧ ∀ n, ∃ m ≥ n, schedule m = a)
    (s : σ) : Lively step schedule s := by
  intro n hmoves
  by_contra hnone
  obtain ⟨a, t, hstep, hne, hturn⟩ := h _ hmoves
  obtain ⟨m, hm, rfl⟩ := hturn n
  have hsame (k : ℕ) : trace step schedule s (n + k) = trace step schedule s n := by
    induction k with
    | zero => rfl
    | succ k ih =>
      by_cases hk : trace step schedule s (n + k + 1) = trace step schedule s (n + k)
      · exact hk.trans ih
      · exact absurd ⟨n + k, by omega, hk⟩ hnone
  obtain ⟨k, rfl⟩ : ∃ k, m = n + k := ⟨m - n, by omega⟩
  have hlast : trace step schedule s (n + k + 1) = trace step schedule s n := hsame (k + 1)
  rw [trace, hsame k, hstep, Option.getD_some] at hlast
  exact hne hlast

/-- The induction is on a bound of the rank: as long as the state is not settled it changes again,
and every change lowers the rank. -/
theorem settles {I : σ → Prop} {rank : σ → ℕ} (hinv : ∀ n, I (trace step schedule s n))
    (hrank : ∀ s a t, I s → step s a = some t → t ≠ s → rank t < rank s)
    (hlively : Lively step schedule s) : ∃ n, Settled step (trace step schedule s n) := by
  have hlower (m : ℕ) (hm : trace step schedule s (m + 1) ≠ trace step schedule s m) :
      rank (trace step schedule s (m + 1)) < rank (trace step schedule s m) := by
    rcases trace_succ step schedule s m with hsame | hstep
    · exact absurd hsame hm
    · exact hrank _ _ _ (hinv m) hstep hm
  have hmono (n k : ℕ) :
      rank (trace step schedule s (n + k)) ≤ rank (trace step schedule s n) := by
    induction k with
    | zero => exact Nat.le_refl _
    | succ k ih =>
      by_cases hsame : trace step schedule s (n + k + 1) = trace step schedule s (n + k)
      · rw [← Nat.add_assoc, hsame]
        exact ih
      · exact Nat.le_trans (Nat.le_of_lt (hlower (n + k) hsame)) ih
  have hsettles (r : ℕ) : ∀ n, rank (trace step schedule s n) ≤ r →
      ∃ n, Settled step (trace step schedule s n) := by
    induction r with
    | zero =>
      intro n hn
      refine ⟨n, not_moves.mp fun hmoves => ?_⟩
      obtain ⟨m, hm, hne⟩ := hlively n hmoves
      have hless := hlower m hne
      have hle := hmono n (m - n)
      rw [Nat.add_sub_cancel' hm] at hle
      omega
    | succ r ih =>
      intro n hn
      by_cases hmoves : Moves step (trace step schedule s n)
      · obtain ⟨m, hm, hne⟩ := hlively n hmoves
        have hless := hlower m hne
        have hle := hmono n (m - n)
        rw [Nat.add_sub_cancel' hm] at hle
        exact ih (m + 1) (by omega)
      · exact ⟨n, not_moves.mp hmoves⟩
  exact hsettles _ 0 (Nat.le_refl _)

section Recurring

variable {I q r : σ → Prop} {p : ℕ → σ → Prop}

def Recurs (schedule : ℕ → α) (kind : α → Prop) : Prop := ∀ n, ∃ m ≥ n, kind (schedule m)

def LeadsTo (step : σ → α → Option σ) (schedule : ℕ → α) (s : σ) (p q : σ → Prop) : Prop :=
  ∀ n, p (trace step schedule s n) → ∃ m ≥ n, q (trace step schedule s m)

theorem LeadsTo.refl (p : σ → Prop) : LeadsTo step schedule s p p :=
  fun n hn => ⟨n, Nat.le_refl n, hn⟩

theorem LeadsTo.of_rounds {p' : σ → Prop} (h : ∀ k, LeadsTo step schedule s (p k) q)
    (hrounds : ∀ n, p' (trace step schedule s n) → ∃ k, p k (trace step schedule s n)) :
    LeadsTo step schedule s p' q := by
  intro n hn
  obtain ⟨k, hk⟩ := hrounds n hn
  exact h k n hk

theorem LeadsTo.trans {p : σ → Prop} (h : LeadsTo step schedule s p q)
    (h' : LeadsTo step schedule s q r) : LeadsTo step schedule s p r := by
  intro n hn
  obtain ⟨m, hm, hq⟩ := h n hn
  obtain ⟨k, hk, hr⟩ := h' m hq
  exact ⟨k, Nat.le_trans hm hk, hr⟩

theorem LeadsTo.or {p p' : σ → Prop} (h : LeadsTo step schedule s p q)
    (h' : LeadsTo step schedule s p' q) : LeadsTo step schedule s (fun s => p s ∨ p' s) q :=
  fun n hn => hn.elim (h n) (h' n)

theorem trace_kept (hkeep : ∀ t a u, q t → step t a = some u → q u)
    (h : q (trace step schedule s n)) (hm : n ≤ m) : q (trace step schedule s m) := by
  induction hm with
  | refl => exact h
  | @step m _ ih =>
    rcases trace_succ step schedule s m with hsame | hstep
    · rwa [hsame]
    · exact hkeep _ _ _ ih hstep

/-- A state `k` rounds away from what is wanted comes there: no action takes it farther away, and
the actions of one kind bring it nearer. The induction is on the rounds. -/
theorem LeadsTo.descent {kind : ℕ → α → Prop} (hinv : ∀ n, I (trace step schedule s n))
    (hkind : ∀ k, Recurs schedule (kind k))
    (hkeep : ∀ k t a u, I t → p k t → ¬ q t → step t a = some u → q u ∨ ∃ j ≤ k, p j u)
    (hnear : ∀ k t a, I t → p k t → ¬ q t → kind k a →
      ∃ u, step t a = some u ∧ (q u ∨ ∃ j < k, p j u)) (k : ℕ) :
    LeadsTo step schedule s (p k) q := by
  induction k using Nat.strongRecOn with
  | ind k ih =>
    intro n hn
    obtain ⟨m, hm, hturn⟩ := hkind k n
    by_contra hnever
    have hnot (i : ℕ) (hi : n ≤ i) : ¬ q (trace step schedule s i) :=
      fun hq => hnever ⟨i, hi, hq⟩
    have hfar (i j : ℕ) (hi : n ≤ i) (hj : p j (trace step schedule s i)) : ¬ j < k := by
      intro hjk
      obtain ⟨l, hl, hq⟩ := ih j hjk i hj
      exact hnot l (Nat.le_trans hi hl) hq
    -- Until the turn comes the state stays `k` rounds away.
    have hwait (d : ℕ) : p k (trace step schedule s (n + d)) := by
      induction d with
      | zero => exact hn
      | succ d ihd =>
        rcases trace_succ step schedule s (n + d) with hsame | hstep
        · rw [← Nat.add_assoc, hsame]
          exact ihd
        · rcases hkeep k _ _ _ (hinv _) ihd (hnot _ (by omega)) hstep with hq | ⟨j, hj, hp⟩
          · exact absurd hq (hnot _ (by omega))
          · obtain rfl : j = k := by
              have := hfar (n + d + 1) j (by omega) hp
              omega
            exact hp
    have hcurrent : p k (trace step schedule s m) := by
      have := hwait (m - n)
      rwa [Nat.add_sub_cancel' hm] at this
    obtain ⟨u, hstep, hnear'⟩ := hnear k _ _ (hinv m) hcurrent (hnot m hm) hturn
    have hnext : trace step schedule s (m + 1) = u := by simp [trace, hstep]
    rcases hnear' with hq | ⟨j, hj, hp⟩
    · exact hnot (m + 1) (by omega) (hnext ▸ hq)
    · exact hfar (m + 1) j (by omega) (hnext ▸ hp) hj

end Recurring

end Transition
