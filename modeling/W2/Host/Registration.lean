import W2.Transition
import Mathlib.Logic.Function.Basic

/-!
# Clients and the event loop

What constructing and destroying `SerialPortClient`s on one `IOLoop` leaves behind: the
descriptors this code has opened and not closed, the entries of `handlers_`, and the clients
that are alive. A constructor that throws runs no destructor, so what it has done by then stays.
-/

namespace W2.Registration

open Transition

abbrev Descriptor := ℕ

abbrev ClientId := ℕ

/-- The outcome of a construction: the system call that fails, or none of them. `open` answers
with a descriptor unless it is the call that fails. -/
inductive Attempt
  | openFails
  | tcgetattrFails (fd : Descriptor)
  | tcsetattrFails (fd : Descriptor)
  | keventFails (fd : Descriptor)
  | succeeds (fd : Descriptor)
  deriving DecidableEq, Repr

inductive Operation
  | construct (attempt : Attempt)
  | destroy (client : ClientId)
  deriving DecidableEq, Repr

/-- `handlers` maps a descriptor to the client whose `onReadable` its callback invokes, `alive`
a live client to its `serialFd_`. -/
structure World where
  opened : Descriptor → Bool
  handlers : Descriptor → Option ClientId
  alive : ClientId → Option Descriptor
  next : ClientId

def World.initial : World := ⟨fun _ => false, fun _ => none, fun _ => none, 0⟩

def World.open (w : World) (fd : Descriptor) : Option World :=
  if w.opened fd then none else some { w with opened := Function.update w.opened fd true }

/-- `IOLoop::registerHandle` up to the call of `kevent`, for a new client. Its number is not given
again, whether the construction goes on or not. -/
def World.registerHandle (w : World) (fd : Descriptor) : World :=
  { w with handlers := Function.update w.handlers fd (some w.next), next := w.next + 1 }

def World.construct (w : World) : Attempt → Option World
  | .openFails => some w
  | .tcgetattrFails fd => w.open fd
  | .tcsetattrFails fd => w.open fd
  | .keventFails fd => (w.open fd).map fun w => w.registerHandle fd
  | .succeeds fd => (w.open fd).map fun w =>
    { w.registerHandle fd with alive := Function.update w.alive w.next (some fd) }

def World.destroy (w : World) (client : ClientId) : Option World :=
  (w.alive client).map fun fd =>
    { w with
      opened := Function.update w.opened fd false
      alive := Function.update w.alive client none }

def step (w : World) : Operation → Option World
  | .construct attempt => w.construct attempt
  | .destroy client => w.destroy client

def World.Owned (w : World) (fd : Descriptor) : Prop := ∃ client, w.alive client = some fd

/-- Open descriptors, registered descriptors and descriptors of live clients are the same, and a
callback belongs to the client that owns its descriptor. -/
structure InStep (w : World) : Prop where
  opened : ∀ fd, w.opened fd = true ↔ w.Owned fd
  registered : ∀ fd, (∃ client, w.handlers fd = some client) ↔ w.Owned fd
  callback : ∀ fd client, w.handlers fd = some client → w.alive client = some fd

def Operation.Clean : Operation → Prop
  | .construct .openFails => True
  | .construct (.succeeds _) => True
  | _ => False

structure Clients (w : World) : Prop where
  fresh : ∀ client, w.next ≤ client → w.alive client = none
  opened : ∀ client fd, w.alive client = some fd → w.opened fd = true
  unique : ∀ client client' fd, w.alive client = some fd → w.alive client' = some fd →
    client = client'

variable {w w' : World} {op : Operation}

theorem open_eq {fd : Descriptor} : w.open fd = some w' ↔
    w.opened fd = false ∧ { w with opened := Function.update w.opened fd true } = w' := by
  unfold World.open
  cases w.opened fd <;> simp

theorem Clients.open {fd : Descriptor} (h : Clients w) (hopen : w.open fd = some w') :
    Clients w' := by
  obtain ⟨-, rfl⟩ := open_eq.mp hopen
  refine ⟨h.fresh, fun client x hx => ?_, h.unique⟩
  by_cases hfd : x = fd
  · simp [hfd]
  · simpa [Function.update, hfd] using h.opened client x hx

theorem Clients.registerHandle (h : Clients w) (fd : Descriptor) :
    Clients (w.registerHandle fd) :=
  ⟨fun client hclient => h.fresh client (Nat.le_of_succ_le hclient), h.opened, h.unique⟩

theorem Clients.enter {fd : Descriptor} (h : Clients w) (hfree : w.opened fd = false) :
    Clients { w with
      opened := Function.update w.opened fd true
      handlers := Function.update w.handlers fd (some w.next)
      alive := Function.update w.alive w.next (some fd)
      next := w.next + 1 } := by
  have hother (client : ClientId) (x : Descriptor) (hx : w.alive client = some x) : x ≠ fd := by
    rintro rfl
    simp [h.opened client x hx] at hfree
  refine ⟨fun client hclient => ?_, fun client x hx => ?_, fun client client' x hx hx' => ?_⟩
  · have hlt : w.next < client := hclient
    simpa [Function.update, Nat.ne_of_gt hlt] using h.fresh client (Nat.le_of_lt hlt)
  · by_cases hnext : client = w.next
    · have hfd : fd = x := by simpa [hnext] using hx
      simp [hfd]
    · have hold : w.alive client = some x := by simpa [Function.update, hnext] using hx
      simpa [Function.update, hother client x hold] using h.opened client x hold
  · simp only [Function.update, eq_rec_constant, dite_eq_ite] at hx hx'
    split_ifs at hx hx' with hc hc' hc'
    · exact hc.trans hc'.symm
    · exact absurd (Option.some.inj hx).symm (hother client' x hx')
    · exact absurd (Option.some.inj hx').symm (hother client x hx)
    · exact h.unique client client' x hx hx'

theorem Clients.destroy {client : ClientId} (h : Clients w)
    (hdestroy : w.destroy client = some w') : Clients w' := by
  obtain ⟨fd, hfd, rfl⟩ := Option.map_eq_some_iff.mp hdestroy
  have hrest (c : ClientId) (x : Descriptor)
      (hx : Function.update w.alive client none c = some x) : c ≠ client ∧ w.alive c = some x := by
    by_cases hc : c = client
    · simp [hc] at hx
    · exact ⟨hc, by simpa [Function.update, hc] using hx⟩
  refine ⟨fun c hc => ?_, fun c x hx => ?_, fun c c' x hx hx' => ?_⟩
  · by_cases hne : c = client
    · simp [hne]
    · simpa [Function.update, hne] using h.fresh c hc
  · obtain ⟨hne, hold⟩ := hrest c x hx
    have hother : x ≠ fd := by
      rintro rfl
      exact hne (h.unique c client x hold hfd)
    simpa [Function.update, hother] using h.opened c x hold
  · exact h.unique c c' x (hrest c x hx).2 (hrest c' x hx').2

theorem Clients.step (h : Clients w) (hstep : step w op = some w') : Clients w' := by
  cases op with
  | destroy client => exact h.destroy hstep
  | construct attempt =>
    cases attempt with
    | openFails =>
      obtain rfl : w = w' := Option.some.inj hstep
      exact h
    | tcgetattrFails fd => exact h.open hstep
    | tcsetattrFails fd => exact h.open hstep
    | keventFails fd =>
      obtain ⟨w₁, hopen, rfl⟩ := Option.map_eq_some_iff.mp hstep
      exact (h.open hopen).registerHandle fd
    | succeeds fd =>
      obtain ⟨w₁, hopen, rfl⟩ := Option.map_eq_some_iff.mp hstep
      obtain ⟨hfree, rfl⟩ := open_eq.mp hopen
      exact h.enter hfree

theorem leak_not_inStep {fd : Descriptor} (h : Clients w) (hfree : w.opened fd = false)
    (halive : w'.alive = w.alive) (hopened : w'.opened fd = true) : ¬ InStep w' := by
  intro hw
  obtain ⟨client, hclient⟩ := (hw.opened fd).mp hopened
  rw [halive] at hclient
  simp [h.opened client fd hclient] at hfree

theorem enter_inStep {fd : Descriptor} (h : Clients w) (hw : InStep w)
    (hfree : w.opened fd = false) :
    InStep { w with
      opened := Function.update w.opened fd true
      handlers := Function.update w.handlers fd (some w.next)
      alive := Function.update w.alive w.next (some fd)
      next := w.next + 1 } := by
  have howned (x : Descriptor) : (∃ client, Function.update w.alive w.next (some fd) client =
      some x) ↔ x = fd ∨ w.Owned x := by
    constructor
    · rintro ⟨client, hclient⟩
      by_cases hnext : client = w.next
      · exact .inl (by simpa [hnext, eq_comm] using hclient)
      · exact .inr ⟨client, by simpa [Function.update, hnext] using hclient⟩
    · rintro (rfl | ⟨client, hclient⟩)
      · exact ⟨w.next, by simp⟩
      · have hnext : client ≠ w.next := by
          rintro rfl
          simp [h.fresh w.next (Nat.le_refl _)] at hclient
        exact ⟨client, by simpa [Function.update, hnext] using hclient⟩
  refine ⟨fun x => (?_ : _ ↔ _).trans (howned x).symm,
    fun x => (?_ : _ ↔ _).trans (howned x).symm, fun x client hx => ?_⟩
  · by_cases hfd : x = fd
    · simp [hfd]
    · simpa [Function.update, hfd] using hw.opened x
  · by_cases hfd : x = fd
    · simp [hfd]
    · simpa [Function.update, hfd] using hw.registered x
  · by_cases hfd : x = fd
    · obtain rfl : w.next = client := by simpa [hfd] using hx
      simp [hfd]
    · have hold := hw.callback x client (by simpa [Function.update, hfd] using hx)
      have hnext : client ≠ w.next := by
        rintro rfl
        simp [h.fresh w.next (Nat.le_refl _)] at hold
      simpa [Function.update, hnext] using hold

theorem destroy_not_inStep {client : ClientId} (h : Clients w) (hw : InStep w)
    (hdestroy : w.destroy client = some w') : ¬ InStep w' := by
  obtain ⟨fd, hfd, rfl⟩ := Option.map_eq_some_iff.mp hdestroy
  intro hw'
  obtain ⟨owner, howner⟩ := (hw.registered fd).mpr ⟨client, hfd⟩
  obtain rfl : owner = client := h.unique _ _ fd (hw.callback fd owner howner) hfd
  have hgone := hw'.callback fd owner howner
  simp at hgone

theorem step_inStep (h : Clients w) (hw : InStep w) (hstep : step w op = some w') :
    InStep w' ↔ op.Clean := by
  cases op with
  | destroy client => exact iff_of_false (destroy_not_inStep h hw hstep) id
  | construct attempt =>
    cases attempt with
    | openFails =>
      obtain rfl : w = w' := Option.some.inj hstep
      exact iff_of_true hw trivial
    | tcgetattrFails fd | tcsetattrFails fd =>
      obtain ⟨hfree, rfl⟩ := open_eq.mp hstep
      exact iff_of_false (leak_not_inStep h hfree rfl (by simp)) id
    | keventFails fd =>
      obtain ⟨w₁, hopen, rfl⟩ := Option.map_eq_some_iff.mp hstep
      obtain ⟨hfree, rfl⟩ := open_eq.mp hopen
      exact iff_of_false (leak_not_inStep h hfree rfl (by simp [World.registerHandle])) id
    | succeeds fd =>
      obtain ⟨w₁, hopen, rfl⟩ := Option.map_eq_some_iff.mp hstep
      obtain ⟨hfree, rfl⟩ := open_eq.mp hopen
      exact iff_of_true (enter_inStep h hw hfree) trivial

def run : List Operation → World → Option World := runSchedule step anyAction

theorem run_cons {ops : List Operation} :
    run (op :: ops) w = some w' ↔ ∃ w₁, step w op = some w₁ ∧ run ops w₁ = some w' := by
  rw [run, runSchedule, if_pos (show anyAction w op from trivial), Option.bind_eq_some_iff]

/-- The induction is on the operations, with the first one split off by `step_inStep`. -/
theorem run_inStep (ops : List Operation) (h : Clients w) (hw : InStep w)
    (hrun : run ops w = some w') :
    (∀ k ≤ ops.length, ∀ w₁, run (ops.take k) w = some w₁ → InStep w₁) ↔
      ∀ op ∈ ops, op.Clean := by
  induction ops generalizing w with
  | nil =>
    refine iff_of_true (fun k _ w₁ hw₁ => ?_) (by simp)
    obtain rfl : w = w₁ := by simpa [run, runSchedule] using hw₁
    exact hw
  | cons op ops ih =>
    obtain ⟨next, hstep, hrest⟩ := run_cons.mp hrun
    have hclean := step_inStep h hw hstep
    constructor
    · intro hall
      have hnext : InStep next := hall 1 (by simp) next (run_cons.mpr ⟨next, hstep, rfl⟩)
      have hops := (ih (h.step hstep) hnext hrest).mp fun k hk w₁ hw₁ =>
        hall (k + 1) (by simpa using hk) w₁ (run_cons.mpr ⟨next, hstep, hw₁⟩)
      simpa [hclean.mp hnext] using hops
    · intro hall k hk w₁ hw₁
      have hnext := hclean.mpr (hall op (by simp))
      cases k with
      | zero =>
        obtain rfl : w = w₁ := by simpa [run, runSchedule] using hw₁
        exact hw
      | succ k =>
        obtain ⟨next', hstep', hrun'⟩ := run_cons.mp hw₁
        obtain rfl : next = next' := Option.some.inj (hstep.symm.trans hstep')
        exact (ih (h.step hstep) hnext hrest).mpr (fun op hop => hall op (by simp [hop])) k
          (by simpa using hk) w₁ hrun'

theorem initial_clients : Clients World.initial := by
  constructor <;> simp [World.initial]

theorem initial_inStep : InStep World.initial := by
  constructor <;> simp [World.initial, World.Owned]

theorem registration_in_step (ops : List Operation) (hrun : run ops World.initial = some w) :
    (∀ k ≤ ops.length, ∀ w₁, run (ops.take k) World.initial = some w₁ → InStep w₁) ↔
      ∀ op ∈ ops, op.Clean :=
  run_inStep ops initial_clients initial_inStep hrun

theorem registration_in_step_two :
    (∀ k ≤ [Operation.construct (.succeeds 3), .construct .openFails].length, ∀ w₁,
      run ([Operation.construct (.succeeds 3), .construct .openFails].take k) World.initial =
        some w₁ → InStep w₁) ↔
      ∀ op ∈ [Operation.construct (.succeeds 3), .construct .openFails], op.Clean :=
  registration_in_step [.construct (.succeeds 3), .construct .openFails] rfl

theorem registration_outlives : ∃ w,
    run [.construct (.succeeds 3), .destroy 0] World.initial = some w ∧ ¬ InStep w := by
  refine ⟨_, rfl, fun hw => ?_⟩
  obtain ⟨client, hclient⟩ := (hw.registered 3).mp ⟨0, rfl⟩
  by_cases hfirst : client = 0
  · simp [hfirst, World.initial] at hclient
  · simp [Function.update, World.initial, hfirst] at hclient

end W2.Registration
