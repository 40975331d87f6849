import W2.Link.ClosedLoop

/-!
# The upload comes to its end on the machine

Under a schedule that gives every action its turn again and again the program passes one wait after
the other. The bytes of a request arrive, whatever the machine does meanwhile; then the machine is a
fixed number of instructions away from the acknowledgement, and only its own steps count; and what
it has sent goes through `on_receive` to `last_read`.
-/

namespace W2.ClosedLoop

open Mips Transition Miniboot Console Host

variable {P : Platform Uart} {base : ℕ} {buffer : ℕ → Byte} {jobs : List Job} {s₀ s t : State}
  {schedule : ℕ → Action} {j : ℕ}

/-- Every action has its turn again and again, with batches of any size. -/
structure Fair (schedule : ℕ → Action) : Prop where
  send : Recurs schedule (· = .send)
  poll : Recurs schedule (· = .poll)
  clear : Recurs schedule (· = .clear)
  receive : Recurs schedule fun a => ∃ n, a = .receive n
  assign : Recurs schedule (· = .assign)
  arrive : Recurs schedule (· = .arrive)
  cycle : Recurs schedule (· = .cycle)

def Idle (j : ℕ) (s : State) : Prop := s.phase = .ready ∧ s.sent = j

def Pending (j : ℕ) (s : State) : Prop := s.phase ≠ .ready ∧ s.sent = j + 1

def Answered (s₀ s : State) : Prop := s.board.dev.tx = answers s₀ s.sent

theorem trace_reached (session : List (List Byte)) (schedule : ℕ → Action) (n : ℕ) :
    Reachable (· = s₀) (step P session) anyAction (trace (step P session) schedule s₀ n) :=
  @trace_reachable State Action (step P session) schedule s₀ (· = s₀) rfl n

section Stages

variable {session : List (List Byte)} (hfair : Fair schedule)
include hfair

theorem opening_idle : LeadsTo (step P session) schedule s₀
    (fun s : State => s.phase = .clearing ∧ s.sent = 0) (Idle 0) := by
  refine LeadsTo.descent (p := fun _ (s : State) => s.phase = .clearing ∧ s.sent = 0)
    (I := fun _ => True) (fun _ => trivial) (fun _ => hfair.clear) ?_ ?_ 0
  · rintro k s a t - ⟨hphase, hsent⟩ - hstep
    cases stepped hstep with
    | send _ hready => simp [hphase] at hready
    | passedOver hwait | noticed hwait => simp [hphase] at hwait
    | clear => exact Or.inl ⟨rfl, hsent⟩
    | receive | assign | arrive | cycle => exact Or.inr ⟨k, Nat.le_refl k, hphase, hsent⟩
  · rintro k s a - ⟨hphase, hsent⟩ - rfl
    exact ⟨{ s with phase := .ready, lastRead := 0#8 },
      by simp [step, StopAndWait.Program.clear, hphase], Or.inl ⟨rfl, hsent⟩⟩

theorem idle_pending (hj : j < session.length) :
    LeadsTo (step P session) schedule s₀ (Idle j) (Pending j) := by
  refine LeadsTo.descent (p := fun _ => Idle j) (I := fun _ => True) (fun _ => trivial)
    (fun _ => hfair.send) ?_ ?_ 0
  · rintro k s a t - ⟨hphase, hsent⟩ - hstep
    cases stepped hstep with
    | send => exact Or.inl ⟨by simp, by simp [hsent]⟩
    | passedOver hwait | noticed hwait | clear hwait => simp [hphase] at hwait
    | receive | assign | arrive | cycle => exact Or.inr ⟨k, Nat.le_refl k, hphase, hsent⟩
  · rintro k s a - ⟨hphase, rfl⟩ - rfl
    obtain ⟨request, hget⟩ : ∃ request, session[s.sent]? = some request :=
      ⟨_, List.getElem?_eq_getElem hj⟩
    exact ⟨{ s with phase := .waiting, sent := s.sent + 1, toBoard := s.toBoard ++ request },
      by simp [step, StopAndWait.Program.send, hphase, hget], Or.inl ⟨by simp, rfl⟩⟩

theorem pending_delivered : LeadsTo (step P session) schedule s₀ (Pending j)
    fun s => (Pending j s ∧ s.toBoard = []) ∨ Idle (j + 1) s := by
  refine LeadsTo.of_rounds (p := fun k s => Pending j s ∧ s.toBoard.length = k)
    (LeadsTo.descent (I := fun _ => True) (fun _ => trivial) (fun _ => hfair.arrive) ?_ ?_)
    fun n hn => ⟨_, hn, rfl⟩
  · rintro k s a t - ⟨⟨hphase, hsent⟩, hlen⟩ - hstep
    cases stepped hstep with
    | send _ hready => exact absurd hready hphase
    | clear => exact Or.inl (Or.inr ⟨rfl, hsent⟩)
    | arrive b rest hto =>
      rw [hto, List.length_cons] at hlen
      exact Or.inr ⟨rest.length, by omega, ⟨hphase, hsent⟩, rfl⟩
    | noticed => exact Or.inr ⟨k, Nat.le_refl k, ⟨by simp, hsent⟩, hlen⟩
    | passedOver | receive | assign | cycle =>
      exact Or.inr ⟨k, Nat.le_refl k, ⟨hphase, hsent⟩, hlen⟩
  · rintro k s a - ⟨⟨hphase, hsent⟩, rfl⟩ hnot rfl
    cases hto : s.toBoard with
    | nil => exact absurd (Or.inl ⟨⟨hphase, hsent⟩, hto⟩) hnot
    | cons b rest =>
      refine ⟨{ s with toBoard := rest, board := awaiting s.board [(0, b)] }, by simp [step, hto],
        Or.inr ⟨rest.length, by simp, ⟨hphase, hsent⟩, rfl⟩⟩

theorem delivered_answered (R : Rig P base jobs) (hstart : Start s₀)
    (hsession : session = jobs.map (Job.text buffer)) :
    LeadsTo (step P session) schedule s₀ (fun s => Pending j s ∧ s.toBoard = [])
      fun s => (Pending j s ∧ Answered s₀ s) ∨ Idle (j + 1) s := by
  subst hsession
  refine LeadsTo.of_rounds (p := fun k s => Pending j s ∧ s.toBoard = [] ∧
      ∃ v, run (Mips.step P) k s.board = some v ∧
        v.dev.tx = answers s₀ (j + 1))
    (LeadsTo.descent (I := fun _ => True) (fun _ => trivial) (fun _ => hfair.cycle) ?keep ?near)
    ?start
  case keep =>
    rintro k s a t - ⟨⟨hphase, hsent⟩, hto, v, hrun, hv⟩ hnot hstep
    cases stepped hstep with
    | send _ hready => exact absurd hready hphase
    | clear => exact Or.inl (Or.inr ⟨rfl, hsent⟩)
    | arrive b rest hsome => simp [hto] at hsome
    | noticed => exact Or.inr ⟨k, Nat.le_refl k, ⟨by simp, hsent⟩, hto, v, hrun, hv⟩
    | passedOver | receive | assign =>
      exact Or.inr ⟨k, Nat.le_refl k, ⟨hphase, hsent⟩, hto, v, hrun, hv⟩
    | cycle board hboard =>
      cases k with
      | zero =>
        obtain rfl := Option.some.inj hrun
        exact absurd (Or.inl ⟨⟨hphase, hsent⟩, hv.trans (by rw [hsent])⟩) hnot
      | succ k =>
        rw [run_succ, hboard, andThen_some] at hrun
        exact Or.inr ⟨k, Nat.le_succ k, ⟨hphase, hsent⟩, hto, v, hrun, hv⟩
  case near =>
    rintro k s _ - ⟨⟨hphase, hsent⟩, hto, v, hrun, hv⟩ hnot rfl
    cases k with
    | zero =>
      obtain rfl := Option.some.inj hrun
      exact absurd (Or.inl ⟨⟨hphase, hsent⟩, hv.trans (by rw [hsent])⟩) hnot
    | succ k =>
      cases hboard : Mips.step P s.board with
      | none => simp [hboard, andThen] at hrun
      | some board =>
        rw [run_succ, hboard, andThen_some] at hrun
        exact ⟨{ s with board := board }, by simp [step, hboard],
          Or.inr ⟨k, Nat.lt_succ_self k, ⟨hphase, hsent⟩, hto, v, hrun, hv⟩⟩
  case start =>
    intro n hn
    have hforetold := Foretold.reachable R hstart
      (trace_reached (jobs.map (Job.text buffer)) schedule n)
    generalize trace (step P (jobs.map (Job.text buffer))) schedule s₀ n = s at *
    obtain ⟨⟨hphase, hsent⟩, hto⟩ := hn
    obtain ⟨u, hu, ⟨v, hv, hvtx⟩, k, hk⟩ := hforetold.machine R hstart [] (by simp [hto])
    rw [awaiting_nil] at hu
    rw [hsent] at hvtx
    rcases hu.total hv with hsv | hvs
    · obtain ⟨k, hrun⟩ := hsv.to_run
      exact ⟨k, ⟨hphase, hsent⟩, hto, v, hrun, hvtx⟩
    · refine ⟨0, ⟨hphase, hsent⟩, hto, s.board, rfl, ?_⟩
      have hle := (R.cumulative.steps hvs).length_le
      rw [hvtx] at hle
      obtain ⟨hjk, hk₀⟩ := hk.of_length (Nat.succ_ne_zero j) hle
      have hks := hk.le
      obtain rfl : k = j + 1 := by omega
      exact hk.opened hk₀

omit hfair in
theorem answered_kept (R : Rig P base jobs) (hstart : Start s₀)
    (ht : Reachable (· = s₀) (step P (jobs.map (Job.text buffer))) anyAction t)
    (h : Answered s₀ s) (hsent : t.sent = s.sent)
    (htx : s.board.dev.tx <+: t.board.dev.tx) : t.board.dev.tx = s.board.dev.tx := by
  obtain ⟨k, hk⟩ := (Foretold.reachable R hstart ht).acks R hstart
  have hmost := hk.sends.length_le
  have hks := hk.le
  refine (htx.eq_of_length_le ?_).symm
  rw [h, answers_length]
  rw [answers_length] at hmost
  omega

def todo (s : State) : ℕ := 2 * s.coming.length + if s.batch = [] then 1 else 0

omit hfair in
theorem todo_receive (n : ℕ) (hbatch : s.batch = []) (hsome : s.toHost ≠ []) :
    todo { s with
      batch := s.toHost.take (n + 1), received := s.received + (s.toHost.take (n + 1)).length } <
        todo s := by
  have hpos := List.length_pos_iff.mpr hsome
  have htake : s.toHost.take (n + 1) ≠ [] := by
    rw [← List.length_pos_iff, List.length_take]
    omega
  simp only [todo, State.coming, hbatch, htake, if_true, if_false, List.length_append]
  simp only [State.toHost, List.length_take, List.length_drop, List.length_nil] at hpos ⊢
  omega

omit hfair in
theorem todo_assign {c : Byte} {rest : List Byte} (hbatch : s.batch = c :: rest) :
    todo { s with lastRead := c, batch := rest } < todo s := by
  have htoHost : State.toHost { s with lastRead := c, batch := rest } = s.toHost := rfl
  have hempty : (if rest = [] then 1 else 0) ≤ 1 := by split <;> omega
  simp only [todo, State.coming, htoHost, hbatch, List.length_append, List.length_cons,
    reduceCtorEq, if_false]
  omega

def handing (k : ℕ) (a : Action) : Prop := if k % 2 = 1 then ∃ n, a = .receive n else a = .assign

theorem Fair.handing (k : ℕ) : Recurs schedule (ClosedLoop.handing k) := by
  unfold ClosedLoop.handing
  split
  · exact hfair.receive
  · exact hfair.assign

theorem answered_quiet (R : Rig P base jobs) (hstart : Start s₀)
    (hsession : session = jobs.map (Job.text buffer)) :
    LeadsTo (step P session) schedule s₀ (fun s => Pending j s ∧ Answered s₀ s)
      fun s => (Pending j s ∧ Answered s₀ s ∧ s.coming = []) ∨ Idle (j + 1) s := by
  subst hsession
  refine LeadsTo.of_rounds (p := fun k s => Pending j s ∧ Answered s₀ s ∧ todo s = k)
    (LeadsTo.descent (trace_reached _ schedule) hfair.handing ?keep ?near)
    fun n hn => ⟨_, hn.1, hn.2, rfl⟩
  case keep =>
    rintro k s a t hs ⟨⟨hphase, hsent⟩, hanswered, rfl⟩ hnot hstep
    have ht := hs.step trivial hstep
    cases stepped hstep with
    | send _ hready => exact absurd hready hphase
    | clear => exact Or.inl (Or.inr ⟨rfl, hsent⟩)
    | noticed =>
      exact Or.inr ⟨_, Nat.le_refl _, ⟨by simp, hsent⟩, hanswered, rfl⟩
    | passedOver => exact Or.inr ⟨_, Nat.le_refl _, ⟨hphase, hsent⟩, hanswered, rfl⟩
    | receive n hbatch hsome =>
      exact Or.inr ⟨_, (todo_receive n hbatch hsome).le, ⟨hphase, hsent⟩, hanswered, rfl⟩
    | assign c rest hbatch =>
      exact Or.inr ⟨_, (todo_assign hbatch).le, ⟨hphase, hsent⟩, hanswered, rfl⟩
    | arrive b rest hto =>
      exact Or.inr ⟨_, Nat.le_refl _, ⟨hphase, hsent⟩, hanswered, rfl⟩
    | cycle board hboard =>
      have hsame : board.dev.tx = s.board.dev.tx :=
        answered_kept R hstart ht hanswered rfl (R.cumulative.single hboard)
      have htodo : todo { s with board := board } = todo s := by
        simp only [todo, State.coming, State.toHost, hsame]
      exact Or.inr ⟨_, htodo.le, ⟨hphase, hsent⟩, hsame.trans hanswered, rfl⟩
  case near =>
    rintro k s a - ⟨hpending, hanswered, rfl⟩ hnot hturn
    have hcoming : s.coming ≠ [] := fun h => hnot (Or.inl ⟨hpending, hanswered, h⟩)
    unfold ClosedLoop.handing at hturn
    cases hbatch : s.batch with
    | nil =>
      have hsome : s.toHost ≠ [] := by simpa [State.coming, hbatch] using hcoming
      obtain ⟨n, rfl⟩ : ∃ n, a = .receive n := by
        rwa [if_pos (by simp [todo, hbatch])] at hturn
      exact ⟨_, if_pos ⟨hbatch, hsome⟩,
        Or.inr ⟨_, todo_receive n hbatch hsome, hpending, hanswered, rfl⟩⟩
    | cons c rest =>
      obtain rfl : a = .assign := by
        rwa [if_neg (by simp [todo, hbatch])] at hturn
      exact ⟨{ s with lastRead := c, batch := rest },
        by simp [step, StopAndWait.Program.assign, hbatch],
        Or.inr ⟨_, todo_assign hbatch, hpending, hanswered, rfl⟩⟩

omit hfair in
theorem quiet_lastRead (R : Rig P base jobs) (hstart : Start s₀)
    (hs : Reachable (· = s₀) (step P (jobs.map (Job.text buffer))) anyAction s)
    (hpending : Pending j s) (hanswered : Answered s₀ s) (hquiet : s.coming = []) :
    s.lastRead = 6#8 := by
  obtain ⟨hphase, hsent⟩ := hpending
  obtain ⟨k, m, hk, hprogress⟩ := protocol R hstart hs
  obtain rfl : k = s.sent := by
    have hmost := hk.sends.length_le
    have hks := hk.le
    rw [hanswered, answers_length, answers_length s₀ k] at hmost
    omega
  rcases hprogress with hopening | hprogress
  · have hnone := hopening.sent
    omega
  cases hprogress with
  | ready hready => exact absurd hready hphase
  | executing _ hexec =>
    have hexec' : s.sent + 1 = s.sent := hexec
    omega
  | acking before _ _ hcoming =>
    have hview : (view (jobs.map (Job.text buffer)) s₀ s m s.sent).coming = s.coming := by
      have hsends : answers s₀ s.sent = s.board.dev.tx := hanswered.symm
      simp [view, StopAndWait.State.coming, Link.Wire.inbound, State.coming, State.toHost, hsends]
    rw [hview, hquiet] at hcoming
    simp at hcoming
  | acked _ _ _ hlast => exact hlast

def leaving (k : ℕ) (a : Action) : Prop := a = if k = 0 then .clear else .poll

theorem Fair.leaving (k : ℕ) : Recurs schedule (ClosedLoop.leaving k) := by
  unfold ClosedLoop.leaving
  split
  · exact hfair.clear
  · exact hfair.poll

theorem quiet_idle (R : Rig P base jobs) (hstart : Start s₀)
    (hsession : session = jobs.map (Job.text buffer)) :
    LeadsTo (step P session) schedule s₀
      (fun s => Pending j s ∧ Answered s₀ s ∧ s.coming = []) (Idle (j + 1)) := by
  subst hsession
  refine LeadsTo.of_rounds (p := fun k s => (Pending j s ∧ Answered s₀ s ∧ s.coming = []) ∧
      s.phase = if k = 0 then .clearing else .waiting)
    (LeadsTo.descent (trace_reached _ schedule) hfair.leaving ?keep ?near) ?start
  case keep =>
    rintro k s a t hs ⟨⟨⟨hphase, hsent⟩, hanswered, hquiet⟩, hwaits⟩ - hstep
    have hlast := quiet_lastRead R hstart hs ⟨hphase, hsent⟩ hanswered hquiet
    obtain ⟨hbatch, htoHost⟩ := List.append_eq_nil_iff.mp hquiet
    have ht := hs.step trivial hstep
    cases stepped hstep with
    | send _ hready => exact absurd hready hphase
    | passedOver _ hnot => exact absurd hlast hnot
    | noticed =>
      exact Or.inr ⟨0, Nat.zero_le k, ⟨⟨by simp, hsent⟩, hanswered, hquiet⟩, rfl⟩
    | clear => exact Or.inl ⟨rfl, hsent⟩
    | receive n _ hsome => exact absurd htoHost hsome
    | assign c rest hsome => simp [hbatch] at hsome
    | arrive b rest =>
      exact Or.inr ⟨k, Nat.le_refl k, ⟨⟨hphase, hsent⟩, hanswered, hquiet⟩, hwaits⟩
    | cycle board hboard =>
      have hsame : board.dev.tx = s.board.dev.tx :=
        answered_kept R hstart ht hanswered rfl (R.cumulative.single hboard)
      have hcoming : State.coming { s with board := board } = [] := by
        simpa only [State.coming, State.toHost, hsame] using hquiet
      exact Or.inr ⟨k, Nat.le_refl k, ⟨⟨hphase, hsent⟩, hsame.trans hanswered, hcoming⟩, hwaits⟩
  case near =>
    rintro k s _ hs ⟨⟨⟨hphase, hsent⟩, hanswered, hquiet⟩, hwaits⟩ - rfl
    have hlast := quiet_lastRead R hstart hs ⟨hphase, hsent⟩ hanswered hquiet
    cases k with
    | zero =>
      have hclearing : s.phase = .clearing := hwaits
      exact ⟨{ s with phase := .ready, lastRead := 0#8 },
        by simp [step, StopAndWait.Program.clear, hclearing], Or.inl ⟨rfl, hsent⟩⟩
    | succ k =>
      have hwaiting : s.phase = .waiting := hwaits
      exact ⟨{ s with phase := .clearing },
        by simp [step, StopAndWait.Program.poll, hwaiting, hlast],
        Or.inr ⟨0, Nat.succ_pos k, ⟨⟨by simp, hsent⟩, hanswered, hquiet⟩, rfl⟩⟩
  case start =>
    intro n hn
    cases hphase : (trace (step P (jobs.map (Job.text buffer))) schedule s₀ n).phase with
    | ready => exact absurd hphase hn.1.1
    | clearing => exact ⟨0, hn, rfl⟩
    | waiting => exact ⟨1, hn, rfl⟩

theorem idle_next (R : Rig P base jobs) (hstart : Start s₀)
    (hsession : session = jobs.map (Job.text buffer)) (hj : j < session.length) :
    LeadsTo (step P session) schedule s₀ (Idle j) (Idle (j + 1)) := by
  have hanswered := (answered_quiet hfair R hstart hsession (j := j)).trans
    ((quiet_idle hfair R hstart hsession).or (.refl _))
  have hdelivered := (delivered_answered hfair R hstart hsession (j := j)).trans
    (hanswered.or (.refl _))
  exact (idle_pending hfair hj).trans
    ((pending_delivered hfair).trans (hdelivered.or (.refl _)))

theorem idle_last (R : Rig P base jobs) (hstart : Start s₀)
    (hsession : session = jobs.map (Job.text buffer)) (hj : j ≤ session.length) :
    LeadsTo (step P session) schedule s₀ (Idle 0) (Idle j) := by
  induction j with
  | zero => exact .refl _
  | succ j ih => exact (ih (by omega)).trans (idle_next hfair R hstart hsession (by omega))

omit hfair in
theorem idle_kept {a : Action} (h : Idle session.length s) (hstep : step P session s a = some t) :
    Idle session.length t := by
  obtain ⟨hphase, hsent⟩ := h
  cases stepped hstep with
  | send request _ hget => simp [hsent] at hget
  | passedOver hwait | noticed hwait | clear hwait => simp [hphase] at hwait
  | receive | assign | arrive | cycle => exact ⟨hphase, hsent⟩

end Stages

/-- From the menu on, under every schedule that gives each action its turn again and again, the
upload program comes back from its last wait and the image is in the memory of the board, and stays
there. -/
theorem upload_ends (K : StartBoard P) (C : Cumulative P) (F : Causal P) (address size : ℕ)
    (buffer : ℕ → Byte) (haligned : address % 4 = 0) (hfits : address + size + 768 ≤ 4294967296)
    (setUp : List (List Byte)) (rs : List Request)
    (hsession : (setUp = StopAndWait.setUpFlashMac ∧ rs = uploadBinMac address size) ∨
      (setUp = StopAndWait.setUpFlashWindows ∧ rs = uploadBinWindows address size))
    (hflash : ∀ p ∈ flashStores.take setUp.length, Takes P p.1 p.2)
    (hplain : ∀ r ∈ rs, ∀ x, InRange (BitVec.ofNat 32 r.address) (4 * r.words) x →
      P.Ram x ∧ P.writable x = true ∧ ¬ Below 0x01000fb0#32 104 x)
    (s₀ : State) (hstart : Start s₀) (schedule : ℕ → Action) (hfair : Fair schedule)
    (session : List (List Byte)) (hall : session = setUp ++ rs.map (Request.text buffer)) :
    ∃ N, ∀ n ≥ N,
      (trace (step P session) schedule s₀ n).phase = .ready ∧
      (trace (step P session) schedule s₀ n).sent = session.length ∧
      ∀ i < size, (trace (step P session) schedule s₀ n).board.mem
        (BitVec.ofNat 32 (address + i)) = buffer i := by
  subst hall
  obtain ⟨R, hcovered⟩ := session_rig K C F haligned hfits hsession hflash hplain
  have hjobs : setUp ++ rs.map (Request.text buffer) =
      (sessionJobs setUp rs).map (Job.text buffer) := sessionJobs_text.symm
  obtain ⟨N, -, hN⟩ := (opening_idle hfair).trans
    (idle_last hfair R hstart hjobs (Nat.le_refl _)) 0 ⟨hstart.phase, hstart.sent⟩
  refine ⟨N, fun n hn => ?_⟩
  obtain ⟨hphase, hsent⟩ := trace_kept (fun _ _ _ => idle_kept) hN hn
  obtain ⟨hmem, -⟩ := session_memory R hstart (trace_reached _ schedule n)
  refine ⟨hphase, hsent, fun i hi => image_memory hcovered hmem hphase ?_ hi⟩
  rw [hsent, List.length_append, List.length_map]

section Rounds

def rounds (n : ℕ) : Action :=
  [.send, .poll, .clear, .receive 0, .assign, .arrive, .cycle].getD (n % 7) .send

theorem rounds_recurs {kind : Action → Prop} (k : ℕ) (h : kind (rounds k)) :
    Recurs rounds kind := by
  intro n
  refine ⟨7 * n + k, by omega, ?_⟩
  rwa [rounds, Nat.mul_add_mod, ← rounds]

theorem rounds_fair : Fair rounds where
  send := rounds_recurs 0 rfl
  poll := rounds_recurs 1 rfl
  clear := rounds_recurs 2 rfl
  receive := rounds_recurs 3 ⟨0, rfl⟩
  assign := rounds_recurs 4 rfl
  arrive := rounds_recurs 5 rfl
  cycle := rounds_recurs 6 rfl

theorem upload_ends_bench : ∃ N, ∀ n ≥ N,
    (trace (step startBench loopSession) rounds loopStart n).phase = .ready ∧
    (trace (step startBench loopSession) rounds loopStart n).sent = loopSession.length ∧
    ∀ i < 20, (trace (step startBench loopSession) rounds loopStart n).board.mem
      (BitVec.ofNat 32 (0x200 + i)) = BitVec.ofNat 8 i :=
  upload_ends startBench_board startBench_cumulative startBench_causal 0x200 20
    (fun i => BitVec.ofNat 8 i) (by decide) (by decide) StopAndWait.setUpFlashMac _
    (.inl ⟨rfl, rfl⟩) (fun p hp => startBench_flash p (List.mem_of_mem_take hp)) startBench_plain
    loopStart loopStart_start rounds rounds_fair loopSession rfl

end Rounds

end W2.ClosedLoop
