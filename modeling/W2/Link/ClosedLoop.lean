import W2.Firmware.Session
import W2.Firmware.Waiting
import W2.Link.Acknowledged
import W2.Link.Completion

/-!
# The upload program and the machine code

The upload program at one end of the line and the processor with its serial port at the other. The
board waits at its menu, and the program has just asked for the console. It sends a request, waits
for the acknowledgement in `last_read` and goes on; every byte takes its time to the port, and the
processor executes one instruction at a time in between. The machine cannot see what has not
arrived, so a run of the loop is a run of the machine to which everything had been given at once,
with the right delays: what the machine is known to do with a whole upload holds of the loop.
-/

namespace W2

open Mips Transition Miniboot Console Host

variable {P : Platform Uart} {base : ℕ} {buffer : ℕ → Byte}

section Foresight

def Uart.later (u : Uart) (queue : List (ℕ × Byte)) : Uart := { u with rx := u.rx ++ queue }

/-- What is still to come can only make a poll fail, as if it had been farther away before. -/
structure Causal (P : Platform Uart) : Prop where
  load : ∀ u a w u', P.load u a = some (w, u') → ∀ queue, ∃ before,
    before.map Prod.snd = queue.map Prod.snd ∧
      P.load (u.later before) a = some (w, u'.later queue)
  store : ∀ u a w u', P.store u a w = some u' → ∀ queue,
    P.store (u.later queue) a w = some (u'.later queue)

def awaiting (s : State Uart) (queue : List (ℕ × Byte)) : State Uart :=
  { s with dev := s.dev.later queue }

theorem awaiting_nil (s : State Uart) : awaiting s [] = s := by simp [awaiting, Uart.later]

theorem awaiting_awaiting (s : State Uart) (queue more : List (ℕ × Byte)) :
    awaiting (awaiting s queue) more = awaiting s (queue ++ more) := by
  simp [awaiting, Uart.later]

theorem step_awaiting (F : Causal P) {s t : State Uart} (h : step P s = some t)
    (queue : List (ℕ × Byte)) : ∃ before, before.map Prod.snd = queue.map Prod.snd ∧
      step P (awaiting s before) = some (awaiting t queue) := by
  obtain ⟨i, hi, hexec⟩ := Option.bind_eq_some_iff.mp h
  suffices hbefore : ∃ before, before.map Prod.snd = queue.map Prod.snd ∧
      exec P (awaiting s before) i = some (awaiting t queue) by
    obtain ⟨before, hbytes, hlater⟩ := hbefore
    exact ⟨before, hbytes, Option.bind_eq_some_iff.mpr ⟨i, hi, hlater⟩⟩
  cases i with
  | lb rt offset addr | lbu rt offset addr =>
    obtain ⟨b, hb, rfl⟩ := Option.map_eq_some_iff.mp hexec
    exact ⟨queue, rfl, Option.map_eq_some_iff.mpr ⟨b, hb, rfl⟩⟩
  | lw rt offset addr =>
    simp only [exec] at hexec
    split at hexec
    next hdev =>
      obtain ⟨⟨w, u⟩, hload, rfl⟩ := Option.map_eq_some_iff.mp hexec
      obtain ⟨before, hbytes, hlater⟩ := F.load _ _ _ _ hload queue
      exact ⟨before, hbytes, (if_pos hdev).trans (Option.map_eq_some_iff.mpr ⟨_, hlater, rfl⟩)⟩
    next hdev =>
      obtain ⟨w, hw, rfl⟩ := Option.map_eq_some_iff.mp hexec
      exact ⟨queue, rfl, (if_neg hdev).trans (Option.map_eq_some_iff.mpr ⟨w, hw, rfl⟩)⟩
  | sb rt offset addr | sw rt offset addr =>
    refine ⟨queue, rfl, ?_⟩
    simp only [exec] at hexec
    split at hexec
    next hdev =>
      obtain ⟨u, hu, rfl⟩ := Option.map_eq_some_iff.mp hexec
      have hlater := F.store _ _ _ _ hu queue
      exact (if_pos hdev).trans (Option.map_eq_some_iff.mpr ⟨_, hlater, rfl⟩)
    next hdev =>
      split at hexec
      next hplain =>
        obtain rfl := Option.some.inj hexec
        exact (if_neg hdev).trans (if_pos hplain)
      next => cases hexec
  | _ =>
    obtain rfl := Option.some.inj hexec
    exact ⟨queue, rfl, rfl⟩

end Foresight

section Machine

variable {sp : Addr} {s t : State Uart}

theorem jobs_acknowledged (B : Board P) (C : Cumulative P) (hstack : Stack P sp 104)
    {jobs : List Job} (hready : ∀ j ∈ jobs, j.Ready P sp base)
    (hclear : jobs.Pairwise fun i j => ∀ q ∈ i.requests, j.Clear sp base q)
    (hs : AtPrompt (Below sp 104) sp ⟨(jobs.map (Job.text buffer)).flatten, s.mem, s.dev.tx⟩ s) :
    (∃ s', Steps (step P) s s' ∧ s'.dev.tx = s.dev.tx ++ List.replicate jobs.length 6#8) ∧
      ∀ t, Steps (step P) s t → Acknowledged base buffer [] jobs s.dev.tx t := by
  have hnone : InMemory base buffer [] s.mem := fun r hr => by simp at hr
  have hs' : AtPrompt (Below sp 104) sp
      ⟨(jobs.map (Job.text buffer)).flatten ++ [], s.mem, s.dev.tx⟩ s := by
    rwa [List.append_nil]
  obtain ⟨s', hsteps, hend, hmem, hway⟩ :=
    jobs_run B C hstack hready (by simp) hclear hs' hnone
  refine ⟨⟨s', hsteps, hend.output⟩, fun t ht => ?_⟩
  rcases hway t ht with hafter | hround
  · have hwaits : Waits (P.confine (Below sp 104)) 0x10000330#32 (Below sp 104) s'.mem s' :=
      prompt_empty (B.confine _) hend ((hstack.confine fun _ => id).weaken (by omega))
        (fun x hx => hx.weaken (by omega)) rfl
    have hsilent : Waits P 0x10000330#32 (Below sp 104) s'.mem s' :=
      prompt_empty B hend (hstack.weaken (by omega)) (fun x hx => hx.weaken (by omega)) rfl
    have hconfined : Steps (step (P.confine (Below sp 104))) s' t :=
      (hwaits.forever (B.confine _).serial ⟨C.load, C.store⟩).1.steps
        (fun _ _ => step_confine) hafter
    refine ⟨jobs.length, Nat.le_refl _, ?_, ?_⟩
    · rw [(hsilent.forever B.serial C).2.1 t hafter, hend.output]
    · rw [List.take_length]
      refine hmem.frame fun q hq i hi =>
        steps_confine_outside (below_words hstack.aligned) hconfined ?_
      obtain ⟨j, hj, hqj⟩ := List.mem_flatMap.mp (by simpa using hq)
      exact Job.covers_above (hready j hj) hqj hi
  · exact hround

/-- What the program sends before `set_up_flash` clears `last_read`: the start of `main`, at which
the menu shows its screen once more, and the letter of the console. -/
def greeting : List Byte := [10#8, 97#8]

def opening : List Byte := menuScreen ++ consoleMark

theorem opening_run (K : StartBoard P) {input : List Byte}
    (hs : AtMenu 0x01000fc8#32 ⟨greeting ++ input, s.mem, s.dev.tx⟩ s) :
    ∃ s', Steps (step P) s s' ∧
      AtPrompt (Below 0x01000fb0#32 104) 0x01000fb0#32
        ⟨input, s'.mem, s.dev.tx ++ opening⟩ s' := by
  have hparse : parseMenu 10#8 (97#8 :: input) = some (.unknown, 97#8 :: input) := rfl
  have hwithin : MenuCommand.unknown.Within P (Scratch 0x01000fc8#32 80) :=
    fun h => absurd h (by decide)
  obtain ⟨hround, hallowed⟩ := parsed_round s.mem s.dev.tx hparse hwithin
  obtain ⟨u, hmenu, hat⟩ := menu_refines K.toMenuBoard hs hround hallowed
  obtain ⟨v, hconsole, hprompt, -⟩ := console_entered K hat
  refine ⟨v, hmenu.trans hconsole, hprompt.pc, hprompt.npc, hprompt.sp, hprompt.input, ?_,
    Agree.refl _ _⟩
  rw [hprompt.output]
  simp [opening, MenuCommand.reply]

theorem greeted_acknowledged (K : StartBoard P) (C : Cumulative P) {jobs : List Job}
    (hready : ∀ j ∈ jobs, j.Ready P 0x01000fb0#32 base)
    (hclear : jobs.Pairwise fun i j => ∀ q ∈ i.requests, j.Clear 0x01000fb0#32 base q)
    (hs : AtMenu 0x01000fc8#32
      ⟨greeting ++ (jobs.map (Job.text buffer)).flatten, s.mem, s.dev.tx⟩ s) :
    (∃ s', Steps (step P) s s' ∧
        s'.dev.tx = s.dev.tx ++ opening ++ List.replicate jobs.length 6#8) ∧
      ∀ t, Steps (step P) s t → t.dev.tx <+: s.dev.tx ++ opening ∨
        Acknowledged base buffer [] jobs (s.dev.tx ++ opening) t := by
  obtain ⟨v, hv, hprompt⟩ := opening_run K hs
  have hstack : Stack P 0x01000fb0#32 104 := K.console.stack.weaken (by omega)
  obtain ⟨⟨s', hs', htx⟩, hall⟩ := jobs_acknowledged K.toBoard C hstack hready hclear
    ⟨hprompt.pc, hprompt.npc, hprompt.sp, hprompt.input, rfl, Agree.refl _ _⟩
  rw [hprompt.output] at htx hall
  refine ⟨⟨s', hv.trans hs', htx⟩, fun t ht => ?_⟩
  rcases ht.total hv with htv | hvt
  · have hsent := C.steps htv
    rw [hprompt.output] at hsent
    exact Or.inl hsent
  · exact Or.inr (hall t hvt)

end Machine

namespace ClosedLoop

/-- The program, the bytes on their way to the port, how many of those the port has sent
`on_receive` has been handed, and the machine. -/
structure State extends StopAndWait.Program where
  toBoard : List Byte
  received : ℕ
  board : Mips.State Uart

inductive Action
  | send
  | poll
  | clear
  | receive (n : ℕ)
  | assign
  | arrive
  | cycle

def State.toHost (s : State) : List Byte := s.board.dev.tx.drop s.received

def State.coming (s : State) : List Byte := s.batch ++ s.toHost

def step (P : Platform Uart) (session : List (List Byte)) (s : State) : Action → Option State
  | .send => (s.send session).map fun (request, program) =>
      { s with toProgram := program, toBoard := s.toBoard ++ request }
  | .poll => s.poll.map fun program => { s with toProgram := program }
  | .clear => s.clear.map fun program => { s with toProgram := program }
  -- on_receive is handed what is there, but no more than fits
  | .receive n =>
    if s.batch = [] ∧ s.toHost ≠ [] then
      some { s with
        batch := s.toHost.take (n + 1), received := s.received + (s.toHost.take (n + 1)).length }
    else none
  | .assign => s.assign.map fun program => { s with toProgram := program }
  | .arrive =>
    match s.toBoard with
    | [] => none
    | b :: rest => some { s with toBoard := rest, board := awaiting s.board [(0, b)] }
  | .cycle => (Mips.step P s.board).map fun board => { s with board := board }

inductive Stepped (P : Platform Uart) (session : List (List Byte)) (s : State) :
    Action → State → Prop
  | send (request : List Byte) (hphase : s.phase = .ready)
      (hget : session[s.sent]? = some request) :
      Stepped P session s .send
        { s with phase := .waiting, sent := s.sent + 1, toBoard := s.toBoard ++ request }
  | passedOver (hphase : s.phase = .waiting) (hlast : s.lastRead ≠ 6#8) :
      Stepped P session s .poll s
  | noticed (hphase : s.phase = .waiting) (hlast : s.lastRead = 6#8) :
      Stepped P session s .poll { s with phase := .clearing }
  | clear (hphase : s.phase = .clearing) :
      Stepped P session s .clear { s with phase := .ready, lastRead := 0#8 }
  | receive (n : ℕ) (hbatch : s.batch = []) (hsome : s.toHost ≠ []) :
      Stepped P session s (.receive n) { s with
        batch := s.toHost.take (n + 1), received := s.received + (s.toHost.take (n + 1)).length }
  | assign (c : Byte) (rest : List Byte) (hbatch : s.batch = c :: rest) :
      Stepped P session s .assign { s with lastRead := c, batch := rest }
  | arrive (b : Byte) (rest : List Byte) (hto : s.toBoard = b :: rest) :
      Stepped P session s .arrive { s with toBoard := rest, board := awaiting s.board [(0, b)] }
  | cycle (board : Mips.State Uart) (hboard : Mips.step P s.board = some board) :
      Stepped P session s .cycle { s with board := board }

theorem stepped {session : List (List Byte)} {s t : State} {a : Action}
    (h : step P session s a = some t) : Stepped P session s a t := by
  cases a with
  | send =>
    obtain ⟨⟨request, program⟩, hsend, rfl⟩ := Option.map_eq_some_iff.mp h
    obtain ⟨hphase, hget, rfl⟩ := StopAndWait.Program.send_some hsend
    exact .send request hphase hget
  | poll =>
    obtain ⟨program, hpoll, rfl⟩ := Option.map_eq_some_iff.mp h
    obtain ⟨hphase, ⟨hlast, rfl⟩ | ⟨hlast, rfl⟩⟩ := StopAndWait.Program.poll_some hpoll
    · exact .noticed hphase hlast
    · exact .passedOver hphase hlast
  | clear =>
    obtain ⟨program, hclear, rfl⟩ := Option.map_eq_some_iff.mp h
    obtain ⟨hphase, rfl⟩ := StopAndWait.Program.clear_some hclear
    exact .clear hphase
  | receive n =>
    simp only [step] at h
    split at h
    next hbatch => exact Option.some.inj h ▸ .receive n hbatch.1 hbatch.2
    next => cases h
  | assign =>
    obtain ⟨program, hassign, rfl⟩ := Option.map_eq_some_iff.mp h
    obtain ⟨c, rest, hbatch, rfl⟩ := StopAndWait.Program.assign_some hassign
    exact .assign c rest hbatch
  | arrive =>
    simp only [step] at h
    split at h
    next => cases h
    next b rest hto => exact Option.some.inj h ▸ .arrive b rest hto
  | cycle =>
    obtain ⟨board, hboard, rfl⟩ := Option.map_eq_some_iff.mp h
    exact .cycle board hboard

theorem step_sends (C : Cumulative P) {session : List (List Byte)} {s t : State} {a : Action}
    (hstep : step P session s a = some t) : s.board.dev.tx <+: t.board.dev.tx := by
  cases stepped hstep with
  | cycle board hboard => exact C.single hboard
  | _ => exact List.prefix_rfl

theorem step_received {session : List (List Byte)} {s t : State} {a : Action}
    (hreceived : s.received ≤ s.board.dev.tx.length)
    (hstep : step P session s a = some t) : t.received ≤ s.board.dev.tx.length := by
  cases stepped hstep with
  | receive n =>
    simp only [State.toHost, List.length_take, List.length_drop]
    omega
  | _ => exact hreceived

/-- The program sleeps before it clears `last_read`, in `set_up_flash`. The board is at its menu,
what it has been sent is still to arrive, and what it has sent is no acknowledgement. -/
structure Start (s : State) : Prop where
  phase : s.phase = .clearing
  sent : s.sent = 0
  coming : 6#8 ∉ s.coming
  toBoard : s.toBoard = greeting
  received : s.received ≤ s.board.dev.tx.length
  menu : AtMenu 0x01000fc8#32 ⟨[], s.board.mem, s.board.dev.tx⟩ s.board

structure Rig (P : Platform Uart) (base : ℕ) (jobs : List Job) : Prop where
  board : StartBoard P
  cumulative : Cumulative P
  causal : Causal P
  ready : ∀ j ∈ jobs, j.Ready P 0x01000fb0#32 base
  clear : jobs.Pairwise fun i j => ∀ q ∈ i.requests, j.Clear 0x01000fb0#32 base q

section Foretold

variable {session : List (List Byte)} {jobs : List Job} {s₀ s t : State}

/-- Whatever still comes after the bytes that have arrived, the machine has run as if all of it had
been there from the start. -/
structure Foretold (P : Platform Uart) (session : List (List Byte)) (s₀ s : State) : Prop where
  bound : s.sent ≤ session.length
  received : s.received ≤ s.board.dev.tx.length
  foretold : ∃ arrived, arrived ++ s.toBoard = greeting ++ (session.take s.sent).flatten ∧
    ∀ queue, ∃ before, before.map Prod.snd = arrived ++ queue.map Prod.snd ∧
      Steps (Mips.step P) (awaiting s₀.board before) (awaiting s.board queue)

theorem Foretold.start (h : Start s₀) : Foretold P session s₀ s₀ where
  bound := by simp [h.sent]
  received := h.received
  foretold := ⟨[], by simp [h.sent, h.toBoard], fun queue => ⟨queue, rfl, .refl _⟩⟩

theorem Foretold.step (C : Cumulative P) (F : Causal P) (h : Foretold P session s₀ s) {a : Action}
    (hstep : step P session s a = some t) : Foretold P session s₀ t := by
  obtain ⟨hbound, hreceived, arrived, hbytes, hforetold⟩ := h
  have hnext := (step_received hreceived hstep).trans (step_sends C hstep).length_le
  cases stepped hstep with
  | send request _ hget =>
    have hlen : s.sent < session.length := (List.getElem?_eq_some_iff.mp hget).1
    refine ⟨hlen, hnext, arrived, ?_, hforetold⟩
    rw [Link.take_succ hget, List.flatten_append, ← List.append_assoc, hbytes]
    simp
  | arrive b rest hto =>
    refine ⟨hbound, hnext, arrived ++ [b], by simp [← hbytes, hto], fun queue => ?_⟩
    obtain ⟨before, hbefore, hrun⟩ := hforetold ((0, b) :: queue)
    exact ⟨before, by simp [hbefore], by simpa [awaiting_awaiting] using hrun⟩
  | cycle board hboard =>
    refine ⟨hbound, hnext, arrived, hbytes, fun queue => ?_⟩
    obtain ⟨queue', hqueue, hlater⟩ := step_awaiting F hboard queue
    obtain ⟨before, hbefore, hrun⟩ := hforetold queue'
    exact ⟨before, by rw [hbefore, hqueue], hrun.trans (Steps.single hlater)⟩
  | passedOver | noticed | clear | receive | assign =>
    exact ⟨hbound, hnext, arrived, hbytes, hforetold⟩

theorem Foretold.reachable (R : Rig P base jobs) (hstart : Start s₀)
    (h : Reachable (· = s₀) (ClosedLoop.step P session) anyAction s) : Foretold P session s₀ s := by
  refine h.invariant ?_ fun _ _ _ hinv _ => hinv.step R.cumulative R.causal
  rintro _ rfl
  exact .start hstart

def answers (s₀ : State) (k : ℕ) : List Byte :=
  s₀.board.dev.tx ++ opening ++ List.replicate k 6#8

structure Acks (base : ℕ) (buffer : ℕ → Byte) (jobs : List Job) (s₀ s : State) (k : ℕ) :
    Prop where
  le : k ≤ s.sent
  sends : s.board.dev.tx <+: answers s₀ k
  opened : k ≠ 0 → s.board.dev.tx = answers s₀ k
  memory : InMemory base buffer ((jobs.take k).flatMap Job.requests) s.board.mem

theorem answers_length (s₀ : State) (k : ℕ) :
    (answers s₀ k).length = (answers s₀ 0).length + k := by
  simp [answers, Nat.add_assoc]

theorem answers_succ (s₀ : State) (k : ℕ) : answers s₀ (k + 1) = answers s₀ k ++ [6#8] := by
  rw [answers, answers, List.replicate_succ', ← List.append_assoc]

theorem Acks.of_length {k n : ℕ} (h : Acks base buffer jobs s₀ s k) (hn : n ≠ 0)
    (hsent : (answers s₀ n).length ≤ s.board.dev.tx.length) : n ≤ k ∧ k ≠ 0 := by
  have hle := h.sends.length_le
  rw [answers_length] at hle hsent
  omega

theorem Foretold.machine (R : Rig P base jobs) (hstart : Start s₀)
    (h : Foretold P (jobs.map (Job.text buffer)) s₀ s) (queue : List (ℕ × Byte))
    (hqueue : queue.map Prod.snd = s.toBoard) :
    ∃ u, Steps (Mips.step P) u (awaiting s.board queue) ∧
      (∃ v, Steps (Mips.step P) u v ∧ v.dev.tx = answers s₀ s.sent) ∧
      ∃ k, Acks base buffer jobs s₀ s k := by
  obtain ⟨hbound, -, arrived, hbytes, hforetold⟩ := h
  obtain ⟨before, hbefore, hrun⟩ := hforetold queue
  have hmenu : AtMenu 0x01000fc8#32
      ⟨greeting ++ ((jobs.take s.sent).map (Job.text buffer)).flatten,
        (awaiting s₀.board before).mem, (awaiting s₀.board before).dev.tx⟩
      (awaiting s₀.board before) := by
    obtain ⟨hpc, hnpc, hsp, hinput, -, -⟩ := hstart.menu
    refine ⟨hpc, hnpc, hsp, ?_, rfl, Agree.refl _ _⟩
    have hnone : s₀.board.dev.rx = [] := by simpa [Uart.input] using hinput
    rw [List.map_take, ← hbytes, ← hqueue, ← hbefore]
    simp [awaiting, Uart.later, Uart.input, hnone]
  obtain ⟨⟨v, hv, hvtx⟩, hall⟩ := greeted_acknowledged R.board R.cumulative
    (fun j hj => R.ready j (List.mem_of_mem_take hj))
    (R.clear.sublist (List.take_sublist _ _)) hmenu
  have hlen : (jobs.take s.sent).length = s.sent := by
    rw [List.length_take, Nat.min_eq_left (by simpa using hbound)]
  refine ⟨_, hrun, ⟨v, hv, by rw [hvtx, hlen]; rfl⟩, ?_⟩
  rcases hall _ hrun with hopening | ⟨k, hk, htx, hmem⟩
  · have hsent : s.board.dev.tx <+: s₀.board.dev.tx ++ opening := hopening
    refine ⟨0, Nat.zero_le _, ?_, fun h => absurd rfl h, fun r hr => by simp at hr⟩
    simpa [answers] using hsent
  · have hks : k ≤ s.sent := hlen ▸ hk
    have hsent : s.board.dev.tx = answers s₀ k := htx
    refine ⟨k, hks, hsent ▸ List.prefix_rfl, fun _ => hsent, ?_⟩
    have hstored : InMemory base buffer ([] ++ ((jobs.take s.sent).take k).flatMap Job.requests)
        s.board.mem := hmem
    rwa [List.nil_append, List.take_take, Nat.min_eq_left hks] at hstored

theorem Foretold.acks (R : Rig P base jobs) (hstart : Start s₀)
    (h : Foretold P (jobs.map (Job.text buffer)) s₀ s) : ∃ k, Acks base buffer jobs s₀ s k := by
  obtain ⟨-, -, -, hacks⟩ :=
    h.machine R hstart (s.toBoard.map fun b => (0, b)) (by simp [Function.comp_def])
  exact hacks

end Foretold

section Protocol

variable {session : List (List Byte)} {jobs : List Job} {s₀ s t : State} {m₀ m : Mem} {k : ℕ}
  {Init : StopAndWait.State → Prop}

/-- The loop as the protocol sees it: a console that has shown itself from the start, executes a
request in the moment in which the machine acknowledges it, and reads nothing before. -/
def view (session : List (List Byte)) (s₀ s : State) (m : Mem) (k : ℕ) : StopAndWait.State :=
  ⟨s.toProgram, ⟨((session.take s.sent).drop k).flatten,
    (answers s₀ k).drop s.received, ⟨[], m, [], k⟩⟩⟩

theorem protocol_executes {request : List Byte} (hround : Link.OneRound request)
    (hacked : Link.acked request = true) {recv more rest toHost : List Byte}
    {program : StopAndWait.Program} {executed : ℕ}
    (hsplit : request = recv ++ more) (hmore : more ≠ [])
    (h : Reachable Init (StopAndWait.step session) anyAction
      ⟨program, ⟨more ++ rest, toHost, ⟨recv, m, [], executed⟩⟩⟩) :
    ∃ m', Reachable Init (StopAndWait.step session) anyAction
      ⟨program, ⟨rest, toHost ++ [6#8], ⟨[], m', [], executed + 1⟩⟩⟩ := by
  induction more generalizing recv with
  | nil => exact absurd rfl hmore
  | cons b more ih =>
    cases more with
    | nil =>
      obtain ⟨m', hm'⟩ := hround.answers m
      have hread : (Link.Device.mk recv m [] executed).read b = ⟨[], m', [6#8], executed + 1⟩ := by
        simp [Link.Device.read, ← hsplit, hm', hacked]
      have hexecuted : Reachable Init (StopAndWait.step session) anyAction
          ⟨program, ⟨rest, toHost, ⟨[], m', [6#8], executed + 1⟩⟩⟩ := by
        refine .step h trivial (a := .deviceRead) ?_
        simp [StopAndWait.step, Link.Wire.deviceRead, hread]
      exact ⟨m', .step hexecuted trivial (a := .deviceSend) rfl⟩
    | cons c more =>
      have hwait := hround.waits (recv ++ [b]) (c :: more) (by simp [hsplit]) (by simp) m
      have hread : (Link.Device.mk recv m [] executed).read b =
          ⟨recv ++ [b], m, [], executed⟩ := by
        simp [Link.Device.read, hwait]
      have hsplit' : request = recv ++ [b] ++ c :: more := by simp [hsplit]
      refine ih hsplit' (by simp) (.step h trivial (a := .deviceRead) ?_)
      simp [StopAndWait.step, Link.Wire.deviceRead, hread]

theorem view_next (hsession : Link.Answered session) (hbound : s.sent ≤ session.length)
    (hk : k < s.sent) (hreceived : s.received ≤ (answers s₀ k).length)
    (h : Reachable Init (StopAndWait.step session) anyAction (view session s₀ s m k)) :
    ∃ m', Reachable Init (StopAndWait.step session) anyAction
      (view session s₀ s m' (k + 1)) := by
  have hlt : k < (session.take s.sent).length := by
    rw [List.length_take]
    omega
  obtain ⟨hround, hacked⟩ := hsession _ (List.mem_of_mem_take (List.getElem_mem hlt))
  have hflat : ((session.take s.sent).drop k).flatten =
      (session.take s.sent)[k] ++ ((session.take s.sent).drop (k + 1)).flatten := by
    rw [List.drop_eq_getElem_cons hlt, List.flatten_cons]
  simp only [view] at h ⊢
  rw [hflat] at h
  rw [answers_succ, List.drop_append_of_le_length hreceived]
  exact protocol_executes hround hacked rfl hround.ne_nil h

theorem view_catches (hsession : Link.Answered session) (hbound : s.sent ≤ session.length)
    {k' : ℕ} (hle : k ≤ k') (hk : k' ≤ s.sent) (hreceived : s.received ≤ (answers s₀ k).length)
    (h : Reachable Init (StopAndWait.step session) anyAction (view session s₀ s m k)) :
    ∃ m', Reachable Init (StopAndWait.step session) anyAction (view session s₀ s m' k') := by
  induction hle with
  | refl => exact ⟨m, h⟩
  | @step j hj ih =>
    obtain ⟨m', hm'⟩ := ih (by omega)
    have hkj : k ≤ j := hj
    refine view_next hsession hbound hk ?_ hm'
    rw [answers_length] at hreceived ⊢
    omega

theorem received_view (hreceived : s.received ≤ s.board.dev.tx.length)
    (hsends : s.board.dev.tx <+: answers s₀ k) : s.toHost <+: (answers s₀ k).drop s.received := by
  obtain ⟨more, hmore⟩ := hsends
  rw [← hmore, List.drop_append_of_le_length hreceived]
  exact List.prefix_append _ _

theorem view_step (hreceived : s.received ≤ s.board.dev.tx.length)
    (hk : Acks base buffer jobs s₀ s k) {a : Action} (hstep : step P session s a = some t)
    (h : Reachable Init (StopAndWait.step session) anyAction (view session s₀ s m k)) :
    Reachable Init (StopAndWait.step session) anyAction (view session s₀ t m k) := by
  cases stepped hstep with
  | send request hphase hget =>
    refine .step h trivial (a := .send) ?_
    have hdrop : ((session.take (s.sent + 1)).drop k).flatten =
        ((session.take s.sent).drop k).flatten ++ request := by
      have hlen := (List.getElem?_eq_some_iff.mp hget).1
      rw [Link.take_succ hget, List.drop_append_of_le_length
        (by rw [List.length_take, Nat.min_eq_left hlen.le]; exact hk.le), List.flatten_append]
      simp
    simp [StopAndWait.step, StopAndWait.Program.send, view, hphase, hget, hdrop, Link.Wire.send]
  | noticed hphase hlast =>
    refine .step h trivial (a := .poll) ?_
    simp [StopAndWait.step, StopAndWait.Program.poll, view, hphase, hlast]
  | clear hphase =>
    refine .step h trivial (a := .clear) ?_
    simp [StopAndWait.step, StopAndWait.Program.clear, view, hphase]
  | receive n hbatch hsome =>
    obtain ⟨more, hmore⟩ := received_view hreceived hk.sends
    have hlen : (s.toHost.take (n + 1)).length = min (n + 1) s.toHost.length := List.length_take
    have hpos := List.length_pos_iff.mpr hsome
    have htake : ((answers s₀ k).drop s.received).take (s.toHost.take (n + 1)).length =
        s.toHost.take (n + 1) := by
      rw [← hmore, List.take_append_of_le_length (by omega), hlen, ← List.take_eq_take_min]
    refine .step h trivial (a := .receive (s.toHost.take (n + 1)).length) ?_
    simp only [StopAndWait.step, view, htake, Link.Wire.receive, List.drop_drop]
    refine if_pos ⟨hbatch, by omega, ?_⟩
    rw [← hmore, List.length_append]
    omega
  | assign c rest hbatch =>
    refine .step h trivial (a := .assign) ?_
    simp [StopAndWait.step, StopAndWait.Program.assign, view, hbatch]
  | passedOver | arrive | cycle => exact h

theorem Rig.answered (R : Rig P base jobs) (buffer : ℕ → Byte) :
    Link.Answered (jobs.map (Job.text buffer)) := by
  intro text htext
  obtain ⟨j, hj, rfl⟩ := List.mem_map.mp htext
  have hready := R.ready j hj
  cases j with
  | register text =>
    obtain ⟨input, a, v, rfl, hread, -⟩ := hready
    exact ⟨Link.oneRound_write (c := .w a [v]) (commandW_one hread), rfl⟩
  | words r =>
    obtain ⟨haddr, hwords⟩ := Storable.address_lt hready
    have haddr' : r.address < 16 ^ 15 := by omega
    exact ⟨Link.oneRound_writeWords (fun i => buffer (r.bytes + i)) haddr' hwords, rfl⟩

structure Opening (s₀ s : State) : Prop where
  phase : s.phase = .clearing
  sent : s.sent = 0
  coming : 6#8 ∉ s.batch ++ (answers s₀ 0).drop s.received

structure Opened (m₀ : Mem) (p : StopAndWait.State) : Prop where
  phase : p.phase = .ready
  sent : p.sent = 0
  lastRead : p.lastRead = 0#8
  coming : 6#8 ∉ p.coming
  toDevice : p.wire.toDevice = []
  device : p.wire.device = ⟨[], m₀, [], 0⟩

theorem Opened.inv {p : StopAndWait.State} (h : Opened m₀ p) : StopAndWait.Inv m₀ session p := by
  refine ⟨by simp [h.sent], ?_, .ready h.phase ?_ h.coming (by rw [h.lastRead]; decide)⟩
  · rw [h.sent, List.take_zero]
    refine Link.Serves.start ?_ h.toDevice ?_ ?_ <;> rw [h.device]
  · rw [h.sent, h.device]

theorem Opening.start (hstart : Start s₀) : Opening s₀ s₀ := by
  refine ⟨hstart.phase, hstart.sent, ?_⟩
  have hopening : 6#8 ∉ opening := by decide +kernel
  have hcoming := hstart.coming
  rw [answers, List.replicate_zero, List.append_nil,
    List.drop_append_of_le_length hstart.received, ← List.append_assoc, List.mem_append]
  exact fun h => h.elim hcoming hopening

theorem Opening.step (h : Opening s₀ s) (hreceived : s.received ≤ s.board.dev.tx.length)
    (hsends : s.board.dev.tx <+: answers s₀ 0) {a : Action}
    (hstep : step P session s a = some t) :
    Opening s₀ t ∨ Opened m₀ (view session s₀ t m₀ 0) := by
  obtain ⟨hphase, hsent, hcoming⟩ := h
  cases stepped hstep with
  | send _ hready => simp [hphase] at hready
  | passedOver hwait | noticed hwait => simp [hphase] at hwait
  | clear => exact Or.inr ⟨rfl, hsent, rfl, by simpa [view, StopAndWait.State.coming,
      Link.Wire.inbound] using hcoming, by simp [view, hsent], rfl⟩
  | receive n hbatch =>
    refine Or.inl ⟨hphase, hsent, ?_⟩
    obtain ⟨more, hmore⟩ := received_view hreceived hsends
    rw [hbatch, List.nil_append, ← hmore] at hcoming
    rw [← List.drop_drop, ← hmore]
    intro hmem
    rcases List.mem_append.mp hmem with htaken | hleft
    · exact hcoming (List.mem_append_left more (List.mem_of_mem_take htaken))
    · exact hcoming (List.mem_of_mem_drop hleft)
  | assign c rest hbatch =>
    rw [hbatch] at hcoming
    exact Or.inl ⟨hphase, hsent, fun hmem => hcoming (List.mem_cons_of_mem c hmem)⟩
  | arrive | cycle => exact Or.inl ⟨hphase, hsent, hcoming⟩

theorem Acks.zero {k : ℕ} (h : Acks base buffer jobs s₀ s k) (hsent : s.sent = 0) : k = 0 := by
  have hle := h.le
  omega

/-- From the first request on every state of the loop is one of the protocol, where the device has
executed what the machine has acknowledged. -/
theorem refines (R : Rig P base jobs) (hstart : Start s₀)
    (h : Reachable (· = s₀) (ClosedLoop.step P (jobs.map (Job.text buffer))) anyAction s) :
    ∃ k m, Acks base buffer jobs s₀ s k ∧ (Opening s₀ s ∨
      Reachable (Opened s₀.board.mem) (StopAndWait.step (jobs.map (Job.text buffer))) anyAction
        (view (jobs.map (Job.text buffer)) s₀ s m k)) := by
  induction h with
  | @init s hs =>
    subst hs
    obtain ⟨k, hk⟩ := (Foretold.start hstart).acks R hstart
    exact ⟨k, s.board.mem, hk, Or.inl (.start hstart)⟩
  | @step s t a hs _ hstep ih =>
    obtain ⟨k, m, hk, hview⟩ := ih
    have hold := Foretold.reachable R hstart hs
    have hnew := Foretold.reachable R hstart (.step hs trivial hstep)
    obtain ⟨k', hk'⟩ := hnew.acks R hstart
    rcases hview with hopening | hview
    · obtain rfl := hk.zero hopening.sent
      rcases hopening.step hold.received hk.sends hstep with hstill | hopened
      · exact ⟨k', m, hk', Or.inl hstill⟩
      · obtain rfl := hk'.zero hopened.sent
        exact ⟨0, s₀.board.mem, hk', Or.inr (.init hopened)⟩
    · have hle : k ≤ k' := by
        by_cases hzero : k = 0
        · omega
        · refine (hk'.of_length hzero ?_).1
          rw [← hk.opened hzero]
          exact (step_sends R.cumulative hstep).length_le
      have hreceived : t.received ≤ (answers s₀ k).length :=
        (step_received hold.received hstep).trans hk.sends.length_le
      obtain ⟨m', hm'⟩ := view_catches (R.answered buffer) hnew.bound hle hk'.le hreceived
        (view_step hold.received hk hstep hview)
      exact ⟨k', m', hk', Or.inr hm'⟩

theorem protocol (R : Rig P base jobs) (hstart : Start s₀)
    (h : Reachable (· = s₀) (ClosedLoop.step P (jobs.map (Job.text buffer))) anyAction s) :
    ∃ k m, Acks base buffer jobs s₀ s k ∧ (Opening s₀ s ∨
      StopAndWait.Progress (view (jobs.map (Job.text buffer)) s₀ s m k)) := by
  obtain ⟨k, m, hk, hview⟩ := refines R hstart h
  refine ⟨k, m, hk, hview.imp_right fun hreached => ?_⟩
  have hinv := hreached.invariant (fun _ => Opened.inv) fun _ _ _ hinv _ hstep =>
    hinv.step (R.answered buffer) hstep
  exact hinv.progress

end Protocol

section Safety

variable {jobs : List Job} {s₀ s : State} {m : Mem} {k : ℕ}

def State.passed (s : State) : ℕ := if s.phase = .ready then s.sent else s.sent - 1

theorem Acks.passed {session : List (List Byte)} (hk : Acks base buffer jobs s₀ s k)
    (h : Opening s₀ s ∨ StopAndWait.Progress (view session s₀ s m k)) :
    s.passed ≤ k ∧ s.sent ≤ k + 1 := by
  have hle := hk.le
  unfold State.passed
  rcases h with ⟨hphase, hsent, -⟩ | hprogress
  · rw [hphase, if_neg (by decide)]
    omega
  cases hprogress with
  | ready hphase hexec =>
    obtain rfl : k = s.sent := hexec
    split <;> omega
  | executing hphase hexec =>
    have hphase' : s.phase = .waiting := hphase
    have hexec' : k + 1 = s.sent := hexec
    rw [hphase', if_neg (by decide)]
    omega
  | acking before hphase hexec =>
    obtain rfl : k = s.sent := hexec
    split <;> omega
  | acked hphase hexec =>
    obtain rfl : k = s.sent := hexec
    split <;> omega

theorem passed_memory (R : Rig P base jobs) (hstart : Start s₀)
    (h : Reachable (· = s₀) (step P (jobs.map (Job.text buffer))) anyAction s) :
    InMemory base buffer ((jobs.take s.passed).flatMap Job.requests) s.board.mem ∧
      ∃ k, Acks base buffer jobs s₀ s k ∧ s.sent ≤ k + 1 := by
  obtain ⟨k, m, hk, hprogress⟩ := protocol R hstart h
  obtain ⟨hpassed, hsent⟩ := hk.passed hprogress
  refine ⟨fun r hr => hk.memory r ?_, k, hk, hsent⟩
  obtain ⟨j, hj, hrj⟩ := List.mem_flatMap.mp hr
  exact List.mem_flatMap.mpr ⟨j, List.take_subset_take_left jobs hpassed hj, hrj⟩

end Safety

section Session

variable {setUp : List (List Byte)} {rs : List Request} {address size : ℕ} {s₀ s : State}

def flashStores : List (Addr × Word) :=
  [(0x1f800004#32, 0x40#32), (0x1f800b07#32, 0xa5#32), (0x10300000#32, 0#32)]

def sessionJobs (setUp : List (List Byte)) (rs : List Request) : List Job :=
  setUp.map .register ++ rs.map .words

theorem sessionJobs_text : (sessionJobs setUp rs).map (Job.text buffer) =
    setUp ++ rs.map (Request.text buffer) := by
  simp [sessionJobs, Job.text, Function.comp_def]

theorem sessionJobs_requests (n : ℕ) : ((sessionJobs setUp rs).take n).flatMap Job.requests =
    rs.take (n - setUp.length) := by
  simp [sessionJobs, List.take_append, ← List.map_take, List.flatMap_map, Job.requests]

theorem setUp_ready {sp : Addr} (hsetUp : setUp = StopAndWait.setUpFlashMac ∨
      setUp = StopAndWait.setUpFlashWindows)
    (hflash : ∀ p ∈ flashStores.take setUp.length, Takes P p.1 p.2) :
    ∀ text ∈ setUp, (Job.register text).Ready P sp base := by
  intro text htext
  obtain rfl | rfl := hsetUp
  · obtain rfl | rfl | rfl := by simpa [StopAndWait.setUpFlashMac] using htext
    · exact ⟨_, _, _, rfl, rfl, hflash (0x1f800004#32, 0x40#32) (by decide)⟩
    · exact ⟨_, _, _, rfl, rfl, hflash (0x1f800b07#32, 0xa5#32) (by decide)⟩
    · exact ⟨_, _, _, rfl, rfl, hflash (0x10300000#32, 0#32) (by decide)⟩
  · obtain rfl := by simpa [StopAndWait.setUpFlashWindows] using htext
    exact ⟨_, _, _, rfl, rfl, hflash (0x1f800004#32, 0x40#32) (by decide)⟩

theorem session_rig (K : StartBoard P) (C : Cumulative P) (F : Causal P)
    (haligned : address % 4 = 0) (hfits : address + size + 768 ≤ 4294967296)
    (hsession : (setUp = StopAndWait.setUpFlashMac ∧ rs = uploadBinMac address size) ∨
      (setUp = StopAndWait.setUpFlashWindows ∧ rs = uploadBinWindows address size))
    (hflash : ∀ p ∈ flashStores.take setUp.length, Takes P p.1 p.2)
    (hplain : ∀ r ∈ rs, ∀ x, InRange (BitVec.ofNat 32 r.address) (4 * r.words) x →
      P.Ram x ∧ P.writable x = true ∧ ¬ Below 0x01000fb0#32 104 x) :
    Rig P address (sessionJobs setUp rs) ∧ ∀ i < size, ∃ r ∈ rs, r.Covers i := by
  obtain ⟨stop, hsize, hstop, hchain⟩ := upload_chain (hsession.imp And.right And.right)
  have hall := chain_storable hchain haligned (by omega) hplain
  have hsetUp : ∀ text ∈ setUp, (Job.register text).Ready P 0x01000fb0#32 address :=
    setUp_ready (hsession.imp And.left And.left) hflash
  refine ⟨⟨K, C, F, fun j hj => ?_, List.pairwise_append.mpr ⟨?_, ?_, ?_⟩⟩, ?_⟩
  · rcases List.mem_append.mp hj with hregister | hwords
    · obtain ⟨text, htext, rfl⟩ := List.mem_map.mp hregister
      exact hsetUp text htext
    · exact words_ready hall j hwords
  · exact List.pairwise_map.mpr (List.pairwise_of_forall fun _ _ q hq => by
      simp [Job.requests] at hq)
  · exact words_clear hall hchain.ordered
  · rintro i hi j - q hq
    obtain ⟨text, -, rfl⟩ := List.mem_map.mp hi
    simp [Job.requests] at hq
  · exact fun i hi => (hchain.covered i).mpr ⟨by omega, by omega⟩

theorem session_memory (R : Rig P address (sessionJobs setUp rs)) (hstart : Start s₀)
    (h : Reachable (· = s₀) (step P (setUp ++ rs.map (Request.text buffer))) anyAction s) :
    InMemory address buffer (rs.take (s.passed - setUp.length)) s.board.mem ∧
      ∃ k ≤ s.sent, s.sent ≤ k + 1 ∧ s.board.dev.tx <+: answers s₀ k ∧
        (k ≠ 0 → s.board.dev.tx = answers s₀ k) := by
  rw [← sessionJobs_text] at h
  rw [← sessionJobs_requests]
  obtain ⟨hmem, k, hk, hsent⟩ := passed_memory R hstart h
  exact ⟨hmem, k, hk.le, hsent, hk.sends, hk.opened⟩

theorem image_memory (hcovered : ∀ i < size, ∃ r ∈ rs, r.Covers i)
    (hmem : InMemory address buffer (rs.take (s.passed - setUp.length)) s.board.mem)
    (hphase : s.phase = .ready) (hlast : s.sent = setUp.length + rs.length) {i : ℕ}
    (hi : i < size) : s.board.mem (BitVec.ofNat 32 (address + i)) = buffer i := by
  obtain ⟨r, hr, hin⟩ := hcovered i hi
  refine hmem r ?_ i hin
  rwa [State.passed, if_pos hphase, hlast, Nat.add_sub_cancel_left, List.take_length]

/-- From the menu on, in whatever order the program, the line and the machine take their steps, the
program passes a wait only when the words of all requests so far are in the memory of the board, at
most one request is not acknowledged, and when it has passed the last wait the image is there. -/
theorem upload_safe (K : StartBoard P) (C : Cumulative P) (F : Causal P) (address size : ℕ)
    (buffer : ℕ → Byte) (haligned : address % 4 = 0) (hfits : address + size + 768 ≤ 4294967296)
    (setUp : List (List Byte)) (rs : List Request)
    (hsession : (setUp = StopAndWait.setUpFlashMac ∧ rs = uploadBinMac address size) ∨
      (setUp = StopAndWait.setUpFlashWindows ∧ rs = uploadBinWindows address size))
    (hflash : ∀ p ∈ flashStores.take setUp.length, Takes P p.1 p.2)
    (hplain : ∀ r ∈ rs, ∀ x, InRange (BitVec.ofNat 32 r.address) (4 * r.words) x →
      P.Ram x ∧ P.writable x = true ∧ ¬ Below 0x01000fb0#32 104 x)
    (s₀ s : State) (hstart : Start s₀)
    (h : Reachable (· = s₀) (step P (setUp ++ rs.map (Request.text buffer))) anyAction s) :
    (∀ r ∈ rs.take (s.passed - setUp.length), ∀ i, r.Covers i →
        s.board.mem (BitVec.ofNat 32 (address + i)) = buffer i) ∧
      (∃ k ≤ s.sent, s.sent ≤ k + 1 ∧ s.board.dev.tx <+: answers s₀ k ∧
        (k ≠ 0 → s.board.dev.tx = answers s₀ k)) ∧
      (s.phase = .ready → s.sent = setUp.length + rs.length →
        ∀ i < size, s.board.mem (BitVec.ofNat 32 (address + i)) = buffer i) := by
  obtain ⟨R, hcovered⟩ := session_rig K C F haligned hfits hsession hflash hplain
  obtain ⟨hmem, hacks⟩ := session_memory R hstart h
  exact ⟨hmem, hacks, fun hphase hlast i hi => image_memory hcovered hmem hphase hlast hi⟩

theorem bench_causal : Causal bench where
  load := by
    intro u a w u' h queue
    obtain ⟨rx, busy, tx⟩ := u
    simp only [bench] at h ⊢
    split at h
    next ha =>
      cases h
      obtain _ | ⟨⟨_ | n, b⟩, rest⟩ := rx
      · obtain _ | ⟨⟨n, b⟩, rest⟩ := queue
        · exact ⟨[], rfl, by simp [ha, Uart.later, Uart.ready, Uart.poll]⟩
        · exact ⟨(n + 1, b) :: rest, rfl, by simp [ha, Uart.later, Uart.ready, Uart.poll]⟩
      · exact ⟨queue, rfl, by simp [ha, Uart.later, Uart.ready, Uart.poll]⟩
      · exact ⟨queue, rfl, by simp [ha, Uart.later, Uart.ready, Uart.poll]⟩
    next ha =>
      split at h
      next hbusy =>
        cases h
        exact ⟨queue, rfl, by rw [if_neg ha, if_pos hbusy]; rfl⟩
      next hbusy =>
        split at h
        next b rest =>
          cases h
          exact ⟨queue, rfl, by simp [ha, hbusy, Uart.later]⟩
        next => cases h
  store := by
    intro u a w u' h queue
    simp only [bench] at h ⊢
    split at h
    next ha =>
      cases h
      exact if_pos ha
    next => cases h

theorem startBench_cumulative : Cumulative startBench where
  load := by
    intro u a w u' h
    simp only [startBench] at h
    split at h
    next =>
      cases h
      exact List.prefix_rfl
    next =>
      split at h
      next =>
        cases h
        exact List.prefix_rfl
      next => exact bench_cumulative.load u a w u' h
  store := by
    intro u a w u' h
    simp only [startBench] at h
    split at h
    next => exact bench_cumulative.store u a w u' h
    next =>
      cases h
      exact List.prefix_rfl

theorem startBench_causal : Causal startBench where
  load := by
    intro u a w u' h queue
    simp only [startBench] at h ⊢
    split at h
    next ha =>
      cases h
      exact ⟨queue, rfl, if_pos ha⟩
    next ha =>
      split at h
      next hb =>
        cases h
        exact ⟨queue, rfl, (if_neg ha).trans (if_pos hb)⟩
      next hb =>
        obtain ⟨before, hbytes, hload⟩ := bench_causal.load u a w u' h queue
        exact ⟨before, hbytes, (if_neg ha).trans ((if_neg hb).trans hload)⟩
  store := by
    intro u a w u' h queue
    simp only [startBench] at h ⊢
    split at h
    next ha => exact (if_pos ha).trans (bench_causal.store u a w u' h queue)
    next ha =>
      cases h
      exact if_neg ha

theorem startBench_flash : ∀ p ∈ flashStores, Takes startBench p.1 p.2 := by
  intro p hp
  simp only [flashStores, List.mem_cons, List.not_mem_nil, or_false] at hp
  obtain rfl | rfl | rfl := hp <;> exact ⟨by decide, fun u => rfl⟩

theorem startBench_plain : ∀ r ∈ uploadBinMac 0x200 20, ∀ x,
    InRange (BitVec.ofNat 32 r.address) (4 * r.words) x →
      startBench.Ram x ∧ startBench.writable x = true ∧ ¬ Below 0x01000fb0#32 104 x := by
  intro r hr x hx
  have hlow := lowUpload_low r hr x hx
  refine ⟨(startBench_low x (by omega)).1, rfl, fun hbelow => ?_⟩
  unfold Below at hbelow
  bv_omega

def loopStart : State where
  phase := .clearing
  sent := 0
  lastRead := 32#8
  batch := []
  toBoard := greeting
  received := 0
  board := ⟨fun r => if r = .sp then 0x01000fc8#32 else 0#32, 0x100010fc#32, 0x10001100#32,
    fun _ => 0#8, ⟨[], 0, []⟩⟩

theorem loopStart_start : Start loopStart :=
  ⟨rfl, rfl, by decide, rfl, Nat.le_refl _, ⟨rfl, rfl, rfl, rfl, rfl, Agree.refl _ _⟩⟩

def loopSession : List (List Byte) :=
  StopAndWait.setUpFlashMac ++ (uploadBinMac 0x200 20).map (Request.text fun i => BitVec.ofNat 8 i)

theorem upload_safe_bench : ∃ s : State, (s.sent = 1 ∧ s.board.pc = 0x10000464#32) ∧
    (∀ r ∈ (uploadBinMac 0x200 20).take (s.passed - 3), ∀ i, r.Covers i →
        s.board.mem (BitVec.ofNat 32 (0x200 + i)) = BitVec.ofNat 8 i) ∧
      (∃ k ≤ s.sent, s.sent ≤ k + 1 ∧ s.board.dev.tx <+: answers loopStart k ∧
        (k ≠ 0 → s.board.dev.tx = answers loopStart k)) ∧
      (s.phase = .ready → s.sent = 3 + (uploadBinMac 0x200 20).length →
        ∀ i < 20, s.board.mem (BitVec.ofNat 32 (0x200 + i)) = BitVec.ofNat 8 i) := by
  have hrun : ((runSchedule (step startBench loopSession) anyAction
      ([.clear, .send] ++ List.replicate 13 .cycle ++ [.arrive, .poll]) loopStart).map
        fun s => (s.sent, s.board.pc)) = some (1, 0x10000464#32) := by decide +kernel
  have hinit : Reachable (· = loopStart) (step startBench loopSession) anyAction loopStart :=
    .init rfl
  obtain ⟨s, hs, hend⟩ := hinit.of_schedule hrun
  exact ⟨s, by simpa using hend, upload_safe startBench_board startBench_cumulative
    startBench_causal 0x200 20 (fun i => BitVec.ofNat 8 i) (by decide) (by decide)
    StopAndWait.setUpFlashMac _ (.inl ⟨rfl, rfl⟩)
    (fun p hp => startBench_flash p (List.mem_of_mem_take hp)) startBench_plain loopStart s
    loopStart_start hs⟩

end Session

end ClosedLoop

end W2
