import W2.Host.Upload
import W2.Link.Device

/-!
# Stop and wait in SerialPort

The thread of the upload program sends a request and polls `last_read` until it is the ACK;
`on_receive` takes a batch of the bytes in flight and assigns each of them to `last_read`; the
console executes. Accesses to `last_read` are single steps, and the actions of the three parties
come in any order. The upload starts when `set_up_flash` has cleared `last_read`, with what is
left of the console's banner on its way to the host.
-/

namespace W2.StopAndWait

open Mips Console Host Link Transition

inductive Phase
  | ready
  | waiting
  | clearing
  deriving DecidableEq

/-- The upload program: its thread, which has sent so many requests, and `on_receive` with the bytes
that it is still to assign to `last_read`. -/
structure Program where
  phase : Phase
  sent : ℕ
  lastRead : Byte
  batch : List Byte

namespace Program

def send (p : Program) (session : List (List Byte)) : Option (List Byte × Program) :=
  if p.phase = .ready then
    session[p.sent]?.map fun request => (request, { p with phase := .waiting, sent := p.sent + 1 })
  else none

-- wait_for_ack: the condition of the loop, then the assignment behind it
def poll (p : Program) : Option Program :=
  if p.phase = .waiting then
    some (if p.lastRead = 6#8 then { p with phase := .clearing } else p)
  else none

def clear (p : Program) : Option Program :=
  if p.phase = .clearing then some { p with phase := .ready, lastRead := 0#8 } else none

def assign (p : Program) : Option Program :=
  match p.batch with
  | [] => none
  | c :: rest => some { p with lastRead := c, batch := rest }

variable {p q : Program} {session : List (List Byte)} {request : List Byte}

theorem send_some (h : p.send session = some (request, q)) : p.phase = .ready ∧
    session[p.sent]? = some request ∧ q = { p with phase := .waiting, sent := p.sent + 1 } := by
  unfold send at h
  split at h
  next hphase =>
    obtain ⟨request', hget, heq⟩ := Option.map_eq_some_iff.mp h
    obtain ⟨rfl, rfl⟩ := Prod.mk.inj heq
    exact ⟨hphase, hget, rfl⟩
  next => cases h

theorem poll_some (h : p.poll = some q) : p.phase = .waiting ∧
    (p.lastRead = 6#8 ∧ q = { p with phase := .clearing } ∨ p.lastRead ≠ 6#8 ∧ q = p) := by
  unfold poll at h
  split at h
  next hphase =>
    obtain rfl := Option.some.inj h
    split
    next hlast => exact ⟨hphase, .inl ⟨hlast, rfl⟩⟩
    next hlast => exact ⟨hphase, .inr ⟨hlast, rfl⟩⟩
  next => cases h

theorem clear_some (h : p.clear = some q) :
    p.phase = .clearing ∧ q = { p with phase := .ready, lastRead := 0#8 } := by
  unfold clear at h
  split at h
  next hphase => exact ⟨hphase, (Option.some.inj h).symm⟩
  next => cases h

theorem assign_some (h : p.assign = some q) :
    ∃ c rest, p.batch = c :: rest ∧ q = { p with lastRead := c, batch := rest } := by
  unfold assign at h
  split at h
  next => cases h
  next c rest hbatch => exact ⟨c, rest, hbatch, (Option.some.inj h).symm⟩

end Program

structure State extends Program where
  wire : Wire

inductive Action
  | send
  | poll
  | clear
  | receive (n : ℕ)
  | assign
  | deviceRead
  | deviceSend

def step (session : List (List Byte)) (s : State) : Action → Option State
  | .send => (s.send session).map fun (request, program) => ⟨program, s.wire.send request⟩
  | .poll => s.poll.map fun program => ⟨program, s.wire⟩
  | .clear => s.clear.map fun program => ⟨program, s.wire⟩
  -- on_receive: a batch, then one assignment for each of its bytes
  | .receive n =>
    if s.batch = [] ∧ 1 ≤ n ∧ n ≤ s.wire.toHost.length then
      some { s with batch := s.wire.toHost.take n, wire := s.wire.receive n }
    else none
  | .assign => s.assign.map fun program => ⟨program, s.wire⟩
  | .deviceRead => s.wire.deviceRead.map fun wire => { s with wire := wire }
  | .deviceSend => s.wire.deviceSend.map fun wire => { s with wire := wire }

def State.coming (s : State) : List Byte := s.batch ++ s.wire.inbound

def banner : List Byte := ascii "aaaa5555"

structure Start (m₀ : Mem) (s : State) : Prop where
  phase : s.phase = .ready
  sent : s.sent = 0
  lastRead : s.lastRead = 0#8
  banner : s.coming <:+ banner
  toDevice : s.wire.toDevice = []
  recv : s.wire.device.recv = []
  mem : s.wire.device.mem = m₀
  executed : s.wire.device.executed = 0

/-- The host waits for an ACK that nobody will send. -/
structure Wedged (s : State) : Prop where
  waiting : s.phase = .waiting
  prompt : s.wire.device.recv = [] ∧ s.wire.device.out = []
  quiet : s.wire.toDevice = [] ∧ s.wire.toHost = [] ∧ s.batch = []
  lastRead : s.lastRead ≠ 6#8

section Sessions

def setUpFlashMac : List (List Byte) :=
  [ascii "w1f800004 1 40\r", ascii "w1f800b07 1 a5\r", ascii "w10300000 1 00\r"]

def setUpFlashWindows : List (List Byte) := [ascii "w1f800004 1 40\r"]

def macSession (address : ℕ) (buffer : ℕ → Byte) (size : ℕ) : List (List Byte) :=
  setUpFlashMac ++ (uploadBinMac address size).map (Request.text buffer)

def windowsSession (address : ℕ) (buffer : ℕ → Byte) (size : ℕ) : List (List Byte) :=
  setUpFlashWindows ++ (uploadBinWindows address size).map (Request.text buffer)

theorem setUpFlashMac_answered : Answered setUpFlashMac := commands_answered

theorem setUpFlashWindows_answered : Answered setUpFlashWindows :=
  fun r hr => setUpFlashMac_answered r (List.mem_of_mem_take (i := 1) hr)

theorem answered_text {address stop : ℕ} {rs : List Request} (h : Chain address 0 stop rs)
    (hfits : address + stop < 16 ^ 15) (hwords : ∀ r ∈ rs, r.words ≤ 256) (buffer : ℕ → Byte) :
    Answered (rs.map (Request.text buffer)) := by
  intro r hr
  obtain ⟨request, hrequest, rfl⟩ := List.mem_map.mp hr
  obtain ⟨haddr, hstop⟩ := h.within request hrequest
  have hw := hwords request hrequest
  exact ⟨oneRound_writeWords _ (by omega) (by omega), rfl⟩

theorem macSession_answered {address size : ℕ} (hfits : address + size + 1024 ≤ 16 ^ 15)
    (buffer : ℕ → Byte) : Answered (macSession address buffer size) := by
  have hchain := writeBytes16_chain address 0 size
  have hspan := span16_le size
  rw [Nat.zero_add] at hchain
  refine answered_append setUpFlashMac_answered (answered_text hchain (by omega) ?_ buffer)
  intro r hr
  exact (writeBytes16Loop_words _ _ _ _ r hr).trans (by omega)

theorem windowsSession_answered {address size : ℕ} (hfits : address + size + 1024 ≤ 16 ^ 15)
    (buffer : ℕ → Byte) : Answered (windowsSession address buffer size) := by
  have hchain := writeBytes256_chain address 0 size
  have hspan := span256_le size
  rw [Nat.zero_add] at hchain
  exact answered_append setUpFlashWindows_answered (answered_text hchain (by omega)
    (writeBytes256Loop_words _ _ _ _) buffer)

end Sessions

section Invariant

variable {m₀ : Mem} {session : List (List Byte)} {s t : State}

/-- Where the ACK of the last request is. -/
inductive Progress (s : State) : Prop
  | ready (hphase : s.phase = .ready) (hexec : s.wire.device.executed = s.sent)
      (hcoming : 6#8 ∉ s.coming) (hlast : s.lastRead ≠ 6#8)
  | executing (hphase : s.phase = .waiting) (hexec : s.wire.device.executed + 1 = s.sent)
      (hcoming : 6#8 ∉ s.coming) (hlast : s.lastRead ≠ 6#8)
  | acking (before : List Byte) (hphase : s.phase = .waiting)
      (hexec : s.wire.device.executed = s.sent) (hcoming : s.coming = before ++ [6#8])
      (hbefore : 6#8 ∉ before) (hlast : s.lastRead ≠ 6#8)
  | acked (hphase : s.phase ≠ .ready) (hexec : s.wire.device.executed = s.sent)
      (hcoming : s.coming = []) (hlast : s.lastRead = 6#8)

structure Inv (m₀ : Mem) (session : List (List Byte)) (s : State) : Prop where
  bound : s.sent ≤ session.length
  serves : Serves m₀ (session.take s.sent) s.wire
  progress : Progress s

theorem Progress.congr (h : Progress s) (hphase : t.phase = s.phase) (hsent : t.sent = s.sent)
    (hlast : t.lastRead = s.lastRead) (hcoming : t.coming = s.coming)
    (hexec : t.wire.device.executed = s.wire.device.executed) : Progress t := by
  obtain ⟨h₁, h₂, h₃, h₄⟩ | ⟨h₁, h₂, h₃, h₄⟩ | ⟨before, h₁, h₂, h₃, h₄, h₅⟩ | ⟨h₁, h₂, h₃, h₄⟩ := h
  · exact .ready (by rw [hphase, h₁]) (by omega) (by rwa [hcoming]) (by rwa [hlast])
  · exact .executing (by rw [hphase, h₁]) (by omega) (by rwa [hcoming]) (by rwa [hlast])
  · exact .acking before (by rw [hphase, h₁]) (by omega) (by rw [hcoming, h₃]) h₄ (by rwa [hlast])
  · exact .acked (by rwa [hphase]) (by omega) (by rw [hcoming, h₃]) (by rw [hlast, h₄])

theorem Inv.start (h : Start m₀ s) : Inv m₀ session s := by
  refine ⟨by simp [h.sent], ?_, .ready h.phase (by rw [h.executed, h.sent]) (fun hmem => ?_) ?_⟩
  · rw [h.sent, List.take_zero]
    exact Serves.start h.recv h.toDevice h.mem h.executed
  · exact absurd (h.banner.subset hmem) (by decide)
  · rw [h.lastRead]
    decide

theorem Inv.allRead (hsession : Answered session) (h : Inv m₀ session s)
    (hexec : s.wire.device.executed = s.sent) : s.wire.AllRead := by
  refine h.serves.allRead_of_executed (fun r hr => ?_) ?_
  · exact (hsession r (List.mem_of_mem_take (List.mem_of_getLast? hr))).2
  · rw [hsession.countP h.bound]
    exact hexec.ge

theorem Inv.not_allRead (hsession : Answered session) (h : Inv m₀ session s)
    (hexec : s.wire.device.executed + 1 = s.sent) : ¬ s.wire.AllRead := by
  intro hread
  have hcount := (h.serves.allRead (hsession.take s.sent) hread).2
  rw [hsession.countP h.bound] at hcount
  omega

theorem Inv.send (hsession : Answered session) (h : Inv m₀ session s)
    (hstep : step session s .send = some t) : Inv m₀ session t := by
  obtain ⟨⟨request, program⟩, hsend, rfl⟩ := Option.map_eq_some_iff.mp hstep
  obtain ⟨hphase, hget, rfl⟩ := Program.send_some hsend
  have hlen : s.sent < session.length := (List.getElem?_eq_some_iff.mp hget).1
  refine ⟨hlen, ?_, ?_⟩
  · show Serves m₀ (session.take (s.sent + 1)) (s.wire.send request)
    rw [take_succ hget]
    exact h.serves.send (hsession request (List.mem_of_getElem? hget)).1
  · cases h.progress with
    | ready _ hexec hcoming hlast => exact .executing rfl (congrArg (· + 1) hexec) hcoming hlast
    | executing hwait => simp [hphase] at hwait
    | acking _ hwait => simp [hphase] at hwait
    | acked hnot => exact absurd hphase hnot

theorem Inv.poll (h : Inv m₀ session s) (hstep : step session s .poll = some t) :
    Inv m₀ session t := by
  obtain ⟨program, hpoll, rfl⟩ := Option.map_eq_some_iff.mp hstep
  obtain ⟨-, ⟨hack, rfl⟩ | ⟨-, rfl⟩⟩ := Program.poll_some hpoll
  · refine ⟨h.bound, h.serves, ?_⟩
    cases h.progress with
    | ready _ _ _ hlast => exact absurd hack hlast
    | executing _ _ _ hlast => exact absurd hack hlast
    | acking _ _ _ _ _ hlast => exact absurd hack hlast
    | acked _ hexec hcoming hlast => exact .acked (by simp) hexec hcoming hlast
  · exact h

theorem Inv.clear (h : Inv m₀ session s) (hstep : step session s .clear = some t) :
    Inv m₀ session t := by
  obtain ⟨program, hclear, rfl⟩ := Option.map_eq_some_iff.mp hstep
  obtain ⟨hphase, rfl⟩ := Program.clear_some hclear
  refine ⟨h.bound, h.serves, ?_⟩
  cases h.progress with
  | ready hready => simp [hphase] at hready
  | executing hwait => simp [hphase] at hwait
  | acking _ hwait => simp [hphase] at hwait
  | acked _ hexec hcoming _ =>
    have hnone : 6#8 ∉ s.coming := by simp [hcoming]
    exact .ready rfl hexec hnone (by decide : 0#8 ≠ 6#8)

theorem Inv.receive (h : Inv m₀ session s) {n : ℕ} (hstep : step session s (.receive n) = some t) :
    Inv m₀ session t := by
  simp only [step] at hstep
  split at hstep
  next hbatch =>
    obtain rfl := Option.some.inj hstep
    refine ⟨h.bound, h.serves.receive n, h.progress.congr rfl rfl rfl ?_ rfl⟩
    simp [State.coming, Wire.inbound, Wire.receive, hbatch.1, ← List.append_assoc]
  next => cases hstep

theorem Inv.assign (h : Inv m₀ session s) (hstep : step session s .assign = some t) :
    Inv m₀ session t := by
  obtain ⟨program, hassign, rfl⟩ := Option.map_eq_some_iff.mp hstep
  obtain ⟨c, rest, hbatch, rfl⟩ := Program.assign_some hassign
  refine ⟨h.bound, h.serves, ?_⟩
  have hc : s.coming = c :: (rest ++ s.wire.inbound) := by simp [State.coming, hbatch]
  cases h.progress with
  | ready hphase hexec hcoming hlast =>
    rw [hc, List.mem_cons, not_or] at hcoming
    exact .ready hphase hexec hcoming.2 (Ne.symm hcoming.1)
  | executing hphase hexec hcoming hlast =>
    rw [hc, List.mem_cons, not_or] at hcoming
    exact .executing hphase hexec hcoming.2 (Ne.symm hcoming.1)
  | acking before hphase hexec hcoming hbefore hlast =>
    rw [hc] at hcoming
    cases before with
    | nil =>
      obtain ⟨rfl, hrest⟩ : c = 6#8 ∧ rest ++ s.wire.inbound = [] := by simpa using hcoming
      exact .acked (by simp [hphase]) hexec hrest rfl
    | cons b before =>
      obtain ⟨rfl, hrest⟩ : c = b ∧ rest ++ s.wire.inbound = before ++ [6#8] := by
        simpa using hcoming
      rw [List.mem_cons, not_or] at hbefore
      exact .acking before hphase hexec hrest hbefore.2 (Ne.symm hbefore.1)
  | acked _ _ hcoming => simp [hc] at hcoming

theorem Inv.deviceRead (hsession : Answered session) (h : Inv m₀ session s)
    (hstep : step session s .deviceRead = some t) : Inv m₀ session t := by
  obtain ⟨w, hw, rfl⟩ := Option.map_eq_some_iff.mp hstep
  obtain ⟨hserves, hkeep | ⟨hinbound, hexec⟩⟩ :=
    h.serves.deviceRead (hsession.take s.sent) hw
  · refine ⟨h.bound, hserves, h.progress.congr rfl rfl rfl ?_ hkeep.2⟩
    simp [State.coming, hkeep.1]
  · refine ⟨h.bound, hserves, ?_⟩
    have hle := hserves.executed_le
    rw [hsession.countP h.bound] at hle
    cases h.progress with
    | executing hphase hexec' hcoming hlast =>
      refine .acking s.coming hphase (hexec.trans hexec') ?_ hcoming hlast
      simp [State.coming, hinbound, ← List.append_assoc]
    | ready _ hexec' => omega
    | acking _ _ hexec' => omega
    | acked _ hexec' => omega

theorem Inv.deviceSend (h : Inv m₀ session s) (hstep : step session s .deviceSend = some t) :
    Inv m₀ session t := by
  obtain ⟨w, hw, rfl⟩ := Option.map_eq_some_iff.mp hstep
  obtain ⟨hinbound, -, -, -, hexec⟩ := deviceSend_eq hw
  refine ⟨h.bound, h.serves.deviceSend hw, h.progress.congr rfl rfl rfl ?_ hexec⟩
  simp [State.coming, hinbound]

theorem Inv.step (hsession : Answered session) (h : Inv m₀ session s) {a : Action}
    (hstep : step session s a = some t) : Inv m₀ session t := by
  cases a with
  | send => exact h.send hsession hstep
  | poll => exact h.poll hstep
  | clear => exact h.clear hstep
  | receive n => exact h.receive hstep
  | assign => exact h.assign hstep
  | deviceRead => exact h.deviceRead hsession hstep
  | deviceSend => exact h.deviceSend hstep

theorem Inv.reachable (hsession : Answered session)
    (h : Reachable (Start m₀) (StopAndWait.step session) anyAction s) : Inv m₀ session s :=
  h.invariant (fun _ => Inv.start) fun _ _ _ hinv _ => hinv.step hsession

end Invariant

section Safety

/-- In every reachable state of both programs, a request is sent only when the device has read
and executed all earlier ones, and the host is not wedged. -/
theorem stop_and_wait (address size : ℕ) (buffer : ℕ → Byte) (m₀ : Mem)
    (hfits : address + size + 1024 ≤ 16 ^ 15) (session : List (List Byte))
    (hsession : session = macSession address buffer size ∨
      session = windowsSession address buffer size) (s : State)
    (h : Reachable (Start m₀) (step session) anyAction s) :
    (∀ t, step session s .send = some t →
      s.wire.AllRead ∧ execRequests m₀ (session.take s.sent) = some s.wire.device.mem) ∧
      ¬ Wedged s := by
  have hanswered : Answered session := by
    obtain rfl | rfl := hsession
    · exact macSession_answered hfits buffer
    · exact windowsSession_answered hfits buffer
  have hinv := Inv.reachable hanswered h
  constructor
  · intro t hstep
    obtain ⟨⟨request, program⟩, hsend, -⟩ := Option.map_eq_some_iff.mp hstep
    have hready : s.phase = .ready := (Program.send_some hsend).1
    have hread : s.wire.AllRead := by
      cases hinv.progress with
      | ready _ hexec => exact hinv.allRead hanswered hexec
      | executing hphase => simp [hready] at hphase
      | acking _ hphase => simp [hready] at hphase
      | acked hphase => exact absurd hready hphase
    exact ⟨hread, (hinv.serves.allRead (hanswered.take s.sent) hread).1⟩
  · intro hwedged
    obtain ⟨hto, hhost, hbatch⟩ := hwedged.quiet
    have hcoming : s.coming = [] := by
      simp [State.coming, Wire.inbound, hbatch, hhost, hwedged.prompt.2]
    cases hinv.progress with
    | ready hphase => simp [hwedged.waiting] at hphase
    | executing _ hexec => exact hinv.not_allRead hanswered hexec ⟨hto, hwedged.prompt.1⟩
    | acking before _ _ hack => simp [hcoming] at hack
    | acked _ _ _ hlast => exact hwedged.lastRead hlast

def startFour : State := ⟨⟨.ready, 0, 0#8, []⟩, [], ascii "5555", [], fun _ => 0#8, [], 0⟩

theorem startFour_start : Start (fun _ => 0#8) startFour :=
  ⟨rfl, rfl, rfl, ⟨ascii "aaaa", by decide⟩, rfl, rfl, rfl, rfl⟩

/-- The first request is sent, read and executed while the banner comes in two batches; its ACK
ends the second one. -/
def firstRequest : List Action :=
  [.send, .receive 2, .assign] ++ List.replicate 15 .deviceRead ++
    [.assign, .deviceSend, .receive 3, .assign, .poll, .assign, .assign, .poll, .clear]

theorem stop_and_wait_four : ∃ s, s.sent = 1 ∧ s.phase = .ready ∧
    (∀ t, step (macSession 0x10000000 (fun _ => 1#8) 4) s .send = some t → s.wire.AllRead ∧
      execRequests (fun _ => 0#8) ((macSession 0x10000000 (fun _ => 1#8) 4).take s.sent) =
        some s.wire.device.mem) ∧ ¬ Wedged s := by
  have hrun : ((runSchedule (step (macSession 0x10000000 (fun _ => 1#8) 4)) anyAction firstRequest
      startFour).map fun s => (s.sent, s.phase)) = some (1, .ready) := by decide +kernel
  obtain ⟨s, hs, hend⟩ := (Reachable.init startFour_start).of_schedule hrun
  obtain ⟨hsent, hphase⟩ : s.sent = 1 ∧ s.phase = .ready := by simpa using hend
  exact ⟨s, hsent, hphase, stop_and_wait 0x10000000 4 (fun _ => 1#8) (fun _ => 0#8) (by decide)
    (macSession 0x10000000 (fun _ => 1#8) 4) (.inl rfl) s hs⟩

end Safety

end W2.StopAndWait
