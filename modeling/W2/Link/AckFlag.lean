import W2.Link.Device

/-!
# The ACK flag of SerialPortClient

The upload thread hands a request to `::write`, sets `isWaitingForAck_` and waits until the flag
is clear or a second has passed; `onReadable` takes a batch of the bytes in flight and clears the
flag when there is an ACK among them; the device executes the requests in order. All of these
are single steps that come in any order, and a wait may end without an ACK whenever the flag is
set. The first two requests of a session, `\n` and `a`, are not answered. Here `onReadable` is one
step; `W2.Link.AckBatch` takes it apart.
-/

namespace W2.AckFlag

open Mips Console Host Link Transition

inductive Phase
  | idle
  | handed
  | waiting
  deriving DecidableEq

/-- `acks` counts the ACKs that `onReadable` has taken. -/
structure State where
  phase : Phase
  sent : ℕ
  isWaitingForAck : Bool
  acks : ℕ
  wire : Wire

inductive Action
  | write
  | setFlag
  | ackReceived
  | timeout
  | onReadable (n : ℕ)
  | deviceRead
  | deviceSend

def step (requests : List (List Byte)) (s : State) : Action → Option State
  | .write =>
    if s.phase = .idle then
      requests[s.sent]?.map fun request =>
        { s with phase := .handed, sent := s.sent + 1, wire := s.wire.send request }
    else none
  | .setFlag =>
    if s.phase = .handed then some { s with phase := .waiting, isWaitingForAck := true } else none
  -- waitForAck: true when the flag is clear, false when it is still set after a second
  | .ackReceived =>
    if s.phase = .waiting ∧ s.isWaitingForAck = false then some { s with phase := .idle }
    else none
  | .timeout =>
    if s.phase = .waiting ∧ s.isWaitingForAck = true then some { s with phase := .idle }
    else none
  | .onReadable n =>
    if 1 ≤ n ∧ n ≤ 256 ∧ n ≤ s.wire.toHost.length then
      let batch := s.wire.toHost.take n
      some { s with
        isWaitingForAck := if 6#8 ∈ batch then false else s.isWaitingForAck
        acks := s.acks + batch.count 6#8
        wire := s.wire.receive n }
    else none
  | .deviceRead => s.wire.deviceRead.map fun wire => { s with wire := wire }
  | .deviceSend => s.wire.deviceSend.map fun wire => { s with wire := wire }

structure Start (m₀ : Mem) (s : State) : Prop where
  phase : s.phase = .idle
  sent : s.sent = 0
  acks : s.acks = 0
  inbound : 6#8 ∉ s.wire.inbound
  toDevice : s.wire.toDevice = []
  recv : s.wire.device.recv = []
  mem : s.wire.device.mem = m₀
  executed : s.wire.device.executed = 0

/-- Once `onReadable` has taken the ACK of the request being sent, the wait can only end with
success. -/
def Kept (requests : List (List Byte)) (s : State) : Prop :=
  s.phase = .waiting → 3 ≤ s.sent → s.sent ≤ s.acks + 2 →
    step requests s .timeout = none ∧ ∃ t, step requests s .ackReceived = some t

/-- The ACK of a request is not taken before the flag is set for it. -/
def Ordered (s : State) : Action → Prop
  | .onReadable n =>
    s.phase = .handed → 3 ≤ s.sent → s.acks + (s.wire.toHost.take n).count 6#8 + 2 < s.sent
  | _ => True

instance (s : State) (a : Action) : Decidable (Ordered s a) := by
  cases a <;> unfold Ordered <;> infer_instance

section Sessions

structure Commanded (requests : List (List Byte)) : Prop where
  round : ∀ r ∈ requests, OneRound r
  answered : ∀ i r, requests[i]? = some r → (acked r = true ↔ 2 ≤ i)

theorem session_commanded (image : Image) : Commanded (session image) := by
  have hchunks : Answered ((uploadChunks image.size 0).map (Request.text image.buffer)) := by
    intro r hr
    obtain ⟨request, hrequest, rfl⟩ := List.mem_map.mp hr
    obtain ⟨haddr, hwords⟩ := uploadChunks_shape image.size 0 request hrequest
    exact ⟨oneRound_writeWords _ (by omega) (by omega), rfl⟩
  have hrest := answered_append commands_answered hchunks
  have hsession : session image = ascii "\n" :: ascii "a" ::
      ([disableSpecialSeqInstr, unlockFlashInstr, eraseFlashInstr] ++
        (uploadChunks image.size 0).map (Request.text image.buffer)) := rfl
  rw [hsession]
  constructor
  · intro r hr
    obtain rfl | hr := List.mem_cons.mp hr
    · exact oneRound_between (b := 10#8) (by decide)
    obtain rfl | hr := List.mem_cons.mp hr
    · exact oneRound_between (b := 97#8) (by decide)
    · exact (hrest r hr).1
  · intro i r hget
    match i with
    | 0 =>
      obtain rfl : ascii "\n" = r := by simpa using hget
      exact iff_of_false (by decide) (by omega)
    | 1 =>
      obtain rfl : ascii "a" = r := by simpa using hget
      exact iff_of_false (by decide) (by omega)
    | i + 2 =>
      refine iff_of_true (hrest r ?_).2 (by omega)
      exact List.mem_of_getElem? (by simpa using hget)

variable {requests : List (List Byte)}

theorem Commanded.take (h : Commanded requests) (n : ℕ) : ∀ r ∈ requests.take n, OneRound r :=
  fun r hr => h.round r (List.mem_of_mem_take hr)

theorem Commanded.countP (h : Commanded requests) {n : ℕ} (hn : n ≤ requests.length) :
    (requests.take n).countP acked = n - 2 := by
  induction n with
  | zero => simp
  | succ n ih =>
    have hget : requests[n]? = some requests[n] := List.getElem?_eq_getElem (by omega)
    have hiff := h.answered n _ hget
    rw [take_succ hget, List.countP_append, ih (by omega), List.countP_singleton]
    by_cases hn2 : 2 ≤ n
    · rw [if_pos (hiff.mpr hn2)]
      omega
    · rw [if_neg fun hacked => hn2 (hiff.mp hacked)]
      omega

theorem Commanded.last (h : Commanded requests) {n : ℕ} (hn : 3 ≤ n) (hlen : n ≤ requests.length) :
    ∀ r, (requests.take n).getLast? = some r → acked r = true := by
  intro r hr
  obtain ⟨k, rfl⟩ : ∃ k, n = k + 1 := ⟨n - 1, by omega⟩
  have hget : requests[k]? = some requests[k] := List.getElem?_eq_getElem (by omega)
  rw [take_succ hget, List.getLast?_concat, Option.some.injEq] at hr
  exact hr ▸ (h.answered k _ hget).mpr (by omega)

end Sessions

section Steps

variable {requests : List (List Byte)} {s t : State}

theorem write_eq (h : step requests s .write = some t) : s.phase = .idle ∧
    ∃ request, requests[s.sent]? = some request ∧
      t = { s with phase := .handed, sent := s.sent + 1, wire := s.wire.send request } := by
  simp only [step] at h
  split at h
  next hphase =>
    obtain ⟨request, hget, rfl⟩ := Option.map_eq_some_iff.mp h
    exact ⟨hphase, request, hget, rfl⟩
  next => cases h

theorem setFlag_eq (h : step requests s .setFlag = some t) :
    s.phase = .handed ∧ t = { s with phase := .waiting, isWaitingForAck := true } := by
  simp only [step] at h
  split at h
  next hphase => exact ⟨hphase, (Option.some.inj h).symm⟩
  next => cases h

theorem ackReceived_eq (h : step requests s .ackReceived = some t) :
    s.phase = .waiting ∧ s.isWaitingForAck = false ∧ t = { s with phase := .idle } := by
  simp only [step] at h
  split at h
  next hwait => exact ⟨hwait.1, hwait.2, (Option.some.inj h).symm⟩
  next => cases h

theorem timeout_eq (h : step requests s .timeout = some t) :
    s.phase = .waiting ∧ s.isWaitingForAck = true ∧ t = { s with phase := .idle } := by
  simp only [step] at h
  split at h
  next hwait => exact ⟨hwait.1, hwait.2, (Option.some.inj h).symm⟩
  next => cases h

theorem onReadable_eq {n : ℕ} (h : step requests s (.onReadable n) = some t) :
    t = { s with
      isWaitingForAck := if 6#8 ∈ s.wire.toHost.take n then false else s.isWaitingForAck
      acks := s.acks + (s.wire.toHost.take n).count 6#8
      wire := s.wire.receive n } := by
  simp only [step] at h
  split at h
  next => exact (Option.some.inj h).symm
  next => cases h

end Steps

section Invariant

variable {m₀ : Mem} {requests : List (List Byte)} {s t : State}

/-- The device serves what has been sent, and its ACKs are those `onReadable` has taken and those
on their way. -/
structure Inv (m₀ : Mem) (requests : List (List Byte)) (s : State) : Prop where
  bound : s.sent ≤ requests.length
  serves : Serves m₀ (requests.take s.sent) s.wire
  acks : s.acks + s.wire.inbound.count 6#8 = s.wire.device.executed

theorem Inv.start (h : Start m₀ s) : Inv m₀ requests s := by
  refine ⟨by simp [h.sent], ?_, ?_⟩
  · rw [h.sent, List.take_zero]
    exact Serves.start h.recv h.toDevice h.mem h.executed
  · rw [h.acks, h.executed, List.count_eq_zero_of_not_mem h.inbound]

theorem Inv.executed_le (hcommanded : Commanded requests) (h : Inv m₀ requests s) :
    s.wire.device.executed ≤ s.sent - 2 := by
  rw [← hcommanded.countP h.bound]
  exact h.serves.executed_le

theorem Inv.deviceRead (hcommanded : Commanded requests) (h : Inv m₀ requests s)
    (hstep : step requests s .deviceRead = some t) : ∃ w, t = { s with wire := w } ∧
      Inv m₀ requests t ∧
      ((w.inbound = s.wire.inbound ∧ w.device.executed = s.wire.device.executed) ∨
        w.device.executed = s.wire.device.executed + 1) := by
  obtain ⟨w, hw, rfl⟩ := Option.map_eq_some_iff.mp hstep
  obtain ⟨hserves, hkeep | ⟨hinbound, hexec⟩⟩ :=
    h.serves.deviceRead (hcommanded.take s.sent) hw
  · refine ⟨w, rfl, ⟨h.bound, hserves, ?_⟩, .inl hkeep⟩
    show s.acks + w.inbound.count 6#8 = w.device.executed
    rw [hkeep.1, hkeep.2, h.acks]
  · refine ⟨w, rfl, ⟨h.bound, hserves, ?_⟩, .inr hexec⟩
    show s.acks + w.inbound.count 6#8 = w.device.executed
    rw [hinbound, hexec, ← h.acks, List.count_append]
    simp [Nat.add_assoc]

theorem Inv.deviceSend (h : Inv m₀ requests s) (hstep : step requests s .deviceSend = some t) :
    ∃ w, t = { s with wire := w } ∧ Inv m₀ requests t ∧ w.inbound = s.wire.inbound ∧
      w.device.executed = s.wire.device.executed := by
  obtain ⟨w, hw, rfl⟩ := Option.map_eq_some_iff.mp hstep
  obtain ⟨hinbound, -, -, -, hexec⟩ := deviceSend_eq hw
  refine ⟨w, rfl, ⟨h.bound, h.serves.deviceSend hw, ?_⟩, hinbound, hexec⟩
  show s.acks + w.inbound.count 6#8 = w.device.executed
  rw [hinbound, hexec, h.acks]

theorem Inv.receive (h : Inv m₀ requests s) (n : ℕ) (flag : Bool) :
    Inv m₀ requests { s with
      isWaitingForAck := flag
      acks := s.acks + (s.wire.toHost.take n).count 6#8
      wire := s.wire.receive n } := by
  refine ⟨h.bound, h.serves.receive n, ?_⟩
  have hacks := h.acks
  rw [← s.wire.take_receive n, List.count_append, ← Nat.add_assoc] at hacks
  exact hacks

theorem Inv.step (hcommanded : Commanded requests) (h : Inv m₀ requests s) {a : Action}
    (hstep : step requests s a = some t) : Inv m₀ requests t := by
  cases a with
  | write =>
    obtain ⟨-, request, hget, rfl⟩ := write_eq hstep
    refine ⟨(List.getElem?_eq_some_iff.mp hget).1, ?_, h.acks⟩
    show Serves m₀ (requests.take (s.sent + 1)) (s.wire.send request)
    rw [take_succ hget]
    exact h.serves.send (hcommanded.round request (List.mem_of_getElem? hget))
  | setFlag =>
    obtain ⟨-, rfl⟩ := setFlag_eq hstep
    exact ⟨h.bound, h.serves, h.acks⟩
  | ackReceived =>
    obtain ⟨-, -, rfl⟩ := ackReceived_eq hstep
    exact ⟨h.bound, h.serves, h.acks⟩
  | timeout =>
    obtain ⟨-, -, rfl⟩ := timeout_eq hstep
    exact ⟨h.bound, h.serves, h.acks⟩
  | onReadable n =>
    obtain rfl := onReadable_eq hstep
    exact h.receive n _
  | deviceRead =>
    obtain ⟨_, -, hinv, -⟩ := h.deviceRead hcommanded hstep
    exact hinv
  | deviceSend =>
    obtain ⟨_, -, hinv, -⟩ := h.deviceSend hstep
    exact hinv

end Invariant

section Keeping

variable {m₀ : Mem} {requests : List (List Byte)} {s t : State}

structure Watched (m₀ : Mem) (requests : List (List Byte)) (s : State) : Prop where
  inv : Inv m₀ requests s
  handed : s.phase = .handed → 3 ≤ s.sent → s.acks + 2 < s.sent
  waiting : s.phase = .waiting → s.isWaitingForAck = true → 3 ≤ s.sent → s.acks + 2 < s.sent

theorem Watched.start (h : Start m₀ s) : Watched m₀ requests s := by
  have hphase := h.phase
  refine ⟨Inv.start h, ?_, ?_⟩ <;> simp [hphase]

theorem Watched.step (hcommanded : Commanded requests) (h : Watched m₀ requests s) {a : Action}
    (hordered : Ordered s a) (hstep : step requests s a = some t) : Watched m₀ requests t := by
  have hinv := h.inv.step hcommanded hstep
  cases a with
  | write =>
    obtain ⟨hphase, request, hget, rfl⟩ := write_eq hstep
    have hexec := h.inv.executed_le hcommanded
    have hacks := h.inv.acks
    refine ⟨hinv, fun _ hsent => ?_, by simp⟩
    have hsent : 3 ≤ s.sent + 1 := hsent
    show s.acks + 2 < s.sent + 1
    omega
  | setFlag =>
    obtain ⟨hphase, rfl⟩ := setFlag_eq hstep
    exact ⟨hinv, by simp, fun _ _ => h.handed hphase⟩
  | ackReceived =>
    obtain ⟨hphase, hflag, rfl⟩ := ackReceived_eq hstep
    exact ⟨hinv, by simp, by simp⟩
  | timeout =>
    obtain ⟨hphase, hflag, rfl⟩ := timeout_eq hstep
    exact ⟨hinv, by simp, by simp⟩
  | onReadable n =>
    obtain rfl := onReadable_eq hstep
    refine ⟨hinv, hordered, fun hphase hflag hsent => ?_⟩
    have hnone : 6#8 ∉ s.wire.toHost.take n := by
      intro hmem
      simp [hmem] at hflag
    have hset : s.isWaitingForAck = true := by simpa [hnone] using hflag
    have := h.waiting hphase hset hsent
    simpa [List.count_eq_zero_of_not_mem hnone] using this
  | deviceRead =>
    obtain ⟨w, rfl, -⟩ := h.inv.deviceRead hcommanded hstep
    exact ⟨hinv, h.handed, h.waiting⟩
  | deviceSend =>
    obtain ⟨w, rfl, -⟩ := h.inv.deviceSend hstep
    exact ⟨hinv, h.handed, h.waiting⟩

theorem Watched.kept (h : Watched m₀ requests s) : Kept requests s := by
  intro hphase hsent hacks
  have hclear : s.isWaitingForAck = false := by
    by_contra hset
    have := h.waiting hphase (by simpa using hset) hsent
    omega
  exact ⟨by simp [AckFlag.step, hclear], _, by simp [AckFlag.step, hphase, hclear]; rfl⟩

/-- In every run of an upload in which `onReadable` takes no ACK between `::write` and the flag,
a wait whose ACK has been taken ends with success. -/
theorem ack_kept (image : Image) (m₀ : Mem) (s : State)
    (h : Reachable (Start m₀) (step (session image)) Ordered s) : Kept (session image) s := by
  have hcommanded := session_commanded image
  have hwatched : Watched m₀ (session image) s :=
    h.invariant (fun _ => Watched.start) fun _ _ _ hwatched hordered hstep =>
      hwatched.step hcommanded hordered hstep
  exact hwatched.kept

def oneWord : Image := ⟨fun _ => 0#8, 4⟩

def startIdle : State := ⟨.idle, 0, false, 0, [], [], [], fun _ => 0#8, [], 0⟩

theorem startIdle_start : Start (fun _ => 0#8) startIdle :=
  ⟨rfl, rfl, rfl, by decide, rfl, rfl, rfl, rfl⟩

def unanswered : List Action := [.write, .setFlag, .timeout, .write, .setFlag, .timeout]

def answerFirst : List Action := List.replicate 17 .deviceRead ++ [.deviceSend, .onReadable 1]

theorem ack_kept_first : ∃ s, s.sent = 3 ∧ s.acks = 1 ∧ s.phase = .waiting ∧
    Kept (session oneWord) s := by
  have hrun : ((runSchedule (step (session oneWord)) Ordered
      (unanswered ++ [.write, .setFlag] ++ answerFirst) startIdle).map
        fun s => (s.sent, s.acks, s.phase)) = some (3, 1, .waiting) := by decide +kernel
  obtain ⟨s, hs, hend⟩ := (Reachable.init startIdle_start).of_schedule hrun
  obtain ⟨hsent, hacks, hphase⟩ : s.sent = 3 ∧ s.acks = 1 ∧ s.phase = .waiting := by
    simpa using hend
  exact ⟨s, hsent, hacks, hphase, ack_kept oneWord (fun _ => 0#8) s hs⟩

/-- The device answers before the flag is set, and the wait times out. -/
theorem ack_kept_early : ¬ ∀ s, Reachable (Start fun _ => 0#8)
    (step (session oneWord)) anyAction s → Kept (session oneWord) s := by
  intro hall
  have hrun : ((runSchedule (step (session oneWord)) anyAction
      (unanswered ++ [.write] ++ answerFirst ++ [.setFlag]) startIdle).map fun s =>
        (s.sent, s.acks, s.phase, s.isWaitingForAck)) = some (3, 1, .waiting, true) := by
    decide +kernel
  obtain ⟨s, hs, hend⟩ := (Reachable.init startIdle_start).of_schedule hrun
  obtain ⟨hsent, hacks, hphase, hflag⟩ : s.sent = 3 ∧ s.acks = 1 ∧ s.phase = .waiting ∧
      s.isWaitingForAck = true := by simpa using hend
  obtain ⟨hnone, -⟩ := hall s hs hphase (by omega) (by omega)
  simp [step, hphase, hflag] at hnone

end Keeping

end W2.AckFlag
