import W2.Link.StopAndWait
import W2.Schedules

/-!
# The upload over SerialPort comes to its end

What is still to be done for a session lowers with every action that changes the state. So under
any schedule that does not pass over such an action for ever the upload comes to a state in which
nothing is left to do, and there the host has returned from its last wait and the device has
executed every request.
-/

namespace W2.StopAndWait

open Mips Console Host Link Transition

variable {m₀ : Mem} {session : List (List Byte)} {s t : State}

/-- A byte costs one step for each place it is still to reach, a request its bytes and the steps of
the host. -/
def requestCost (request : List Byte) : ℕ := 4 * request.length + 3

def Phase.cost : Phase → ℕ
  | .ready => 0
  | .clearing => 1
  | .waiting => 2

def rank (session : List (List Byte)) (s : State) : ℕ :=
  ((session.drop s.sent).map requestCost).sum + s.phase.cost + 4 * s.wire.toDevice.length +
    3 * s.wire.device.out.length + 2 * s.wire.toHost.length + s.batch.length

structure Completed (m₀ : Mem) (session : List (List Byte)) (s : State) : Prop where
  phase : s.phase = .ready
  sent : s.sent = session.length
  read : s.wire.AllRead
  quiet : s.coming = []
  executed : s.wire.device.executed = session.length
  memory : execRequests m₀ session = some s.wire.device.mem

theorem rank_send (hstep : step session s .send = some t) : rank session t < rank session s := by
  obtain ⟨⟨request, program⟩, hsend, rfl⟩ := Option.map_eq_some_iff.mp hstep
  obtain ⟨hphase, hget, rfl⟩ := Program.send_some hsend
  obtain ⟨hlen, rfl⟩ := List.getElem?_eq_some_iff.mp hget
  simp only [rank, List.drop_eq_getElem_cons hlen, List.map_cons, List.sum_cons, requestCost,
    Wire.send, List.length_append, hphase, Phase.cost]
  omega

theorem rank_poll (hstep : step session s .poll = some t) (hne : t ≠ s) :
    rank session t < rank session s := by
  obtain ⟨program, hpoll, rfl⟩ := Option.map_eq_some_iff.mp hstep
  obtain ⟨hphase, ⟨-, rfl⟩ | ⟨-, rfl⟩⟩ := Program.poll_some hpoll
  · simp only [rank, hphase, Phase.cost]
    omega
  · exact absurd rfl hne

theorem rank_clear (hstep : step session s .clear = some t) : rank session t < rank session s := by
  obtain ⟨program, hclear, rfl⟩ := Option.map_eq_some_iff.mp hstep
  obtain ⟨hphase, rfl⟩ := Program.clear_some hclear
  simp only [rank, hphase, Phase.cost]
  omega

theorem rank_receive {n : ℕ} (hstep : step session s (.receive n) = some t) :
    rank session t < rank session s := by
  simp only [step] at hstep
  split at hstep
  next hbatch =>
    obtain rfl := Option.some.inj hstep
    simp only [rank, Wire.receive, List.length_take, List.length_drop, hbatch.1, List.length_nil]
    omega
  next => cases hstep

theorem rank_assign (hstep : step session s .assign = some t) :
    rank session t < rank session s := by
  obtain ⟨program, hassign, rfl⟩ := Option.map_eq_some_iff.mp hstep
  obtain ⟨c, rest, hbatch, rfl⟩ := Program.assign_some hassign
  simp only [rank, hbatch, List.length_cons]
  omega

theorem rank_deviceRead (hsession : Answered session) (h : Inv m₀ session s)
    (hstep : step session s .deviceRead = some t) : rank session t < rank session s := by
  obtain ⟨w, hw, rfl⟩ := Option.map_eq_some_iff.mp hstep
  have hreply := (h.serves.deviceRead (hsession.take s.sent) hw).2
  have hone : w.toHost.length + w.device.out.length ≤
      s.wire.toHost.length + s.wire.device.out.length + 1 := by
    rcases hreply with ⟨hsame, -⟩ | ⟨hack, -⟩
    · have := congrArg List.length hsame
      simp only [Wire.inbound, List.length_append] at this
      omega
    · have := congrArg List.length hack
      simp only [Wire.inbound, List.length_append, List.length_singleton] at this
      omega
  unfold Wire.deviceRead at hw
  split at hw
  next => cases hw
  next b rest hto =>
    split at hw
    next hout =>
      obtain rfl := Option.some.inj hw
      simp only [hout, List.length_nil] at hone
      simp only [rank, hto, hout, List.length_cons, List.length_nil]
      omega
    next => cases hw

theorem rank_deviceSend (hstep : step session s .deviceSend = some t) :
    rank session t < rank session s := by
  obtain ⟨w, hw, rfl⟩ := Option.map_eq_some_iff.mp hstep
  unfold Wire.deviceSend at hw
  split at hw
  next => cases hw
  next b rest hout =>
    obtain rfl := Option.some.inj hw
    simp only [rank, hout, List.length_cons, List.length_append, List.length_nil]
    omega

theorem rank_lowers (hsession : Answered session) (h : Inv m₀ session s) {a : Action}
    (hstep : step session s a = some t) (hne : t ≠ s) : rank session t < rank session s := by
  cases a with
  | send => exact rank_send hstep
  | poll => exact rank_poll hstep hne
  | clear => exact rank_clear hstep
  | receive n => exact rank_receive hstep
  | assign => exact rank_assign hstep
  | deviceRead => exact rank_deviceRead hsession h hstep
  | deviceSend => exact rank_deviceSend hstep

section Settled

theorem settled_quiet (h : Settled (step session) s) : s.coming = [] := by
  have hbatch : s.batch = [] := by
    cases hb : s.batch with
    | nil => rfl
    | cons c rest =>
      have hsame := h .assign { s with lastRead := c, batch := rest }
        (by simp [step, Program.assign, hb])
      simpa [hb] using congrArg (fun s => s.batch.length) hsame
  have hhost : s.wire.toHost = [] := by
    by_contra hne
    have hlen := List.length_pos_iff.mpr hne
    have hsame := h (.receive 1) _ (by simp only [step]; exact if_pos ⟨hbatch, by omega, hlen⟩)
    have := congrArg (fun s => s.batch.length) hsame
    simp only [hbatch, List.length_take, List.length_nil] at this
    omega
  have hout : s.wire.device.out = [] := by
    cases ho : s.wire.device.out with
    | nil => rfl
    | cons b rest =>
      have hsame := h .deviceSend _ (by simp only [step, Wire.deviceSend, ho]; rfl)
      simpa [ho] using congrArg (fun s => s.wire.device.out.length) hsame
  simp [State.coming, Wire.inbound, hbatch, hhost, hout]

theorem settled_read (hsession : Answered session) (hinv : Inv m₀ session s)
    (h : Settled (step session) s) (hquiet : s.coming = [])
    (hexec : s.wire.device.executed + 1 = s.sent) : False := by
  have hout : s.wire.device.out = [] := by
    simp only [State.coming, Wire.inbound, List.append_eq_nil_iff] at hquiet
    exact hquiet.2.2
  have hread := hinv.not_allRead hsession hexec
  cases hto : s.wire.toDevice with
  | cons b rest =>
    have hsame := h .deviceRead _ (by simp only [step, Wire.deviceRead, hto, hout, if_true]; rfl)
    simpa [hto] using congrArg (fun s => s.wire.toDevice.length) hsame
  | nil =>
    obtain ⟨finished, pending, hsplit, hbytes, hhead, -, -⟩ := hinv.serves
    rw [hto, List.append_nil] at hbytes
    cases pending with
    | nil => exact hread ⟨hto, by simpa using hbytes⟩
    | cons r pending =>
      have hshort := hhead r rfl
      rw [hbytes, List.flatten_cons, List.length_append] at hshort
      omega

theorem settled_completed (hsession : Answered session) (hinv : Inv m₀ session s)
    (h : Settled (step session) s) : Completed m₀ session s := by
  have hquiet := settled_quiet h
  cases hinv.progress with
  | ready hphase hexec _ _ =>
    have hsent : s.sent = session.length := by
      by_contra hne
      have hlt : s.sent < session.length := Nat.lt_of_le_of_ne hinv.bound hne
      have hsend : s.send session =
          some (session[s.sent], { s.toProgram with phase := .waiting, sent := s.sent + 1 }) := by
        simp [Program.send, hphase, hlt]
      have hsame := h .send _ (by rw [step, hsend, Option.map_some])
      simpa using congrArg (fun s => s.sent) hsame
    have hread := hinv.allRead hsession hexec
    have hall := hinv.serves.allRead (hsession.take s.sent) hread
    rw [hsent, List.take_length] at hall
    exact ⟨hphase, hsent, hread, hquiet, hexec.trans hsent, hall.1⟩
  | executing _ hexec _ _ => exact (settled_read hsession hinv h hquiet hexec).elim
  | acking before _ _ hcoming _ _ => simp [hquiet] at hcoming
  | acked hphase _ _ hlast =>
    cases hp : s.phase with
    | ready => exact absurd hp hphase
    | waiting =>
      have hsame := h .poll _ (by simp only [step, Program.poll, hp, hlast, if_true]; rfl)
      simpa [hp] using congrArg (fun s => s.phase) hsame
    | clearing =>
      have hsame := h .clear _ (by simp only [step, Program.clear, hp, if_true]; rfl)
      simpa [hp] using congrArg (fun s => s.phase) hsame

end Settled

theorem session_completes (hsession : Answered session) {schedule : ℕ → Action}
    (hstart : Start m₀ s) (hlively : Lively (step session) schedule s) :
    ∃ N, ∀ n ≥ N, Completed m₀ session (trace (step session) schedule s n) := by
  have hinv (n : ℕ) : Inv m₀ session (trace (step session) schedule s n) :=
    Inv.reachable hsession (trace_reachable hstart n)
  obtain ⟨N, hN⟩ := settles hinv (fun s a t h hstep hne => rank_lowers hsession h hstep hne) hlively
  refine ⟨N, fun n hn => ?_⟩
  have hsame := hN.trace_eq (n - N)
  rw [Nat.add_sub_cancel' hn] at hsame
  rw [hsame]
  exact settled_completed hsession (hinv N) hN

theorem answered_exec {requests : List (List Byte)} (h : Answered requests) (m : Mem) :
    ∃ m', execRequests m requests = some m' := by
  induction requests generalizing m with
  | nil => exact ⟨m, rfl⟩
  | cons r requests ih =>
    obtain ⟨m₁, hm₁⟩ := (h r (by simp)).1.answers m
    obtain ⟨m', hm'⟩ := ih (fun r hr => h r (by simp [hr])) m₁
    exact ⟨m', by simp [execRequests, execRequest, hm₁, hm']⟩

theorem chain_image {address size stop : ℕ} {buffer : ℕ → Byte} {setUp : List (List Byte)}
    {rs : List Request} {m : Mem} (hsetUp : Answered setUp) (hchain : Chain address 0 stop rs)
    (hfits : address + stop ≤ 4294967296) (hsize : size ≤ stop)
    (hexec : execRequests m₀ (setUp ++ rs.map (Request.text buffer)) = some m) :
    ∀ i < size, m (BitVec.ofNat 32 (address + i)) = buffer i := by
  obtain ⟨m₁, hm₁⟩ := answered_exec hsetUp m₀
  rw [execRequests_append hm₁, hchain.exec hfits, Option.some.injEq] at hexec
  intro i hi
  rw [← hexec]
  exact applyAll_covered (hchain.copies hfits) ((hchain.covered i).mpr ⟨by omega, by omega⟩)

theorem session_image {address size : ℕ} {buffer : ℕ → Byte} {m : Mem}
    (hfits : address + size + 1024 ≤ 4294967296)
    (hsession : session = macSession address buffer size ∨
      session = windowsSession address buffer size)
    (hexec : execRequests m₀ session = some m) :
    ∀ i < size, m (BitVec.ofNat 32 (address + i)) = buffer i := by
  obtain rfl | rfl := hsession
  · have hchain := writeBytes16_chain address 0 size
    have hspan := span16_le size
    rw [Nat.zero_add] at hchain
    exact chain_image setUpFlashMac_answered hchain (by omega) hspan.1 hexec
  · have hchain := writeBytes256_chain address 0 size
    have hspan := span256_le size
    rw [Nat.zero_add] at hchain
    exact chain_image setUpFlashWindows_answered hchain (by omega) hspan.1 hexec

/-- Under every schedule that does not stand still where something is left to do, each of the two
programs comes to the end of its upload, with the image in the memory of the device. -/
theorem upload_completes (address size : ℕ) (buffer : ℕ → Byte) (m₀ : Mem)
    (hfits : address + size + 1024 ≤ 4294967296) (session : List (List Byte))
    (hsession : session = macSession address buffer size ∨
      session = windowsSession address buffer size) (s : State) (hstart : Start m₀ s)
    (schedule : ℕ → Action) (hlively : Lively (step session) schedule s) :
    ∃ N, ∀ n ≥ N, Completed m₀ session (trace (step session) schedule s n) ∧ ∀ i < size,
      (trace (step session) schedule s n).wire.device.mem (BitVec.ofNat 32 (address + i)) =
        buffer i := by
  have hanswered : Answered session := by
    obtain rfl | rfl := hsession
    · exact macSession_answered (by omega) buffer
    · exact windowsSession_answered (by omega) buffer
  obtain ⟨N, hN⟩ := session_completes hanswered hstart hlively
  exact ⟨N, fun n hn => ⟨hN n hn, session_image hfits hsession (hN n hn).memory⟩⟩

section Turns

def turns : List Action := [.send, .poll, .clear, .receive 1, .assign, .deviceRead, .deviceSend]

theorem moves_turn (h : Moves (step session) s) :
    ∃ a ∈ turns, ∃ t, step session s a = some t ∧ t ≠ s := by
  obtain ⟨a, t, hstep, hne⟩ := h
  cases a with
  | receive n =>
    simp only [step] at hstep
    split at hstep
    next hbatch =>
      refine ⟨.receive 1, by simp [turns], _, if_pos ⟨hbatch.1, by omega, by omega⟩,
        fun hsame => ?_⟩
      have := congrArg (fun s => s.batch.length) hsame
      simp only [hbatch.1, List.length_take, List.length_nil] at this
      omega
    next => cases hstep
  | _ => exact ⟨_, by simp [turns], t, hstep, hne⟩

theorem turns_lively {schedule : ℕ → Action} (h : ∀ a ∈ turns, ∀ n, ∃ m ≥ n, schedule m = a) :
    Lively (step session) schedule s := by
  refine lively_of_turns (fun s hmoves => ?_) s
  obtain ⟨a, ha, t, hstep, hne⟩ := moves_turn hmoves
  exact ⟨a, t, hstep, hne, h a ha⟩

def roundRobin (n : ℕ) : Action := turns.getD (n % 7) .send

theorem roundRobin_lively : Lively (step session) roundRobin s := by
  refine turns_lively fun a ha n => ?_
  obtain ⟨k, hk, rfl⟩ := List.getElem_of_mem ha
  have hk7 : k < 7 := hk
  refine ⟨7 * n + k, by omega, ?_⟩
  rw [roundRobin, show (7 * n + k) % 7 = k by omega, List.getD_eq_getElem?_getD,
    List.getElem?_eq_getElem hk, Option.getD_some]

theorem upload_completes_four :
    ∃ N, ∀ n ≥ N, Completed (fun _ => 0#8) (macSession 0x10000000 (fun _ => 1#8) 4)
        (trace (step (macSession 0x10000000 (fun _ => 1#8) 4)) roundRobin startFour n) ∧ ∀ i < 4,
      (trace (step (macSession 0x10000000 (fun _ => 1#8) 4)) roundRobin startFour n).wire.device.mem
        (BitVec.ofNat 32 (0x10000000 + i)) = 1#8 :=
  upload_completes 0x10000000 4 (fun _ => 1#8) (fun _ => 0#8) (by decide) _ (.inl rfl) startFour
    startFour_start roundRobin roundRobin_lively

end Turns

end W2.StopAndWait
