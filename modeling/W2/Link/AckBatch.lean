import W2.Link.AckFlag

/-!
# The ACK flag with the parts of onReadable

`onReadable` reads a batch without the mutex, then takes the mutex and looks at the bytes one by
one; `waitForAck` looks at the flag with the mutex, and `writeChunk` sets it without. Between the
parts a wait can time out, the next request go out and the flag be set for it, so an ACK that has
been read but not looked at is as late as one still in flight.
-/

namespace W2.AckFlag

open Mips Console Host Link Transition

/-- The parties, what `onReadable` has read and not looked at, and whether it holds the mutex. -/
structure Batched extends State where
  batch : List Byte
  locked : Bool

inductive Move
  | write
  | setFlag
  | ackReceived
  | timeout
  | read (n : ℕ)
  | lock
  | handle
  | deviceRead
  | deviceSend

namespace Batched

def party (requests : List (List Byte)) (s : Batched) (a : Action) : Option Batched :=
  (AckFlag.step requests s.toState a).map fun t => { s with toState := t }

def step (requests : List (List Byte)) (s : Batched) : Move → Option Batched
  | .write => s.party requests .write
  | .setFlag => s.party requests .setFlag
  | .ackReceived => if s.locked then none else s.party requests .ackReceived
  | .timeout => if s.locked then none else s.party requests .timeout
  | .read n =>
    if s.batch = [] ∧ 1 ≤ n ∧ n ≤ 256 ∧ n ≤ s.wire.toHost.length then
      some { s with
        acks := s.acks + (s.wire.toHost.take n).count 6#8
        wire := s.wire.receive n
        batch := s.wire.toHost.take n }
    else none
  | .lock => if s.batch ≠ [] ∧ s.locked = false then some { s with locked := true } else none
  -- the loop under the mutex, which is released behind the last byte
  | .handle =>
    match s.batch with
    | [] => none
    | c :: rest =>
      if s.locked then
        some { s with
          isWaitingForAck := if c = 6#8 then false else s.isWaitingForAck
          batch := rest
          locked := !rest.isEmpty }
      else none
  | .deviceRead => s.party requests .deviceRead
  | .deviceSend => s.party requests .deviceSend

def coming (s : Batched) : List Byte := s.batch ++ s.wire.inbound

structure Start (m₀ : Mem) (s : Batched) : Prop extends AckFlag.Start m₀ s.toState where
  batch : 6#8 ∉ s.batch
  free : s.batch = [] → s.locked = false

def Finished (m₀ : Mem) (requests : List (List Byte)) (s : Batched) : Prop :=
  s.wire.AllRead ∧ execRequests m₀ (requests.take s.sent) = some s.wire.device.mem

/-- An ACK ends the wait for a request only when the device has finished it, and so does the
sending of the next one. -/
structure Credited (m₀ : Mem) (requests : List (List Byte)) (s : Batched) : Prop where
  ack : 3 ≤ s.sent → ∀ t, step requests s .ackReceived = some t → Finished m₀ requests s
  wire : 3 ≤ s.sent → ∀ t, step requests s .write = some t → Finished m₀ requests s

/-- No wait that another request follows times out before the device has read and executed
everything, and the flag is set for a request it has not only while no ACK is on its way, in
flight or in the batch. -/
def Timely (requests : List (List Byte)) (s : Batched) : Move → Prop
  | .timeout => s.sent ≤ 2 ∨ s.wire.AllRead ∨ s.sent = requests.length
  | .setFlag => s.wire.AllRead ∨ 6#8 ∉ s.coming
  | _ => True

instance (s : Batched) : Decidable (6#8 ∉ s.coming) :=
  decidable_of_iff (s.coming.count 6#8 = 0) List.count_eq_zero

instance (requests : List (List Byte)) (s : Batched) (a : Move) :
    Decidable (Timely requests s a) := by
  cases a <;> unfold Timely <;> infer_instance

section Steps

variable {requests : List (List Byte)} {s t : Batched}

theorem party_eq {a : Action} (h : s.party requests a = some t) :
    ∃ u, AckFlag.step requests s.toState a = some u ∧ t = { s with toState := u } := by
  obtain ⟨u, hu, rfl⟩ := Option.map_eq_some_iff.mp h
  exact ⟨u, hu, rfl⟩

theorem unlocked_eq {a : Action} (h : (if s.locked then none else s.party requests a) = some t) :
    s.locked = false ∧ s.party requests a = some t := by
  split at h
  next => cases h
  next hfree => exact ⟨by simpa using hfree, h⟩

theorem read_eq {n : ℕ} (h : step requests s (.read n) = some t) :
    s.batch = [] ∧ t = { s with
      acks := s.acks + (s.wire.toHost.take n).count 6#8
      wire := s.wire.receive n
      batch := s.wire.toHost.take n } := by
  simp only [step] at h
  split at h
  next hbatch => exact ⟨hbatch.1, (Option.some.inj h).symm⟩
  next => cases h

theorem lock_eq (h : step requests s .lock = some t) :
    s.batch ≠ [] ∧ t = { s with locked := true } := by
  simp only [step] at h
  split at h
  next hbatch => exact ⟨hbatch.1, (Option.some.inj h).symm⟩
  next => cases h

theorem handle_eq (h : step requests s .handle = some t) : ∃ c rest, s.batch = c :: rest ∧
    t = { s with
      isWaitingForAck := if c = 6#8 then false else s.isWaitingForAck
      batch := rest
      locked := !rest.isEmpty } := by
  simp only [step] at h
  split at h
  next => cases h
  next c rest hbatch =>
    split at h
    next => exact ⟨c, rest, hbatch, (Option.some.inj h).symm⟩
    next => cases h

end Steps

section Parts

variable {requests : List (List Byte)}

theorem handles (s : State) (c : Byte) (rest : List Byte) :
    Leads (step requests) ⟨s, c :: rest, true⟩
      ⟨{ s with isWaitingForAck := if 6#8 ∈ c :: rest then false else s.isWaitingForAck },
        [], false⟩ := by
  induction rest generalizing s c with
  | nil =>
    refine Leads.single (a := .handle) ?_
    by_cases hc : c = 6#8
    · simp [step, hc]
    · simp [step, hc, Ne.symm hc]
  | cons d rest ih =>
    refine Leads.head (a := .handle) rfl ?_
    have hrest := ih { s with isWaitingForAck := if c = 6#8 then false else s.isWaitingForAck } d
    by_cases hc : c = 6#8
    · simpa [hc] using hrest
    · simpa [hc, Ne.symm hc] using hrest

/-- The steps with `onReadable` in one are runs of the steps with its parts. -/
theorem atomic {s t : State} {a : Action} (h : AckFlag.step requests s a = some t) :
    Leads (step requests) ⟨s, [], false⟩ ⟨t, [], false⟩ := by
  cases a with
  | write => exact Leads.single (a := .write) (by simp [step, party, h])
  | setFlag => exact Leads.single (a := .setFlag) (by simp [step, party, h])
  | ackReceived => exact Leads.single (a := .ackReceived) (by simp [step, party, h])
  | timeout => exact Leads.single (a := .timeout) (by simp [step, party, h])
  | onReadable n =>
    obtain rfl := onReadable_eq h
    simp only [AckFlag.step] at h
    split at h
    next hn =>
      cases hbatch : s.wire.toHost.take n with
      | nil =>
        have hlen := congrArg List.length hbatch
        rw [List.length_take, List.length_nil] at hlen
        omega
      | cons c rest =>
        have hread : step requests ⟨s, [], false⟩ (.read n) = some
            ⟨{ s with acks := s.acks + (c :: rest).count 6#8, wire := s.wire.receive n },
              c :: rest, false⟩ := by
          simp [step, hn, hbatch]
        have hlock : step requests
            ⟨{ s with acks := s.acks + (c :: rest).count 6#8, wire := s.wire.receive n },
              c :: rest, false⟩ .lock = some
            ⟨{ s with acks := s.acks + (c :: rest).count 6#8, wire := s.wire.receive n },
              c :: rest, true⟩ := rfl
        exact .head hread (.head hlock (handles _ c rest))
    next => cases h
  | deviceRead => exact Leads.single (a := .deviceRead) (by simp [step, party, h])
  | deviceSend => exact Leads.single (a := .deviceSend) (by simp [step, party, h])

theorem atomic_leads {s t : State} (h : Leads (AckFlag.step requests) s t) :
    Leads (step requests) ⟨s, [], false⟩ ⟨t, [], false⟩ := by
  induction h with
  | refl => exact .refl
  | tail _ hlast ih =>
    obtain ⟨a, ha⟩ := hlast
    exact ih.trans (atomic ha)

end Parts

section Crediting

variable {m₀ : Mem} {requests : List (List Byte)} {s t : Batched}

theorem executed_of_allRead (hcommanded : Commanded requests) (h : Inv m₀ requests s.toState)
    (hread : s.wire.AllRead) : s.wire.device.executed = s.sent - 2 := by
  rw [← hcommanded.countP h.bound]
  exact (h.serves.allRead (hcommanded.take s.sent) hread).2

theorem finished (hcommanded : Commanded requests) (h : Inv m₀ requests s.toState)
    (hsent : 3 ≤ s.sent) (hexec : s.sent ≤ s.wire.device.executed + 2) :
    Finished m₀ requests s := by
  have hread : s.wire.AllRead :=
    h.serves.allRead_of_executed (hcommanded.last hsent h.bound) (by
      rw [hcommanded.countP h.bound]
      omega)
  exact ⟨hread, (h.serves.allRead (hcommanded.take s.sent) hread).1⟩

/-- In a timely run at most one answered request is unfinished, and a clear flag says that none
is. -/
structure Trusted (m₀ : Mem) (requests : List (List Byte)) (s : Batched) : Prop where
  inv : Inv m₀ requests s.toState
  idle : s.phase = .idle → s.sent ≤ s.wire.device.executed + 2 ∨ s.sent = requests.length
  busy : s.phase ≠ .idle → s.sent ≤ s.wire.device.executed + 3
  clear : s.phase = .waiting → s.isWaitingForAck = false → s.sent ≤ s.wire.device.executed + 2
  set : s.phase = .waiting → s.isWaitingForAck = true →
    s.sent ≤ s.wire.device.executed + 2 ∨ 6#8 ∉ s.coming

theorem Trusted.start (h : Start m₀ s) : Trusted m₀ requests s := by
  have hphase := h.phase
  have hsent := h.sent
  refine ⟨Inv.start h.toStart, fun _ => .inl (by omega), ?_, ?_, ?_⟩ <;> simp [hphase]

theorem Trusted.deviceRead (hcommanded : Commanded requests) (h : Trusted m₀ requests s)
    (hstep : step requests s .deviceRead = some t) : Trusted m₀ requests t := by
  obtain ⟨u, hu, rfl⟩ := party_eq hstep
  obtain ⟨w, rfl, hinv, ⟨hin, hexec⟩ | hexec⟩ := h.inv.deviceRead hcommanded hu
  · refine ⟨hinv, ?_, ?_, ?_, ?_⟩
    · simpa [hexec] using h.idle
    · simpa [hexec] using h.busy
    · simpa [hexec] using h.clear
    · simpa [coming, hexec, hin] using h.set
  · have hmore : s.phase ≠ .idle → s.sent ≤ w.device.executed + 2 := by
      intro hphase
      have := h.busy hphase
      omega
    refine ⟨hinv, fun hphase => ?_, fun hphase => ?_, fun hphase _ => ?_, fun hphase _ => ?_⟩
    · refine (h.idle hphase).imp (fun hle => ?_) id
      show s.sent ≤ w.device.executed + 2
      omega
    · exact (hmore hphase).trans (by show w.device.executed + 2 ≤ w.device.executed + 3; omega)
    · exact hmore (by simp [show s.phase = .waiting from hphase])
    · exact .inl (hmore (by simp [show s.phase = .waiting from hphase]))

theorem Trusted.handle (h : Trusted m₀ requests s) (hstep : step requests s .handle = some t) :
    Trusted m₀ requests t := by
  obtain ⟨c, rest, hbatch, rfl⟩ := handle_eq hstep
  refine ⟨⟨h.inv.bound, h.inv.serves, h.inv.acks⟩, h.idle, h.busy, fun hphase hflag => ?_,
    fun hphase hflag => ?_⟩
  · show s.sent ≤ s.wire.device.executed + 2
    by_cases hclear : s.isWaitingForAck = false
    · exact h.clear hphase hclear
    -- The byte has cleared the flag, so it was an ACK.
    · have hack : c = 6#8 := by
        by_contra hother
        simp [hother, hclear] at hflag
      exact (h.set hphase (by simpa using hclear)).resolve_right fun hnone =>
        hnone (by simp [coming, hbatch, hack])
  · have hset : s.isWaitingForAck = true := by
      by_contra hclear
      simp [hclear] at hflag
    exact (h.set hphase hset).imp_right fun hnone hmem =>
      hnone (by
        rw [coming, hbatch]
        exact List.mem_cons_of_mem c hmem)

theorem Trusted.step (hcommanded : Commanded requests) (h : Trusted m₀ requests s) {a : Move}
    (htimely : Timely requests s a) (hstep : step requests s a = some t) :
    Trusted m₀ requests t := by
  cases a with
  | write =>
    obtain ⟨u, hu, rfl⟩ := party_eq hstep
    have hinv := h.inv.step hcommanded hu
    obtain ⟨hphase, request, hget, rfl⟩ := write_eq hu
    have hlen := (List.getElem?_eq_some_iff.mp hget).1
    have hidle := h.idle hphase
    refine ⟨hinv, by simp, fun _ => ?_, by simp, by simp⟩
    show s.sent + 1 ≤ s.wire.device.executed + 3
    omega
  | setFlag =>
    obtain ⟨u, hu, rfl⟩ := party_eq hstep
    have hinv := h.inv.step hcommanded hu
    obtain ⟨hphase, rfl⟩ := setFlag_eq hu
    refine ⟨hinv, by simp, fun _ => h.busy (by simp [hphase]), by simp, fun _ _ => ?_⟩
    obtain hread | hnone := htimely
    · have := executed_of_allRead hcommanded h.inv hread
      exact .inl (by show s.sent ≤ s.wire.device.executed + 2; omega)
    · exact .inr hnone
  | ackReceived =>
    obtain ⟨u, hu, rfl⟩ := party_eq (unlocked_eq hstep).2
    have hinv := h.inv.step hcommanded hu
    obtain ⟨hphase, hflag, rfl⟩ := ackReceived_eq hu
    exact ⟨hinv, fun _ => .inl (h.clear hphase hflag), by simp, by simp, by simp⟩
  | timeout =>
    obtain ⟨u, hu, rfl⟩ := party_eq (unlocked_eq hstep).2
    have hinv := h.inv.step hcommanded hu
    obtain ⟨hphase, hflag, rfl⟩ := timeout_eq hu
    refine ⟨hinv, fun _ => ?_, by simp, by simp, by simp⟩
    obtain hstart | hread | hend := htimely
    · exact .inl (by show s.sent ≤ s.wire.device.executed + 2; omega)
    · have := executed_of_allRead hcommanded h.inv hread
      exact .inl (by show s.sent ≤ s.wire.device.executed + 2; omega)
    · exact .inr hend
  | read n =>
    obtain ⟨hnone, rfl⟩ := read_eq hstep
    refine ⟨h.inv.receive n s.isWaitingForAck, h.idle, h.busy, h.clear, fun hphase hflag => ?_⟩
    have hset := h.set hphase hflag
    rwa [coming, hnone, List.nil_append, ← s.wire.take_receive n] at hset
  | lock =>
    obtain ⟨-, rfl⟩ := lock_eq hstep
    exact ⟨h.inv, h.idle, h.busy, h.clear, h.set⟩
  | handle => exact h.handle hstep
  | deviceRead => exact h.deviceRead hcommanded hstep
  | deviceSend =>
    obtain ⟨u, hu, rfl⟩ := party_eq hstep
    obtain ⟨w, rfl, hinv, hin, hexec⟩ := h.inv.deviceSend hu
    refine ⟨hinv, ?_, ?_, ?_, ?_⟩
    · simpa [hexec] using h.idle
    · simpa [hexec] using h.busy
    · simpa [hexec] using h.clear
    · simpa [coming, hexec, hin] using h.set

theorem Trusted.credited (hcommanded : Commanded requests) (h : Trusted m₀ requests s) :
    Credited m₀ requests s := by
  refine ⟨fun hsent t hstep => ?_, fun hsent t hstep => ?_⟩
  · obtain ⟨u, hu, -⟩ := party_eq (unlocked_eq hstep).2
    obtain ⟨hphase, hflag, -⟩ := ackReceived_eq hu
    exact finished hcommanded h.inv hsent (h.clear hphase hflag)
  · obtain ⟨u, hu, -⟩ := party_eq hstep
    obtain ⟨hphase, request, hget, -⟩ := write_eq hu
    have hlen := (List.getElem?_eq_some_iff.mp hget).1
    refine finished hcommanded h.inv hsent ?_
    have := h.idle hphase
    omega

end Crediting

section Late

variable {m₀ : Mem} {requests : List (List Byte)} {s t : Batched}

theorem drained (s : State) : ∃ u, Leads (AckFlag.step requests) s u ∧ u.phase = s.phase ∧
    u.sent = s.sent ∧ u.wire.toDevice = s.wire.toDevice ∧
    u.wire.device.recv = s.wire.device.recv ∧
    u.isWaitingForAck = if 6#8 ∈ s.wire.inbound then false else s.isWaitingForAck := by
  obtain ⟨phase, sent, flag, acks, toDevice, toHost, recv, mem, out, executed⟩ := s
  induction out generalizing toHost with
  | cons b out ih =>
    obtain ⟨u, hu, hrest⟩ := ih (toHost ++ [b])
    refine ⟨u, .head (a := .deviceSend) rfl hu, ?_⟩
    simpa [Wire.inbound] using hrest
  | nil =>
    induction toHost generalizing flag acks with
    | nil => exact ⟨_, .refl, rfl, rfl, rfl, rfl, by simp [Wire.inbound]⟩
    | cons c toHost ih =>
      obtain ⟨u, hu, hphase, hsent, hto, hrecv, hflag⟩ :=
        ih (if c = 6#8 then false else flag) (acks + [c].count 6#8)
      refine ⟨u, .head (a := .onReadable 1) ?_ hu, hphase, hsent, hto, hrecv, ?_⟩
      · by_cases hc : c = 6#8
        · simp [AckFlag.step, Wire.receive, hc]
        · simp [AckFlag.step, Wire.receive, hc, Ne.symm hc]
      · rw [hflag]
        by_cases hc : c = 6#8
        · simp [Wire.inbound, hc]
        · simp [Wire.inbound, hc, Ne.symm hc]

structure Held (m₀ : Mem) (requests : List (List Byte)) (s : Batched) : Prop where
  inv : Inv m₀ requests s.toState
  counted : s.batch.count 6#8 ≤ s.acks
  free : s.batch = [] → s.locked = false

theorem Held.start (h : Start m₀ s) : Held m₀ requests s :=
  ⟨Inv.start h.toStart, by simp [List.count_eq_zero_of_not_mem h.batch], h.free⟩

theorem Held.step (hcommanded : Commanded requests) (h : Held m₀ requests s) {a : Move}
    (hstep : step requests s a = some t) : Held m₀ requests t := by
  have hparty {a : Action} {u : State} (hacks : u.acks = s.acks)
      (hu : AckFlag.step requests s.toState a = some u) :
      Held m₀ requests { s with toState := u } :=
    ⟨h.inv.step hcommanded hu, hacks ▸ h.counted, h.free⟩
  cases a with
  | write =>
    obtain ⟨u, hu, rfl⟩ := party_eq hstep
    obtain ⟨-, request, -, rfl⟩ := write_eq hu
    exact hparty rfl hu
  | setFlag =>
    obtain ⟨u, hu, rfl⟩ := party_eq hstep
    obtain ⟨-, rfl⟩ := setFlag_eq hu
    exact hparty rfl hu
  | ackReceived =>
    obtain ⟨u, hu, rfl⟩ := party_eq (unlocked_eq hstep).2
    obtain ⟨-, -, rfl⟩ := ackReceived_eq hu
    exact hparty rfl hu
  | timeout =>
    obtain ⟨u, hu, rfl⟩ := party_eq (unlocked_eq hstep).2
    obtain ⟨-, -, rfl⟩ := timeout_eq hu
    exact hparty rfl hu
  | read n =>
    obtain ⟨hnone, rfl⟩ := read_eq hstep
    exact ⟨h.inv.receive n s.isWaitingForAck, Nat.le_add_left _ _, fun _ => h.free hnone⟩
  | lock =>
    obtain ⟨hbatch, rfl⟩ := lock_eq hstep
    exact ⟨h.inv, h.counted, fun hnone => absurd hnone hbatch⟩
  | handle =>
    obtain ⟨c, rest, hbatch, rfl⟩ := handle_eq hstep
    refine ⟨⟨h.inv.bound, h.inv.serves, h.inv.acks⟩, ?_, fun hnone => ?_⟩
    · have hcount := h.counted
      rw [hbatch] at hcount
      exact (List.count_le_count_cons ..).trans hcount
    · obtain rfl : rest = [] := hnone
      rfl
  | deviceRead =>
    obtain ⟨u, hu, rfl⟩ := party_eq hstep
    obtain ⟨w, -, rfl⟩ := Option.map_eq_some_iff.mp hu
    exact hparty rfl hu
  | deviceSend =>
    obtain ⟨u, hu, rfl⟩ := party_eq hstep
    obtain ⟨w, -, rfl⟩ := Option.map_eq_some_iff.mp hu
    exact hparty rfl hu

theorem Held.answered (hcommanded : Commanded requests) (h : Held m₀ requests s)
    (hcoming : 6#8 ∈ s.coming) : 3 ≤ s.sent := by
  have hexec := h.inv.executed_le hcommanded
  have hacks := h.inv.acks
  have hcounted := h.counted
  obtain hbatch | hinbound := List.mem_append.mp hcoming
  · have := List.count_pos_iff.mpr hbatch
    omega
  · have := List.count_pos_iff.mpr hinbound
    omega

theorem Held.emptied (h : Held m₀ requests s) : Leads (Batched.step requests) s
    ⟨{ s.toState with
      isWaitingForAck := if 6#8 ∈ s.batch then false else s.isWaitingForAck }, [], false⟩ := by
  obtain ⟨s, batch, locked⟩ := s
  cases batch with
  | nil =>
    obtain rfl : locked = false := h.free rfl
    exact .refl
  | cons c rest =>
    have hhandles : Leads (Batched.step requests) ⟨s, c :: rest, true⟩ _ := handles s c rest
    cases locked with
    | true => exact hhandles
    | false => exact .head (a := .lock) rfl hhandles

theorem Held.late (hcommanded : Commanded requests) (h : Held m₀ requests s)
    (hphase : s.phase = .waiting) (hread : ¬ s.wire.AllRead) (hcoming : 6#8 ∈ s.coming) :
    ∃ u, Leads (Batched.step requests) s u ∧ ¬ Credited m₀ requests u := by
  obtain ⟨u, (hu : Leads (AckFlag.step requests) _ u), hphase', hsent, hto, hrecv, hflag⟩ := drained
    { s.toState with isWaitingForAck := if 6#8 ∈ s.batch then false else s.isWaitingForAck }
  refine ⟨⟨u, [], false⟩, h.emptied.trans (atomic_leads hu), fun hcredited => ?_⟩
  have hclear : u.isWaitingForAck = false := by
    rw [hflag]
    obtain hbatch | hinbound := List.mem_append.mp hcoming
    · simp [hbatch]
    · rw [if_pos hinbound]
  have hwaiting : u.phase = .waiting := hphase'.trans hphase
  have hends : Batched.step requests ⟨u, [], false⟩ .ackReceived =
      some ⟨{ u with phase := .idle }, [], false⟩ := by
    simp [Batched.step, party, AckFlag.step, hwaiting, hclear]
  have hanswered : 3 ≤ u.sent := hsent ▸ h.answered hcommanded hcoming
  obtain ⟨⟨hto', hrecv'⟩, -⟩ := hcredited.ack hanswered _ hends
  exact hread ⟨hto ▸ hto', hrecv ▸ hrecv'⟩

/-- After a step that is not timely the other parties can bring about a wrong credit. -/
theorem untimely_miscredits (image : Image) {a : Move}
    (h : Reachable (Start m₀) (step (session image)) anyAction s)
    (hstep : step (session image) s a = some t) (hlate : ¬ Timely (session image) s a) :
    ∃ u, Leads (step (session image)) t u ∧ ¬ Credited m₀ (session image) u := by
  have hcommanded := session_commanded image
  have hheld : Held m₀ (session image) s :=
    h.invariant (fun _ => Held.start) fun _ _ _ hheld _ => hheld.step hcommanded
  cases a with
  | timeout =>
    obtain ⟨u, hu, rfl⟩ := party_eq (unlocked_eq hstep).2
    obtain ⟨-, -, rfl⟩ := timeout_eq hu
    simp only [Timely, not_or, not_le] at hlate
    obtain ⟨hanswered, hread, hmore⟩ := hlate
    have hlen := hheld.inv.bound
    have hget : (session image)[s.sent]? = some (session image)[s.sent] :=
      List.getElem?_eq_getElem (by omega)
    obtain ⟨v, hwrite⟩ :
        ∃ v, step (session image) { s with phase := .idle } .write = some v := by
      simp [step, party, AckFlag.step, hget]
    exact ⟨_, .refl, fun hcredited => hread (hcredited.wire hanswered v hwrite).1⟩
  | setFlag =>
    have hheld' := hheld.step hcommanded hstep
    obtain ⟨u, hu, rfl⟩ := party_eq hstep
    obtain ⟨-, rfl⟩ := setFlag_eq hu
    simp only [Timely, not_or, not_not] at hlate
    exact hheld'.late hcommanded rfl hlate.1 hlate.2
  | _ => exact absurd trivial hlate

end Late

end Batched

open Batched

/-- In every run of an upload in which waits do not end early and no ACK is late, an ACK ends the
wait for its own request. -/
theorem ack_credited (image : Image) (m₀ : Mem) (s : Batched)
    (h : Reachable (Batched.Start m₀) (Batched.step (session image)) (Timely (session image)) s) :
    Credited m₀ (session image) s := by
  have hcommanded := session_commanded image
  have htrusted : Trusted m₀ (session image) s :=
    h.invariant (fun _ => Trusted.start) fun _ _ _ htrusted htimely hstep =>
      htrusted.step hcommanded htimely hstep
  exact htrusted.credited hcommanded

def startBatched : Batched := ⟨startIdle, [], false⟩

theorem startBatched_start : Batched.Start (fun _ => 0#8) startBatched :=
  ⟨startIdle_start, by simp [startBatched], fun _ => rfl⟩

def timeouts : List Move := [.write, .setFlag, .timeout, .write, .setFlag, .timeout]

def answerRead : List Move := List.replicate 17 .deviceRead ++ [.deviceSend, .read 1]

theorem ack_credited_first : ∃ s, s.sent = 3 ∧ s.phase = .idle ∧
    Credited (fun _ => 0#8) (session oneWord) s := by
  have hrun : ((runSchedule (Batched.step (session oneWord)) (Timely (session oneWord))
      (timeouts ++ [.write, .setFlag] ++ answerRead ++ [.lock, .handle, .ackReceived])
        startBatched).map fun s => (s.sent, s.phase)) = some (3, .idle) := by decide +kernel
  obtain ⟨s, hs, hend⟩ := (Reachable.init startBatched_start).of_schedule hrun
  obtain ⟨hsent, hphase⟩ : s.sent = 3 ∧ s.phase = .idle := by simpa using hend
  exact ⟨s, hsent, hphase, ack_credited oneWord (fun _ => 0#8) s hs⟩

/-- The wait for the first command times out, and its late ACK ends the wait for the second
one. -/
theorem ack_credited_late : ¬ ∀ s, Reachable (Batched.Start fun _ => 0#8)
    (Batched.step (session oneWord)) anyAction s →
      Credited (fun _ => 0#8) (session oneWord) s := by
  intro hall
  have hrun : ((runSchedule (Batched.step (session oneWord)) anyAction
      (timeouts ++ [.write, .setFlag, .timeout, .write, .setFlag] ++ answerRead ++
        [.lock, .handle]) startBatched).map fun s =>
          (s.sent, (Batched.step (session oneWord) s .ackReceived).isSome,
            s.wire.toDevice.length)) = some (4, true, 15) := by decide +kernel
  obtain ⟨s, hs, hend⟩ := (Reachable.init startBatched_start).of_schedule hrun
  obtain ⟨hsent, hack, hlen⟩ : s.sent = 4 ∧
      (Batched.step (session oneWord) s .ackReceived).isSome = true ∧
      s.wire.toDevice.length = 15 := by simpa using hend
  obtain ⟨t, ht⟩ := Option.isSome_iff_exists.mp hack
  obtain ⟨⟨hread, -⟩, -⟩ := (hall s hs).ack (by omega) t ht
  simp [hread] at hlen

end W2.AckFlag
