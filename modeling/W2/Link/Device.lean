import W2.Host.Uploader

/-!
# The console as a party of the serial link

The dispatch loop of the console, fed one byte at a time: bytes of an unfinished command are
kept until one round of the loop can read them all. The two queues of the link keep the order
of their bytes and lose none. `Serves` says how far the device has come with the requests
that were handed to the link; reading and sending keep it.
-/

namespace W2.Link

open Mips Console Host

structure Device where
  recv : List Byte
  mem : Mem
  out : List Byte
  executed : ℕ

/-- The device after one more byte. While it sends it does not read, so that `out` is empty
here. -/
def Device.read (d : Device) (b : Byte) : Device :=
  match dispatch ⟨d.recv ++ [b], d.mem, []⟩ with
  | none => { d with recv := d.recv ++ [b] }
  | some s => ⟨s.input, s.mem, s.output, d.executed + if s.output = [] then 0 else 1⟩

structure Wire where
  toDevice : List Byte
  toHost : List Byte
  device : Device

namespace Wire

def send (w : Wire) (request : List Byte) : Wire :=
  { w with toDevice := w.toDevice ++ request }

def deviceRead (w : Wire) : Option Wire :=
  match w.toDevice with
  | [] => none
  | b :: rest =>
    if w.device.out = [] then some ⟨rest, w.toHost, w.device.read b⟩ else none

def deviceSend (w : Wire) : Option Wire :=
  match w.device.out with
  | [] => none
  | b :: rest => some ⟨w.toDevice, w.toHost ++ [b], { w.device with out := rest }⟩

def receive (w : Wire) (n : ℕ) : Wire := { w with toHost := w.toHost.drop n }

def inbound (w : Wire) : List Byte := w.toHost ++ w.device.out

theorem take_receive (w : Wire) (n : ℕ) : w.toHost.take n ++ (w.receive n).inbound = w.inbound := by
  simp [inbound, receive, ← List.append_assoc]

def AllRead (w : Wire) : Prop := w.toDevice = [] ∧ w.device.recv = []

instance (w : Wire) : Decidable w.AllRead := inferInstanceAs (Decidable (_ ∧ _))

end Wire

section Requests

def acked (request : List Byte) : Bool := request.head? == some 119#8

structure OneRound (request : List Byte) : Prop where
  waits : ∀ xs ys, request = xs ++ ys → ys ≠ [] → ∀ m, dispatch ⟨xs, m, []⟩ = none
  answers : ∀ m, ∃ m', dispatch ⟨request, m, []⟩ =
    some ⟨[], m', if acked request then [6#8] else []⟩

theorem OneRound.ne_nil {request : List Byte} (h : OneRound request) : request ≠ [] := by
  rintro rfl
  obtain ⟨m', hm'⟩ := h.answers fun _ => 0#8
  simp [dispatch] at hm'

theorem oneRound_write {input : List Byte} {c : Command} (h : commandW input = some (c, [])) :
    OneRound (119#8 :: input) := by
  have hparse : parse 119#8 input = some (some c, []) := by simp [parse, h]
  refine ⟨fun xs ys hsplit hys m => dispatch_waits hparse hsplit hys m [], fun m => ?_⟩
  obtain ⟨addr, -, n, -, words, -, -, -, rfl⟩ := commandW_eq h
  exact ⟨m.writeWords addr words, by simp [dispatch, hparse, acked]; rfl⟩

theorem oneRound_writeWords {address words : ℕ} (bytes : ℕ → Byte) (ha : address < 16 ^ 15)
    (hw : words < 4294967296) : OneRound (writeWords address bytes words) := by
  have hwords := getwords_numerals ((List.range words).map (requestWord bytes words)) []
  rw [List.length_map, List.length_range, List.flatMap_map] at hwords
  simp only [requestWord_text, List.append_nil] at hwords
  have hcount : (BitVec.ofNat 32 words).toNat = words := by
    rw [BitVec.toNat_ofNat, Nat.mod_eq_of_lt hw]
  refine oneRound_write (c := .w (BitVec.ofNat 32 address)
    (((List.range words).map (requestWord bytes words)).map Numeral.value)) ?_
  simp only [commandW, List.append_assoc, List.cons_append, List.nil_append]
  rw [getword_hexText ha blank_ends]
  simp only [Option.bind_eq_bind, Option.bind_some]
  rw [getword_hexText (by omega) blank_ends]
  simp only [Option.bind_some, hcount, hwords]

theorem oneRound_between {b : Byte} (h : ¬ Letter b) : OneRound [b] := by
  have hparse := parse_between h []
  have hw : b ≠ 119#8 := fun hb => h (Or.inl hb)
  refine ⟨fun xs ys hsplit hys m => dispatch_waits hparse hsplit hys m [], fun m => ⟨m, ?_⟩⟩
  simp [dispatch, hparse, acked, hw, Session.exec]

def Answered (requests : List (List Byte)) : Prop :=
  ∀ r ∈ requests, OneRound r ∧ acked r = true

theorem answered_append {rs rs' : List (List Byte)} (h : Answered rs) (h' : Answered rs') :
    Answered (rs ++ rs') := fun r hr => (List.mem_append.mp hr).elim (h r) (h' r)

theorem take_succ {requests : List (List Byte)} {n : ℕ} {request : List Byte}
    (hget : requests[n]? = some request) :
    requests.take (n + 1) = requests.take n ++ [request] := by
  rw [List.take_add_one, hget]
  rfl

theorem Answered.take {requests : List (List Byte)} (h : Answered requests) (n : ℕ) :
    ∀ r ∈ requests.take n, OneRound r := fun r hr => (h r (List.mem_of_mem_take hr)).1

theorem Answered.countP {requests : List (List Byte)} (h : Answered requests) {n : ℕ}
    (hn : n ≤ requests.length) : (requests.take n).countP acked = n := by
  rw [List.countP_eq_length.mpr fun r hr => (h r (List.mem_of_mem_take hr)).2, List.length_take,
    Nat.min_eq_left hn]

theorem commands_answered :
    Answered [disableSpecialSeqInstr, unlockFlashInstr, eraseFlashInstr] := by
  intro r hr
  have hcases : r = disableSpecialSeqInstr ∨ r = unlockFlashInstr ∨ r = eraseFlashInstr := by
    simpa using hr
  obtain rfl | rfl | rfl := hcases
  · exact ⟨oneRound_write (c := .w 0x1f800004#32 [0x40#32]) rfl, by decide⟩
  · exact ⟨oneRound_write (c := .w 0x1f800b07#32 [0xa5#32]) rfl, by decide⟩
  · exact ⟨oneRound_write (c := .w 0x10300000#32 [0#32]) rfl, by decide⟩

end Requests

section Serving

variable {m₀ : Mem} {requests : List (List Byte)} {w w' : Wire}

/-- Of the requests handed to the link the device has executed the first ones, in order, and the
others are what it has read without executing it and what is in flight; it has not read the
next one to its end. -/
def Serves (m₀ : Mem) (requests : List (List Byte)) (w : Wire) : Prop :=
  ∃ finished pending, requests = finished ++ pending ∧
    w.device.recv ++ w.toDevice = pending.flatten ∧
    (∀ r ∈ pending.head?, w.device.recv.length < r.length) ∧
    execRequests m₀ finished = some w.device.mem ∧
    w.device.executed = finished.countP acked

theorem Serves.start {w : Wire} (hrecv : w.device.recv = []) (hto : w.toDevice = [])
    (hmem : w.device.mem = m₀) (hexec : w.device.executed = 0) : Serves m₀ [] w :=
  ⟨[], [], rfl, by simp [hrecv, hto], by simp, by simp [execRequests, hmem], by simpa using hexec⟩

theorem Serves.executed_le (h : Serves m₀ requests w) :
    w.device.executed ≤ requests.countP acked := by
  obtain ⟨finished, pending, rfl, -, -, -, hexec⟩ := h
  rw [hexec, List.countP_append]
  exact Nat.le_add_right _ _

theorem Serves.allRead (hround : ∀ r ∈ requests, OneRound r) (h : Serves m₀ requests w)
    (hread : w.AllRead) : execRequests m₀ requests = some w.device.mem ∧
      w.device.executed = requests.countP acked := by
  obtain ⟨finished, pending, rfl, hbytes, -, hmem, hexec⟩ := h
  have hflat : pending.flatten = [] := by rw [← hbytes, hread.1, hread.2, List.append_nil]
  have hnone : pending = [] := by
    cases pending with
    | nil => rfl
    | cons r rest =>
      exact absurd (List.append_eq_nil_iff.mp hflat).1 (hround r (by simp)).ne_nil
  subst hnone
  simp [hmem, hexec]

theorem Serves.allRead_of_executed (h : Serves m₀ requests w)
    (hlast : ∀ r, requests.getLast? = some r → acked r = true)
    (hexec : requests.countP acked ≤ w.device.executed) : w.AllRead := by
  obtain ⟨finished, pending, rfl, hbytes, -, -, hfin⟩ := h
  have hnone : pending = [] := by
    cases pending using List.reverseRecOn with
    | nil => rfl
    | append_singleton pending r =>
      have hr : acked r = true := hlast r (by simp)
      rw [hfin] at hexec
      simp [hr] at hexec
  subst hnone
  obtain ⟨hrecv, hto⟩ := List.append_eq_nil_iff.mp hbytes
  exact ⟨hto, hrecv⟩

theorem Serves.send (h : Serves m₀ requests w) {request : List Byte} (hround : OneRound request) :
    Serves m₀ (requests ++ [request]) (w.send request) := by
  obtain ⟨finished, pending, rfl, hbytes, hhead, hmem, hexec⟩ := h
  refine ⟨finished, pending ++ [request], by simp, ?_, ?_, hmem, hexec⟩
  · simp [Wire.send, ← List.append_assoc, hbytes]
  · cases pending with
    | nil =>
      obtain ⟨hrecv, -⟩ := List.append_eq_nil_iff.mp hbytes
      simpa [Wire.send, hrecv] using List.length_pos_iff.mpr hround.ne_nil
    | cons r rest => simpa [Wire.send] using hhead

theorem deviceSend_eq (h : w.deviceSend = some w') : w'.inbound = w.inbound ∧
    w'.toDevice = w.toDevice ∧ w'.device.recv = w.device.recv ∧ w'.device.mem = w.device.mem ∧
    w'.device.executed = w.device.executed := by
  unfold Wire.deviceSend at h
  split at h
  · cases h
  next b rest hout =>
    obtain rfl := Option.some.inj h
    simp [Wire.inbound, hout]

theorem Serves.deviceSend (h : Serves m₀ requests w) (hstep : w.deviceSend = some w') :
    Serves m₀ requests w' := by
  obtain ⟨-, hto, hrecv, hmem, hexec⟩ := deviceSend_eq hstep
  unfold Serves
  rwa [hto, hrecv, hmem, hexec]

theorem Serves.deviceRead (hround : ∀ r ∈ requests, OneRound r) (h : Serves m₀ requests w)
    (hstep : w.deviceRead = some w') : Serves m₀ requests w' ∧
      ((w'.inbound = w.inbound ∧ w'.device.executed = w.device.executed) ∨
        w'.inbound = w.inbound ++ [6#8] ∧ w'.device.executed = w.device.executed + 1) := by
  unfold Wire.deviceRead at hstep
  split at hstep
  · cases hstep
  next b rest hto =>
  split at hstep
  next hout =>
    obtain rfl := Option.some.inj hstep
    obtain ⟨finished, pending, rfl, hbytes, hhead, hmem, hexec⟩ := h
    obtain _ | ⟨r, pending⟩ := pending
    · simp [hto] at hbytes
    have hr : OneRound r := hround r (by simp)
    have hlen : w.device.recv.length < r.length := hhead r (by simp)
    -- The request the device is reading begins with what it has read and the next byte.
    obtain ⟨ys, hys⟩ : ∃ ys, r = w.device.recv ++ b :: ys ∧ rest = ys ++ pending.flatten := by
      rw [hto, List.flatten_cons] at hbytes
      obtain ⟨t, ht, hrest⟩ | ⟨t, ht, hrest⟩ := List.append_eq_append_iff.mp hbytes
      · cases t with
        | nil => simp [ht] at hlen
        | cons c t =>
          obtain ⟨rfl, rfl⟩ : b = c ∧ rest = t ++ pending.flatten := by simpa using hrest
          exact ⟨t, ht, rfl⟩
      · rw [ht, List.length_append] at hlen
        omega
    obtain ⟨hsplit, rfl⟩ := hys
    cases ys with
    | nil =>
      obtain ⟨m', hm'⟩ := hr.answers w.device.mem
      have hdispatch : dispatch ⟨w.device.recv ++ [b], w.device.mem, []⟩ =
          some ⟨[], m', if acked r then [6#8] else []⟩ := hsplit ▸ hm'
      have hrun : execRequest w.device.mem r = some m' := by simp [execRequest, hm']
      refine ⟨⟨finished ++ [r], pending, by simp, ?_, ?_, ?_, ?_⟩, ?_⟩
      · simp [Device.read, hdispatch]
      · intro q hq
        have hmem : q ∈ pending := List.mem_of_mem_head? hq
        simpa [Device.read, hdispatch] using
          List.length_pos_iff.mpr (hround q (by simp [hmem])).ne_nil
      · simp [Device.read, hdispatch, execRequests_append hmem, execRequests, hrun]
      · by_cases hack : acked r <;> simp [Device.read, hdispatch, hexec, hack]
      · by_cases hack : acked r <;> simp [Device.read, hdispatch, Wire.inbound, hout, hack]
    | cons y ys =>
      have hwait := hr.waits (w.device.recv ++ [b]) (y :: ys) (by simpa using hsplit) (by simp)
        w.device.mem
      refine ⟨⟨finished, r :: pending, rfl, ?_, ?_, ?_, ?_⟩, ?_⟩
      · simp [Device.read, hwait, hsplit]
      · simp [Device.read, hwait, hsplit]
      · simpa [Device.read, hwait] using hmem
      · simpa [Device.read, hwait] using hexec
      · simp [Device.read, hwait, Wire.inbound]
  · cases hstep

theorem Serves.receive (h : Serves m₀ requests w) (n : ℕ) : Serves m₀ requests (w.receive n) := h

end Serving

end W2.Link
