import W2.Firmware.Slaves

/-!
# The slaves as a remote memory

For a bus master that asks for one thing at a time, a slave is a memory: reads are answered with the
word that was written last, whatever is written and read in between. The DMI slave serves a read and
a write that are asked for together, and it confirms a write. The I2C slave then serves the read
alone, and it does not answer a write.
-/

namespace W2

open Mips Transition Miniboot

/-- What a master asks for between two polls, at addresses it may use. -/
inductive BusRequest (allowed : Addr → Prop)
  | idle
  | read (a : {a : Addr // allowed a})
  | write (a : {a : Addr // allowed a}) (w : Word)
  | both (a b : {a : Addr // allowed a}) (w : Word)

variable {allowed : Addr → Prop}

def Slave.readBit : Slave → Word
  | .i2c => 4#32
  | .dmi => 2#32

def Slave.writeBit : Slave → Word
  | .i2c => 8#32
  | .dmi => 4#32

namespace BusRequest

def status (slave : Slave) : BusRequest allowed → Word
  | idle => 0#32
  | read _ => slave.readBit
  | write _ _ => slave.writeBit
  | both _ _ _ => slave.readBit ||| slave.writeBit

def addresses : BusRequest allowed → List {a : Addr // allowed a}
  | idle => []
  | read a => [a]
  | write a _ => [a]
  | both a b _ => [a, b]

def data : BusRequest allowed → List Word
  | write _ w => [w]
  | both _ _ w => [w]
  | _ => []

def store (slave : Slave) (m : Mem) : BusRequest allowed → Mem
  | write a w => m.writeWord a w
  | both _ b w =>
    match slave with
    | .i2c => m
    | .dmi => m.writeWord b w
  | _ => m

def answer (slave : Slave) (m : Mem) : BusRequest allowed → List Word
  | idle => []
  | read a => [m.readWord a]
  | write _ _ =>
    match slave with
    | .i2c => []
    | .dmi => [0xa5#32]
  | both a _ _ =>
    match slave with
    | .i2c => [m.readWord a]
    | .dmi => [m.readWord a, 0xa5#32]

end BusRequest

def remember (slave : Slave) (m : Mem) : List (BusRequest allowed) → Mem × List Word
  | [] => (m, [])
  | r :: rs =>
    ((remember slave (r.store slave m) rs).1,
      r.answer slave m ++ (remember slave (r.store slave m) rs).2)

/-- A master with the requests it is still to make, and what its registers hold for the present
one. -/
structure Mailbox (allowed : Addr → Prop) where
  requests : List (BusRequest allowed)
  addresses : List {a : Addr // allowed a}
  data : List Word
  replies : List Word

/-- A load of the status register takes the next request up. -/
def mailbox (slave : Slave) (allowed : Addr → Prop) : Bus (Mailbox allowed) where
  load e a :=
    if a = slave.statusReg then
      match e.requests with
      | [] => some (0#32, e)
      | r :: rs => some (r.status slave, ⟨rs, r.addresses, r.data, e.replies⟩)
    else if a = slave.addressReg then
      match e.addresses with
      | [] => none
      | b :: bs => some (b, { e with addresses := bs })
    else if a = slave.dataReg then
      match e.data with
      | [] => none
      | w :: ws => some (w, { e with data := ws })
    else none
  store e a w := some (if a = slave.dataReg then { e with replies := e.replies ++ [w] } else e)

theorem mailbox_requests (slave : Slave) {e e' : Mailbox allowed} {w : Word}
    (h : (mailbox slave allowed).load e slave.addressReg = some (w, e')) : allowed w := by
  have hne : slave.addressReg ≠ slave.statusReg := by cases slave <;> decide
  simp only [mailbox, hne, if_false, if_true] at h
  split at h
  next => cases h
  next b bs haddress =>
    cases h
    exact b.2

def Slave.poll : Slave → Service
  | .i2c => i2cPoll
  | .dmi => dmiPoll

section Remote

variable {P : Platform Uart} {sp : Addr} {slave : Slave}

structure Served (slave : Slave) (m : Mem) (r : BusRequest allowed) (e : Mailbox allowed)
    (o : Outcome (Mailbox allowed)) : Prop where
  served : o.served = true
  mem : o.mem = r.store slave m
  requests : o.dev.requests = e.requests.tail
  replies : o.dev.replies = e.replies ++ r.answer slave m

variable (allowed) in
theorem facing_mailbox (hregs : ∀ a ∈ slave.registers, P.device a = true) :
    (∀ (m : Mem) (r : BusRequest allowed) rs as ds out,
      (P.facing (mailbox slave allowed)).loadWord m ⟨r :: rs, as, ds, out⟩ slave.statusReg =
        some (r.status slave, ⟨rs, r.addresses, r.data, out⟩)) ∧
    (∀ (m : Mem) (rs : List (BusRequest allowed)) b bs ds out,
      (P.facing (mailbox slave allowed)).loadWord m ⟨rs, b :: bs, ds, out⟩ slave.addressReg =
        some (b.1, ⟨rs, bs, ds, out⟩)) ∧
    (∀ (m : Mem) (rs : List (BusRequest allowed)) as w ws out,
      (P.facing (mailbox slave allowed)).loadWord m ⟨rs, as, w :: ws, out⟩ slave.dataReg =
        some (w, ⟨rs, as, ws, out⟩)) ∧
    ∀ (m : Mem) (e : Mailbox allowed) (w : Word),
      (P.facing (mailbox slave allowed)).storeWord m e slave.dataReg w =
        some (m, { e with replies := e.replies ++ [w] }) := by
  have hdevice : (P.facing (mailbox slave allowed)).device slave.statusReg = true ∧
      (P.facing (mailbox slave allowed)).device slave.addressReg = true ∧
      (P.facing (mailbox slave allowed)).device slave.dataReg = true := by
    cases slave <;> exact ⟨hregs _ (by decide), hregs _ (by decide), hregs _ (by decide)⟩
  refine ⟨?_, ?_, ?_, ?_⟩ <;> intros
  · exact (if_pos hdevice.1).trans (by cases slave <;> rfl)
  · exact (if_pos hdevice.2.1).trans (by cases slave <;> rfl)
  · exact (if_pos hdevice.2.2).trans (by cases slave <;> rfl)
  · exact (if_pos hdevice.2.2).trans (by cases slave <;> rfl)

variable (hallowed : ∀ a, allowed a → P.Plain a)
include hallowed

theorem facing_load (bus : Bus (Mailbox allowed)) (a : {a : Addr // allowed a}) (m : Mem)
    (e : Mailbox allowed) : (P.facing bus).loadWord m e a = some (m.readWord a, e) := by
  obtain ⟨hram, -⟩ := hallowed a a.2
  have hword : (P.facing bus).readWord m a = some (m.readWord a) := hram.readWord m
  have hdev : (P.facing bus).device a = false := hram.1.1
  simp [Platform.loadWord, hdev, hword]

theorem facing_store (bus : Bus (Mailbox allowed)) (a : {a : Addr // allowed a}) (m : Mem)
    (e : Mailbox allowed) (w : Word) :
    (P.facing bus).storeWord m e a w = some (m.writeWord a w, e) := by
  have hplain : (P.facing bus).Plain a := hallowed a a.2
  have hdev : (P.facing bus).device a = false := hplain.1.1.1
  simp [Platform.storeWord, hdev, hplain]

theorem dmi_serves (hregs : ∀ a ∈ Slave.dmi.registers, P.device a = true) (m : Mem)
    (r : BusRequest allowed) (rs : List (BusRequest allowed)) (as : List {a : Addr // allowed a})
    (ds out : List Word) :
    Served .dmi m r ⟨r :: rs, as, ds, out⟩
      (dmiPoll.run (P.facing (mailbox .dmi allowed)) m ⟨r :: rs, as, ds, out⟩) := by
  have hload := facing_load hallowed (mailbox .dmi allowed)
  have hstore := facing_store hallowed (mailbox .dmi allowed)
  obtain ⟨hstatus, haddress, hdata, hreply⟩ := facing_mailbox allowed hregs
  simp only [Slave.statusReg, Slave.addressReg, Slave.dataReg] at hstatus haddress hdata hreply
  cases r <;> constructor <;>
    simp [dmiPoll, dmiRest, dmiWrite, Service.run, Outcome.after, hstatus, haddress, hdata, hreply,
      hload, hstore, BusRequest.status, BusRequest.addresses, BusRequest.data, BusRequest.store,
      BusRequest.answer, Slave.readBit, Slave.writeBit]

theorem i2c_serves (hregs : ∀ a ∈ Slave.i2c.registers, P.device a = true) (m : Mem)
    (r : BusRequest allowed) (rs : List (BusRequest allowed)) (as : List {a : Addr // allowed a})
    (ds out : List Word) :
    Served .i2c m r ⟨r :: rs, as, ds, out⟩
      (i2cPoll.run (P.facing (mailbox .i2c allowed)) m ⟨r :: rs, as, ds, out⟩) := by
  have hload := facing_load hallowed (mailbox .i2c allowed)
  have hstore := facing_store hallowed (mailbox .i2c allowed)
  obtain ⟨hstatus, haddress, hdata, hreply⟩ := facing_mailbox allowed hregs
  simp only [Slave.statusReg, Slave.addressReg, Slave.dataReg] at hstatus haddress hdata hreply
  cases r <;> constructor <;>
    simp [i2cPoll, i2cRead, i2cWrite, Service.run, Outcome.after, hstatus, haddress, hdata, hreply,
      hload, hstore, BusRequest.status, BusRequest.addresses, BusRequest.data, BusRequest.store,
      BusRequest.answer, Slave.readBit, Slave.writeBit]

theorem poll_serves (hregs : ∀ a ∈ slave.registers, P.device a = true) (m : Mem)
    (r : BusRequest allowed) (rs : List (BusRequest allowed)) (as : List {a : Addr // allowed a})
    (ds out : List Word) :
    Served slave m r ⟨r :: rs, as, ds, out⟩
      (slave.poll.run (P.facing (mailbox slave allowed)) m ⟨r :: rs, as, ds, out⟩) := by
  cases slave with
  | i2c => exact i2c_serves hallowed hregs m r rs as ds out
  | dmi => exact dmi_serves hallowed hregs m r rs as ds out

theorem polls_serve (hregs : ∀ a ∈ slave.registers, P.device a = true) (m : Mem)
    (rs : List (BusRequest allowed)) (as : List {a : Addr // allowed a}) (ds out : List Word)
    {n : ℕ} {o : Outcome (Mailbox allowed)} (hn : rs.length = n)
    (ho : (slave.poll.times n).run (P.facing (mailbox slave allowed)) m ⟨rs, as, ds, out⟩ = o) :
    o.served = true ∧ o.mem = (remember slave m rs).1 ∧ o.dev.requests = [] ∧
      o.dev.replies = out ++ (remember slave m rs).2 := by
  subst hn ho
  induction rs generalizing m as ds out with
  | nil => exact ⟨rfl, rfl, rfl, by simp [remember, Service.times, Service.run]⟩
  | cons r rs ih =>
    obtain ⟨hfirst, hstore, hrequests, hreplies⟩ := poll_serves hallowed hregs m r rs as ds out
    obtain ⟨hserved, hmem, hdev⟩ := Service.run_andThen (q := slave.poll.times rs.length) hfirst
    generalize (slave.poll.run (P.facing (mailbox slave allowed)) m ⟨r :: rs, as, ds, out⟩).dev =
      next at hrequests hreplies hserved hmem hdev
    obtain ⟨requests, as', ds', replies⟩ := next
    obtain rfl : requests = rs := hrequests
    obtain rfl : replies = out ++ r.answer slave m := hreplies
    rw [hstore] at hserved hmem hdev
    obtain ⟨hlast, hstored, hnone, hanswered⟩ :=
      ih (r.store slave m) as' ds' (out ++ r.answer slave m)
    refine ⟨hserved.trans hlast, hmem.trans hstored, ?_, ?_⟩
    · rw [List.length_cons, Service.times, hdev, hnone]
    · rw [List.length_cons, Service.times, hdev, hanswered, remember, List.append_assoc]

omit hallowed in
theorem setup_serves (hregs : ∀ a ∈ Slave.i2c.registers, P.device a = true) (m : Mem)
    (e : Mailbox allowed) {o : Outcome (Mailbox allowed)}
    (ho : i2cSetup.run (P.facing (mailbox .i2c allowed)) m e = o) :
    o.served = true ∧ o.mem = m ∧ o.dev = e := by
  have hstore (a : Addr) (ha : a ∈ Slave.i2c.registers) (hne : a ≠ 0x1f800d22#32) (w : Word) :
      (P.facing (mailbox .i2c allowed)).storeWord m e a w = some (m, e) := by
    have hkept : (mailbox .i2c allowed).store e a w = some e := congrArg some (if_neg hne)
    exact (if_pos (hregs a ha)).trans (congrArg (Option.map fun e => (m, e)) hkept)
  subst ho
  simp [i2cSetup, Service.run, Outcome.after, hstore 0x1f800d23#32 (by decide) (by decide),
    hstore 0x1f800d24#32 (by decide) (by decide), hstore 0x1f800d25#32 (by decide) (by decide),
    hstore 0x1f800d27#32 (by decide) (by decide)]

theorem requests_serve (hregs : ∀ a ∈ slave.registers, P.device a = true) (m : Mem)
    (rs : List (BusRequest allowed)) {o : Outcome (Mailbox allowed)}
    (ho : (slave.serve rs.length).run (P.facing (mailbox slave allowed)) m ⟨rs, [], [], []⟩ = o) :
    o.served = true ∧ o.mem = (remember slave m rs).1 ∧ o.dev.requests = [] ∧
      o.dev.replies = (remember slave m rs).2 := by
  cases slave with
  | dmi => simpa using polls_serve hallowed hregs m rs [] [] [] rfl ho
  | i2c =>
    obtain ⟨hserved, hmem, hdev⟩ := setup_serves hregs m ⟨rs, [], [], []⟩ rfl
    obtain ⟨hserved', hmem', hdev'⟩ := Service.run_andThen (q := i2cPoll.times rs.length) hserved
    rw [hmem, hdev] at hserved' hmem' hdev'
    obtain ⟨hlast, hstored, hnone, hanswered⟩ := polls_serve hallowed hregs m rs [] [] [] rfl rfl
    subst ho
    exact ⟨hserved'.trans hlast, hmem'.trans hstored, (congrArg _ hdev').trans hnone,
      (congrArg _ hdev').trans hanswered⟩

/-- Whatever a master asks for, one request after the other, the slave answers as a memory does and
leaves that memory, apart from its own stack and the hex buffer. -/
theorem slave_remembers (V : Serving P (mailbox slave allowed) sp slave)
    (requests : List (BusRequest allowed)) (regs : Regs) (mem : Mem) (u : Uart)
    (hsp : regs.get .sp = sp) :
    ∃ t, Steps (step (P.beside consoleReg (mailbox slave allowed)))
        (slave.start regs mem u ⟨requests, [], [], []⟩) t ∧
      t.pc = slave.head ∧ t.dev.2.requests = [] ∧
      t.dev.2.replies = (remember slave mem requests).2 ∧
      ∀ a, ¬ Scratch sp 112 a → t.mem a = (remember slave mem requests).1 a := by
  obtain ⟨hserved, hmem, hnone, hanswered⟩ :=
    requests_serve hallowed V.registers mem requests rfl
  obtain ⟨t, hlogs, hagree, hlast⟩ :=
    (slave_start V regs mem u ⟨requests, [], [], []⟩ hsp requests.length).run (Agree.refl _ mem)
  rw [if_pos hserved] at hlast
  rw [hmem] at hagree
  exact ⟨_, hlogs.steps, hlast, hnone, hanswered, hagree⟩

end Remote

section Bench

def Remote (P : Platform Uart) (sp a : Addr) : Prop :=
  P.Plain a ∧ Clear P consoleReg (Scratch sp 112) a

theorem remote_serving (slave : Slave) :
    Serving slaveBench (mailbox slave (Remote slaveBench 0x01000f00#32)) 0x01000f00#32 slave :=
  { slaveBench_serving slave with
    requests := fun _ _ _ h => (mailbox_requests slave h).2 }

theorem remote_word {a : Addr} (haligned : a.toNat % 4 = 0) (h : a.toNat + 4 ≤ 0x01000000) :
    Remote slaveBench 0x01000f00#32 a := by
  obtain ⟨hram, hwrite⟩ := slaveBench_low a (by omega)
  exact ⟨⟨⟨hram, haligned⟩, hwrite⟩, slaveBench_clear h⟩

def remoteRequests : List (BusRequest (Remote slaveBench 0x01000f00#32)) :=
  have hword := remote_word (a := 0x100#32) (by decide) (by decide)
  [.write ⟨0x100#32, hword⟩ 5#32, .idle, .read ⟨0x100#32, hword⟩,
    .both ⟨0x100#32, hword⟩ ⟨0x100#32, hword⟩ 7#32, .read ⟨0x100#32, hword⟩]

def Remembered (slave : Slave) : Prop :=
  ∃ t, Steps (step (slaveBench.beside consoleReg (mailbox slave _)))
      (slave.start (slaveRegs 0#32) (fun _ => 0#8) ⟨[], 0, []⟩ ⟨remoteRequests, [], [], []⟩) t ∧
    t.pc = slave.head ∧ t.dev.2.requests = [] ∧
    t.dev.2.replies = (remember slave (fun _ => 0#8) remoteRequests).2 ∧
    ∀ a, ¬ Scratch 0x01000f00#32 112 a →
      t.mem a = (remember slave (fun _ => 0#8) remoteRequests).1 a

theorem slave_remembers_both : Remembered .dmi ∧ Remembered .i2c :=
  ⟨slave_remembers (fun _ h => h.1) (remote_serving .dmi) remoteRequests (slaveRegs 0#32)
      (fun _ => 0#8) ⟨[], 0, []⟩ rfl,
    slave_remembers (fun _ h => h.1) (remote_serving .i2c) remoteRequests (slaveRegs 0#32)
      (fun _ => 0#8) ⟨[], 0, []⟩ rfl⟩

example : (remember .dmi (fun _ => 0#8) remoteRequests).2 = [0xa5#32, 5#32, 5#32, 0xa5#32, 7#32] ∧
    (remember .i2c (fun _ => 0#8) remoteRequests).2 = [5#32, 5#32, 5#32] := by decide

end Bench

end W2
