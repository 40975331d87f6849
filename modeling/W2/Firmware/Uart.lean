import W2.Mips.Breakpoint
import W2.Firmware.Image

/-!
# The serial port and its two routines

The UART is what the firmware polls: bytes still to arrive, each after a number of polls that
fail, and a transmitter that stays busy for some polls after every byte. `Wired` collects what
the routines rely on; the timing in both directions and the undefined bits of the status
registers are arbitrary. The routines occur in both images, `Serial` says where; `putchar`
and `getchar` terminate for every finite timing. `Board` is a platform with the older image.
-/

namespace W2

open Mips Transition Miniboot

structure Uart where
  rx : List (ℕ × Byte)
  busy : ℕ
  tx : List Byte

def Uart.input (u : Uart) : List Byte := u.rx.map Prod.snd

def Uart.poll (u : Uart) : Uart :=
  match u.rx with
  | (n + 1, b) :: rest => { u with rx := (n, b) :: rest }
  | _ => u

@[simp] theorem Uart.poll_tx (u : Uart) : u.poll.tx = u.tx := by
  unfold Uart.poll
  split <;> rfl

def Uart.ready (u : Uart) : Bool :=
  match u.rx with
  | (0, _) :: _ => true
  | _ => false

def Uart.sent (u : Uart) (n : ℕ) (bs : List Byte) : Uart :=
  { u with busy := n, tx := u.tx ++ bs }

@[simp] theorem Uart.sent_sent (u : Uart) (n k : ℕ) (bs cs : List Byte) :
    (u.sent n bs).sent k cs = u.sent k (bs ++ cs) := by
  simp [Uart.sent]

@[simp] theorem Uart.sent_nil (u : Uart) : u.sent u.busy [] = u := by simp [Uart.sent]

@[simp] theorem Uart.sent_input (u : Uart) (n : ℕ) (bs : List Byte) :
    (u.sent n bs).input = u.input := rfl

@[simp] theorem Uart.sent_tx (u : Uart) (n : ℕ) (bs : List Byte) :
    (u.sent n bs).tx = u.tx ++ bs := rfl

structure Wired (P : Platform Uart) : Prop where
  dataReg : P.device 0x1f800000#32 = true
  busyReg : P.device 0x1f800001#32 = true
  sendReg : P.device 0x1f800002#32 = true
  readyReg : P.device 0x1f800005#32 = true
  loadReady : ∀ u, ∃ w, P.load u 0x1f800005#32 = some (w, u.poll) ∧
    w &&& 1#32 = if u.ready then 1#32 else 0#32
  loadData : ∀ u b rest, u.rx = (0, b) :: rest →
    ∃ w, P.load u 0x1f800000#32 = some (w, { u with rx := rest }) ∧
      w &&& 0xff#32 = b.setWidth 32
  loadBusy : ∀ u, ∃ w, P.load u 0x1f800001#32 = some (w, { u with busy := u.busy - 1 }) ∧
    w &&& 1#32 = if u.busy = 0 then 0#32 else 1#32
  storeSend : ∀ u (b : Byte), u.busy = 0 → ∃ n, P.store u 0x1f800002#32 (b.setWidth 32) =
    some { u with busy := n, tx := u.tx ++ [b] }

/-- The serial routines: `putchar` at `base`, and `readData`, `rxReady`, `getchar` and `getword` at
their distances from it. -/
structure Serial (P : Platform Uart) (base : Addr) : Prop extends Wired P where
  putchar :
    P.fetch base = some (.andi .a0 .a0 0xff) ∧
    P.fetch (base + 0x4#32) = some (.lui .v0 0x1f80) ∧
    P.fetch (base + 0x8#32) = some (.ori .v1 .v0 0x1) ∧
    P.fetch (base + 0xc#32) = some (.lw .v0 0 .v1) ∧
    P.fetch (base + 0x10#32) = some .nop ∧
    P.fetch (base + 0x14#32) = some (.andi .v0 .v0 0x1) ∧
    P.fetch (base + 0x18#32) = some (.bne .v0 .zero (-4)) ∧
    P.fetch (base + 0x1c#32) = some (.lui .v0 0x1f80) ∧
    P.fetch (base + 0x20#32) = some (.ori .v0 .v0 0x2) ∧
    P.fetch (base + 0x24#32) = some (.sb .a0 0 .v0) ∧
    P.fetch (base + 0x28#32) = some (.jr .ra) ∧
    P.fetch (base + 0x2c#32) = some .nop
  readData :
    P.fetch (base + 0x30#32) = some (.lui .v0 0x1f80) ∧
    P.fetch (base + 0x34#32) = some (.lw .v0 0 .v0) ∧
    P.fetch (base + 0x38#32) = some (.jr .ra) ∧
    P.fetch (base + 0x3c#32) = some (.andi .v0 .v0 0xff)
  rxReady :
    P.fetch (base + 0x118#32) = some (.lui .v0 0x1f80) ∧
    P.fetch (base + 0x11c#32) = some (.ori .v0 .v0 0x5) ∧
    P.fetch (base + 0x120#32) = some (.lw .v0 0 .v0) ∧
    P.fetch (base + 0x124#32) = some (.jr .ra) ∧
    P.fetch (base + 0x128#32) = some (.andi .v0 .v0 0x1)
  getchar :
    P.fetch (base + 0x12c#32) = some (.addiu .sp .sp (-24)) ∧
    P.fetch (base + 0x130#32) = some (.sw .ra 16 .sp) ∧
    P.fetch (base + 0x138#32) = some .nop ∧
    P.fetch (base + 0x13c#32) = some (.beq .v0 .zero (-3)) ∧
    P.fetch (base + 0x140#32) = some .nop ∧
    P.fetch (base + 0x148#32) = some .nop ∧
    P.fetch (base + 0x14c#32) = some (.lw .ra 16 .sp) ∧
    P.fetch (base + 0x150#32) = some .nop ∧
    P.fetch (base + 0x154#32) = some (.jr .ra) ∧
    P.fetch (base + 0x158#32) = some (.addiu .sp .sp 24)
  getword :
    P.fetch (base + 0x15c#32) = some (.addiu .sp .sp (-48)) ∧
    P.fetch (base + 0x160#32) = some (.sw .ra 40 .sp) ∧
    P.fetch (base + 0x164#32) = some (.sw .s5 36 .sp) ∧
    P.fetch (base + 0x168#32) = some (.sw .s4 32 .sp) ∧
    P.fetch (base + 0x16c#32) = some (.sw .s3 28 .sp) ∧
    P.fetch (base + 0x170#32) = some (.sw .s2 24 .sp) ∧
    P.fetch (base + 0x174#32) = some (.sw .s1 20 .sp) ∧
    P.fetch (base + 0x178#32) = some (.sw .s0 16 .sp) ∧
    P.fetch (base + 0x17c#32) = some (.addu .s0 .zero .zero) ∧
    P.fetch (base + 0x180#32) = some (.addu .s1 .zero .zero) ∧
    P.fetch (base + 0x184#32) = some (.addiu .s4 .zero 13) ∧
    P.fetch (base + 0x188#32) = some (.addiu .s3 .zero 10) ∧
    P.fetch (base + 0x18c#32) = some (.addiu .s2 .zero 32) ∧
    P.fetch (base + 0x190#32) = some (.addiu .s5 .zero 8) ∧
    P.fetch (base + 0x198#32) = some .nop ∧
    P.fetch (base + 0x19c#32) = some (.beq .v0 .s4 36) ∧
    P.fetch (base + 0x1a0#32) = some (.addu .v1 .v0 .zero) ∧
    P.fetch (base + 0x1a4#32) = some (.beq .v0 .s3 34) ∧
    P.fetch (base + 0x1a8#32) = some .nop ∧
    P.fetch (base + 0x1ac#32) = some (.beq .v0 .s2 32) ∧
    P.fetch (base + 0x1b0#32) = some (.addiu .v0 .v0 (-48)) ∧
    P.fetch (base + 0x1b4#32) = some (.andi .a0 .v0 0xff) ∧
    P.fetch (base + 0x1b8#32) = some (.sltiu .v0 .a0 10) ∧
    P.fetch (base + 0x1bc#32) = some (.bne .v0 .zero 21) ∧
    P.fetch (base + 0x1c0#32) = some (.addiu .v0 .v1 (-65)) ∧
    P.fetch (base + 0x1c4#32) = some (.andi .v0 .v0 0xff) ∧
    P.fetch (base + 0x1c8#32) = some (.sltiu .v0 .v0 26) ∧
    P.fetch (base + 0x1cc#32) = some (.beq .v0 .zero 4) ∧
    P.fetch (base + 0x1d0#32) = some (.addiu .v0 .v1 (-97)) ∧
    P.fetch (base + 0x1d4#32) = some (.addiu .v0 .v1 (-55)) ∧
    P.fetch (base + 0x1dc#32) = some (.andi .v1 .v0 0xff) ∧
    P.fetch (base + 0x1e0#32) = some (.andi .v0 .v0 0xff) ∧
    P.fetch (base + 0x1e4#32) = some (.sltiu .v0 .v0 26) ∧
    P.fetch (base + 0x1e8#32) = some (.beq .v0 .zero 3) ∧
    P.fetch (base + 0x1ec#32) = some (.addiu .v0 .v1 (-87)) ∧
    P.fetch (base + 0x1f4#32) = some (.andi .v1 .v0 0xff) ∧
    P.fetch (base + 0x1f8#32) = some (.bne .v1 .s5 8) ∧
    P.fetch (base + 0x1fc#32) = some (.sll .v0 .s1 4) ∧
    P.fetch (base + 0x200#32) = some (.blez .s0 2) ∧
    P.fetch (base + 0x204#32) = some .nop ∧
    P.fetch (base + 0x208#32) = some (.addiu .s0 .s0 (-1)) ∧
    P.fetch (base + 0x210#32) = some (.srl .s1 .s1 4) ∧
    P.fetch (base + 0x214#32) = some (.addu .v1 .a0 .zero) ∧
    P.fetch (base + 0x218#32) = some (.sll .v0 .s1 4) ∧
    P.fetch (base + 0x21c#32) = some (.addu .s1 .v0 .v1) ∧
    P.fetch (base + 0x220#32) = some (.addiu .s0 .s0 1) ∧
    P.fetch (base + 0x224#32) = some (.slti .v0 .s0 16) ∧
    P.fetch (base + 0x228#32) = some (.bne .v0 .zero (-38)) ∧
    P.fetch (base + 0x22c#32) = some .nop ∧
    P.fetch (base + 0x230#32) = some (.addu .v0 .s1 .zero) ∧
    P.fetch (base + 0x234#32) = some (.lw .ra 40 .sp) ∧
    P.fetch (base + 0x238#32) = some (.lw .s5 36 .sp) ∧
    P.fetch (base + 0x23c#32) = some (.lw .s4 32 .sp) ∧
    P.fetch (base + 0x240#32) = some (.lw .s3 28 .sp) ∧
    P.fetch (base + 0x244#32) = some (.lw .s2 24 .sp) ∧
    P.fetch (base + 0x248#32) = some (.lw .s1 20 .sp) ∧
    P.fetch (base + 0x24c#32) = some (.lw .s0 16 .sp) ∧
    P.fetch (base + 0x250#32) = some (.jr .ra) ∧
    P.fetch (base + 0x254#32) = some (.addiu .sp .sp 48)
  pollReady : Calls P (base + 0x134#32) (base + 0x118#32)
  takeData : Calls P (base + 0x144#32) (base + 0x30#32)
  nextChar : Calls P (base + 0x194#32) (base + 0x12c#32)
  upperDigit : Jumps P (base + 0x1d8#32) (base + 0x218#32)
  lowerDigit : Jumps P (base + 0x1f0#32) (base + 0x218#32)
  deleted : Jumps P (base + 0x20c#32) (base + 0x224#32)

structure Board (P : Platform Uart) : Prop extends Wired P, toHolds : Holds P

theorem Wired.congr {P P' : Platform Uart} (W : Wired P) (hdevice : P'.device = P.device)
    (hload : P'.load = P.load) (hstore : P'.store = P.store) : Wired P' where
  dataReg := hdevice ▸ W.dataReg
  busyReg := hdevice ▸ W.busyReg
  sendReg := hdevice ▸ W.sendReg
  readyReg := hdevice ▸ W.readyReg
  loadReady := hload ▸ W.loadReady
  loadData := hload ▸ W.loadData
  loadBusy := hload ▸ W.loadBusy
  storeSend := hstore ▸ W.storeSend

theorem Board.protect {P : Platform Uart} (B : Board P) : Board P.protect :=
  ⟨B.toWired.congr rfl rfl rfl, B.toHolds.congr rfl rfl⟩

theorem Board.confine {P : Platform Uart} (B : Board P) (area : Addr → Prop)
    [DecidablePred area] : Board (P.confine area) :=
  ⟨B.toWired.congr rfl rfl rfl, B.toHolds.congr rfl rfl⟩

theorem Miniboot.Rom.breakAt {P : Platform Uart} {image : Addr → Option Word} (h : Rom P image)
    {stops : Addr → Prop} [DecidablePred stops] (hstops : ∀ a, stops a → image a = none) :
    Rom (P.breakAt stops) image where
  code a w hw := by
    have hout : ¬ stops a := fun hin => by simp [hstops a hin] at hw
    simp [Platform.breakAt, hout, h.code a w hw]
  device a w hw := by
    have hout : ¬ stops (alignAddr a) := fun hin => by simp [hstops _ hin] at hw
    simp [Platform.breakAt, Platform.stopped, hout, h.device a w hw]

theorem Wired.breakAt {P : Platform Uart} (W : Wired P) {stops : Addr → Prop}
    [DecidablePred stops] : Wired (P.breakAt stops) where
  dataReg := by simp [Platform.breakAt, W.dataReg]
  busyReg := by simp [Platform.breakAt, W.busyReg]
  sendReg := by simp [Platform.breakAt, W.sendReg]
  readyReg := by simp [Platform.breakAt, W.readyReg]
  loadReady := by simpa [Platform.breakAt, W.readyReg] using W.loadReady
  loadData := by simpa [Platform.breakAt, W.dataReg] using W.loadData
  loadBusy := by simpa [Platform.breakAt, W.busyReg] using W.loadBusy
  storeSend := by simpa [Platform.breakAt, W.sendReg] using W.storeSend

theorem Board.breakAt {P : Platform Uart} (B : Board P) {stops : Addr → Prop}
    [DecidablePred stops] (hstops : ∀ a, stops a → Miniboot.code a = none) :
    Board (P.breakAt stops) :=
  ⟨B.toWired.breakAt, B.toHolds.breakAt hstops⟩

/-- No access to a device takes back what has been sent. -/
structure Cumulative (P : Platform Uart) : Prop where
  load : ∀ u a w u', P.load u a = some (w, u') → u.tx <+: u'.tx
  store : ∀ u a w u', P.store u a w = some u' → u.tx <+: u'.tx

theorem Cumulative.single {P : Platform Uart} (C : Cumulative P) {s t : State Uart}
    (h : step P s = some t) : s.dev.tx <+: t.dev.tx := by
  obtain ⟨i, -, hexec⟩ := Option.bind_eq_some_iff.mp h
  cases i with
  | lb rt offset base | lbu rt offset base =>
    obtain ⟨b, -, rfl⟩ := Option.map_eq_some_iff.mp hexec
    exact List.prefix_rfl
  | lw rt offset base =>
    simp only [exec] at hexec
    split at hexec <;> obtain ⟨r, hr, rfl⟩ := Option.map_eq_some_iff.mp hexec
    · exact C.load _ _ _ _ hr
    · exact List.prefix_rfl
  | sb rt offset base | sw rt offset base =>
    simp only [exec] at hexec
    split at hexec
    next =>
      obtain ⟨d, hd, rfl⟩ := Option.map_eq_some_iff.mp hexec
      exact C.store _ _ _ _ hd
    next =>
      split at hexec
      next => cases hexec; exact List.prefix_rfl
      next => cases hexec
  | _ =>
    obtain rfl := Option.some.inj hexec
    exact List.prefix_rfl

theorem Cumulative.steps {P : Platform Uart} (C : Cumulative P) {s t : State Uart}
    (h : Steps (step P) s t) : s.dev.tx <+: t.dev.tx := by
  induction h with
  | refl => exact List.prefix_rfl
  | tail _ hlast ih => exact ih.trans (C.single hlast)

theorem Cumulative.unsent {P : Platform Uart} (C : Cumulative P) {u v : State Uart}
    {tx sent reply : List Byte} (huv : Steps (step P) u v) (hv : v.dev.tx = tx ++ sent)
    (hlen : sent.length < reply.length) : u.dev.tx ≠ tx ++ reply := by
  intro htx
  have hle := (C.steps huv).length_le
  rw [hv, htx, List.length_append, List.length_append] at hle
  omega

theorem Cumulative.silent {P : Platform Uart} (C : Cumulative P) {s u v : State Uart}
    (hsu : Steps (step P) s u) (huv : Steps (step P) u v) (hv : v.dev.tx = s.dev.tx) :
    u.dev.tx = s.dev.tx := by
  have hlen := (C.steps huv).length_le
  rw [hv] at hlen
  exact ((C.steps hsu).eq_of_length_le hlen).symm

theorem Board.serial {P : Platform Uart} (B : Board P) : Serial P 0x10000330#32 where
  toWired := B.toWired
  putchar := by constructorm* _ ∧ _ <;> exact B.fetch rfl
  readData := by constructorm* _ ∧ _ <;> exact B.fetch rfl
  rxReady := by constructorm* _ ∧ _ <;> exact B.fetch rfl
  getchar := by constructorm* _ ∧ _ <;> exact B.fetch rfl
  getword := by constructorm* _ ∧ _ <;> exact B.fetch rfl
  pollReady := ⟨_, B.fetch rfl, rfl⟩
  takeData := ⟨_, B.fetch rfl, rfl⟩
  nextChar := ⟨_, B.fetch rfl, rfl⟩
  upperDigit := ⟨_, B.fetch rfl, rfl⟩
  lowerDigit := ⟨_, B.fetch rfl, rfl⟩
  deleted := ⟨_, B.fetch rfl, rfl⟩

variable {P : Platform Uart} {base : Addr}

section Putchar

theorem putchar_poll (S : Serial P base) (regs : Regs) (mem : Mem) (u : Uart)
    (hv : regs.get .v1 = 0x1f800001#32) :
    ∃ regs', Steps (step P) ⟨regs, base + 0xc#32, base + 0x10#32, mem, u⟩
        ⟨regs', base + 0x20#32, base + 0x24#32, mem, { u with busy := 0 }⟩ ∧
      regs'.get .v0 = 0x1f800000#32 ∧ regs'.get .a0 = regs.get .a0 ∧ regs.Keeps regs' := by
  obtain ⟨rx, busy, tx⟩ := u
  induction busy generalizing regs with
  | zero =>
    obtain ⟨w, hload, hbit⟩ := S.loadBusy ⟨rx, 0, tx⟩
    refine ⟨?regs, Steps.of_run (n := 5) ?run, ?post⟩
    case run =>
      simp [S.putchar, BitVec.add_assoc, hv, hload, hbit, S.busyReg]
      rfl
    case post =>
      simp [Regs.keeps_iff]
  | succ n ih =>
    obtain ⟨w, hload, hbit⟩ := S.loadBusy ⟨rx, n + 1, tx⟩
    have hround : Steps (step P) ⟨regs, base + 0xc#32, base + 0x10#32, mem, ⟨rx, n + 1, tx⟩⟩
        ⟨regs.set .v0 0x1f800000#32, base + 0xc#32, base + 0x10#32, mem, ⟨rx, n, tx⟩⟩ := by
      apply Steps.of_run (n := 5)
      simp [S.putchar, BitVec.add_assoc, hv, hload, hbit, S.busyReg]
    obtain ⟨regs', hsteps, hv0, ha0, hkeeps⟩ := ih (regs.set .v0 0x1f800000#32) (by simp [hv])
    refine ⟨regs', hround.trans hsteps, hv0, by simpa using ha0, ?_⟩
    simp [Regs.keeps_iff, hkeeps.get]

theorem Serial.putchar_wait (S : Serial P base) (regs : Regs) (mem : Mem) (u : Uart) :
    ∃ regs', Steps (step P) ⟨regs, base, base + 4#32, mem, u⟩
        ⟨regs', base + 0x20#32, base + 0x24#32, mem, { u with busy := 0 }⟩ ∧
      regs'.get .v0 = 0x1f800000#32 ∧ (regs'.get .a0).setWidth 8 = (regs.get .a0).setWidth 8 ∧
      regs.Keeps regs' := by
  let entry := ((regs.set .a0 (regs.get .a0 &&& 0xff#32)).set .v0 0x1f800000#32).set .v1
    0x1f800001#32
  have hentry : Steps (step P) ⟨regs, base, base + 4#32, mem, u⟩
      ⟨entry, base + 0xc#32, base + 0x10#32, mem, u⟩ := by
    apply Steps.of_run (n := 3)
    simp [S.putchar, BitVec.add_assoc, entry]
  obtain ⟨regs', hpoll, hv0, ha0, hkeeps⟩ := putchar_poll S entry mem u (by simp [entry])
  refine ⟨regs', hentry.trans hpoll, hv0, ?byte, ?keeps⟩
  case byte =>
    rw [ha0]
    ext i hi
    simp [entry]
    interval_cases i <;> simp
  case keeps => simp [Regs.keeps_iff, entry, hkeeps.get]

theorem Serial.putchar_first (S : Serial P base) (C : Cumulative P) (regs : Regs) (mem : Mem)
    (u : Uart) {s : State Uart} (hs : Steps (step P) s ⟨regs, base, base + 4#32, mem, u⟩)
    (htx : u.tx = s.dev.tx) :
    ∃ regs' n, EndsAt (step P) (fun x => x.dev.tx ≠ s.dev.tx) s
        ⟨regs', base + 0x28#32, base + 0x2c#32, mem, u.sent n [(regs.get .a0).setWidth 8]⟩ ∧
      regs.Keeps regs' := by
  obtain ⟨regs', hwait, hv0, hbyte, hkeeps⟩ := S.putchar_wait regs mem u
  obtain ⟨n, hstore⟩ := S.storeSend { u with busy := 0 } ((regs.get .a0).setWidth 8) rfl
  let ready := regs'.set .v0 0x1f800002#32
  have hready : Steps (step P) ⟨regs', base + 0x20#32, base + 0x24#32, mem, { u with busy := 0 }⟩
      ⟨ready, base + 0x24#32, base + 0x28#32, mem, { u with busy := 0 }⟩ := by
    apply Steps.of_run (n := 1)
    simp [S.putchar, BitVec.add_assoc, hv0, ready]
  have hsend : step P ⟨ready, base + 0x24#32, base + 0x28#32, mem, { u with busy := 0 }⟩ =
      some ⟨ready, base + 0x28#32, base + 0x2c#32, mem,
        u.sent n [(regs.get .a0).setWidth 8]⟩ := by
    simp [S.putchar, BitVec.add_assoc, hbyte, hstore, S.sendReg, ready, Uart.sent]
  refine ⟨ready, n, .of_steps (hs.trans (hwait.trans hready)) ?_ (.head ?_ hsend (.here ?_)), ?_⟩
  · intro x hsx hxv hne
    exact hne (C.silent hsx hxv htx)
  · simpa using htx
  · left
    simp [htx]
  · simp [Regs.keeps_iff, hkeeps.get, ready]

theorem Serial.putchar_spec (S : Serial P base) (regs : Regs) (mem : Mem) (u : Uart) :
    ∃ regs' n, Steps (step P) ⟨regs, base, base + 4#32, mem, u⟩
        ⟨regs', regs.get .ra, regs.get .ra + 4#32, mem, u.sent n [(regs.get .a0).setWidth 8]⟩ ∧
      regs.Keeps regs' := by
  obtain ⟨regs', hwait, hv0, hbyte, hkeeps⟩ := S.putchar_wait regs mem u
  have hra : regs'.get .ra = regs.get .ra := hkeeps.get (by simp)
  obtain ⟨n, hstore⟩ := S.storeSend { u with busy := 0 } ((regs.get .a0).setWidth 8) rfl
  refine ⟨regs'.set .v0 0x1f800002#32, n, hwait.trans ?send, ?keeps⟩
  case send =>
    apply Steps.of_run (n := 4)
    simp [S.putchar, BitVec.add_assoc, hv0, hra, hbyte, hstore, S.sendReg, Uart.sent]
  case keeps => simp [Regs.keeps_iff, hkeeps.get]

theorem putchar_spec (B : Board P) (regs : Regs) (mem : Mem) (u : Uart) :
    ∃ regs' n, Steps (step P) ⟨regs, 0x10000330#32, 0x10000334#32, mem, u⟩
        ⟨regs', regs.get .ra, regs.get .ra + 4#32, mem, u.sent n [(regs.get .a0).setWidth 8]⟩ ∧
      regs.Keeps regs' :=
  B.serial.putchar_spec regs mem u

end Putchar

section Getchar

theorem Serial.rxReady_spec (S : Serial P base) (regs : Regs) (mem : Mem) (u : Uart) :
    ∃ regs', Steps (step P) ⟨regs, base + 0x118#32, base + 0x11c#32, mem, u⟩
        ⟨regs', regs.get .ra, regs.get .ra + 4#32, mem, u.poll⟩ ∧
      regs'.get .v0 = (if u.ready then 1#32 else 0#32) ∧ regs.Keeps regs' := by
  obtain ⟨w, hload, hbit⟩ := S.loadReady u
  refine ⟨?regs, Steps.of_run (n := 5) ?run, ?post⟩
  case run =>
    simp [S.rxReady, BitVec.add_assoc, S.readyReg, hload]
    rfl
  case post => simp [Regs.keeps_iff, hbit]

theorem getchar_poll (S : Serial P base) (regs : Regs) (mem : Mem) (d : ℕ) (b : Byte)
    (rest : List (ℕ × Byte)) (busy : ℕ) (tx : List Byte) :
    ∃ regs', Steps (step P)
        ⟨regs, base + 0x134#32, base + 0x138#32, mem, ⟨(d, b) :: rest, busy, tx⟩⟩
        ⟨regs', base + 0x144#32, base + 0x148#32, mem, ⟨(0, b) :: rest, busy, tx⟩⟩ ∧
      (regs.set .ra (base + 0x13c#32)).Keeps regs' := by
  induction d generalizing regs with
  | zero =>
    obtain ⟨w, hload, hbit⟩ := S.loadReady ⟨(0, b) :: rest, busy, tx⟩
    refine ⟨(regs.set .ra (base + 0x13c#32)).set .v0 1#32, Steps.of_run (n := 9) ?run, ?keeps⟩
    case run =>
      simp [S.getchar, S.pollReady.run, S.rxReady, BitVec.add_assoc, S.readyReg, hload, hbit,
        Uart.ready, Uart.poll]
    case keeps => simp [Regs.keeps_iff]
  | succ n ih =>
    obtain ⟨w, hload, hbit⟩ := S.loadReady ⟨(n + 1, b) :: rest, busy, tx⟩
    have hround : Steps (step P)
        ⟨regs, base + 0x134#32, base + 0x138#32, mem, ⟨(n + 1, b) :: rest, busy, tx⟩⟩
        ⟨(regs.set .ra (base + 0x13c#32)).set .v0 0#32, base + 0x134#32, base + 0x138#32, mem,
          ⟨(n, b) :: rest, busy, tx⟩⟩ := by
      apply Steps.of_run (n := 9)
      simp [S.getchar, S.pollReady.run, S.rxReady, BitVec.add_assoc, S.readyReg, hload, hbit,
        Uart.ready, Uart.poll]
    obtain ⟨regs', hsteps, hkeeps⟩ := ih ((regs.set .ra (base + 0x13c#32)).set .v0 0#32)
    refine ⟨regs', hround.trans hsteps, ?_⟩
    simp [Regs.keeps_iff, hkeeps.get]

theorem Serial.getchar_spec (S : Serial P base) (regs : Regs) (mem : Mem) (d : ℕ) (b : Byte)
    (rest : List (ℕ × Byte)) (busy : ℕ) (tx : List Byte) (hsp : Stack P (regs.get .sp) 24) :
    ∃ regs' mem', Steps (step P)
        ⟨regs, base + 0x12c#32, base + 0x130#32, mem, ⟨(d, b) :: rest, busy, tx⟩⟩
        ⟨regs', regs.get .ra, regs.get .ra + 4#32, mem', ⟨rest, busy, tx⟩⟩ ∧
      regs'.get .v0 = b.setWidth 32 ∧ regs.Keeps regs' ∧ Frame (regs.get .sp) 24 mem mem' := by
  let entry := regs.set .sp (regs.get .sp + 0xffffffe8#32)
  let mem' := mem.writeWord (regs.get .sp + 0xfffffff8#32) (regs.get .ra)
  have hentry : Steps (step P)
      ⟨regs, base + 0x12c#32, base + 0x130#32, mem, ⟨(d, b) :: rest, busy, tx⟩⟩
      ⟨entry, base + 0x134#32, base + 0x138#32, mem', ⟨(d, b) :: rest, busy, tx⟩⟩ := by
    apply Steps.of_run (n := 2)
    simp [S.getchar, BitVec.add_assoc, hsp.plain, entry, mem']
  obtain ⟨regs₁, hpoll, hkeeps⟩ := getchar_poll S entry mem' d b rest busy tx
  obtain ⟨w, hload, hbyte⟩ := S.loadData ⟨(0, b) :: rest, busy, tx⟩ b rest rfl
  have hsp₁ : regs₁.get .sp = regs.get .sp + 0xffffffe8#32 := by simp [hkeeps.get, entry]
  refine ⟨?regs, mem', (hentry.trans hpoll).trans (Steps.of_run (n := 10) ?run), ?post⟩
  case run =>
    simp [S.getchar, S.takeData.run, S.readData, S.dataReg, hload, hbyte, BitVec.add_assoc,
      hsp.ramWord, hsp₁, mem']
    rfl
  case post =>
    refine ⟨by simp, ?_, Frame.write (Agree.refl _ mem) _ (by decide) (by decide)⟩
    simp [Regs.keeps_iff, hkeeps.get, entry]

theorem getchar_spec (B : Board P) (regs : Regs) (mem : Mem) (d : ℕ) (b : Byte)
    (rest : List (ℕ × Byte)) (busy : ℕ) (tx : List Byte) (hsp : Stack P (regs.get .sp) 24) :
    ∃ regs' mem', Steps (step P)
        ⟨regs, 0x1000045c#32, 0x10000460#32, mem, ⟨(d, b) :: rest, busy, tx⟩⟩
        ⟨regs', regs.get .ra, regs.get .ra + 4#32, mem', ⟨rest, busy, tx⟩⟩ ∧
      regs'.get .v0 = b.setWidth 32 ∧ regs.Keeps regs' ∧ Frame (regs.get .sp) 24 mem mem' :=
  B.serial.getchar_spec regs mem d b rest busy tx hsp

end Getchar

end W2
