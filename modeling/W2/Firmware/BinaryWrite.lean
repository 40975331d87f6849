import W2.Firmware.Bench
import W2.Firmware.Receive

/-!
# Binary writes

The newer image has a console command `b` that takes an address, a size and then that many raw
bytes. It stores them a word at a time. Between two words it waits for the next byte, but not
longer than 10000 polls: a byte that is later ends the command, which answers as if it had received
everything.
-/

namespace W2

open Mips Transition Miniboot Console

/-- `putchar` and, behind it, the read of the data register. -/
def MinibootIns.putchar : List Word :=
  [0x308400ff, 0x3c021f80, 0x34430001, 0x8c620000, 0x00000000, 0x30420001, 0x1440fffc,
   0x3c021f80, 0x34420002, 0xa0440000, 0x03e00008, 0x00000000, 0x3c021f80, 0x8c420000,
   0x03e00008, 0x304200ff]

def MinibootIns.getword : List Word :=
  [0x3c021f80, 0x34420005, 0x8c420000, 0x03e00008, 0x30420001, 0x27bdffe8, 0xafbf0010,
   0x0c000126, 0x00000000, 0x1040fffd, 0x00000000, 0x0c0000ec, 0x00000000, 0x8fbf0010,
   0x00000000, 0x03e00008, 0x27bd0018, 0x27bdffd0, 0xafbf0028, 0xafb50024, 0xafb40020,
   0xafb3001c, 0xafb20018, 0xafb10014, 0xafb00010, 0x00008021, 0x00008821, 0x2414000d,
   0x2413000a, 0x24120020, 0x24150008, 0x0c00012b, 0x00000000, 0x10540024, 0x00401821,
   0x10530022, 0x00000000, 0x10520020, 0x2442ffd0, 0x304400ff, 0x2c82000a, 0x14400015,
   0x2462ffbf, 0x304200ff, 0x2c42001a, 0x10400004, 0x2462ff9f, 0x2462ffc9, 0x08000166,
   0x304300ff, 0x304200ff, 0x2c42001a, 0x10400003, 0x2462ffa9, 0x08000166, 0x304300ff,
   0x14750008, 0x00111100, 0x1a000002, 0x00000000, 0x2610ffff, 0x08000169, 0x00118902,
   0x00801821, 0x00111100, 0x00438821, 0x26100001, 0x2a020010, 0x1440ffda, 0x00000000,
   0x02201021, 0x8fbf0028, 0x8fb50024, 0x8fb40020, 0x8fb3001c, 0x8fb20018, 0x8fb10014,
   0x8fb00010, 0x03e00008, 0x27bd0030]

def MinibootIns.commandB : List Word :=
  [0x27bdffd0, 0xafbf0028, 0xafb50024, 0xafb40020, 0xafb3001c, 0xafb20018, 0xafb10014,
   0x0c000137, 0xafb00010, 0x0c000137, 0x0040a821, 0x14400025, 0x0040a021, 0x080001c5,
   0x00000000, 0x0c00012b, 0x26100001, 0x00021600, 0x00111a02, 0x00438821, 0x24020004,
   0x1602fff9, 0x02551021, 0xac510000, 0x00008021, 0x24112710, 0x0c000126, 0x00000000,
   0x14400005, 0x26100001, 0x1611fffb, 0x00000000, 0x080001c5, 0x00000000, 0x26720004,
   0x0254102b, 0x1440000e, 0x02409821, 0x0c0000e0, 0x24040006, 0x8fbf0028, 0x8fb50024,
   0x8fb40020, 0x8fb3001c, 0x8fb20018, 0x8fb10014, 0x8fb00010, 0x03e00008, 0x27bd0030,
   0x00009821, 0x00009021, 0x00008821, 0x080001ae, 0x00008021]

def MinibootIns.console : List Word :=
  [0x0c00012b, 0x00000000, 0x2442ffae, 0x304300ff, 0x2c620026, 0x1040fffa, 0x00031080,
   0x3c031000, 0x24631a60, 0x00431021, 0x8c420000, 0x00000000, 0x00400008, 0x00000000]

def MinibootIns.callB : List Word :=
  [0x0c00019f, 0x00000000, 0x08000437, 0x00000000]

def MinibootIns.commandTable : List Word :=
  [0x10001134, 0x100010dc, 0x100010dc, 0x100010dc, 0x100010dc, 0x100010dc, 0x100010dc,
   0x100010dc, 0x100010dc, 0x100010dc, 0x100010dc, 0x100010dc, 0x100010dc, 0x100010dc,
   0x100010dc, 0x100010dc, 0x10001164, 0x100010dc, 0x10001194, 0x100010dc, 0x100010dc,
   0x100010dc, 0x100010dc, 0x10001184, 0x10001174, 0x100010dc, 0x10001154, 0x100010dc,
   0x100010dc, 0x100010dc, 0x100010dc, 0x100010dc, 0x10001124, 0x10001144, 0x100010dc,
   0x100010dc, 0x100010dc, 0x10001114]

def insPieces : List (ℕ × List Word) :=
  [(0x10000380, MinibootIns.putchar),
   (0x10000498, MinibootIns.getword),
   (0x1000067c, MinibootIns.commandB),
   (0x100010dc, MinibootIns.console),
   (0x10001164, MinibootIns.callB),
   (0x10001a60, MinibootIns.commandTable)]

structure InsBoard (P : Platform Uart) : Prop extends Wired P where
  image : Pieces P insPieces

variable {P : Platform Uart} {sp a n : Addr}

theorem InsBoard.fetch (N : InsBoard P) {a : Addr} {i : Instr}
    (h : (codeOf insPieces a).bind decode = some i) : P.fetch a = some i :=
  N.image.fetch h

theorem InsBoard.serial (N : InsBoard P) : Serial P 0x10000380#32 where
  toWired := N.toWired
  putchar := by constructorm* _ ∧ _ <;> exact N.fetch rfl
  readData := by constructorm* _ ∧ _ <;> exact N.fetch rfl
  rxReady := by constructorm* _ ∧ _ <;> exact N.fetch rfl
  getchar := by constructorm* _ ∧ _ <;> exact N.fetch rfl
  getword := by constructorm* _ ∧ _ <;> exact N.fetch rfl
  pollReady := ⟨_, N.fetch rfl, rfl⟩
  takeData := ⟨_, N.fetch rfl, rfl⟩
  nextChar := ⟨_, N.fetch rfl, rfl⟩
  upperDigit := ⟨_, N.fetch rfl, rfl⟩
  lowerDigit := ⟨_, N.fetch rfl, rfl⟩
  deleted := ⟨_, N.fetch rfl, rfl⟩

theorem commandB_listing (N : InsBoard P) :
    P.fetch 0x1000067c#32 = some (.addiu .sp .sp (-48)) ∧
    P.fetch 0x10000680#32 = some (.sw .ra 40 .sp) ∧
    P.fetch 0x10000684#32 = some (.sw .s5 36 .sp) ∧
    P.fetch 0x10000688#32 = some (.sw .s4 32 .sp) ∧
    P.fetch 0x1000068c#32 = some (.sw .s3 28 .sp) ∧
    P.fetch 0x10000690#32 = some (.sw .s2 24 .sp) ∧
    P.fetch 0x10000694#32 = some (.sw .s1 20 .sp) ∧
    P.fetch 0x10000698#32 = some (.jal 0x137) ∧
    P.fetch 0x1000069c#32 = some (.sw .s0 16 .sp) ∧
    P.fetch 0x100006a0#32 = some (.jal 0x137) ∧
    P.fetch 0x100006a4#32 = some (.addu .s5 .v0 .zero) ∧
    P.fetch 0x100006a8#32 = some (.bne .v0 .zero 37) ∧
    P.fetch 0x100006ac#32 = some (.addu .s4 .v0 .zero) ∧
    P.fetch 0x100006d8#32 = some (.sw .s1 0 .v0) ∧
    P.fetch 0x100006dc#32 = some (.addu .s0 .zero .zero) ∧
    P.fetch 0x100006e0#32 = some (.addiu .s1 .zero 10000) ∧
    P.fetch 0x100006ec#32 = some (.bne .v0 .zero 5) ∧
    P.fetch 0x100006f0#32 = some (.addiu .s0 .s0 1) ∧
    P.fetch 0x100006f4#32 = some (.bne .s0 .s1 (-5)) ∧
    P.fetch 0x100006f8#32 = some .nop ∧
    P.fetch 0x100006fc#32 = some (.j 0x1c5) ∧
    P.fetch 0x10000700#32 = some .nop ∧
    P.fetch 0x10000704#32 = some (.addiu .s2 .s3 4) ∧
    P.fetch 0x10000708#32 = some (.sltu .v0 .s2 .s4) ∧
    P.fetch 0x1000070c#32 = some (.bne .v0 .zero 14) ∧
    P.fetch 0x10000710#32 = some (.addu .s3 .s2 .zero) ∧
    P.fetch 0x10000714#32 = some (.jal 0xe0) ∧
    P.fetch 0x10000718#32 = some (.addiu .a0 .zero 6) ∧
    P.fetch 0x1000071c#32 = some (.lw .ra 40 .sp) ∧
    P.fetch 0x10000720#32 = some (.lw .s5 36 .sp) ∧
    P.fetch 0x10000724#32 = some (.lw .s4 32 .sp) ∧
    P.fetch 0x10000728#32 = some (.lw .s3 28 .sp) ∧
    P.fetch 0x1000072c#32 = some (.lw .s2 24 .sp) ∧
    P.fetch 0x10000730#32 = some (.lw .s1 20 .sp) ∧
    P.fetch 0x10000734#32 = some (.lw .s0 16 .sp) ∧
    P.fetch 0x10000738#32 = some (.jr .ra) ∧
    P.fetch 0x1000073c#32 = some (.addiu .sp .sp 48) ∧
    P.fetch 0x10000740#32 = some (.addu .s3 .zero .zero) ∧
    P.fetch 0x10000744#32 = some (.addu .s2 .zero .zero) ∧
    P.fetch 0x10000748#32 = some (.addu .s1 .zero .zero) ∧
    P.fetch 0x1000074c#32 = some (.j 0x1ae) ∧
    P.fetch 0x10000750#32 = some (.addu .s0 .zero .zero) := by
  constructorm* _ ∧ _ <;> exact N.fetch rfl

theorem insConsole_listing (N : InsBoard P) :
    P.fetch 0x100010dc#32 = some (.jal 0x12b) ∧
    P.fetch 0x100010e0#32 = some .nop ∧
    P.fetch 0x100010e4#32 = some (.addiu .v0 .v0 (-82)) ∧
    P.fetch 0x100010e8#32 = some (.andi .v1 .v0 0xff) ∧
    P.fetch 0x100010ec#32 = some (.sltiu .v0 .v1 38) ∧
    P.fetch 0x100010f0#32 = some (.beq .v0 .zero (-6)) ∧
    P.fetch 0x100010f4#32 = some (.sll .v0 .v1 2) ∧
    P.fetch 0x100010f8#32 = some (.lui .v1 0x1000) ∧
    P.fetch 0x100010fc#32 = some (.addiu .v1 .v1 6752) ∧
    P.fetch 0x10001100#32 = some (.addu .v0 .v0 .v1) ∧
    P.fetch 0x10001104#32 = some (.lw .v0 0 .v0) ∧
    P.fetch 0x10001108#32 = some .nop ∧
    P.fetch 0x1000110c#32 = some (.jr .v0) ∧
    P.fetch 0x10001110#32 = some .nop ∧
    P.fetch 0x10001164#32 = some (.jal 0x19f) ∧
    P.fetch 0x10001168#32 = some .nop := by
  constructorm* _ ∧ _ <;> exact N.fetch rfl

section Receiving

theorem binary_assembles (N : InsBoard P) : Assembles P 0x10000380#32 0x100006b8#32 where
  get := ⟨_, N.fetch rfl, rfl⟩
  count := N.fetch rfl
  high := N.fetch rfl
  down := N.fetch rfl
  join := N.fetch rfl
  four := N.fetch rfl
  back := N.fetch rfl
  delay := Or.inr (N.fetch rfl)

theorem binary_polls (N : InsBoard P) :
    Polls P 0x100006e4#32 0x10000704#32 0x100006fc#32 (fun regs => regs.get .s1 = 10000#32)
      (fun _ => True) (fun _ => True) := by
  have hcall : Calls P 0x100006e4#32 0x10000498#32 := ⟨_, N.fetch rfl, rfl⟩
  refine .of_answer N.serial hcall (N.fetch rfl) ?limit ?found ?missed
  case limit =>
    intro regs regs' hkeeps hlimit
    rw [hkeeps.get (by simp) (by simp), hlimit]
  case found =>
    intro regs mem u hlimit hv0
    refine ⟨regs.set .s0 (regs.get .s0 + 1#32), Steps.of_run (n := 2) ?_, ?_, trivial⟩
    · simp [commandB_listing N, hv0]
    · simp [Regs.keepsBut_iff]
  case missed =>
    intro regs mem u j hs1 hs0 hj hv0
    obtain ⟨hnext, hlast⟩ := poll_count hj
    refine ⟨regs.set .s0 (BitVec.ofNat 32 (j + 1)), Steps.of_run (n := 4) ?run, by simp,
      by simp [Regs.keepsBut_iff], trivial⟩
    by_cases hend : j + 1 = 10000
    · simp [commandB_listing N, hv0, hs0, hs1, hnext, hend]
    · simp [commandB_listing N, hv0, hs0, hs1, hnext, hlast, hend]

/-- The command's registers and memory after `k` words, in a frame below `sp`. -/
structure Receiving (sp a n : Addr) (saved : Mem) (bytes : List Byte) (k : ℕ) (regs : Regs)
    (mem : Mem) : Prop where
  offset : regs.get .s2 = BitVec.ofNat 32 (4 * k)
  count : regs.get .s3 = BitVec.ofNat 32 (4 * k)
  size : regs.get .s4 = n
  first : regs.get .s5 = a
  stack : regs.get .sp = sp + 0xffffffd0#32
  memory : Frame (sp + 0xffffffd0#32) 72 (saved.writeBytes a (bytes.take (4 * k))) mem

variable {saved : Mem} {queue rx : List (ℕ × Byte)} {k : ℕ}

theorem receive_bytes (N : InsBoard P) (hstack : Stack P sp 120) (regs : Regs) (mem : Mem)
    (busy : ℕ) (tx : List Byte)
    (h : Receiving sp a n saved (queue.map Prod.snd) k regs mem) (hrx : Pending queue (4 * k) rx)
    (hqueue : 4 * (k + 1) ≤ queue.length) :
    ∃ regs' mem' b₀ b₁ b₂ b₃, Steps (step P)
        ⟨regs, 0x10000748#32, 0x1000074c#32, mem, ⟨rx, busy, tx⟩⟩
        ⟨regs', 0x100006d8#32, 0x100006dc#32, mem', ⟨queue.drop (4 * (k + 1)), busy, tx⟩⟩ ∧
      regs'.get .v0 = a + BitVec.ofNat 32 (4 * k) ∧ regs'.get .s1 = b₃ ++ b₂ ++ b₁ ++ b₀ ∧
      (queue.map Prod.snd).take (4 * (k + 1)) =
        (queue.map Prod.snd).take (4 * k) ++ [b₀, b₁, b₂, b₃] ∧
      regs.KeepsBut [.s0, .s1, .ra] regs' ∧
      Frame (sp + 0xffffffd0#32) 72
        (saved.writeBytes a ((queue.map Prod.snd).take (4 * k))) mem' := by
  obtain ⟨p₀, p₁, p₂, p₃, rfl, htake⟩ := hrx.word (by omega)
  let entry := (regs.set .s1 0#32).set .s0 0#32
  have hentry (u : Uart) : Steps (step P) ⟨regs, 0x10000748#32, 0x1000074c#32, mem, u⟩
      ⟨entry, 0x100006b8#32, 0x100006bc#32, mem, u⟩ := by
    apply Steps.of_run (n := 3)
    simp [commandB_listing N, entry]
  have hsp : entry.get .sp = sp + 0xffffffd0#32 := by simp [entry, h.stack]
  have hroom : Stack P (sp + 0xffffffd0#32) 72 := hstack.callee (by decide) (by decide)
  obtain ⟨regs₁, mem₁, hword, hs1, hkeeps, hsum, hframe⟩ :=
    assemble_word N.serial (binary_assembles N) entry mem p₀ p₁ p₂ p₃ (queue.drop (4 * k + 4)) busy
      tx (by simp [entry]) (by simp [entry]) (by rw [hsp]; exact hroom.weaken (by omega))
  refine ⟨regs₁, mem₁, _, _, _, _, (hentry _).trans hword, ?_, hs1, htake, ?_, ?_⟩
  · rw [hsum (N.fetch rfl)]
    simp [entry, h.offset, h.first, BitVec.add_comm]
  · simp [Regs.keepsBut_iff, hkeeps.get, entry]
  · rw [hsp] at hframe
    exact h.memory.trans (hframe.mono fun x hx => hx.weaken (by omega))

theorem receive_word (N : InsBoard P) (hstack : Stack P sp 120) (regs : Regs) (mem : Mem)
    (busy : ℕ) (tx : List Byte)
    (h : Receiving sp a n saved (queue.map Prod.snd) k regs mem) (hrx : Pending queue (4 * k) rx)
    (hqueue : 4 * (k + 1) ≤ queue.length) (hplain : P.Plain (a + BitVec.ofNat 32 (4 * k)))
    (hk : 4 * (k + 1) ≤ 4294967296) :
    ∃ regs' mem', Steps (step P) ⟨regs, 0x10000748#32, 0x1000074c#32, mem, ⟨rx, busy, tx⟩⟩
        ⟨regs', 0x100006e4#32, 0x100006e8#32, mem', ⟨queue.drop (4 * (k + 1)), busy, tx⟩⟩ ∧
      regs'.get .s0 = 0#32 ∧ regs'.get .s1 = 10000#32 ∧ regs.KeepsBut [.s0, .s1, .ra] regs' ∧
      Frame (sp + 0xffffffd0#32) 72
        (saved.writeBytes a ((queue.map Prod.snd).take (4 * (k + 1)))) mem' := by
  obtain ⟨regs₁, mem₁, b₀, b₁, b₂, b₃, hbytes, hv0, hs1, htake, hkeeps, hmem⟩ :=
    receive_bytes N hstack regs mem busy tx h hrx hqueue
  let after := (regs₁.set .s0 0#32).set .s1 10000#32
  let mem₂ := mem₁.writeWord (a + BitVec.ofNat 32 (4 * k)) (b₃ ++ b₂ ++ b₁ ++ b₀)
  have hstore (u : Uart) : Steps (step P) ⟨regs₁, 0x100006d8#32, 0x100006dc#32, mem₁, u⟩
      ⟨after, 0x100006e4#32, 0x100006e8#32, mem₂, u⟩ := by
    apply Steps.of_run (n := 3)
    simp [commandB_listing N, hv0, hs1, hplain, after, mem₂]
  refine ⟨after, mem₂, hbytes.trans (hstore _), by simp [after], by simp [after], ?keeps, ?memory⟩
  case keeps => simp [Regs.keepsBut_iff, hkeeps.get, after]
  case memory => exact hmem.next_word (by simp; omega) htake (by omega)

theorem receive_round (N : InsBoard P) (hstack : Stack P sp 120) (regs : Regs) (mem : Mem)
    (busy : ℕ) (tx : List Byte)
    (h : Receiving sp a n saved (queue.map Prod.snd) k regs mem) (hrx : Pending queue (4 * k) rx)
    (hqueue : 4 * (k + 1) < queue.length) (hplain : P.Plain (a + BitVec.ofNat 32 (4 * k)))
    (hk : 4 * (k + 1) < n.toNat) (hready : queue[4 * (k + 1)].1 < 10000) :
    ∃ regs' mem' rx', Steps (step P) ⟨regs, 0x10000748#32, 0x1000074c#32, mem, ⟨rx, busy, tx⟩⟩
        ⟨regs', 0x10000748#32, 0x1000074c#32, mem', ⟨rx', busy, tx⟩⟩ ∧
      Receiving sp a n saved (queue.map Prod.snd) (k + 1) regs' mem' ∧
      Pending queue (4 * (k + 1)) rx' := by
  obtain ⟨regs₁, mem₁, hword, hs0, hs1, hkeeps₁, hmem⟩ :=
    receive_word N hstack regs mem busy tx h hrx hqueue.le hplain (by omega)
  obtain ⟨regs₂, rx₂, hpoll, hrx₂, hkeeps₂, -⟩ :=
    polls_pending (binary_polls N) regs₁ mem₁ hqueue hready busy tx hs0 hs1
  have hs3 : regs₂.get .s3 = BitVec.ofNat 32 (4 * k) := by
    rw [hkeeps₂.get (by simp) (by simp), hkeeps₁.get (by simp) (by simp), h.count]
  have hs4 : regs₂.get .s4 = n := by
    rw [hkeeps₂.get (by simp) (by simp), hkeeps₁.get (by simp) (by simp), h.size]
  have hcount : BitVec.ofNat 32 (4 * k) + 4#32 = BitVec.ofNat 32 (4 * (k + 1)) := by bv_omega
  have hmore : (BitVec.ofNat 32 (4 * (k + 1))).ult n = true := by
    simp only [BitVec.ult, decide_eq_true_eq]
    bv_omega
  let after := ((regs₂.set .s2 (BitVec.ofNat 32 (4 * (k + 1)))).set .v0 1#32).set .s3
    (BitVec.ofNat 32 (4 * (k + 1)))
  have hback (u : Uart) : Steps (step P) ⟨regs₂, 0x10000704#32, 0x10000708#32, mem₁, u⟩
      ⟨after, 0x10000748#32, 0x1000074c#32, mem₁, u⟩ := by
    apply Steps.of_run (n := 4)
    simp [commandB_listing N, hs3, hs4, hcount, hmore, after]
  refine ⟨after, mem₁, rx₂, (hword.trans hpoll).trans (hback _), ?receiving, hrx₂⟩
  case receiving =>
    constructor
    case offset => simp [after]
    case count => simp [after]
    case size => simp [after, hs4]
    case first => simp [after, hkeeps₂.get, hkeeps₁.get, h.first]
    case stack => simp [after, hkeeps₂.get, hkeeps₁.get, h.stack]
    case memory => exact hmem

theorem receive_words (N : InsBoard P) (hstack : Stack P sp 120) (regs : Regs) (mem : Mem)
    (busy : ℕ) (tx : List Byte) (h : Receiving sp a n saved (queue.map Prod.snd) 0 regs mem) {j : ℕ}
    (hj : 0 < j) (hqueue : 4 * j ≤ queue.length) (hsize : 4 * j ≤ n.toNat)
    (hplain : ∀ k < j, P.Plain (a + BitVec.ofNat 32 (4 * k)))
    (hready : ∀ k (hk : 4 * (k + 1) < queue.length), k + 1 < j → queue[4 * (k + 1)].1 < 10000) :
    ∃ regs' mem', Steps (step P) ⟨regs, 0x10000748#32, 0x1000074c#32, mem, ⟨queue, busy, tx⟩⟩
        ⟨regs', 0x100006e4#32, 0x100006e8#32, mem', ⟨queue.drop (4 * j), busy, tx⟩⟩ ∧
      regs'.get .s0 = 0#32 ∧ regs'.get .s1 = 10000#32 ∧
      regs'.get .s3 = BitVec.ofNat 32 (4 * (j - 1)) ∧ regs'.get .s4 = n ∧
      regs'.get .sp = sp + 0xffffffd0#32 ∧
      Frame (sp + 0xffffffd0#32) 72
        (saved.writeBytes a ((queue.map Prod.snd).take (4 * j))) mem' := by
  have hn := n.isLt
  obtain ⟨regs₁, mem₁, rx, hsteps, hreceive, hrx⟩ :=
    word_rounds (n := j - 1) (fun k hk regs₁ mem₁ rx hreceive hrx =>
      receive_round N hstack regs₁ mem₁ busy tx hreceive hrx (by omega) (hplain k (by omega))
        (by omega) (hready k (by omega) (by omega))) regs mem h
  have hlast : j - 1 + 1 = j := by omega
  obtain ⟨regs₂, mem₂, hword, hs0, hs1, hkeeps, hmem⟩ :=
    receive_word N hstack regs₁ mem₁ busy tx hreceive hrx (by omega) (hplain _ (by omega))
      (by omega)
  rw [hlast] at hword hmem
  refine ⟨regs₂, mem₂, hsteps.trans hword, hs0, hs1, ?_, ?_, ?_, hmem⟩
  · rw [hkeeps.get (by simp) (by simp), hreceive.count]
  · rw [hkeeps.get (by simp) (by simp), hreceive.size]
  · rw [hkeeps.get (by simp) (by simp), hreceive.stack]

theorem receive_end (N : InsBoard P) (regs : Regs) (mem : Mem) (rx : List (ℕ × Byte)) (busy : ℕ)
    (tx : List Byte) {j : ℕ} (hj : 0 < j)
    (hend : 4 * j = n.toNat ∨ Quiet 10000 rx) (hs0 : regs.get .s0 = 0#32)
    (hs1 : regs.get .s1 = 10000#32) (hs3 : regs.get .s3 = BitVec.ofNat 32 (4 * (j - 1)))
    (hs4 : regs.get .s4 = n) :
    ∃ regs' rx', Steps (step P) ⟨regs, 0x100006e4#32, 0x100006e8#32, mem, ⟨rx, busy, tx⟩⟩
        ⟨regs', 0x10000714#32, 0x10000718#32, mem, ⟨rx', busy, tx⟩⟩ ∧
      rx'.map Prod.snd = rx.map Prod.snd ∧ regs'.get .sp = regs.get .sp := by
  by_cases hquiet : Quiet 10000 rx
  · obtain ⟨regs₁, hpoll, hkeeps, -⟩ :=
      polls_expired (binary_polls N) regs mem hquiet busy tx hs0 hs1
    have hexit (u : Uart) : Steps (step P) ⟨regs₁, 0x100006fc#32, 0x10000700#32, mem, u⟩
        ⟨regs₁, 0x10000714#32, 0x10000718#32, mem, u⟩ := by
      apply Steps.of_run (n := 2)
      simp [commandB_listing N]
    exact ⟨regs₁, _, hpoll.trans (hexit _), passed_map 10000 rx, hkeeps.get (by simp) (by simp)⟩
  · have hdone := hend.resolve_right hquiet
    obtain ⟨d, b, more, rfl, hd⟩ : ∃ d b more, rx = (d, b) :: more ∧ d < 10000 := by
      rcases rx with _ | ⟨⟨d, b⟩, more⟩
      · exact absurd (by simp [Quiet]) hquiet
      · exact ⟨d, b, more, rfl, by simpa [Quiet] using hquiet⟩
    obtain ⟨regs₁, hpoll, hkeeps, -⟩ :=
      polls_ready (binary_polls N) regs mem hd b more busy tx hs0 hs1
    have hs3₁ : regs₁.get .s3 = BitVec.ofNat 32 (4 * (j - 1)) := by
      rw [hkeeps.get (by simp) (by simp), hs3]
    have hs4₁ : regs₁.get .s4 = n := by rw [hkeeps.get (by simp) (by simp), hs4]
    have hcount : BitVec.ofNat 32 (4 * (j - 1)) + 4#32 = n := by bv_omega
    have hmore : n.ult n = false := by simp [BitVec.ult]
    let after := ((regs₁.set .s2 n).set .v0 0#32).set .s3 n
    have hexit (u : Uart) : Steps (step P) ⟨regs₁, 0x10000704#32, 0x10000708#32, mem, u⟩
        ⟨after, 0x10000714#32, 0x10000718#32, mem, u⟩ := by
      apply Steps.of_run (n := 4)
      simp [commandB_listing N, hs3₁, hs4₁, hcount, hmore, after]
    exact ⟨after, _, hpoll.trans (hexit _), rfl, by simp [after, hkeeps.get]⟩

end Receiving

section Answering

abbrev binarySlots : Slots :=
  [(0xfffffff8#32, .ra), (0xfffffff4#32, .s5), (0xfffffff0#32, .s4), (0xffffffec#32, .s3),
    (0xffffffe8#32, .s2), (0xffffffe4#32, .s1), (0xffffffe0#32, .s0)]

variable {caller : Regs} {s : State Uart}

theorem answer_ends (N : InsBoard P) (C : Cumulative P) (hstack : Stack P sp 120) (regs : Regs)
    (mem : Mem) (u : Uart) (hs : Steps (step P) s ⟨regs, 0x10000714#32, 0x10000718#32, mem, u⟩)
    (htx : u.tx = s.dev.tx) (hsp : regs.get .sp = sp + 0xffffffd0#32)
    (hsaved : Saved binarySlots mem sp caller) :
    ∃ regs' regs'' m, EndsAt (step P) (fun x => x.dev.tx ≠ s.dev.tx) s
        ⟨regs', 0x100003a8#32, 0x100003ac#32, mem, u.sent m [6#8]⟩ ∧
      Steps (step P) ⟨regs', 0x100003a8#32, 0x100003ac#32, mem, u.sent m [6#8]⟩
        ⟨regs'', caller.get .ra, caller.get .ra + 4#32, mem, u.sent m [6#8]⟩ ∧
      regs''.get .sp = sp := by
  let entry := (regs.set .ra 0x1000071c#32).set .a0 6#32
  have hentry : Steps (step P) ⟨regs, 0x10000714#32, 0x10000718#32, mem, u⟩
      ⟨entry, 0x10000380#32, 0x10000384#32, mem, u⟩ := by
    apply Steps.of_run (n := 2)
    simp [commandB_listing N, entry]
  have S := N.serial
  obtain ⟨regs₁, m, hends, hkeeps⟩ := S.putchar_first C entry mem u (hs.trans hentry) htx
  rw [show (entry.get .a0).setWidth 8 = 6#8 by simp [entry]] at hends
  have hput := S.putchar
  simp only [BitVec.reduceAdd] at hput
  have hsp₁ : regs₁.get .sp = sp + 0xffffffd0#32 := by simp [hkeeps.get, entry, hsp]
  have hra₁ : regs₁.get .ra = 0x1000071c#32 := by simp [hkeeps.get, entry]
  simp only [Saved, binarySlots, List.forall_mem_cons] at hsaved
  refine ⟨regs₁, ?last, m, hends, Steps.of_run (n := 11) ?run, ?stack⟩
  case run =>
    simp [hput, commandB_listing N, BitVec.add_assoc, hsp₁, hra₁, hstack.ramWord, hsaved]
    rfl
  case stack => simp

theorem binary_call (N : InsBoard P) (hstack : Stack P sp 120) (regs : Regs) (mem : Mem) (d : ℕ)
    (more : List (ℕ × Byte)) (busy : ℕ) (tx : List Byte) (hsp : regs.get .sp = sp) :
    ∃ caller mem', Steps (step P)
        ⟨regs, 0x100010dc#32, 0x100010e0#32, mem, ⟨(d, 98#8) :: more, busy, tx⟩⟩
        ⟨caller, 0x1000067c#32, 0x10000680#32, mem', ⟨more, busy, tx⟩⟩ ∧
      caller.get .ra = 0x1000116c#32 ∧ caller.get .sp = sp ∧ Frame sp 24 mem mem' := by
  let call := regs.set .ra 0x100010e4#32
  have hcall (u : Uart) : Steps (step P) ⟨regs, 0x100010dc#32, 0x100010e0#32, mem, u⟩
      ⟨call, 0x100004ac#32, 0x100004b0#32, mem, u⟩ := by
    apply Steps.of_run (n := 2)
    simp [insConsole_listing N, call]
  have hsp₀ : call.get .sp = sp := by simp [call, hsp]
  obtain ⟨regs₁, mem₁, hchar, hv0, hkeeps₁, hframe⟩ :=
    N.serial.getchar_spec call mem d 98#8 more busy tx
      (by rw [hsp₀]; exact hstack.weaken (by omega))
  rw [show call.get .ra = 0x100010e4#32 by simp [call]] at hchar
  rw [hsp₀] at hframe
  have hindex (u : Uart) : ∃ regs', Steps (step P)
      ⟨regs₁, 0x100010e4#32, 0x100010e4#32 + 4#32, mem₁, u⟩
      ⟨regs', 0x10001104#32, 0x10001108#32, mem₁, u⟩ ∧
      regs'.get .v0 + BitVec.signExtend 32 0#16 = 0x10001aa0#32 ∧ regs₁.Keeps regs' := by
    refine ⟨?regs, Steps.of_run (n := 8) ?run, ?post⟩
    case run =>
      simp [insConsole_listing N, hv0]
      rfl
    case post => simp [Regs.keeps_iff]
  obtain ⟨regs₂, hindex, haddress, hkeeps₂⟩ := hindex ⟨more, busy, tx⟩
  have hload := exec_lw_code (w := 0x10001164#32) 0x10001104#32 0x10001108#32 mem₁
    ⟨more, busy, tx⟩ .v0 .v0 0 haddress (N.image.device _ _ rfl) rfl (N.image.code _ _ rfl)
  simp at hload
  refine ⟨(regs₂.set .v0 0x10001164#32).set .ra 0x1000116c#32, mem₁,
    ((hcall _).trans hchar).trans (hindex.trans (Steps.of_run (n := 6) ?run)), by simp, ?sp, hframe⟩
  case run => simp [insConsole_listing N, hload]
  case sp => simp [hkeeps₂.get, hkeeps₁.get, hsp₀]

theorem binary_entry (N : InsBoard P) (hstack : Stack P sp 120) (caller : Regs) (mem : Mem)
    {address size : List (ℕ × Byte)} (queue : List (ℕ × Byte)) (busy : ℕ) (tx : List Byte)
    (hsp : caller.get .sp = sp) (haddress : getword (address.map Prod.snd) = some (a, []))
    (hsize : getword (size.map Prod.snd) = some (n, [])) (hn : n ≠ 0#32) :
    ∃ regs mem', Steps (step P)
        ⟨caller, 0x1000067c#32, 0x10000680#32, mem, ⟨address ++ (size ++ queue), busy, tx⟩⟩
        ⟨regs, 0x10000748#32, 0x1000074c#32, mem', ⟨queue, busy, tx⟩⟩ ∧
      Receiving sp a n (save mem sp caller binarySlots) (queue.map Prod.snd) 0 regs mem' := by
  let entry := (caller.set .sp (sp + 0xffffffd0#32)).set .ra 0x100006a0#32
  let saved := save mem sp caller binarySlots
  have hentry (u : Uart) : Steps (step P) ⟨caller, 0x1000067c#32, 0x10000680#32, mem, u⟩
      ⟨entry, 0x100004dc#32, 0x100004e0#32, saved, u⟩ := by
    apply Steps.of_run (n := 9)
    simp [commandB_listing N, BitVec.add_assoc, hsp, hstack.plain, entry, saved, save]
  have hroom : Stack P (sp + 0xffffffd0#32) 72 := hstack.callee (by decide) (by decide)
  have hsp₀ : entry.get .sp = sp + 0xffffffd0#32 := by simp [entry]
  obtain ⟨regs₁, mem₁, hget₁, hv0₁, hkeeps₁, hframe₁⟩ :=
    N.serial.getword_number entry saved (size ++ queue) busy tx (by rwa [hsp₀]) haddress
  rw [show entry.get .ra = 0x100006a0#32 by simp [entry]] at hget₁
  rw [hsp₀] at hframe₁
  let second := (regs₁.set .ra 0x100006a8#32).set .s5 a
  have hsecond (u : Uart) : Steps (step P) ⟨regs₁, 0x100006a0#32, 0x100006a0#32 + 4#32, mem₁, u⟩
      ⟨second, 0x100004dc#32, 0x100004e0#32, mem₁, u⟩ := by
    apply Steps.of_run (n := 2)
    simp [commandB_listing N, hv0₁, second]
  have hsp₁ : second.get .sp = sp + 0xffffffd0#32 := by simp [second, hkeeps₁.get, hsp₀]
  obtain ⟨regs₂, mem₂, hget₂, hv0₂, hkeeps₂, hframe₂⟩ :=
    N.serial.getword_number second mem₁ queue busy tx (by rwa [hsp₁]) hsize
  rw [show second.get .ra = 0x100006a8#32 by simp [second]] at hget₂
  rw [hsp₁] at hframe₂
  let head := ((regs₂.set .s4 n).set .s3 0#32).set .s2 0#32
  have hhead (u : Uart) : Steps (step P) ⟨regs₂, 0x100006a8#32, 0x100006a8#32 + 4#32, mem₂, u⟩
      ⟨head, 0x10000748#32, 0x1000074c#32, mem₂, u⟩ := by
    apply Steps.of_run (n := 4)
    simp [commandB_listing N, hv0₂, hn, head]
  have hsteps := ((hentry _).trans hget₁).trans (((hsecond _).trans hget₂).trans (hhead _))
  refine ⟨head, mem₂, hsteps, ?_⟩
  constructor
  case offset => simp [head]
  case count => simp [head]
  case size => simp [head]
  case first => simp [head, hkeeps₂.get, second]
  case stack => simp [head, hkeeps₂.get, hsp₁]
  case memory =>
    rw [Nat.mul_zero, List.take_zero, Mem.writeBytes_nil]
    exact hframe₁.trans hframe₂

end Answering

section Transfer

def InTime (data : List (ℕ × Byte)) : Prop :=
  ∀ w (hw : 4 * w < data.length), 0 < w → data[4 * w].1 < 10000

/-- The first answer to the command is an acknowledgement. It is sent when all the data has been
read and stored, and the command then returns to the console. -/
def Transferred (P : Platform Uart) (a : Addr) (data rest : List (ℕ × Byte)) (s : State Uart) :
    Prop :=
  ∃ v t, EndsAt (step P) (fun u => u.dev.tx ≠ s.dev.tx) s v ∧ v.dev.tx = s.dev.tx ++ [6#8] ∧
    v.dev.input = rest.map Prod.snd ∧
    (∀ i (hi : i < data.length), v.mem (a + BitVec.ofNat 32 i) = data[i].2) ∧
    Steps (step P) v t ∧ t.pc = 0x1000116c#32 ∧ t.npc = 0x10001170#32 ∧
    t.regs.get .sp = s.regs.get .sp ∧ t.dev = v.dev ∧ t.mem = v.mem

def DataArea (P : Platform Uart) (sp a n : Addr) : Prop :=
  ∀ x, InRange a n.toNat x → P.Ram x ∧ P.writable x = true ∧ ¬ Below sp 120 x

theorem DataArea.plain (h : DataArea P sp a n) (ha : a.toNat % 4 = 0) {k : ℕ}
    (hk : 4 * (k + 1) ≤ n.toNat) : P.Plain (a + BitVec.ofNat 32 (4 * k)) := by
  have hin : InRange a n.toNat (a + BitVec.ofNat 32 (4 * k)) := by
    unfold InRange
    bv_omega
  obtain ⟨hram, hw, -⟩ := h _ hin
  exact ⟨⟨hram, by bv_omega⟩, hw⟩

theorem inTime_or_late (data : List (ℕ × Byte)) : InTime data ∨ ∃ j, 0 < j ∧
    (∃ hj : 4 * j < data.length, 10000 ≤ data[4 * j].1) ∧
    ∀ k (hk : 4 * (k + 1) < data.length), k + 1 < j → data[4 * (k + 1)].1 < 10000 := by
  classical
  by_cases hlate : ∃ j, 0 < j ∧ ∃ hj : 4 * j < data.length, 10000 ≤ data[4 * j].1
  · right
    obtain ⟨hpos, hj⟩ := Nat.find_spec hlate
    refine ⟨Nat.find hlate, hpos, hj, fun k hk hkj => ?_⟩
    by_contra hge
    exact Nat.find_min hlate hkj ⟨by omega, hk, by omega⟩
  · left
    intro w hw hpos
    by_contra hge
    exact hlate ⟨w, hpos, hw, by omega⟩

variable {data rest address size : List (ℕ × Byte)} {d : ℕ} {s : State Uart}

theorem binary_start (N : InsBoard P) (hstack : Stack P sp 120) (hpc : s.pc = 0x100010dc#32)
    (hnpc : s.npc = 0x100010e0#32) (hsp : s.regs.get .sp = sp) {queue : List (ℕ × Byte)}
    (hrx : s.dev.rx = (d, 98#8) :: (address ++ (size ++ queue)))
    (haddress : getword (address.map Prod.snd) = some (a, []))
    (hsize : getword (size.map Prod.snd) = some (n, [])) (hn : n ≠ 0#32) :
    ∃ caller saved regs mem, Steps (step P) s
        ⟨regs, 0x10000748#32, 0x1000074c#32, mem, ⟨queue, s.dev.busy, s.dev.tx⟩⟩ ∧
      caller.get .ra = 0x1000116c#32 ∧ Saved binarySlots saved sp caller ∧
      Receiving sp a n saved (queue.map Prod.snd) 0 regs mem := by
  obtain ⟨regs, pc, npc, mem, rx, busy, tx⟩ := s
  simp only at hpc hnpc hsp hrx
  subst hpc hnpc hrx
  obtain ⟨caller, mem₁, hcall, hra, hsp₁, -⟩ :=
    binary_call N hstack regs mem d (address ++ (size ++ queue)) busy tx hsp
  obtain ⟨regs₂, mem₂, hentry, hreceive⟩ :=
    binary_entry N hstack caller mem₁ queue busy tx hsp₁ haddress hsize hn
  exact ⟨caller, _, regs₂, mem₂, hcall.trans hentry, hra, by simp [Saved, save], hreceive⟩

theorem transfer_ends (N : InsBoard P) (C : Cumulative P) (hstack : Stack P sp 120)
    (harea : DataArea P sp a n) (ha : a.toNat % 4 = 0) (hpc : s.pc = 0x100010dc#32)
    (hnpc : s.npc = 0x100010e0#32) (hsp : s.regs.get .sp = sp) {queue : List (ℕ × Byte)}
    (hrx : s.dev.rx = (d, 98#8) :: (address ++ (size ++ queue)))
    (haddress : getword (address.map Prod.snd) = some (a, []))
    (hsize : getword (size.map Prod.snd) = some (n, [])) (hn : n ≠ 0#32) {j : ℕ} (hj : 0 < j)
    (hqueue : 4 * j ≤ queue.length) (hjn : 4 * j ≤ n.toNat)
    (hready : ∀ k (hk : 4 * (k + 1) < queue.length), k + 1 < j → queue[4 * (k + 1)].1 < 10000)
    (hend : 4 * j = n.toNat ∨ Quiet 10000 (queue.drop (4 * j))) :
    ∃ v t, ∃ m₀ : Mem, EndsAt (step P) (fun u => u.dev.tx ≠ s.dev.tx) s v ∧
      v.dev.tx = s.dev.tx ++ [6#8] ∧ v.dev.input = (queue.drop (4 * j)).map Prod.snd ∧
      Frame sp 120 (m₀.writeBytes a ((queue.map Prod.snd).take (4 * j))) v.mem ∧
      Steps (step P) v t ∧ t.pc = 0x1000116c#32 ∧ t.npc = 0x10001170#32 ∧
      t.regs.get .sp = s.regs.get .sp ∧ t.dev = v.dev ∧ t.mem = v.mem := by
  have hsize32 := n.isLt
  obtain ⟨caller, saved, regs, mem, hstart, hra, hsaved, hreceive⟩ :=
    binary_start N hstack hpc hnpc hsp hrx haddress hsize hn
  obtain ⟨regs₁, mem₁, hwords, hs0, hs1, hs3, hs4, hsp₁, hmem⟩ :=
    receive_words N hstack regs mem s.dev.busy s.dev.tx hreceive hj hqueue hjn
      (fun k hk => harea.plain ha (by omega)) hready
  obtain ⟨regs₂, rx₂, hlast, hrx₂, hsp₂⟩ :=
    receive_end N regs₁ mem₁ _ s.dev.busy s.dev.tx hj hend hs0 hs1 hs3 hs4
  have hslots : Saved binarySlots mem₁ sp caller := by
    refine hsaved.agree (n := 48) (by decide) fun x hx => ?_
    have hout : ¬ Below (sp + 0xffffffd0#32) 72 x := by
      unfold Below at hx ⊢
      bv_omega
    refine (hmem x hout).trans (Mem.writeBytes_outside _ _ _ fun hin => ?_)
    have hrange : InRange a n.toNat x := by
      refine Nat.lt_of_lt_of_le hin ?_
      rw [List.length_take, List.length_map]
      omega
    exact (harea x hrange).2.2 (hx.weaken (by omega))
  obtain ⟨regs₃, regs₄, m, hends, hreturn, hsp₄⟩ :=
    answer_ends N C hstack regs₂ mem₁ ⟨rx₂, s.dev.busy, s.dev.tx⟩
      ((hstart.trans hwords).trans hlast) rfl (hsp₂.trans hsp₁) hslots
  rw [hra] at hreturn
  refine ⟨_, _, saved, hends, rfl, hrx₂, ?_, hreturn, rfl, rfl, hsp₄.trans hsp.symm, rfl, rfl⟩
  exact hmem.mono fun x hx => hx.mono (by decide)

theorem transfer_stuck (N : InsBoard P) (C : Cumulative P) (hstack : Stack P sp 120)
    (harea : DataArea P sp a n) (ha : a.toNat % 4 ≠ 0) (hpc : s.pc = 0x100010dc#32)
    (hnpc : s.npc = 0x100010e0#32) (hsp : s.regs.get .sp = sp) {queue : List (ℕ × Byte)}
    (hrx : s.dev.rx = (d, 98#8) :: (address ++ (size ++ queue)))
    (haddress : getword (address.map Prod.snd) = some (a, []))
    (hsize : getword (size.map Prod.snd) = some (n, [])) (hn : n ≠ 0#32)
    (hqueue : 4 ≤ queue.length) :
    ∃ v, EndsAt (step P) (fun u => u.dev.tx ≠ s.dev.tx) s v ∧ v.dev.tx = s.dev.tx := by
  obtain ⟨caller, saved, regs, mem, hstart, -, -, hreceive⟩ :=
    binary_start N hstack hpc hnpc hsp hrx haddress hsize hn
  obtain ⟨regs₁, mem₁, b₀, b₁, b₂, b₃, hbytes, hv0, -⟩ :=
    receive_bytes N hstack regs mem s.dev.busy s.dev.tx hreceive (Pending.drop queue 0) hqueue
  have hin : InRange a n.toNat a := by
    unfold InRange
    bv_omega
  have hdev : P.device a = false := (harea a hin).1.1
  have hplain : ¬ P.Plain a := fun h => ha h.1.2
  have hstuck (u : Uart) : step P ⟨regs₁, 0x100006d8#32, 0x100006dc#32, mem₁, u⟩ = none := by
    simp at hv0
    simp [commandB_listing N, exec, hv0, hdev, hplain]
  have hsteps := hstart.trans hbytes
  refine ⟨_, .of_steps hsteps ?_ (.here (Or.inr (hstuck _))), rfl⟩
  intro u hsu huv hne
  exact hne (C.silent hsu huv rfl)

theorem Transferred.inTime (N : InsBoard P) (C : Cumulative P) (hstack : Stack P sp 120)
    (harea : DataArea P sp a n) (hpc : s.pc = 0x100010dc#32) (hnpc : s.npc = 0x100010e0#32)
    (hsp : s.regs.get .sp = sp)
    (hrx : s.dev.rx = (d, 98#8) :: (address ++ (size ++ (data ++ rest))))
    (haddress : getword (address.map Prod.snd) = some (a, []))
    (hsize : getword (size.map Prod.snd) = some (n, [])) (hn : n ≠ 0#32)
    (hwords : n.toNat % 4 = 0) (hlen : data.length = n.toNat)
    (h : Transferred P a data rest s) : a.toNat % 4 = 0 ∧ InTime data := by
  have hpos : 0 < n.toNat := by bv_omega
  obtain ⟨v, t, hv, htx, hinput, -⟩ := h
  have ha : a.toNat % 4 = 0 := by
    by_contra ha
    obtain ⟨v', hv', htx'⟩ :=
      transfer_stuck N C hstack harea ha hpc hnpc hsp hrx haddress hsize hn (by simp; omega)
    rw [hv.unique hv', htx'] at htx
    simp at htx
  refine ⟨ha, (inTime_or_late data).resolve_right ?_⟩
  rintro ⟨j, hj, ⟨hjlen, hlate⟩, hready⟩
  have hdrop : (data ++ rest).drop (4 * j) = data.drop (4 * j) ++ rest :=
    List.drop_append_of_le_length hjlen.le
  have hquiet : Quiet 10000 ((data ++ rest).drop (4 * j)) := by
    rw [hdrop, List.drop_eq_getElem_cons hjlen, List.cons_append]
    rintro p hp
    obtain rfl : data[4 * j] = p := by simpa only [List.head?_cons, Option.mem_some_iff] using hp
    exact hlate
  obtain ⟨v', t', m₀, hv', -, hinput', -⟩ :=
    transfer_ends N C hstack harea ha hpc hnpc hsp hrx haddress hsize hn hj (by simp; omega)
      (by omega) (fun k hk hkj => by
        rw [List.getElem_append_left (by omega)]
        exact hready k (by omega) hkj) (Or.inr hquiet)
  rw [hv.unique hv', hinput', hdrop, List.map_append] at hinput
  have hleft := congrArg List.length hinput
  simp only [List.length_append, List.length_map, List.length_drop] at hleft
  omega

theorem InTime.transferred (N : InsBoard P) (C : Cumulative P) (hstack : Stack P sp 120)
    (harea : DataArea P sp a n) (hpc : s.pc = 0x100010dc#32) (hnpc : s.npc = 0x100010e0#32)
    (hsp : s.regs.get .sp = sp)
    (hrx : s.dev.rx = (d, 98#8) :: (address ++ (size ++ (data ++ rest))))
    (haddress : getword (address.map Prod.snd) = some (a, []))
    (hsize : getword (size.map Prod.snd) = some (n, [])) (hn : n ≠ 0#32)
    (hwords : n.toNat % 4 = 0) (hlen : data.length = n.toNat) (ha : a.toNat % 4 = 0)
    (h : InTime data) : Transferred P a data rest s := by
  have hpos : 0 < n.toNat := by bv_omega
  have hsize32 := n.isLt
  have hall : 4 * (n.toNat / 4) = n.toNat := by omega
  obtain ⟨v, t, m₀, hv, htx, hinput, hmem, hreturn⟩ :=
    transfer_ends N C hstack harea ha hpc hnpc hsp hrx haddress hsize hn (j := n.toNat / 4)
      (by omega) (by simp; omega) hall.le (fun k hk hkj => by
        rw [List.getElem_append_left (by omega)]
        exact h (k + 1) (by omega) (by omega)) (Or.inl hall)
  rw [hall, ← hlen, List.drop_left] at hinput
  rw [hall, ← hlen, List.map_append, List.take_left' (by simp)] at hmem
  refine ⟨v, t, hv, htx, hinput, fun i hi => ?_, hreturn⟩
  have hin : InRange a n.toNat (a + BitVec.ofNat 32 i) := by
    unfold InRange
    bv_omega
  rw [hmem _ (harea _ hin).2.2, Mem.writeBytes_at _ _ _ (by simpa using hi) (by simp; omega)]
  simp

/-- `b` acknowledges only complete transfers exactly when the address is a multiple of 4 and every
word after the first one begins within 10000 polls. -/
theorem binary_write (N : InsBoard P) (C : Cumulative P) (hstack : Stack P sp 120)
    (harea : DataArea P sp a n) (s : State Uart) (hpc : s.pc = 0x100010dc#32)
    (hnpc : s.npc = 0x100010e0#32) (hsp : s.regs.get .sp = sp)
    (hrx : s.dev.rx = (d, 98#8) :: (address ++ (size ++ (data ++ rest))))
    (haddress : getword (address.map Prod.snd) = some (a, []))
    (hsize : getword (size.map Prod.snd) = some (n, [])) (hn : n ≠ 0#32)
    (hwords : n.toNat % 4 = 0) (hlen : data.length = n.toNat) :
    Transferred P a data rest s ↔ a.toNat % 4 = 0 ∧ InTime data := by
  constructor
  · exact Transferred.inTime N C hstack harea hpc hnpc hsp hrx haddress hsize hn hwords hlen
  · rintro ⟨ha, htime⟩
    exact htime.transferred N C hstack harea hpc hnpc hsp hrx haddress hsize hn hwords hlen ha

theorem insPieces_placed : Placed insPieces := by decide

def insBench : Platform Uart := { bench with code := codeOf insPieces }

theorem insBench_ram {a : Addr} (h : a.toNat < 0x10000000) : insBench.Ram a := by
  have halign := alignAddr_near a
  refine ⟨(bench_ram h).1, ?_⟩
  cases hc : codeOf insPieces (alignAddr a) with
  | none => exact hc
  | some w =>
    have := codeOf_range insPieces_placed hc
    omega

theorem insBench_board : InsBoard insBench where
  dataReg := bench_board.dataReg
  busyReg := bench_board.busyReg
  sendReg := bench_board.sendReg
  readyReg := bench_board.readyReg
  loadReady := bench_board.loadReady
  loadData := bench_board.loadData
  loadBusy := bench_board.loadBusy
  storeSend := bench_board.storeSend
  image := by
    refine ⟨fun _ _ h => h, fun a w h => ?_⟩
    have hrange := codeOf_range insPieces_placed h
    have halign := alignAddr_near a
    simp only [insBench, bench, decide_eq_false_iff_not]
    omega

theorem insBench_cumulative : Cumulative insBench :=
  ⟨bench_cumulative.load, bench_cumulative.store⟩

theorem insBench_low : LowMemory insBench := fun _ h => ⟨insBench_ram h, rfl⟩

theorem insBench_stack : Stack insBench 0x01000f00#32 120 := insBench_low.stack (by decide)

theorem insBench_area : DataArea insBench 0x01000f00#32 0x100#32 8#32 :=
  ((insBench_low.span (k := 2) (by decide) (by decide) (by decide)).mono fun _ => Or.inl).plain

def eightBytes (d : ℕ) : List (ℕ × Byte) :=
  [(0, 1#8), (0, 2#8), (0, 3#8), (0, 4#8), (d, 5#8), (0, 6#8), (0, 7#8), (0, 8#8)]

def insPrompt (d : ℕ) : State Uart where
  regs r := if r = .sp then 0x01000f00#32 else 0#32
  pc := 0x100010dc#32
  npc := 0x100010e0#32
  mem _ := 0#8
  dev := ⟨(0, 98#8) :: ([(0, 49#8), (0, 48#8), (0, 48#8), (0, 32#8)] ++
    ([(0, 56#8), (0, 32#8)] ++ (eightBytes d ++ []))), 0, []⟩

theorem binary_write_eight :
    Transferred insBench 0x100#32 (eightBytes 9999) [] (insPrompt 9999) ↔
      (0x100#32).toNat % 4 = 0 ∧ InTime (eightBytes 9999) :=
  binary_write insBench_board insBench_cumulative insBench_stack insBench_area (insPrompt 9999)
    rfl rfl rfl rfl (by decide) (by decide) (by decide) (by decide) (by decide)

theorem binary_write_late :
    ¬ Transferred insBench 0x100#32 (eightBytes 10000) [] (insPrompt 10000) := by
  intro h
  have hnumbers : getword ([(0, 49#8), (0, 48#8), (0, 48#8), (0, 32#8)].map Prod.snd) =
      some (0x100#32, []) ∧ getword ([(0, 56#8), (0, 32#8)].map Prod.snd) = some (8#32, []) := by
    decide
  have htime := (h.inTime insBench_board insBench_cumulative insBench_stack insBench_area rfl rfl
    rfl rfl hnumbers.1 hnumbers.2 (by decide) (by decide) rfl).2
  exact absurd (htime 1 (by decide) (by decide)) (by decide)

end Transfer

end W2
