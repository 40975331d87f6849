import W2.Firmware.Menu
import W2.Firmware.Receive

/-!
# The boot loader of the menu

Command 5 asks for an address and then takes raw bytes. The first 0x20000 of them are stored, a
word at a time; what arrives after them is read and dropped. In both phases the loader gives up
when a byte keeps it waiting for 10000 polls.
-/

namespace W2

open Mips Transition Miniboot Console

variable {P : Platform Uart} {sp : Addr}

theorem bootLoader_listing (M : BootBoard P) :
    P.fetch 0x10001368#32 = some (.addu .s2 .s4 .zero) ∧
    P.fetch 0x1000136c#32 = some (.j 0x561) ∧
    P.fetch 0x10001370#32 = some (.addu .s3 .zero .zero) ∧
    P.fetch 0x10001394#32 = some (.sw .s1 0 .s2) ∧
    P.fetch 0x10001398#32 = some (.addu .s0 .zero .zero) ∧
    P.fetch 0x1000139c#32 = some (.addiu .s1 .zero 10000) ∧
    P.fetch 0x100013a0#32 = some (.jal 0x112) ∧
    P.fetch 0x100013a4#32 = some .nop ∧
    P.fetch 0x100013a8#32 = some (.bne .v0 .zero 6) ∧
    P.fetch 0x100013ac#32 = some (.lui .v0 0x2) ∧
    P.fetch 0x100013b0#32 = some (.addiu .s0 .s0 1) ∧
    P.fetch 0x100013b4#32 = some (.beq .s0 .s1 7) ∧
    P.fetch 0x100013b8#32 = some (.lui .a0 0x1000) ∧
    P.fetch 0x100013bc#32 = some (.j 0x4e8) ∧
    P.fetch 0x100013c0#32 = some .nop ∧
    P.fetch 0x100013c4#32 = some (.addiu .s3 .s3 4) ∧
    P.fetch 0x100013c8#32 = some (.bne .s3 .v0 109) ∧
    P.fetch 0x100013cc#32 = some (.addiu .v1 .s2 4) ∧
    P.fetch 0x10001424#32 = some (.j 0x564) ∧
    P.fetch 0x10001428#32 = some (.addu .s1 .zero .zero) ∧
    P.fetch 0x1000142c#32 = some (.jal 0x112) ∧
    P.fetch 0x10001430#32 = some .nop ∧
    P.fetch 0x10001434#32 = some (.bne .v0 .zero 6) ∧
    P.fetch 0x10001438#32 = some (.addiu .v0 .zero 10000) ∧
    P.fetch 0x1000143c#32 = some (.addiu .s0 .s0 1) ∧
    P.fetch 0x10001440#32 = some (.beq .s0 .v0 8) ∧
    P.fetch 0x10001444#32 = some (.lui .a0 0x1000) ∧
    P.fetch 0x10001448#32 = some (.j 0x50b) ∧
    P.fetch 0x1000144c#32 = some .nop ∧
    P.fetch 0x10001450#32 = some (.jal 0x117) ∧
    P.fetch 0x10001454#32 = some (.addiu .s1 .s1 1) ∧
    P.fetch 0x10001458#32 = some (.lui .v0 0x10) ∧
    P.fetch 0x1000145c#32 = some (.bne .s1 .v0 76) ∧
    P.fetch 0x10001460#32 = some (.lui .a0 0x1000) ∧
    P.fetch 0x10001498#32 = some (.j 0x43a) ∧
    P.fetch 0x1000149c#32 = some .nop ∧
    P.fetch 0x10001580#32 = some (.addu .s2 .v1 .zero) ∧
    P.fetch 0x10001584#32 = some (.addu .s0 .zero .zero) ∧
    P.fetch 0x10001588#32 = some (.j 0x4dd) ∧
    P.fetch 0x1000158c#32 = some (.addu .s1 .zero .zero) ∧
    P.fetch 0x10001590#32 = some (.j 0x50b) ∧
    P.fetch 0x10001594#32 = some (.addu .s0 .zero .zero) := by
  constructorm* _ ∧ _ <;> exact M.fetch rfl

theorem boot_assembles (M : BootBoard P) : Assembles P 0x10000330#32 0x10001374#32 where
  get := ⟨_, M.fetch rfl, rfl⟩
  count := M.fetch rfl
  high := M.fetch rfl
  down := M.fetch rfl
  join := M.fetch rfl
  four := M.fetch rfl
  back := M.fetch rfl
  delay := Or.inl (M.fetch rfl)

theorem boot_polls (M : BootBoard P) :
    Polls P 0x100013a0#32 0x100013c4#32 0x100013d4#32 (fun regs => regs.get .s1 = 10000#32)
      (fun regs => regs.get .v0 = 0x20000#32) (fun regs => regs.get .a0 = 0x10000000#32) := by
  have hcall : Calls P 0x100013a0#32 0x10000448#32 := ⟨_, M.fetch rfl, rfl⟩
  refine .of_answer M.toBoard.serial hcall (M.fetch rfl) ?limit ?found ?missed
  case limit =>
    intro regs regs' hkeeps hlimit
    rw [hkeeps.get (by simp) (by simp), hlimit]
  case found =>
    intro regs mem u hlimit hv0
    refine ⟨regs.set .v0 0x20000#32, Steps.of_run (n := 2) ?_, ?_, by simp⟩
    · simp [bootLoader_listing M, hv0]
    · simp [Regs.keepsBut_iff]
  case missed =>
    intro regs mem u j hs1 hs0 hj hv0
    obtain ⟨hnext, hlast⟩ := poll_count hj
    refine ⟨((regs.set .v0 0x20000#32).set .s0 (BitVec.ofNat 32 (j + 1))).set .a0 0x10000000#32,
      ?run, by simp, by simp [Regs.keepsBut_iff], by simp⟩
    by_cases hend : j + 1 = 10000
    · rw [if_pos hend]
      apply Steps.of_run (n := 5)
      simp [bootLoader_listing M, hv0, hs0, hs1, hnext, hend]
    · rw [if_neg hend]
      apply Steps.of_run (n := 7)
      simp [bootLoader_listing M, hv0, hs0, hs1, hnext, hlast, hend]

theorem drain_polls (M : BootBoard P) :
    Polls P 0x1000142c#32 0x10001450#32 0x10001464#32 (fun _ => True) (fun _ => True)
      (fun regs => regs.get .a0 = 0x10000000#32) := by
  have hcall : Calls P 0x1000142c#32 0x10000448#32 := ⟨_, M.fetch rfl, rfl⟩
  refine .of_answer M.toBoard.serial hcall (M.fetch rfl) (fun _ _ _ _ => trivial) ?found ?missed
  case found =>
    intro regs mem u _ hv0
    refine ⟨regs.set .v0 10000#32, Steps.of_run (n := 2) ?_, ?_, trivial⟩
    · simp [bootLoader_listing M, hv0]
    · simp [Regs.keepsBut_iff]
  case missed =>
    intro regs mem u j _ hs0 hj hv0
    obtain ⟨hnext, hlast⟩ := poll_count hj
    refine ⟨((regs.set .v0 10000#32).set .s0 (BitVec.ofNat 32 (j + 1))).set .a0 0x10000000#32,
      ?run, by simp, by simp [Regs.keepsBut_iff], by simp⟩
    by_cases hend : j + 1 = 10000
    · rw [if_pos hend]
      apply Steps.of_run (n := 5)
      simp [bootLoader_listing M, hv0, hs0, hnext, hend]
    · rw [if_neg hend]
      apply Steps.of_run (n := 7)
      simp [bootLoader_listing M, hv0, hs0, hnext, hlast, hend]

section Loader

/-- The loader's registers and memory after `k` words from `start` upwards. -/
structure Loading (sp start : Addr) (mem₀ : Mem) (bytes : List Byte) (k : ℕ) (regs : Regs)
    (mem : Mem) : Prop where
  address : regs.get .s2 = start + BitVec.ofNat 32 (4 * k)
  count : regs.get .s3 = BitVec.ofNat 32 (4 * k)
  first : regs.get .s4 = start
  stack : regs.get .sp = sp
  memory : Agree (Scratch sp 72) (mem₀.writeBytes start (bytes.take (4 * k))) mem

variable {start : Addr} {mem₀ : Mem} {queue rx : List (ℕ × Byte)} {k n : ℕ}

theorem load_word (M : BootBoard P) (hstack : Stack P sp 72) (regs : Regs) (mem : Mem) (busy : ℕ)
    (tx : List Byte) (h : Loading sp start mem₀ (queue.map Prod.snd) k regs mem)
    (hrx : Pending queue (4 * k) rx) (hqueue : 4 * (k + 1) ≤ queue.length)
    (hplain : P.Plain (start + BitVec.ofNat 32 (4 * k))) (hk : 4 * (k + 1) ≤ 4294967296) :
    ∃ regs' mem', Steps (step P) ⟨regs, 0x10001584#32, 0x10001588#32, mem, ⟨rx, busy, tx⟩⟩
        ⟨regs', 0x100013a0#32, 0x100013a4#32, mem', ⟨queue.drop (4 * (k + 1)), busy, tx⟩⟩ ∧
      regs'.get .s0 = 0#32 ∧ regs'.get .s1 = 10000#32 ∧ regs.KeepsBut [.s0, .s1, .ra] regs' ∧
      Agree (Scratch sp 72)
        (mem₀.writeBytes start ((queue.map Prod.snd).take (4 * (k + 1)))) mem' := by
  obtain ⟨p₀, p₁, p₂, p₃, rfl, htake⟩ := hrx.word (by omega)
  let entry := (regs.set .s0 0#32).set .s1 0#32
  have hentry (u : Uart) : Steps (step P) ⟨regs, 0x10001584#32, 0x10001588#32, mem, u⟩
      ⟨entry, 0x10001374#32, 0x10001378#32, mem, u⟩ := by
    apply Steps.of_run (n := 3)
    simp [bootLoader_listing M, entry]
  obtain ⟨regs₁, mem₁, hword, hs1, hkeeps, -, hframe⟩ :=
    assemble_word M.toBoard.serial (boot_assembles M) entry mem p₀ p₁ p₂ p₃ (queue.drop (4 * k + 4))
      busy tx (by simp [entry]) (by simp [entry])
      (by simpa [entry, h.stack] using hstack.weaken (by omega))
  have hs2 : regs₁.get .s2 = start + BitVec.ofNat 32 (4 * k) := by
    rw [hkeeps.get (by simp) (by simp)]
    simp [entry, h.address]
  let after := ((regs₁.set .s0 0#32).set .s1 10000#32)
  let mem₂ := mem₁.writeWord (start + BitVec.ofNat 32 (4 * k)) (p₃.2 ++ p₂.2 ++ p₁.2 ++ p₀.2)
  have hstore (u : Uart) : Steps (step P) ⟨regs₁, 0x10001394#32, 0x10001398#32, mem₁, u⟩
      ⟨after, 0x100013a0#32, 0x100013a4#32, mem₂, u⟩ := by
    apply Steps.of_run (n := 3)
    simp [bootLoader_listing M, hs2, hs1, hplain, after, mem₂]
  refine ⟨after, mem₂, ((hentry _).trans hword).trans (hstore _), by simp [after],
    by simp [after], ?keeps, ?memory⟩
  case keeps => simp [Regs.keepsBut_iff, hkeeps.get, after, entry]
  case memory =>
    have hsp : entry.get .sp = sp := by simp [entry, h.stack]
    rw [hsp] at hframe
    have hbefore := h.memory.trans (hframe.mono fun a ha => Or.inl (ha.weaken (by omega)))
    exact hbefore.next_word (by simp; omega) htake (by omega)

theorem load_round (M : BootBoard P) (hstack : Stack P sp 72) (regs : Regs) (mem : Mem) (busy : ℕ)
    (tx : List Byte) (h : Loading sp start mem₀ (queue.map Prod.snd) k regs mem)
    (hrx : Pending queue (4 * k) rx) (hqueue : 4 * (k + 1) < queue.length)
    (hplain : P.Plain (start + BitVec.ofNat 32 (4 * k))) (hk : 4 * (k + 1) < 0x20000)
    (hready : queue[4 * (k + 1)].1 < 10000) :
    ∃ regs' mem' rx', Steps (step P) ⟨regs, 0x10001584#32, 0x10001588#32, mem, ⟨rx, busy, tx⟩⟩
        ⟨regs', 0x10001584#32, 0x10001588#32, mem', ⟨rx', busy, tx⟩⟩ ∧
      Loading sp start mem₀ (queue.map Prod.snd) (k + 1) regs' mem' ∧
      Pending queue (4 * (k + 1)) rx' := by
  obtain ⟨regs₁, mem₁, hword, hs0, hs1, hkeeps₁, hmem⟩ :=
    load_word M hstack regs mem busy tx h hrx hqueue.le hplain (by omega)
  obtain ⟨regs₂, rx₂, hpoll, hrx₂, hkeeps₂, hv0⟩ :=
    polls_pending (boot_polls M) regs₁ mem₁ hqueue hready busy tx hs0 hs1
  have hs2 : regs₂.get .s2 = start + BitVec.ofNat 32 (4 * k) := by
    rw [hkeeps₂.get (by simp) (by simp), hkeeps₁.get (by simp) (by simp), h.address]
  have hs3 : regs₂.get .s3 = BitVec.ofNat 32 (4 * k) := by
    rw [hkeeps₂.get (by simp) (by simp), hkeeps₁.get (by simp) (by simp), h.count]
  have hcount : BitVec.ofNat 32 (4 * k) + 4#32 = BitVec.ofNat 32 (4 * (k + 1)) := by bv_omega
  have haddress : start + BitVec.ofNat 32 (4 * k) + 4#32 =
      start + BitVec.ofNat 32 (4 * (k + 1)) := by
    rw [BitVec.add_assoc, hcount]
  have hmore : BitVec.ofNat 32 (4 * (k + 1)) ≠ 0x20000#32 := by bv_omega
  let next := start + BitVec.ofNat 32 (4 * (k + 1))
  let after := ((regs₂.set .s3 (BitVec.ofNat 32 (4 * (k + 1)))).set .v1 next).set .s2 next
  have hback (u : Uart) : Steps (step P) ⟨regs₂, 0x100013c4#32, 0x100013c8#32, mem₁, u⟩
      ⟨after, 0x10001584#32, 0x10001588#32, mem₁, u⟩ := by
    apply Steps.of_run (n := 4)
    simp [bootLoader_listing M, hs2, hs3, hcount, haddress, hv0, hmore, after, next]
  refine ⟨after, mem₁, rx₂, (hword.trans hpoll).trans (hback _), ?loading, hrx₂⟩
  case loading =>
    constructor
    case address => simp [after, next]
    case count => simp [after]
    case first =>
      simp only [after, Regs.get_set]
      simp [hkeeps₂.get, hkeeps₁.get, h.first]
    case stack =>
      simp only [after, Regs.get_set]
      simp [hkeeps₂.get, hkeeps₁.get, h.stack]
    case memory => exact hmem

theorem load_words (M : BootBoard P) (hstack : Stack P sp 72) (regs : Regs) (mem : Mem) (busy : ℕ)
    (tx : List Byte) (h : Loading sp start mem₀ (queue.map Prod.snd) 0 regs mem) (hn : 0 < n)
    (hspan : Span P (Below sp 72) start n) (hqueue : 4 * n ≤ queue.length)
    (hlimit : 4 * n ≤ 0x20000)
    (hready : ∀ k (hk : 4 * (k + 1) < queue.length), k + 1 < n → queue[4 * (k + 1)].1 < 10000) :
    ∃ regs' mem', Steps (step P) ⟨regs, 0x10001584#32, 0x10001588#32, mem, ⟨queue, busy, tx⟩⟩
        ⟨regs', 0x100013a0#32, 0x100013a4#32, mem', ⟨queue.drop (4 * n), busy, tx⟩⟩ ∧
      regs'.get .s0 = 0#32 ∧ regs'.get .s1 = 10000#32 ∧
      Loading sp start (mem₀.writeBytes start ((queue.map Prod.snd).take (4 * n))) [] (n - 1) regs'
        mem' := by
  obtain ⟨regs₁, mem₁, rx, hsteps, hload, hrx⟩ :=
    word_rounds (n := n - 1) (fun k hk regs₁ mem₁ rx hload hrx =>
      load_round M hstack regs₁ mem₁ busy tx hload hrx (by omega) (hspan.word (by omega)) (by omega)
        (hready k (by omega) (by omega))) regs mem h
  have hlast : n - 1 + 1 = n := by omega
  obtain ⟨regs₂, mem₂, hword, hs0, hs1, hkeeps, hmem⟩ :=
    load_word M hstack regs₁ mem₁ busy tx hload hrx (by omega) (hspan.word (by omega)) (by omega)
  rw [hlast] at hword hmem
  refine ⟨regs₂, mem₂, hsteps.trans hword, hs0, hs1, ?_⟩
  constructor
  case address => rw [hkeeps.get (by simp) (by simp), hload.address]
  case count => rw [hkeeps.get (by simp) (by simp), hload.count]
  case first => rw [hkeeps.get (by simp) (by simp), hload.first]
  case stack => rw [hkeeps.get (by simp) (by simp), hload.stack]
  case memory => simpa using hmem

end Loader

section Report

variable {rest : List (ℕ × Byte)} {d : ℕ} {b : Byte}

theorem silence_report (M : BootBoard P) (hstack : Stack P sp 56)
    (hapart : ∀ a, InHexBuffer a → ¬ Below sp 56 a) (hquiet : Quiet 10000 rest) (regs : Regs)
    (mem : Mem) (busy : ℕ) (tx : List Byte) (hsp : regs.get .sp = sp) (hs0 : regs.get .s0 = 0#32)
    (hs1 : regs.get .s1 = 10000#32) :
    ∃ regs' mem' j bs, Steps (step P) ⟨regs, 0x100013a0#32, 0x100013a4#32, mem, ⟨rest, busy, tx⟩⟩
        ⟨regs', 0x10001424#32, 0x10001428#32, mem', ⟨passed 10000 rest, j, tx ++ bs⟩⟩ ∧
      regs'.get .sp = sp ∧ Agree (Scratch sp 56) mem mem' := by
  obtain ⟨regs₁, hpoll, hkeeps₁, ha0⟩ :=
    polls_expired (boot_polls M) regs mem hquiet busy tx hs0 hs1
  have hsp₁ : regs₁.get .sp = sp := by rw [hkeeps₁.get (by simp) (by simp), hsp]
  obtain ⟨regs₂, mem₂, j, hprint, hkeeps₂, hagree⟩ :=
    prints_entered (M.printer hstack hapart) boot_prints.2.2.2.1 regs₁ mem
      ⟨passed 10000 rest, busy, tx⟩ hsp₁ ha0 (by simp)
  exact ⟨regs₂, mem₂, j, _, hpoll.trans hprint, by rw [hkeeps₂.get (by simp) (by simp), hsp₁],
    hagree⟩

theorem limit_report (M : BootBoard P) (hstack : Stack P sp 56)
    (hapart : ∀ a, InHexBuffer a → ¬ Below sp 56 a) (hd : d < 10000) (regs : Regs) (mem : Mem)
    (busy : ℕ) (tx : List Byte) (hsp : regs.get .sp = sp) (hs0 : regs.get .s0 = 0#32)
    (hs1 : regs.get .s1 = 10000#32) (hs3 : regs.get .s3 = 0x1fffc#32) :
    ∃ regs' mem' j bs, Steps (step P)
        ⟨regs, 0x100013a0#32, 0x100013a4#32, mem, ⟨(d, b) :: rest, busy, tx⟩⟩
        ⟨regs', 0x10001424#32, 0x10001428#32, mem', ⟨(0, b) :: rest, j, tx ++ bs⟩⟩ ∧
      regs'.get .sp = sp ∧ Agree (Scratch sp 56) mem mem' := by
  obtain ⟨regs₁, hpoll, hkeeps₁, hv0⟩ :=
    polls_ready (boot_polls M) regs mem hd b rest busy tx hs0 hs1
  have hs3₁ : regs₁.get .s3 = 0x1fffc#32 := by rw [hkeeps₁.get (by simp) (by simp), hs3]
  let entry := (regs₁.set .s3 0x20000#32).set .v1 (regs₁.get .s2 + 4#32)
  have hentry (u : Uart) : Steps (step P) ⟨regs₁, 0x100013c4#32, 0x100013c8#32, mem, u⟩
      ⟨entry, 0x100013d0#32, 0x100013d4#32, mem, u⟩ := by
    apply Steps.of_run (n := 3)
    simp [bootLoader_listing M, hs3₁, hv0, entry]
  have hsp₁ : entry.get .sp = sp := by simp [entry, hkeeps₁.get, hsp]
  obtain ⟨regs₂, mem₂, j, hprint, hkeeps₂, hagree⟩ :=
    prints_spec (M.printer hstack hapart) boot_prints.2.2.2.1 entry mem ⟨(0, b) :: rest, busy, tx⟩
      hsp₁ (by simp)
  exact ⟨regs₂, mem₂, j, _, (hpoll.trans (hentry _)).trans hprint,
    by rw [hkeeps₂.get (by simp) (by simp), hsp₁], hagree⟩

end Report

section Drain

variable {d m : ℕ} {b : Byte}

theorem drain_byte (M : BootBoard P) (hstack : Stack P sp 24) (regs : Regs) (mem : Mem)
    (more : List (ℕ × Byte)) (busy : ℕ) (tx : List Byte) (hd : d < 10000) (hm : m + 1 < 0x100000)
    (hsp : regs.get .sp = sp) (hs0 : regs.get .s0 = 0#32) (hs1 : regs.get .s1 = BitVec.ofNat 32 m) :
    ∃ regs' mem', Steps (step P)
        ⟨regs, 0x1000142c#32, 0x10001430#32, mem, ⟨(d, b) :: more, busy, tx⟩⟩
        ⟨regs', 0x1000142c#32, 0x10001430#32, mem', ⟨more, busy, tx⟩⟩ ∧
      regs'.get .s0 = 0#32 ∧ regs'.get .s1 = BitVec.ofNat 32 (m + 1) ∧
      regs.KeepsBut [.s0, .s1, .ra] regs' ∧ Frame sp 24 mem mem' := by
  obtain ⟨regs₁, hpoll, hkeeps₁, -⟩ :=
    polls_ready (drain_polls M) regs mem hd b more busy tx hs0 trivial
  have hs1₁ : regs₁.get .s1 = BitVec.ofNat 32 m := by rw [hkeeps₁.get (by simp) (by simp), hs1]
  have hnext : BitVec.ofNat 32 m + 1#32 = BitVec.ofNat 32 (m + 1) := by bv_omega
  let entry := (regs₁.set .ra 0x10001458#32).set .s1 (BitVec.ofNat 32 (m + 1))
  have hsp₁ : entry.get .sp = sp := by simp [entry, hkeeps₁.get, hsp]
  have hentry (u : Uart) : Steps (step P) ⟨regs₁, 0x10001450#32, 0x10001454#32, mem, u⟩
      ⟨entry, 0x1000045c#32, 0x10000460#32, mem, u⟩ := by
    apply Steps.of_run (n := 2)
    simp [bootLoader_listing M, hs1₁, hnext, entry]
  obtain ⟨regs₂, mem₂, hget, -, hkeeps₂, hframe⟩ :=
    getchar_spec M.toBoard entry mem 0 b more busy tx (by rwa [hsp₁])
  rw [show entry.get .ra = 0x10001458#32 by simp [entry]] at hget
  rw [hsp₁] at hframe
  have hs1₂ : regs₂.get .s1 = BitVec.ofNat 32 (m + 1) := by simp [hkeeps₂.get, entry]
  have hmore : BitVec.ofNat 32 (m + 1) ≠ 0x100000#32 := by bv_omega
  let after := ((regs₂.set .v0 0x100000#32).set .a0 0x10000000#32).set .s0 0#32
  have hback (u : Uart) : Steps (step P) ⟨regs₂, 0x10001458#32, 0x1000145c#32, mem₂, u⟩
      ⟨after, 0x1000142c#32, 0x10001430#32, mem₂, u⟩ := by
    apply Steps.of_run (n := 5)
    simp [bootLoader_listing M, hs1₂, hmore, after]
  refine ⟨after, mem₂, ((hpoll.trans (hentry _)).trans hget).trans (hback _), by simp [after],
    by simp [after, hs1₂], ?keeps, hframe⟩
  case keeps => simp [Regs.keepsBut_iff, hkeeps₁.get, hkeeps₂.get, after, entry]

/-- Everything up to the silence is read and dropped. The induction is on what arrives. -/
theorem drain_all (M : BootBoard P) (hstack : Stack P sp 24) (items : List (ℕ × Byte))
    {rest : List (ℕ × Byte)} (hquiet : Quiet 10000 rest) (regs : Regs) (mem : Mem) (busy : ℕ)
    (tx : List Byte) (hitems : ∀ p ∈ items, p.1 < 10000) (hm : m + items.length < 0x100000)
    (hsp : regs.get .sp = sp) (hs0 : regs.get .s0 = 0#32) (hs1 : regs.get .s1 = BitVec.ofNat 32 m) :
    ∃ regs' mem', Steps (step P)
        ⟨regs, 0x1000142c#32, 0x10001430#32, mem, ⟨items ++ rest, busy, tx⟩⟩
        ⟨regs', 0x10001464#32, 0x10001468#32, mem', ⟨passed 10000 rest, busy, tx⟩⟩ ∧
      regs'.get .a0 = 0x10000000#32 ∧ regs.KeepsBut [.s0, .s1, .ra] regs' ∧
      Frame sp 24 mem mem' := by
  induction items generalizing regs mem m with
  | nil =>
    obtain ⟨regs', hsteps, hkeeps, ha0⟩ :=
      polls_expired (drain_polls M) regs mem hquiet busy tx hs0 trivial
    exact ⟨regs', mem, hsteps, ha0, fun r hr hu => hkeeps r hr fun h => hu (by simp at h ⊢; tauto),
      Agree.refl _ mem⟩
  | cons p items ih =>
    rw [List.length_cons] at hm
    obtain ⟨regs₁, mem₁, hbyte, hs0₁, hs1₁, hkeeps₁, hframe₁⟩ :=
      drain_byte M hstack regs mem (items ++ rest) busy tx (hitems p (by simp)) (by omega) hsp hs0
        hs1 (b := p.2)
    obtain ⟨regs₂, mem₂, hrest, ha0, hkeeps₂, hframe₂⟩ :=
      ih regs₁ mem₁ (fun q hq => hitems q (by simp [hq])) (by omega)
        (by rw [hkeeps₁.get (by simp) (by simp), hsp]) hs0₁ hs1₁
    exact ⟨regs₂, mem₂, hbyte.trans hrest, ha0, hkeeps₁.trans hkeeps₂, hframe₁.trans hframe₂⟩

theorem drain_report (M : BootBoard P) (hstack : Stack P sp 56)
    (hapart : ∀ a, InHexBuffer a → ¬ Below sp 56 a) (items : List (ℕ × Byte))
    {rest : List (ℕ × Byte)} (hquiet : Quiet 10000 rest) (regs : Regs) (mem : Mem) (busy : ℕ)
    (tx : List Byte) (hitems : ∀ p ∈ items, p.1 < 10000) (hlen : items.length < 0x100000)
    (hsp : regs.get .sp = sp) :
    ∃ regs' mem' u' w, Steps (step P)
        ⟨regs, 0x10001424#32, 0x10001428#32, mem, ⟨items ++ rest, busy, tx⟩⟩
        ⟨regs', 0x100010e8#32, 0x100010ec#32, mem', u'⟩ ∧
      regs'.get .sp = sp ∧ u'.input = rest.map Prod.snd ∧ Agree (Scratch sp 56) mem mem' ∧
      mem' 0x01000010#32 = hexDigit w 7 := by
  let entry := (regs.set .s1 0#32).set .s0 0#32
  have hentry (u : Uart) : Steps (step P) ⟨regs, 0x10001424#32, 0x10001428#32, mem, u⟩
      ⟨entry, 0x1000142c#32, 0x10001430#32, mem, u⟩ := by
    apply Steps.of_run (n := 4)
    simp [bootLoader_listing M, entry]
  have hsp₀ : entry.get .sp = sp := by simp [entry, hsp]
  obtain ⟨regs₁, mem₁, hdrain, ha0, hkeeps₁, hframe₁⟩ :=
    drain_all M (hstack.weaken (by omega)) items hquiet entry mem busy tx hitems (m := 0) (by omega)
      hsp₀ (by simp [entry]) (by simp [entry])
  have hsp₁ : regs₁.get .sp = sp := by rw [hkeeps₁.get (by simp) (by simp), hsp₀]
  have hcode := boot_prints.2.2.2.2
  rw [show [Output.text .a0 6404, .number .s4, .text .a0 6428, .number .s0] =
    [.text .a0 6404, .number .s4, .text .a0 6428] ++ [.number .s0] from rfl, printsAt_append,
    Bool.and_eq_true] at hcode
  have R : Printer P bootImage sp := M.printer hstack hapart
  obtain ⟨regs₂, mem₂, j₂, hprint, hkeeps₂, hagree₂⟩ :=
    prints_entered R hcode.1 regs₁ mem₁ ⟨passed 10000 rest, busy, tx⟩ hsp₁ ha0 (by simp)
  generalize outputs bootImage regs₁ _ = bs₂ at hprint
  have hsp₂ : regs₂.get .sp = sp := by rw [hkeeps₂.get (by simp) (by simp), hsp₁]
  obtain ⟨regs₃, mem₃, j₃, hlast, hkeeps₃, hframe₃⟩ :=
    number_spec R (Bool.and_eq_true_iff.mp hcode.2).1 mem₂
      (Uart.sent ⟨passed 10000 rest, busy, tx⟩ j₂ bs₂) hsp₂
  generalize regs₂.get .s0 = w at hframe₃
  have hback (u : Uart) : Steps (step P) ⟨regs₃, 0x10001498#32, 0x1000149c#32, mem₃, u⟩
      ⟨regs₃, 0x100010e8#32, 0x100010ec#32, mem₃, u⟩ := by
    apply Steps.of_run (n := 2)
    simp [bootLoader_listing M]
  refine ⟨regs₃, mem₃, _, w,
    (((hentry _).trans hdrain).trans (hprint.trans hlast)).trans (hback _), ?_, ?_, ?_, ?_⟩
  · rw [hkeeps₃.get (by simp) (by simp), hsp₂]
  · exact passed_map 10000 rest
  · have hdrained : Agree (Scratch sp 56) mem mem₁ :=
      hframe₁.mono fun a ha => Or.inl (ha.weaken (by omega))
    exact (hdrained.trans hagree₂).trans
      ((hexDigits_scratch sp 56 mem₂ w).trans (hframe₃.mono fun _ => Or.inl))
  · rw [hframe₃ _ (hapart _ (by decide))]
    exact hexDigits_digit mem₂ w (j := 7) (by omega) le_rfl

end Drain

section Command

variable {start : Addr} {mem₀ : Mem} {number stream rest : List (ℕ × Byte)} {d k : ℕ}

theorem menu_entry (M : BootBoard P) (hstack : Stack P sp 72)
    (hapart : ∀ a, InHexBuffer a → ¬ Below sp 72 a)
    (hnumber : getword (number.map Prod.snd) = some (start, [])) (queue : List (ℕ × Byte))
    (regs : Regs) (mem : Mem) (busy : ℕ) (tx : List Byte) (hsp : regs.get .sp = sp) :
    ∃ regs' mem' j bs, Steps (step P)
        ⟨regs, 0x100010fc#32, 0x10001100#32, mem, ⟨(d, 53#8) :: (number ++ queue), busy, tx⟩⟩
        ⟨regs', 0x10001584#32, 0x10001588#32, mem', ⟨queue, j, tx ++ bs⟩⟩ ∧
      Loading sp start mem (queue.map Prod.snd) 0 regs' mem' := by
  have hapart' : ∀ a, InHexBuffer a → ¬ Below sp 56 a :=
    fun a ha hb => hapart a ha (hb.weaken (by omega))
  obtain ⟨regs₁, mem₁, j₁, hchosen, hs0₁, hs4₁, hsp₁, hagree₁⟩ :=
    menu_address M hstack hapart' (c := 53#8) (by decide) hnumber queue regs mem busy tx hsp
      (d := d)
  obtain ⟨regs₂, hjump, hkeeps₂⟩ :=
    menu_jump M 0x10001304#32 regs₁ mem₁ ⟨queue, j₁, tx ++ menuPrompt start⟩ hs0₁
      (by decide) rfl
  have hsp₂ : regs₂.get .sp = sp := by rw [hkeeps₂.get (by simp), hsp₁]
  obtain ⟨regs₃, mem₃, j₃, hreport, hkeeps₃, hagree₃⟩ :=
    prints_spec (M.printer (hstack.weaken (by omega)) hapart') boot_prints.2.2.1 regs₂ mem₁
      ⟨queue, j₁, tx ++ menuPrompt start⟩ hsp₂ (by simp)
  generalize outputs bootImage regs₂ _ = bs₃ at hreport
  have hs4 : regs₃.get .s4 = start := by
    rw [hkeeps₃.get (by simp) (by simp), hkeeps₂.get (by simp), hs4₁]
  let loader := (regs₃.set .s2 start).set .s3 0#32
  have hloader (u : Uart) : Steps (step P) ⟨regs₃, 0x10001368#32, 0x10001368#32 + 4#32, mem₃, u⟩
      ⟨loader, 0x10001584#32, 0x10001588#32, mem₃, u⟩ := by
    apply Steps.of_run (n := 3)
    simp [bootLoader_listing M, hs4, loader]
  refine ⟨loader, mem₃, j₃, menuPrompt start ++ bs₃, ?run, ?loading⟩
  case run =>
    have hall := (hchosen.trans hjump).trans (hreport.trans (hloader _))
    simpa [Uart.sent] using hall
  case loading =>
    constructor
    case address => simp [loader]
    case count => simp [loader]
    case first => simp [loader, hs4]
    case stack =>
      have hsp₃ : regs₃.get .sp = sp := by rw [hkeeps₃.get (by simp) (by simp), hsp₂]
      simp [loader, hsp₃]
    case memory =>
      rw [Nat.mul_zero, List.take_zero, Mem.writeBytes_nil]
      exact hagree₁.trans (hagree₃.mono fun a ha => ha.weaken (by omega))

theorem load_image (M : BootBoard P) (hstack : Stack P sp 72)
    (hapart : ∀ a, InHexBuffer a → ¬ Below sp 72 a) (hlen : stream.length = 4 * k) (hk : 0 < k)
    (hlimit : 4 * k < 0x20000 + 0x100000) (hspan : Span P (Below sp 72) start (min k 0x8000))
    (htime : ∀ i (hi : i < stream.length), 0 < i → i % 4 = 0 ∨ 0x20000 ≤ i → stream[i].1 < 10000)
    (hquiet : Quiet (if 4 * k ≤ 0x20000 then 20000 else 10000) rest) (regs : Regs) (mem : Mem)
    (busy : ℕ) (tx : List Byte)
    (h : Loading sp start mem₀ ((stream ++ rest).map Prod.snd) 0 regs mem) :
    ∃ regs' mem' u' w, Steps (step P)
        ⟨regs, 0x10001584#32, 0x10001588#32, mem, ⟨stream ++ rest, busy, tx⟩⟩
        ⟨regs', 0x100010e8#32, 0x100010ec#32, mem', u'⟩ ∧
      regs'.get .sp = sp ∧ u'.input = rest.map Prod.snd ∧
      Agree (Scratch sp 72) (mem₀.writeBytes start ((stream.map Prod.snd).take 0x20000)) mem' ∧
      mem' 0x01000010#32 = hexDigit w 7 := by
  have hapart' : ∀ a, InHexBuffer a → ¬ Below sp 56 a :=
    fun a ha hb => hapart a ha (hb.weaken (by omega))
  have hstack' : Stack P sp 56 := hstack.weaken (by omega)
  obtain ⟨regs₁, mem₁, hwords, hs0, hs1, hload⟩ :=
    load_words M hstack regs mem busy tx h (by omega) hspan (by simp; omega) (by omega) (by
      intro j hj hjn
      rw [List.getElem_append_left (by omega)]
      exact htime _ (by omega) (by omega) (Or.inl (by omega)))
  have hmem := hload.memory
  simp only [List.take_nil, Mem.writeBytes_nil] at hmem
  rw [List.map_append, List.take_append_of_le_length (by simp; omega)] at hmem
  rw [List.drop_append_of_le_length (by omega)] at hwords
  have hwiden {m m' : Mem} (hagree : Agree (Scratch sp 56) m m') : Agree (Scratch sp 72) m m' :=
    hagree.mono fun a ha => ha.weaken (by omega)
  by_cases hfit : 4 * k ≤ 0x20000
  · have hmin : min k 0x8000 = k := by omega
    rw [if_pos hfit] at hquiet
    rw [hmin, ← hlen, List.drop_length, List.nil_append] at hwords
    rw [hmin, List.take_of_length_le (by simp [hlen])] at hmem
    obtain ⟨regs₂, mem₂, j, bs, hreport, hsp₂, hagree₂⟩ :=
      silence_report M hstack' hapart' (fun p hp => (hquiet p hp).trans' (by omega)) regs₁ mem₁
        busy tx hload.stack hs0 hs1
    obtain ⟨regs₃, mem₃, u, w, hdrain, hsp₃, hinput, hagree₃, hdigit⟩ :=
      drain_report M hstack' hapart' [] hquiet.passed regs₂ mem₂ j (tx ++ bs) (by simp) (by simp)
        hsp₂
    refine ⟨regs₃, mem₃, u, w, (hwords.trans hreport).trans hdrain, hsp₃, ?_, ?_, hdigit⟩
    · rw [hinput, passed_map]
    · rw [List.take_of_length_le (by simp [hlen, hfit])]
      exact (hmem.trans (hwiden hagree₂)).trans (hwiden hagree₃)
  · have hmin : min k 0x8000 = 0x8000 := by omega
    rw [if_neg hfit] at hquiet
    rw [hmin] at hwords hmem
    have hbound : 0x20000 < stream.length := by omega
    have hdrop : stream.drop (4 * 0x8000) =
        (stream[0x20000].1, stream[0x20000].2) :: stream.drop (0x20000 + 1) :=
      List.drop_eq_getElem_cons hbound
    rw [hdrop, List.cons_append] at hwords
    have hs3 : regs₁.get .s3 = 0x1fffc#32 := by rw [hload.count, hmin]
    obtain ⟨regs₂, mem₂, j, bs, hreport, hsp₂, hagree₂⟩ :=
      limit_report M hstack' hapart' (htime _ hbound (by omega) (Or.inr (by omega))) regs₁ mem₁ busy
        tx hload.stack hs0 hs1 hs3
    obtain ⟨regs₃, mem₃, u, w, hdrain, hsp₃, hinput, hagree₃, hdigit⟩ :=
      drain_report M hstack' hapart' ((0, stream[0x20000].2) :: stream.drop (0x20000 + 1)) hquiet
        regs₂ mem₂ j (tx ++ bs) (by
          intro p hp
          rcases List.mem_cons.mp hp with rfl | hp
          · simp
          · obtain ⟨i, hi, rfl⟩ := List.mem_iff_getElem.mp hp
            rw [List.length_drop] at hi
            rw [List.getElem_drop]
            exact htime _ (by omega) (by omega) (Or.inr (by omega)))
        (by simp; omega) hsp₂
    exact ⟨regs₃, mem₃, u, w, (hwords.trans hreport).trans hdrain, hsp₃, hinput,
      (hmem.trans (hwiden hagree₂)).trans (hwiden hagree₃), hdigit⟩

def LoaderArea (sp start : Addr) (n : ℕ) (a : Addr) : Prop := Scratch sp 72 a ∨ InRange start n a

instance (sp start : Addr) (n : ℕ) (a : Addr) : Decidable (LoaderArea sp start n a) :=
  inferInstanceAs (Decidable (_ ∨ _))

theorem BootBoard.confine (M : BootBoard P) {area : Addr → Prop} [DecidablePred area]
    (harea : ∀ a, InHexBuffer a → area a) : BootBoard (P.confine area) where
  toBoard := M.toBoard.confine area
  boot := M.boot.congr rfl rfl
  buffer := M.buffer.confine harea
  selectReg := M.selectReg
  storeSelect := M.storeSelect

/-- Command 5, with the address `start` and the stream, has led from `s` back to the menu. No store
on the way has left the loader's area, and what arrives after the stream is still to be read. -/
structure Booted (P : Platform Uart) (sp start : Addr) (stream rest : List (ℕ × Byte))
    (s t : State Uart) : Prop where
  steps : Steps (step (P.confine (LoaderArea sp start (min stream.length 0x20000)))) s t
  pc : t.pc = 0x100010e8#32
  npc : t.npc = 0x100010ec#32
  stack : t.regs.get .sp = sp
  input : t.dev.input = rest.map Prod.snd
  elsewhere : ∀ a, ¬ LoaderArea sp start (min stream.length 0x20000) a → t.mem a = s.mem a

/-- The bytes of the image that are in memory, up to the ones the condition leaves out. -/
def ImageStored (start : Addr) (stream : List (ℕ × Byte)) (m : Mem) (within : Addr → Prop) : Prop :=
  ∀ i (hi : i < stream.length), i < 0x20000 → within (start + BitVec.ofNat 32 i) →
    m (start + BitVec.ofNat 32 i) = stream[i].2

theorem boot_run (M : BootBoard P) (hstack : Stack P sp 72)
    (hapart : ∀ a, InHexBuffer a → ¬ Below sp 72 a) (s : State Uart) (hpc : s.pc = 0x100010fc#32)
    (hnpc : s.npc = 0x10001100#32) (hsp : s.regs.get .sp = sp)
    (hrx : s.dev.rx = (d, 53#8) :: (number ++ (stream ++ rest)))
    (hnumber : getword (number.map Prod.snd) = some (start, []))
    (hlen : stream.length = 4 * k) (hk : 1 ≤ k) (hlimit : stream.length < 0x20000 + 0x100000)
    (hspan : Span P (Below sp 72) start (min k 0x8000))
    (htime : ∀ i (hi : i < stream.length), 0 < i → i % 4 = 0 ∨ 0x20000 ≤ i → stream[i].1 < 10000)
    (hquiet : Quiet (if stream.length ≤ 0x20000 then 20000 else 10000) rest) :
    ∃ t w, Booted P sp start stream rest s t ∧
      Agree (Scratch sp 72) (s.mem.writeBytes start ((stream.map Prod.snd).take 0x20000)) t.mem ∧
      t.mem 0x01000010#32 = hexDigit w 7 := by
  obtain ⟨regs, pc, npc, mem, rx, busy, tx⟩ := s
  simp only at hpc hnpc hsp hrx
  subst hpc hnpc hrx
  let area := LoaderArea sp start (min stream.length 0x20000)
  have hsize : 4 * min k 0x8000 = min stream.length 0x20000 := by omega
  have M' : BootBoard (P.confine area) := M.confine fun a ha => Or.inl (Or.inr ha)
  have hstack' : Stack (P.confine area) sp 72 := hstack.confine fun a ha => Or.inl (Or.inl ha)
  have hspan' : Span (P.confine area) (Below sp 72) start (min k 0x8000) :=
    hspan.confine fun x hx => Or.inr (hsize ▸ hx)
  obtain ⟨regs₁, mem₁, j, bs, hentry, hload⟩ :=
    menu_entry M' hstack' hapart hnumber (stream ++ rest) regs mem busy tx hsp (d := d)
  obtain ⟨regs₂, mem₂, u, w, himage, hsp₂, hinput, hagree, hdigit⟩ :=
    load_image M' hstack' hapart hlen hk (by omega) hspan' htime (hlen ▸ hquiet) regs₁ mem₁ j
      (tx ++ bs) hload
  refine ⟨⟨regs₂, 0x100010e8#32, 0x100010ec#32, mem₂, u⟩, w, ?booted, hagree, hdigit⟩
  case booted =>
    constructor
    case steps => exact hentry.trans himage
    case pc => rfl
    case npc => rfl
    case stack => exact hsp₂
    case input => exact hinput
    case elsewhere =>
      intro a ha
      simp only [LoaderArea, not_or] at ha
      refine (hagree a ha.1).trans (Mem.writeBytes_outside _ _ _ ?_)
      rw [List.length_take, List.length_map, Nat.min_comm]
      exact ha.2

/-- The menu's raw boot loader stores the image it is sent. The digit buffer is left out: the
loader's own report overwrites it when the image is complete. -/
theorem raw_boot (M : BootBoard P) (hstack : Stack P sp 72)
    (hapart : ∀ a, InHexBuffer a → ¬ Below sp 72 a) (s : State Uart) (hpc : s.pc = 0x100010fc#32)
    (hnpc : s.npc = 0x10001100#32) (hsp : s.regs.get .sp = sp)
    (hrx : s.dev.rx = (d, 53#8) :: (number ++ (stream ++ rest)))
    (hnumber : getword (number.map Prod.snd) = some (start, []))
    (hlen : stream.length = 4 * k) (hk : 1 ≤ k) (hlimit : stream.length < 0x20000 + 0x100000)
    (hspan : Span P (Below sp 72) start (min k 0x8000))
    (htime : ∀ i (hi : i < stream.length), 0 < i → i % 4 = 0 ∨ 0x20000 ≤ i → stream[i].1 < 10000)
    (hquiet : Quiet (if stream.length ≤ 0x20000 then 20000 else 10000) rest) :
    ∃ t, Booted P sp start stream rest s t ∧
      ImageStored start stream t.mem fun a => ¬ InHexBuffer a := by
  obtain ⟨t, w, hbooted, hagree, -⟩ :=
    boot_run M hstack hapart s hpc hnpc hsp hrx hnumber hlen hk hlimit hspan htime hquiet
  refine ⟨t, hbooted, fun i hi hsize hbuffer => ?_⟩
  have hfits := hspan.fits
  have hrange : InRange start (4 * min k 0x8000) (start + BitVec.ofNat 32 i) := by
    unfold InRange
    bv_omega
  have hscratch : ¬ Scratch sp 72 (start + BitVec.ofNat 32 i) := by
    rintro (hbelow | hin)
    · exact (hspan.plain _ hrange).2.2 hbelow
    · exact hbuffer hin
  rw [hagree _ hscratch, Mem.writeBytes_at _ _ _ (by simp; omega) (by simp)]
  simp

def bootBench : Platform Uart :=
  { benchWith bootPieces with
    store := fun u a w => if a = 0x1f800003#32 then some u else bench.store u a w }

theorem bootPieces_placed : Placed bootPieces := by decide

theorem bootBench_low : LowMemory bootBench := benchWith_low bootPieces_placed

theorem bootBench_board : BootBoard bootBench where
  toBoard :=
    { benchWith_board bootPieces_placed with
      storeSend := fun u b hu => ⟨u.busy, by simp [bootBench, bench]⟩ }
  boot := (benchWith_pieces bootPieces_placed (by decide)).congr rfl rfl
  buffer := bootBench_low.buffer
  selectReg := by decide
  storeSelect _ := rfl

theorem bootBench_stack : Stack bootBench 0x01000f00#32 72 := bootBench_low.stack (by decide)

theorem bootBench_span {a : Addr} {k : ℕ} (haligned : a.toNat % 4 = 0) (hk : k ≤ 0x8000)
    (hfits : a.toNat + 4 * k ≤ 0x01000e00) :
    Span bootBench (Below 0x01000f00#32 72) a (min k 0x8000) := by
  rw [Nat.min_eq_left hk]
  refine ⟨haligned, by omega, fun x hx => ?_⟩
  unfold InRange at hx
  have hplain := bootBench_low x (by bv_omega)
  refine ⟨hplain.1, hplain.2, ?_⟩
  unfold Below
  bv_omega

def bootStart (number : List Byte) (stream rest : List (ℕ × Byte)) : State Uart where
  regs r := if r = .sp then 0x01000f00#32 else 0#32
  pc := 0x100010fc#32
  npc := 0x10001100#32
  mem _ := 0#8
  dev := ⟨(0, 53#8) :: (number.map (fun b => (0, b)) ++ (stream ++ rest)), 0, []⟩

/-- Two words with 9999 failing polls between them, and more of them within the first one. -/
def delayedWords : List (ℕ × Byte) :=
  [(0, 1#8), (7, 2#8), (30000, 3#8), (0, 4#8), (9999, 5#8), (1, 6#8), (2, 7#8), (0, 8#8)]

/-- `5100 `, the two words, and the key `1` after 20000 polls. -/
theorem raw_boot_words :
    ∃ t, Booted bootBench 0x01000f00#32 0x100#32 delayedWords [(20000, 49#8)]
        (bootStart [49, 48, 48, 32] delayedWords [(20000, 49#8)]) t ∧
      ImageStored 0x100#32 delayedWords t.mem fun a => ¬ InHexBuffer a :=
  raw_boot (k := 2) bootBench_board bootBench_stack (buffer_apart (by decide))
    (bootStart [49, 48, 48, 32] delayedWords [(20000, 49#8)]) rfl rfl rfl rfl (by decide) rfl
    (by decide) (by decide) (bootBench_span (by decide) (by decide) (by decide)) (by decide)
    (by simp [Quiet, delayedWords])

def fullWord : List (ℕ × Byte) := [(0, 255#8), (0, 255#8), (0, 255#8), (0, 255#8)]

/-- `51000010 ` puts the image where the digits go. -/
theorem raw_boot_overlap :
    ¬ ∃ t, Booted bootBench 0x01000f00#32 0x01000010#32 fullWord []
        (bootStart [49, 48, 48, 48, 48, 49, 48, 32] fullWord []) t ∧
      ImageStored 0x01000010#32 fullWord t.mem fun _ => True := by
  rintro ⟨t, hbooted, hstored⟩
  have hnumber : getword ([(0, 49#8), (0, 48#8), (0, 48#8), (0, 48#8), (0, 48#8), (0, 49#8),
      (0, 48#8), (0, 32#8)].map Prod.snd) = some (0x01000010#32, []) := by decide
  have hlen : fullWord.length = 4 * 1 := rfl
  obtain ⟨t₀, w, hbooted₀, -, hdigit⟩ := boot_run bootBench_board bootBench_stack
    (buffer_apart (by decide)) (bootStart [49, 48, 48, 48, 48, 49, 48, 32] fullWord [])
    rfl rfl rfl rfl hnumber hlen le_rfl (by decide)
    (bootBench_span (by decide) (by decide) (by decide)) (by decide) (by simp [Quiet])
  -- the bench has no code at the menu's own entry, so a run that has come there stays there
  have hstuck {s : State Uart} (hpc : s.pc = 0x100010e8#32) (area : Addr → Prop)
      [DecidablePred area] : step (bootBench.confine area) s = none := by
    rw [step, hpc]
    rfl
  obtain rfl : t = t₀ :=
    (hbooted₀.steps.before_stuck (hstuck hbooted₀.pc _) hbooted.steps).eq_of_stuck
      (hstuck hbooted.pc _)
  have hfirst : t.mem 0x01000010#32 = 255#8 := by
    simpa [fullWord] using hstored 0 (by decide) (by omega) trivial
  obtain ⟨n, hn, hvalue⟩ := hexDigit_value w 7
  rw [hdigit, hvalue] at hfirst
  interval_cases n <;> exact absurd hfirst (by decide)

end Command

end W2
