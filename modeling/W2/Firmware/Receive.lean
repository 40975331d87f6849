import W2.Firmware.Getword

/-!
# Raw bytes

The routines that take raw data assemble a word from four calls of `getchar`, and between two
words they poll the receiver a limited number of times. Both loops occur at several places and
are proved once, for what the places have in common.
-/

namespace W2

open Mips Transition

variable {P : Platform Uart} {base pc : Addr}

section Assembling

theorem toNat_append_bytes (b₀ b₁ b₂ b₃ : Byte) :
    (b₃ ++ b₂ ++ b₁ ++ b₀ : Word).toNat =
      b₃.toNat * 16777216 + b₂.toNat * 65536 + b₁.toNat * 256 + b₀.toNat := by
  have happend {w v : ℕ} (x : BitVec w) (y : BitVec v) :
      (x ++ y).toNat = x.toNat * 2 ^ v + y.toNat := by
    rw [BitVec.toNat_append, ← Nat.shiftLeft_add_eq_or_of_lt y.isLt, Nat.shiftLeft_eq]
  have h₁ := happend (b₃ ++ b₂ ++ b₁) b₀
  have h₂ := happend (b₃ ++ b₂) b₁
  have h₃ := happend b₃ b₂
  rw [h₁, h₂, h₃]
  omega

theorem toNat_rotate_byte (w : Word) (b : Byte) :
    (w >>> 8 + b.setWidth 32 <<< 24).toNat = w.toNat / 256 + b.toNat * 16777216 := by
  simp only [BitVec.toNat_add, BitVec.toNat_ushiftRight, BitVec.toNat_shiftLeft,
    BitVec.toNat_setWidth, Nat.shiftLeft_eq, Nat.shiftRight_eq_div_pow]
  omega

theorem rotate_bytes (b₀ b₁ b₂ b₃ : Byte) :
    (((b₀.setWidth 32 <<< 24 >>> 8 + b₁.setWidth 32 <<< 24 : Word) >>> 8 +
      b₂.setWidth 32 <<< 24) >>> 8 + b₃.setWidth 32 <<< 24 : Word) = b₃ ++ b₂ ++ b₁ ++ b₀ := by
  have hfirst : (b₀.setWidth 32 <<< 24 : Word).toNat = b₀.toNat * 16777216 := by
    simpa using toNat_rotate_byte 0#32 b₀
  apply BitVec.eq_of_toNat_eq
  rw [toNat_append_bytes, toNat_rotate_byte, toNat_rotate_byte, toNat_rotate_byte, hfirst]
  omega

structure Assembles (P : Platform Uart) (base pc : Addr) : Prop where
  get : Calls P pc (base + 0x12c#32)
  count : P.fetch (pc + 4#32) = some (.addiu .s0 .s0 1)
  high : P.fetch (pc + 8#32) = some (.sll .v0 .v0 24)
  down : P.fetch (pc + 12#32) = some (.srl .v1 .s1 8)
  join : P.fetch (pc + 16#32) = some (.addu .s1 .v0 .v1)
  four : P.fetch (pc + 20#32) = some (.addiu .v0 .zero 4)
  back : P.fetch (pc + 24#32) = some (.bne .s0 .v0 (-7))
  delay : P.fetch (pc + 28#32) = some .nop ∨ P.fetch (pc + 28#32) = some (.addu .v0 .s2 .s5)

theorem assemble_byte (S : Serial P base) (L : Assembles P base pc) (regs : Regs) (mem : Mem)
    (d : ℕ) (b : Byte) (more : List (ℕ × Byte)) (busy : ℕ) (tx : List Byte) {j : ℕ} (hj : j < 4)
    (hs0 : regs.get .s0 = BitVec.ofNat 32 j) (hsp : Stack P (regs.get .sp) 24) :
    ∃ regs' mem', Steps (step P) ⟨regs, pc, pc + 4#32, mem, ⟨(d, b) :: more, busy, tx⟩⟩
        ⟨regs', if j = 3 then pc + 32#32 else pc, (if j = 3 then pc + 32#32 else pc) + 4#32, mem',
          ⟨more, busy, tx⟩⟩ ∧
      regs'.get .s0 = BitVec.ofNat 32 (j + 1) ∧
      regs'.get .s1 = regs.get .s1 >>> 8 + b.setWidth 32 <<< 24 ∧
      regs.KeepsBut [.s0, .s1, .ra] regs' ∧
      (P.fetch (pc + 28#32) = some (.addu .v0 .s2 .s5) →
        regs'.get .v0 = regs.get .s2 + regs.get .s5) ∧
      Frame (regs.get .sp) 24 mem mem' := by
  let entry := (regs.set .ra (pc + 8#32)).set .s0 (BitVec.ofNat 32 (j + 1))
  have hentry : Steps (step P) ⟨regs, pc, pc + 4#32, mem, ⟨(d, b) :: more, busy, tx⟩⟩
      ⟨entry, base + 0x12c#32, base + 0x130#32, mem, ⟨(d, b) :: more, busy, tx⟩⟩ := by
    have hnext : BitVec.ofNat 32 j + 1#32 = BitVec.ofNat 32 (j + 1) := by bv_omega
    apply Steps.of_run (n := 2)
    simp [L.get.run, L.count, hs0, hnext, BitVec.add_assoc, entry]
  obtain ⟨regs₁, mem₁, hget, hv0, hkeeps, hframe⟩ :=
    S.getchar_spec entry mem d b more busy tx (by simpa [entry] using hsp)
  rw [show entry.get .ra = pc + 8#32 by simp [entry]] at hget
  rw [show entry.get .sp = regs.get .sp by simp [entry]] at hframe
  have hs0' : regs₁.get .s0 = BitVec.ofNat 32 (j + 1) := by simp [hkeeps.get, entry]
  have hs1' : regs₁.get .s1 = regs.get .s1 := by simp [hkeeps.get, entry]
  have hlast : BitVec.ofNat 32 (j + 1) = 4#32 ↔ j = 3 := by
    constructor
    · intro h
      bv_omega
    · rintro rfl
      rfl
  rcases L.delay with hdelay | hdelay
  · refine ⟨?nop, mem₁, hentry.trans (hget.trans (Steps.of_run (n := 6) ?run)), ?post⟩
    case run =>
      by_cases h3 : j = 3 <;>
        simp [L.high, L.down, L.join, L.four, L.back, hdelay, hv0, hs0', hs1', hlast, h3,
          BitVec.add_assoc] <;> rfl
    case post =>
      refine ⟨by simp [hs0'], by simp [BitVec.add_comm], ?_, by simp [hdelay], hframe⟩
      simp [Regs.keepsBut_iff, hkeeps.get, entry]
  · refine ⟨?sum, mem₁, hentry.trans (hget.trans (Steps.of_run (n := 6) ?run)), ?post⟩
    case run =>
      by_cases h3 : j = 3 <;>
        simp [L.high, L.down, L.join, L.four, L.back, hdelay, hv0, hs0', hs1', hlast, h3,
          BitVec.add_assoc] <;> rfl
    case post =>
      refine ⟨by simp [hs0'], by simp [BitVec.add_comm], ?_, ?_, hframe⟩
      · simp [Regs.keepsBut_iff, hkeeps.get, entry]
      · simp [hkeeps.get, entry]

theorem assemble_word (S : Serial P base) (L : Assembles P base pc) (regs : Regs) (mem : Mem)
    (p₀ p₁ p₂ p₃ : ℕ × Byte) (more : List (ℕ × Byte)) (busy : ℕ) (tx : List Byte)
    (hs0 : regs.get .s0 = 0#32) (hs1 : regs.get .s1 = 0#32) (hsp : Stack P (regs.get .sp) 24) :
    ∃ regs' mem', Steps (step P)
        ⟨regs, pc, pc + 4#32, mem, ⟨p₀ :: p₁ :: p₂ :: p₃ :: more, busy, tx⟩⟩
        ⟨regs', pc + 32#32, pc + 32#32 + 4#32, mem', ⟨more, busy, tx⟩⟩ ∧
      regs'.get .s1 = p₃.2 ++ p₂.2 ++ p₁.2 ++ p₀.2 ∧ regs.KeepsBut [.s0, .s1, .ra] regs' ∧
      (P.fetch (pc + 28#32) = some (.addu .v0 .s2 .s5) →
        regs'.get .v0 = regs.get .s2 + regs.get .s5) ∧
      Frame (regs.get .sp) 24 mem mem' := by
  obtain ⟨regs₁, mem₁, h₁, hc₁, hw₁, hk₁, -, hf₁⟩ :=
    assemble_byte S L regs mem p₀.1 p₀.2 (p₁ :: p₂ :: p₃ :: more) busy tx (j := 0) (by omega) hs0
      hsp
  have hsp₁ : regs₁.get .sp = regs.get .sp := hk₁.get (by simp) (by simp)
  obtain ⟨regs₂, mem₂, h₂, hc₂, hw₂, hk₂, -, hf₂⟩ :=
    assemble_byte S L regs₁ mem₁ p₁.1 p₁.2 (p₂ :: p₃ :: more) busy tx (j := 1) (by omega) hc₁
      (by rwa [hsp₁])
  have hsp₂ : regs₂.get .sp = regs.get .sp := (hk₂.get (by simp) (by simp)).trans hsp₁
  obtain ⟨regs₃, mem₃, h₃, hc₃, hw₃, hk₃, -, hf₃⟩ :=
    assemble_byte S L regs₂ mem₂ p₂.1 p₂.2 (p₃ :: more) busy tx (j := 2) (by omega) hc₂
      (by rwa [hsp₂])
  have hsp₃ : regs₃.get .sp = regs.get .sp := (hk₃.get (by simp) (by simp)).trans hsp₂
  obtain ⟨regs₄, mem₄, h₄, -, hw₄, hk₄, hv₄, hf₄⟩ :=
    assemble_byte S L regs₃ mem₃ p₃.1 p₃.2 more busy tx (j := 3) (by omega) hc₃ (by rwa [hsp₃])
  have hk := (hk₁.trans hk₂).trans hk₃
  refine ⟨regs₄, mem₄, ((h₁.trans h₂).trans h₃).trans h₄, ?word, hk.trans hk₄, ?sum, ?frame⟩
  case word =>
    rw [hw₄, hw₃, hw₂, hw₁, hs1]
    simpa using rotate_bytes p₀.2 p₁.2 p₂.2 p₃.2
  case sum =>
    intro hdelay
    rw [hv₄ hdelay, hk.get (r := .s2) (by simp) (by simp), hk.get (r := .s5) (by simp) (by simp)]
  case frame =>
    rw [hsp₁] at hf₂
    rw [hsp₂] at hf₃
    rw [hsp₃] at hf₄
    exact ((hf₁.trans hf₂).trans hf₃).trans hf₄

end Assembling

section Polling

def passed (n : ℕ) : List (ℕ × Byte) → List (ℕ × Byte)
  | [] => []
  | (d, b) :: more => (d - n, b) :: more

def Quiet (n : ℕ) (rx : List (ℕ × Byte)) : Prop := ∀ p ∈ rx.head?, n ≤ p.1

theorem passed_map (n : ℕ) (rx : List (ℕ × Byte)) :
    (passed n rx).map Prod.snd = rx.map Prod.snd := by
  rcases rx with _ | ⟨p, rx⟩ <;> rfl

theorem passed_zero (rx : List (ℕ × Byte)) : passed 0 rx = rx := by
  rcases rx with _ | ⟨p, rx⟩ <;> rfl

theorem Quiet.passed {m n : ℕ} {rx : List (ℕ × Byte)} (h : Quiet (m + n) rx) :
    Quiet n (W2.passed m rx) := by
  rcases rx with _ | ⟨⟨d, b⟩, rx⟩
  · simp [Quiet, W2.passed]
  · have hd : m + n ≤ d := h (d, b) (by simp)
    simp [Quiet, W2.passed]
    omega

/-- What is still to arrive from byte `i` on, the first byte of it nearer by the polls there have
been. -/
def Pending (queue : List (ℕ × Byte)) (i : ℕ) (rx : List (ℕ × Byte)) : Prop :=
  ∃ n, rx = passed n (queue.drop i)

theorem Pending.drop (queue : List (ℕ × Byte)) (i : ℕ) : Pending queue i (queue.drop i) :=
  ⟨0, (passed_zero _).symm⟩

theorem Pending.word {queue rx : List (ℕ × Byte)} {i : ℕ} (h : Pending queue i rx)
    (hi : i + 4 ≤ queue.length) : ∃ p₀ p₁ p₂ p₃, rx = p₀ :: p₁ :: p₂ :: p₃ :: queue.drop (i + 4) ∧
      (queue.map Prod.snd).take (i + 4) =
        (queue.map Prod.snd).take i ++ [p₀.2, p₁.2, p₂.2, p₃.2] := by
  obtain ⟨n, rfl⟩ := h
  have hdrop : queue.drop i =
      queue[i] :: queue[i + 1] :: queue[i + 2] :: queue[i + 3] :: queue.drop (i + 4) := by
    rw [List.drop_eq_getElem_cons (by omega), List.drop_eq_getElem_cons (by omega),
      List.drop_eq_getElem_cons (by omega), List.drop_eq_getElem_cons (by omega)]
  refine ⟨(queue[i].1 - n, queue[i].2), queue[i + 1], queue[i + 2], queue[i + 3], ?_, ?_⟩
  · rw [hdrop]
    rfl
  · rw [List.take_add, ← List.map_drop, hdrop]
    rfl

theorem poll_passed {n k : ℕ} {rx : List (ℕ × Byte)} (h : Quiet n rx) (hk : k < n) (busy : ℕ)
    (tx : List Byte) : Uart.ready ⟨passed k rx, busy, tx⟩ = false ∧
      Uart.poll ⟨passed k rx, busy, tx⟩ = ⟨passed (k + 1) rx, busy, tx⟩ := by
  rcases rx with _ | ⟨⟨d, b⟩, rx⟩
  · exact ⟨rfl, rfl⟩
  · have hd : n ≤ d := h (d, b) (by simp)
    obtain ⟨m, hm⟩ : ∃ m, d - k = m + 1 := ⟨d - k - 1, by omega⟩
    have hnext : d - (k + 1) = m := by omega
    simp [passed, Uart.ready, Uart.poll, hm, hnext]

/-- A loop that polls until a byte is there or 10000 polls have failed, counted in `s0`. -/
structure Polls (P : Platform Uart) (pc ready expired : Addr) (limit hit out : Regs → Prop) :
    Prop where
  found : ∀ regs mem u, limit regs → u.ready = true → ∃ regs',
    Steps (step P) ⟨regs, pc, pc + 4#32, mem, u⟩ ⟨regs', ready, ready + 4#32, mem, u.poll⟩ ∧
      regs.KeepsBut [.s0, .ra] regs' ∧ hit regs'
  missed : ∀ regs mem u j, limit regs → regs.get .s0 = BitVec.ofNat 32 j → j < 10000 →
    u.ready = false → ∃ regs',
      Steps (step P) ⟨regs, pc, pc + 4#32, mem, u⟩ ⟨regs', if j + 1 = 10000 then expired else pc,
        (if j + 1 = 10000 then expired else pc) + 4#32, mem, u.poll⟩ ∧
      regs'.get .s0 = BitVec.ofNat 32 (j + 1) ∧ limit regs' ∧ regs.KeepsBut [.s0, .ra] regs' ∧
      (j + 1 = 10000 → out regs')

theorem poll_call (S : Serial P base) (hcall : Calls P pc (base + 0x118#32))
    (hdelay : P.fetch (pc + 4#32) = some .nop) (regs : Regs) (mem : Mem) (u : Uart) :
    ∃ regs', Steps (step P) ⟨regs, pc, pc + 4#32, mem, u⟩
        ⟨regs', pc + 8#32, pc + 8#32 + 4#32, mem, u.poll⟩ ∧
      regs'.get .v0 = (if u.ready then 1#32 else 0#32) ∧ regs'.get .s0 = regs.get .s0 ∧
      regs.KeepsBut [.s0, .ra] regs' := by
  let entry := regs.set .ra (pc + 8#32)
  have hentry : Steps (step P) ⟨regs, pc, pc + 4#32, mem, u⟩
      ⟨entry, base + 0x118#32, base + 0x11c#32, mem, u⟩ := by
    apply Steps.of_run (n := 2)
    simp [hcall.run, hdelay, BitVec.add_assoc, entry]
  obtain ⟨regs', hpoll, hv0, hkeeps⟩ := S.rxReady_spec entry mem u
  rw [show entry.get .ra = pc + 8#32 by simp [entry]] at hpoll
  refine ⟨regs', hentry.trans hpoll, hv0, by simp [hkeeps.get, entry], ?_⟩
  simp [Regs.keepsBut_iff, hkeeps.get, entry]

variable {ready expired : Addr} {limit hit out : Regs → Prop}

theorem Polls.of_answer (S : Serial P base) (hcall : Calls P pc (base + 0x118#32))
    (hdelay : P.fetch (pc + 4#32) = some .nop)
    (hlimit : ∀ regs regs', regs.KeepsBut [.s0, .ra] regs' → limit regs → limit regs')
    (found : ∀ regs mem u, limit regs → regs.get .v0 = 1#32 → ∃ regs',
      Steps (step P) ⟨regs, pc + 8#32, pc + 8#32 + 4#32, mem, u⟩
        ⟨regs', ready, ready + 4#32, mem, u⟩ ∧
      regs.KeepsBut [.s0, .ra] regs' ∧ hit regs')
    (missed : ∀ regs mem u j, limit regs → regs.get .s0 = BitVec.ofNat 32 j → j < 10000 →
      regs.get .v0 = 0#32 → ∃ regs',
        Steps (step P) ⟨regs, pc + 8#32, pc + 8#32 + 4#32, mem, u⟩
          ⟨regs', if j + 1 = 10000 then expired else pc,
            (if j + 1 = 10000 then expired else pc) + 4#32, mem, u⟩ ∧
        regs'.get .s0 = BitVec.ofNat 32 (j + 1) ∧ regs.KeepsBut [.s0, .ra] regs' ∧ out regs') :
    Polls P pc ready expired limit hit out where
  found := by
    intro regs mem u hregs hready
    obtain ⟨regs₁, hpoll, hv0, -, hkeeps₁⟩ := poll_call S hcall hdelay regs mem u
    rw [if_pos hready] at hv0
    obtain ⟨regs₂, hsteps, hkeeps₂, hhit⟩ := found regs₁ mem u.poll (hlimit _ _ hkeeps₁ hregs) hv0
    exact ⟨regs₂, hpoll.trans hsteps, hkeeps₁.trans hkeeps₂, hhit⟩
  missed := by
    intro regs mem u j hregs hs0 hj hready
    obtain ⟨regs₁, hpoll, hv0, hs0₁, hkeeps₁⟩ := poll_call S hcall hdelay regs mem u
    rw [hready, if_neg (by simp)] at hv0
    have hregs₁ := hlimit _ _ hkeeps₁ hregs
    obtain ⟨regs₂, hsteps, hs0₂, hkeeps₂, hout⟩ :=
      missed regs₁ mem u.poll j hregs₁ (hs0₁.trans hs0) hj hv0
    exact ⟨regs₂, hpoll.trans hsteps, hs0₂, hlimit _ _ hkeeps₂ hregs₁, hkeeps₁.trans hkeeps₂,
      fun _ => hout⟩

theorem poll_count {j : ℕ} (hj : j < 10000) : BitVec.ofNat 32 j + 1#32 = BitVec.ofNat 32 (j + 1) ∧
    (BitVec.ofNat 32 (j + 1) = 10000#32 ↔ j + 1 = 10000) := by
  refine ⟨by bv_omega, ?_⟩
  constructor
  · intro h
    bv_omega
  · intro h
    rw [h]

theorem polls_missed (L : Polls P pc ready expired limit hit out) (regs : Regs) (mem : Mem)
    {n : ℕ} (hn : n ≤ 10000) {rx : List (ℕ × Byte)} (hquiet : Quiet n rx) (busy : ℕ)
    (tx : List Byte) (hs0 : regs.get .s0 = 0#32) (hlimit : limit regs) :
    ∃ regs', Steps (step P) ⟨regs, pc, pc + 4#32, mem, ⟨rx, busy, tx⟩⟩
        ⟨regs', if n = 10000 then expired else pc, (if n = 10000 then expired else pc) + 4#32, mem,
          ⟨passed n rx, busy, tx⟩⟩ ∧
      limit regs' ∧ regs.KeepsBut [.s0, .ra] regs' ∧ (n = 10000 → out regs') := by
  let I (k : ℕ) (s : State Uart) : Prop := ∃ regs',
    s = ⟨regs', if k = 10000 then expired else pc, (if k = 10000 then expired else pc) + 4#32, mem,
      ⟨passed k rx, busy, tx⟩⟩ ∧
    regs'.get .s0 = BitVec.ofNat 32 k ∧ limit regs' ∧ regs.KeepsBut [.s0, .ra] regs' ∧
    (k = 10000 → out regs')
  have round : ∀ k < n, ∀ s, I k s → ∃ t, Steps (step P) s t ∧ I (k + 1) t := by
    rintro k hk _ ⟨regs₁, rfl, hs0₁, hlimit₁, hkeeps₁, -⟩
    obtain ⟨hready, hpoll⟩ := poll_passed hquiet hk busy tx
    obtain ⟨regs₂, hsteps, hs0₂, hlimit₂, hkeeps₂, hout⟩ :=
      L.missed regs₁ mem ⟨passed k rx, busy, tx⟩ k hlimit₁ hs0₁ (by omega) hready
    rw [hpoll] at hsteps
    refine ⟨_, ?_, regs₂, rfl, hs0₂, hlimit₂, hkeeps₁.trans hkeeps₂, hout⟩
    rwa [if_neg (show ¬ k = 10000 by omega)]
  obtain ⟨_, hsteps, regs', rfl, -, hlimit', hkeeps, hout⟩ :=
    Steps.iterate round ⟨regs, rfl, hs0, hlimit, fun _ _ _ => rfl, fun h => by omega⟩
  exact ⟨regs', by simpa [passed_zero] using hsteps, hlimit', hkeeps, hout⟩

theorem polls_ready (L : Polls P pc ready expired limit hit out) (regs : Regs) (mem : Mem)
    {d : ℕ} (hd : d < 10000) (b : Byte) (more : List (ℕ × Byte)) (busy : ℕ) (tx : List Byte)
    (hs0 : regs.get .s0 = 0#32) (hlimit : limit regs) :
    ∃ regs', Steps (step P) ⟨regs, pc, pc + 4#32, mem, ⟨(d, b) :: more, busy, tx⟩⟩
        ⟨regs', ready, ready + 4#32, mem, ⟨(0, b) :: more, busy, tx⟩⟩ ∧
      regs.KeepsBut [.s0, .ra] regs' ∧ hit regs' := by
  have hquiet : Quiet d ((d, b) :: more) := by simp [Quiet]
  obtain ⟨regs₁, hmissed, hlimit₁, hkeeps₁, -⟩ :=
    polls_missed L regs mem hd.le hquiet busy tx hs0 hlimit
  rw [if_neg (by omega)] at hmissed
  simp only [passed, Nat.sub_self] at hmissed
  obtain ⟨regs₂, hfound, hkeeps₂, hhit⟩ := L.found regs₁ mem ⟨(0, b) :: more, busy, tx⟩ hlimit₁ rfl
  exact ⟨regs₂, hmissed.trans hfound, hkeeps₁.trans hkeeps₂, hhit⟩

theorem polls_pending (L : Polls P pc ready expired limit hit out) (regs : Regs) (mem : Mem)
    {queue : List (ℕ × Byte)} {i : ℕ} (hi : i < queue.length) (hd : queue[i].1 < 10000) (busy : ℕ)
    (tx : List Byte) (hs0 : regs.get .s0 = 0#32) (hlimit : limit regs) :
    ∃ regs' rx, Steps (step P) ⟨regs, pc, pc + 4#32, mem, ⟨queue.drop i, busy, tx⟩⟩
        ⟨regs', ready, ready + 4#32, mem, ⟨rx, busy, tx⟩⟩ ∧
      Pending queue i rx ∧ regs.KeepsBut [.s0, .ra] regs' ∧ hit regs' := by
  have hdrop : queue.drop i = (queue[i].1, queue[i].2) :: queue.drop (i + 1) :=
    List.drop_eq_getElem_cons hi
  obtain ⟨regs', hsteps, hkeeps, hhit⟩ :=
    polls_ready L regs mem hd queue[i].2 (queue.drop (i + 1)) busy tx hs0 hlimit
  rw [← hdrop] at hsteps
  refine ⟨regs', _, hsteps, ⟨queue[i].1, ?_⟩, hkeeps, hhit⟩
  rw [hdrop, passed, Nat.sub_self]

theorem polls_expired (L : Polls P pc ready expired limit hit out) (regs : Regs) (mem : Mem)
    {rx : List (ℕ × Byte)} (hquiet : Quiet 10000 rx) (busy : ℕ) (tx : List Byte)
    (hs0 : regs.get .s0 = 0#32) (hlimit : limit regs) :
    ∃ regs', Steps (step P) ⟨regs, pc, pc + 4#32, mem, ⟨rx, busy, tx⟩⟩
        ⟨regs', expired, expired + 4#32, mem, ⟨passed 10000 rx, busy, tx⟩⟩ ∧
      regs.KeepsBut [.s0, .ra] regs' ∧ out regs' := by
  obtain ⟨regs', hsteps, -, hkeeps, hout⟩ :=
    polls_missed L regs mem le_rfl hquiet busy tx hs0 hlimit
  exact ⟨regs', by simpa using hsteps, hkeeps, hout rfl⟩

theorem word_rounds {I : ℕ → Regs → Mem → Prop} {queue : List (ℕ × Byte)} {n busy : ℕ}
    {tx : List Byte} {head : Addr}
    (round : ∀ k < n, ∀ regs mem rx, I k regs mem → Pending queue (4 * k) rx →
      ∃ regs' mem' rx', Steps (step P) ⟨regs, head, head + 4#32, mem, ⟨rx, busy, tx⟩⟩
          ⟨regs', head, head + 4#32, mem', ⟨rx', busy, tx⟩⟩ ∧
        I (k + 1) regs' mem' ∧ Pending queue (4 * (k + 1)) rx')
    (regs : Regs) (mem : Mem) (h : I 0 regs mem) :
    ∃ regs' mem' rx, Steps (step P) ⟨regs, head, head + 4#32, mem, ⟨queue, busy, tx⟩⟩
        ⟨regs', head, head + 4#32, mem', ⟨rx, busy, tx⟩⟩ ∧
      I n regs' mem' ∧ Pending queue (4 * n) rx := by
  let J (k : ℕ) (s : State Uart) : Prop := ∃ regs mem rx,
    s = ⟨regs, head, head + 4#32, mem, ⟨rx, busy, tx⟩⟩ ∧ I k regs mem ∧ Pending queue (4 * k) rx
  have hround : ∀ k < n, ∀ s, J k s → ∃ t, Steps (step P) s t ∧ J (k + 1) t := by
    rintro k hk _ ⟨regs₁, mem₁, rx, rfl, hI, hrx⟩
    obtain ⟨regs₂, mem₂, rx₂, hsteps, hI₂, hrx₂⟩ := round k hk regs₁ mem₁ rx hI hrx
    exact ⟨_, hsteps, regs₂, mem₂, rx₂, rfl, hI₂, hrx₂⟩
  obtain ⟨_, hsteps, regs', mem', rx, rfl, hI, hrx⟩ :=
    Steps.iterate hround ⟨regs, mem, queue, rfl, h, Pending.drop queue 0⟩
  exact ⟨regs', mem', rx, hsteps, hI, hrx⟩

end Polling

end W2
