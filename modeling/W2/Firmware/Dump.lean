import W2.Firmware.Boot

/-!
# The menu's memory dump

Command 4 asks for a number of bytes and prints the words from the address upwards, four to a line.
The loop counts an offset in steps of 4 and goes on while it is below the number, both as unsigned
words: above 0xfffffffc there is no multiple of 4 that would end it.
-/

namespace W2

open Mips Transition Miniboot Console

def Miniboot.dump : List Word :=
  [0x3c041000, 0x0c0000e5, 0x24841850, 0x0c000123, 0x00000000, 0x10400015,
   0x00409021, 0x00008021, 0x080004ae, 0x00008821, 0x3222000f, 0x14400005,
   0x02901021, 0x3c041000, 0x0c0000e5, 0x24841728, 0x02901021, 0x8c440000,
   0x0c0000ff, 0x26300004, 0x0c0000e5, 0x00402021, 0x0c0000cc, 0x24040020,
   0x0212102b, 0x1440fff0, 0x02008821, 0x3c041000, 0x0c0000e5, 0x24841728,
   0x0800043a, 0x00000000]

def Miniboot.crlf : List Word :=
  [0x00000a0d]

def dumpPieces : List (ℕ × List Word) :=
  [(0x10001284, dump), (0x10001728, crlf)]

structure DumpBoard (P : Platform Uart) : Prop extends BootBoard P where
  dump : Pieces P dumpPieces

theorem DumpBoard.breakAt {P : Platform Uart} (D : DumpBoard P) {stops : Addr → Prop}
    [DecidablePred stops]
    (hstops : ∀ a, stops a → bootImage a = none ∧ codeOf dumpPieces a = none) :
    DumpBoard (P.breakAt stops) where
  toBoard := D.toBoard.breakAt fun a ha => (Option.or_eq_none_iff.mp (hstops a ha).1).1
  boot := D.boot.breakAt fun a ha => (Option.or_eq_none_iff.mp (hstops a ha).1).2
  buffer a ha := ⟨(D.buffer a ha).1.breakAt, (D.buffer a ha).2⟩
  selectReg := by simp [Platform.breakAt, D.selectReg]
  storeSelect u := by simp [Platform.breakAt, D.selectReg, D.storeSelect]
  dump := D.dump.breakAt fun a ha => (hstops a ha).2

/-- A register of a device can be read, and nothing is sent by reading it. -/
def Readable (P : Platform Uart) : Prop :=
  ∀ u a, P.device a = true → ∃ w u', P.load u a = some (w, u') ∧ u'.tx = u.tx

def lineBreak : List Byte := Console.puts [13#8, 10#8]

def dumpWord (k : ℕ) (w : Word) : List Byte :=
  (if k % 4 = 0 then lineBreak else []) ++ formatHex w ++ [32#8]

def dumpWords (words : List Word) : List Byte := (words.mapIdx dumpWord).flatten

def dumpPrompt (a : Addr) : List Byte := menuPrompt a ++ textBytes bootImage 6224

/-- At `x` on the run from `s` the dump loads `w` from `a`. Until then nothing but its scratch
memory has changed. -/
structure LoadedAt (P : Platform Uart) (sp a : Addr) (w : Word) (s x : State Uart) : Prop where
  steps : Steps (step P) s x
  pc : x.pc = 0x100012c8#32
  address : x.regs.get .v0 = a
  memory : Agree (Scratch sp 72) s.mem x.mem
  word : ∃ u, P.loadWord x.mem x.dev a = some (w, u)

def Dumped (P : Platform Uart) (sp a n : Addr) (s : State Uart) : Prop :=
  ∃ t words, Steps (step P) s t ∧ t.pc = 0x100010e8#32 ∧ t.npc = 0x100010ec#32 ∧
    words.length = (n.toNat + 3) / 4 ∧
    t.dev.tx = s.dev.tx ++ dumpPrompt a ++ dumpWords words ++ lineBreak ∧
    ∀ k (hk : k < words.length),
      ∃ x, LoadedAt P sp (a + BitVec.ofNat 32 (4 * k)) words[k] s x ∧ Steps (step P) x t

variable {P : Platform Uart} {sp a n : Addr}

theorem dump_listing (D : DumpBoard P) :
    P.fetch 0x10001284#32 = some (.lui .a0 0x1000) ∧
    P.fetch 0x1000128c#32 = some (.addiu .a0 .a0 6224) ∧
    P.fetch 0x10001290#32 = some (.jal 0x123) ∧
    P.fetch 0x10001294#32 = some .nop ∧
    P.fetch 0x10001298#32 = some (.beq .v0 .zero 21) ∧
    P.fetch 0x1000129c#32 = some (.addu .s2 .v0 .zero) ∧
    P.fetch 0x100012a0#32 = some (.addu .s0 .zero .zero) ∧
    P.fetch 0x100012a4#32 = some (.j 0x4ae) ∧
    P.fetch 0x100012a8#32 = some (.addu .s1 .zero .zero) ∧
    P.fetch 0x100012ac#32 = some (.andi .v0 .s1 0xf) ∧
    P.fetch 0x100012b0#32 = some (.bne .v0 .zero 5) ∧
    P.fetch 0x100012b4#32 = some (.addu .v0 .s4 .s0) ∧
    P.fetch 0x100012b8#32 = some (.lui .a0 0x1000) ∧
    P.fetch 0x100012c0#32 = some (.addiu .a0 .a0 5928) ∧
    P.fetch 0x100012c4#32 = some (.addu .v0 .s4 .s0) ∧
    P.fetch 0x100012c8#32 = some (.lw .a0 0 .v0) ∧
    P.fetch 0x100012cc#32 = some (.jal 0xff) ∧
    P.fetch 0x100012d0#32 = some (.addiu .s0 .s1 4) ∧
    P.fetch 0x100012d8#32 = some (.addu .a0 .v0 .zero) ∧
    P.fetch 0x100012dc#32 = some (.jal 0xcc) ∧
    P.fetch 0x100012e0#32 = some (.addiu .a0 .zero 32) ∧
    P.fetch 0x100012e4#32 = some (.sltu .v0 .s0 .s2) ∧
    P.fetch 0x100012e8#32 = some (.bne .v0 .zero (-16)) ∧
    P.fetch 0x100012ec#32 = some (.addu .s1 .s0 .zero) ∧
    P.fetch 0x100012f0#32 = some (.lui .a0 0x1000) ∧
    P.fetch 0x100012f8#32 = some (.addiu .a0 .a0 5928) ∧
    P.fetch 0x100012fc#32 = some (.j 0x43a) ∧
    P.fetch 0x10001300#32 = some .nop := by
  constructorm* _ ∧ _ <;> exact D.dump.fetch rfl

section Loop

/-- A word that can be loaded, whatever the memory and the devices have come to. -/
def Loadable (P : Platform Uart) (a : Addr) : Prop :=
  ∀ m u, ∃ w u', P.loadWord m u a = some (w, u') ∧ u'.tx = u.tx

structure Dumping (sp a n : Addr) (m₀ : Mem) (k : ℕ) (regs : Regs) (mem : Mem) : Prop where
  offset : regs.get .s0 = BitVec.ofNat 32 (4 * k)
  last : regs.get .s1 = BitVec.ofNat 32 (4 * k)
  base : regs.get .s4 = a
  count : regs.get .s2 = n
  stack : regs.get .sp = sp
  memory : Agree (Scratch sp 72) m₀ mem

def dumpEntry (k : ℕ) : Addr := if k % 4 = 0 then 0x100012b8#32 else 0x100012c8#32

variable {m₀ : Mem} {k : ℕ}

theorem crlf_string (D : DumpBoard P) (hidden : Addr → Prop) (m : Mem) :
    CString P hidden m 0x10001728#32 [13#8, 10#8] :=
  textIn_string D.dump hidden m (n := 3) (by decide +kernel)

theorem line_break (D : DumpBoard P) (pc : Addr) (hlui : P.fetch pc = some (.lui .a0 0x1000))
    (hcall : Calls P (pc + 4#32) 0x10000394#32)
    (harg : P.fetch (pc + 8#32) = some (.addiu .a0 .a0 5928)) (hstack : Stack P sp 72) (regs : Regs)
    (mem : Mem) (u : Uart) (hsp : regs.get .sp = sp) :
    ∃ regs' mem' j, Steps (step P) ⟨regs, pc, pc + 4#32, mem, u⟩
        ⟨regs', pc + 12#32, pc + 12#32 + 4#32, mem', u.sent j lineBreak⟩ ∧
      regs.KeepsBut [.ra] regs' ∧ Agree (Scratch sp 72) mem mem' := by
  obtain ⟨regs', mem', j, hputs, hkeeps, hframe⟩ :=
    puts_literal D.toBoard hlui (Or.inl rfl) hcall harg regs mem u hsp (hstack.weaken (by omega))
      (crlf_string D _ mem)
  exact ⟨regs', mem', j, hputs, hkeeps, hframe.mono fun a ha => Or.inl (ha.weaken (by omega))⟩

theorem dump_break (D : DumpBoard P) (hstack : Stack P sp 72) (regs : Regs) (mem : Mem) (u : Uart)
    (h : Dumping sp a n m₀ k regs mem)
    (hv0 : k % 4 ≠ 0 → regs.get .v0 = a + BitVec.ofNat 32 (4 * k)) :
    ∃ regs' mem' j, Steps (step P) ⟨regs, dumpEntry k, dumpEntry k + 4#32, mem, u⟩
        ⟨regs', 0x100012c8#32, 0x100012cc#32, mem',
          u.sent j (if k % 4 = 0 then lineBreak else [])⟩ ∧
      regs'.get .v0 = a + BitVec.ofNat 32 (4 * k) ∧ Dumping sp a n m₀ k regs' mem' := by
  by_cases hline : k % 4 = 0
  · obtain ⟨regs₁, mem₁, j, hbreak, hkeeps, hagree⟩ :=
      line_break D 0x100012b8#32 (by simp [dump_listing D]) ⟨_, D.dump.fetch rfl, rfl⟩
        (by simp [dump_listing D]) hstack regs mem u h.stack
    have hs0 : regs₁.get .s0 = BitVec.ofNat 32 (4 * k) := by
      rw [hkeeps.get (by simp) (by simp), h.offset]
    have hs4 : regs₁.get .s4 = a := by rw [hkeeps.get (by simp) (by simp), h.base]
    refine ⟨regs₁.set .v0 (a + BitVec.ofNat 32 (4 * k)), mem₁, j, ?run, by simp, ?loop⟩
    case run =>
      rw [if_pos hline, dumpEntry, if_pos hline]
      refine hbreak.trans (Steps.of_run (n := 1) ?_)
      simp [dump_listing D, hs0, hs4]
    case loop =>
      constructor
      case offset => simp [hs0]
      case last => simp [hkeeps.get, h.last]
      case base => simp [hs4]
      case count => simp [hkeeps.get, h.count]
      case stack => simp [hkeeps.get, h.stack]
      case memory => exact h.memory.trans hagree
  · refine ⟨regs, mem, u.busy, ?_, hv0 hline, h⟩
    rw [if_neg hline, dumpEntry, if_neg hline, Uart.sent_nil]
    exact Steps.refl _

theorem dump_load (D : DumpBoard P) (hstack : Stack P sp 72)
    (hapart : ∀ a, InHexBuffer a → ¬ Below sp 56 a) (regs : Regs) (mem : Mem) (u : Uart)
    (h : Dumping sp a n m₀ k regs mem) (hv0 : regs.get .v0 = a + BitVec.ofNat 32 (4 * k))
    {w : Word} {u' : Uart}
    (hload : P.loadWord mem u (a + BitVec.ofNat 32 (4 * k)) = some (w, u')) :
    ∃ regs' mem' j, Steps (step P) ⟨regs, 0x100012c8#32, 0x100012cc#32, mem, u⟩
        ⟨regs', 0x100012e4#32, 0x100012e8#32, mem', u'.sent j (formatHex w ++ [32#8])⟩ ∧
      regs'.get .s0 = BitVec.ofNat 32 (4 * (k + 1)) ∧ regs.KeepsBut [.s0, .ra] regs' ∧
      Agree (Scratch sp 72) m₀ mem' := by
  have hnext : BitVec.ofNat 32 (4 * k) + 4#32 = BitVec.ofNat 32 (4 * (k + 1)) := by
    rw [Nat.mul_succ, BitVec.ofNat_add]
  let entry := ((regs.set .a0 w).set .ra 0x100012d4#32).set .s0 (BitVec.ofNat 32 (4 * (k + 1)))
  have hentry : Steps (step P) ⟨regs, 0x100012c8#32, 0x100012cc#32, mem, u⟩
      ⟨entry, 0x100003fc#32, 0x10000400#32, mem, u'⟩ := by
    have hword : step P ⟨regs, 0x100012c8#32, 0x100012cc#32, mem, u⟩ =
        some ⟨regs.set .a0 w, 0x100012cc#32, 0x100012d0#32, mem, u'⟩ := by
      rw [step_mk, show P.fetch 0x100012c8#32 = some (.lw .a0 0 .v0) by simp [dump_listing D],
        andThen_some, exec_lw_loadWord, hv0]
      simp [hload]
    refine (Steps.single hword).trans (Steps.of_run (n := 2) ?_)
    simp [dump_listing D, h.last, hnext, entry]
  have hcall : Calls P 0x100012d4#32 0x10000394#32 := ⟨_, D.dump.fetch rfl, rfl⟩
  obtain ⟨regs₁, mem₁, j₁, hdigits, hkeeps₁, hframe⟩ :=
    puts_digits D.toBoard D.buffer (w := w) hcall (by simp [dump_listing D]) hentry
      (by simp [entry]) (by simp [entry]) (by simp [entry, h.stack]) (hstack.weaken (by omega))
      hapart
  simp only [BitVec.reduceAdd, puts_formatHex] at hdigits
  let blank := (regs₁.set .ra 0x100012e4#32).set .a0 32#32
  have hblank (v : Uart) : Steps (step P) ⟨regs₁, 0x100012dc#32, 0x100012e0#32, mem₁, v⟩
      ⟨blank, 0x10000330#32, 0x10000334#32, mem₁, v⟩ := by
    apply Steps.of_run (n := 2)
    simp [dump_listing D, blank]
  obtain ⟨regs₂, j₂, hput, hkeeps₂⟩ :=
    putchar_spec D.toBoard blank mem₁ (u'.sent j₁ (formatHex w))
  refine ⟨regs₂, mem₁, j₂, ?run, ?next, ?keeps, ?memory⟩
  case run =>
    have hlast := (hdigits.trans (hblank _)).trans hput
    simpa [blank] using hlast
  case next => simp [hkeeps₂.get, blank, hkeeps₁.get, entry]
  case keeps => simp [Regs.keepsBut_iff, hkeeps₂.get, blank, hkeeps₁.get, entry]
  case memory =>
    have hdigits := h.memory.trans (hexDigits_scratch sp 72 mem w)
    exact hdigits.trans (hframe.mono fun a ha => Or.inl (ha.weaken (by omega)))

theorem offset_line (k : ℕ) : BitVec.ofNat 32 (4 * k) &&& 0xf#32 = 0#32 ↔ k % 4 = 0 := by
  rw [← BitVec.toNat_inj, BitVec.toNat_and, show (0xf#32).toNat = 2 ^ 4 - 1 from rfl,
    Nat.and_two_pow_sub_one_eq_mod]
  simp only [BitVec.toNat_ofNat]
  omega

theorem dump_next (D : DumpBoard P) (regs : Regs) (mem : Mem) (u : Uart)
    (hs0 : regs.get .s0 = BitVec.ofNat 32 (4 * (k + 1))) (hs4 : regs.get .s4 = a)
    (hs2 : regs.get .s2 = n) :
    ∃ regs', Steps (step P) ⟨regs, 0x100012e4#32, 0x100012e8#32, mem, u⟩
        (if (BitVec.ofNat 32 (4 * (k + 1))).ult n then
          ⟨regs', dumpEntry (k + 1), dumpEntry (k + 1) + 4#32, mem, u⟩
        else ⟨regs', 0x100012f0#32, 0x100012f4#32, mem, u⟩) ∧
      regs'.get .s1 = BitVec.ofNat 32 (4 * (k + 1)) ∧
      ((k + 1) % 4 ≠ 0 → (BitVec.ofNat 32 (4 * (k + 1))).ult n = true →
        regs'.get .v0 = a + BitVec.ofNat 32 (4 * (k + 1))) ∧
      regs.KeepsBut [.s1] regs' := by
  cases hmore : (BitVec.ofNat 32 (4 * (k + 1))).ult n with
  | false =>
    refine ⟨(regs.set .v0 0#32).set .s1 (BitVec.ofNat 32 (4 * (k + 1))), Steps.of_run (n := 3) ?_,
      by simp, by simp, by simp [Regs.keepsBut_iff]⟩
    simp [dump_listing D, hs0, hs2, hmore]
  | true =>
    let next := BitVec.ofNat 32 (4 * (k + 1))
    refine ⟨((regs.set .v0 1#32).set .s1 next).set .v0 (a + next), ?run, by simp [next],
      fun _ _ => by simp [next], by simp [Regs.keepsBut_iff]⟩
    case run =>
      apply Steps.of_run (n := 6)
      by_cases hline : (k + 1) % 4 = 0
      · have hand : next &&& 0xf#32 = 0#32 := (offset_line (k + 1)).mpr hline
        simp [dump_listing D, hs0, hs2, hs4, hmore, hand, dumpEntry, hline, next]
      · have hand : next &&& 0xf#32 ≠ 0#32 := fun h => hline ((offset_line (k + 1)).mp h)
        simp [dump_listing D, hs0, hs2, hs4, hmore, hand, dumpEntry, hline, next]

theorem dumpWords_append (words : List Word) (w : Word) :
    dumpWords (words ++ [w]) = dumpWords words ++ dumpWord words.length w := by
  simp [dumpWords, List.mapIdx_append]

structure Reached (P : Platform Uart) (sp a n : Addr) (s : State Uart) (k : ℕ) (words : List Word)
    (t : State Uart) : Prop where
  steps : Steps (step P) s t
  pc : t.pc = dumpEntry k
  npc : t.npc = dumpEntry k + 4#32
  loop : Dumping sp a n s.mem k t.regs t.mem
  address : k % 4 ≠ 0 → t.regs.get .v0 = a + BitVec.ofNat 32 (4 * k)
  length : words.length = k
  sent : t.dev.tx = s.dev.tx ++ dumpPrompt a ++ dumpWords words
  loaded : ∀ j (hj : j < words.length),
    ∃ x, LoadedAt P sp (a + BitVec.ofNat 32 (4 * j)) words[j] s x ∧ Steps (step P) x t

variable {s t : State Uart} {words : List Word}

theorem loaded_append {w : Word} {t' x : State Uart} (h : Reached P sp a n s k words t)
    (hx : LoadedAt P sp (a + BitVec.ofNat 32 (4 * k)) w s x) (htx : Steps (step P) t x)
    (hxt : Steps (step P) x t') (j : ℕ) (hj : j < (words ++ [w]).length) :
    ∃ y, LoadedAt P sp (a + BitVec.ofNat 32 (4 * j)) (words ++ [w])[j] s y ∧
      Steps (step P) y t' := by
  by_cases hlast : j < words.length
  · obtain ⟨y, hy, hyt⟩ := h.loaded j hlast
    exact ⟨y, by simpa [List.getElem_append_left hlast] using hy, (hyt.trans htx).trans hxt⟩
  · obtain rfl : j = k := by
      rw [List.length_append, h.length] at hj
      rw [h.length] at hlast
      simp at hj
      omega
    exact ⟨x, by simpa [← h.length] using hx, hxt⟩

theorem dump_word (D : DumpBoard P) (hstack : Stack P sp 72)
    (hapart : ∀ a, InHexBuffer a → ¬ Below sp 56 a) (h : Reached P sp a n s k words t)
    (hload : Loadable P (a + BitVec.ofNat 32 (4 * k))) :
    ∃ w x regs mem u, LoadedAt P sp (a + BitVec.ofNat 32 (4 * k)) w s x ∧ Steps (step P) t x ∧
      Steps (step P) x ⟨regs, 0x100012e4#32, 0x100012e8#32, mem, u⟩ ∧
      u.tx = s.dev.tx ++ dumpPrompt a ++ dumpWords (words ++ [w]) ∧
      regs.get .s0 = BitVec.ofNat 32 (4 * (k + 1)) ∧ regs.get .s4 = a ∧ regs.get .s2 = n ∧
      regs.get .sp = sp ∧ Agree (Scratch sp 72) s.mem mem := by
  obtain ⟨regs, pc, npc, mem, u⟩ := t
  obtain rfl : pc = dumpEntry k := h.pc
  obtain rfl : npc = dumpEntry k + 4#32 := h.npc
  obtain ⟨regs₁, mem₁, j₁, hbreak, hv0₁, hloop⟩ := dump_break D hstack regs mem u h.loop h.address
  obtain ⟨w, u', hword, htx⟩ := hload mem₁ (u.sent j₁ (if k % 4 = 0 then lineBreak else []))
  obtain ⟨regs₂, mem₂, j₂, hprint, hs0, hkeeps, hagree⟩ :=
    dump_load D hstack hapart regs₁ mem₁ _ hloop hv0₁ hword
  refine ⟨w, _, regs₂, mem₂, _, ⟨h.steps.trans hbreak, rfl, hv0₁, hloop.memory, u', hword⟩, hbreak,
    hprint, ?sent, hs0, ?base, ?count, ?stack, hagree⟩
  case sent =>
    have hsent : u.tx = s.dev.tx ++ dumpPrompt a ++ dumpWords words := h.sent
    simp [htx, hsent, dumpWords_append, h.length, dumpWord]
  case base => rw [hkeeps.get (by simp) (by simp), hloop.base]
  case count => rw [hkeeps.get (by simp) (by simp), hloop.count]
  case stack => rw [hkeeps.get (by simp) (by simp), hloop.stack]

theorem dump_round (D : DumpBoard P) (hstack : Stack P sp 72)
    (hapart : ∀ a, InHexBuffer a → ¬ Below sp 56 a) (h : Reached P sp a n s k words t)
    (hload : Loadable P (a + BitVec.ofNat 32 (4 * k)))
    (hmore : (BitVec.ofNat 32 (4 * (k + 1))).ult n = true) :
    ∃ w t', Reached P sp a n s (k + 1) (words ++ [w]) t' ∧ Steps (step P) t t' := by
  obtain ⟨w, x, regs, mem, u, hx, htx, hprint, hsent, hs0, hs4, hs2, hsp, hagree⟩ :=
    dump_word D hstack hapart h hload
  obtain ⟨regs', hnext, hs1, hv0, hkeeps⟩ := dump_next D regs mem u hs0 hs4 hs2
  rw [if_pos hmore] at hnext
  refine ⟨w, _, ?reached, (htx.trans hprint).trans hnext⟩
  constructor
  case steps => exact (hx.steps.trans hprint).trans hnext
  case pc => rfl
  case npc => rfl
  case loop =>
    constructor
    case offset => rw [hkeeps.get (by simp) (by simp), hs0]
    case last => exact hs1
    case base => rw [hkeeps.get (by simp) (by simp), hs4]
    case count => rw [hkeeps.get (by simp) (by simp), hs2]
    case stack => rw [hkeeps.get (by simp) (by simp), hsp]
    case memory => exact hagree
  case address => exact fun hline => hv0 hline hmore
  case length => rw [List.length_append, h.length, List.length_singleton]
  case sent => exact hsent
  case loaded => exact loaded_append h hx htx (hprint.trans hnext)

theorem dump_end (D : DumpBoard P) (hstack : Stack P sp 72) (regs : Regs) (mem : Mem) (u : Uart)
    (hsp : regs.get .sp = sp) :
    ∃ t, Steps (step P) ⟨regs, 0x100012f0#32, 0x100012f4#32, mem, u⟩ t ∧
      t.pc = 0x100010e8#32 ∧ t.npc = 0x100010ec#32 ∧ t.dev.tx = u.tx ++ lineBreak := by
  obtain ⟨regs₁, mem₁, j, hbreak, -, -⟩ :=
    line_break D 0x100012f0#32 (by simp [dump_listing D]) ⟨_, D.dump.fetch rfl, rfl⟩
      (by simp [dump_listing D]) hstack regs mem u hsp
  refine ⟨⟨regs₁, 0x100010e8#32, 0x100010ec#32, mem₁, u.sent j lineBreak⟩,
    hbreak.trans (Steps.of_run (n := 2) ?_), rfl, rfl, rfl⟩
  simp [dump_listing D]

theorem dump_last (D : DumpBoard P) (hstack : Stack P sp 72)
    (hapart : ∀ a, InHexBuffer a → ¬ Below sp 56 a) (h : Reached P sp a n s k words t)
    (hload : Loadable P (a + BitVec.ofNat 32 (4 * k)))
    (hlast : (BitVec.ofNat 32 (4 * (k + 1))).ult n = false) (hk : k + 1 = (n.toNat + 3) / 4) :
    Dumped P sp a n s := by
  obtain ⟨w, x, regs, mem, u, hx, htx, hprint, hsent, hs0, hs4, hs2, hsp, hagree⟩ :=
    dump_word D hstack hapart h hload
  obtain ⟨regs', hnext, -, -, hkeeps⟩ := dump_next D regs mem u hs0 hs4 hs2
  rw [hlast] at hnext
  obtain ⟨t', hend, hpc, hnpc, hline⟩ :=
    dump_end D hstack regs' mem u (by rw [hkeeps.get (by simp) (by simp), hsp])
  have hafter : Steps (step P) x t' := (hprint.trans hnext).trans hend
  refine ⟨t', words ++ [w], hx.steps.trans hafter, hpc, hnpc, ?_, ?_,
    loaded_append h hx htx hafter⟩
  · rw [List.length_append, h.length, ← hk, List.length_singleton]
  · rw [hline, hsent]

end Loop

section Command

variable {number count rest : List (ℕ × Byte)} {d k : ℕ} {s : State Uart}

theorem dump_question (D : DumpBoard P) (hstack : Stack P sp 72) (regs : Regs) (mem : Mem)
    (u : Uart) (hsp : regs.get .sp = sp) :
    ∃ regs' mem' j, Steps (step P) ⟨regs, 0x10001284#32, 0x10001284#32 + 4#32, mem, u⟩
        ⟨regs', 0x10001290#32, 0x10001294#32, mem', u.sent j (textBytes bootImage 6224)⟩ ∧
      regs.KeepsBut [.ra] regs' ∧ Agree (Scratch sp 72) mem mem' := by
  have hsome : (textOf bootImage 6224).isSome = true := by decide +kernel
  obtain ⟨bs, hbytes, htext⟩ := textOf_string D.image hsome (Below sp 56) mem
  obtain ⟨regs', mem', j, hputs, hkeeps, hframe⟩ :=
    puts_literal D.toBoard (dump_listing D).1 (Or.inl rfl) ⟨_, D.dump.fetch rfl, rfl⟩
      (by simp [dump_listing D]) regs mem u hsp (hstack.weaken (by omega)) htext
  rw [← hbytes] at hputs
  exact ⟨regs', mem', j, hputs, hkeeps, hframe.mono fun x hx => Or.inl (hx.weaken (by omega))⟩

theorem dump_asked (D : DumpBoard P) (hstack : Stack P sp 72)
    (hapart : ∀ a, InHexBuffer a → ¬ Below sp 56 a) (hpc : s.pc = 0x100010fc#32)
    (hnpc : s.npc = 0x10001100#32) (hsp : s.regs.get .sp = sp)
    (hrx : s.dev.rx = (d, 52#8) :: (number ++ (count ++ rest)))
    (hnumber : getword (number.map Prod.snd) = some (a, []))
    (hcount : getword (count.map Prod.snd) = some (n, [])) :
    ∃ regs mem u, Steps (step P) s ⟨regs, 0x10001298#32, 0x1000129c#32, mem, u⟩ ∧
      regs.get .v0 = n ∧ regs.get .s4 = a ∧ regs.get .sp = sp ∧
      u.tx = s.dev.tx ++ dumpPrompt a ∧ Agree (Scratch sp 72) s.mem mem := by
  obtain ⟨regs, pc, npc, mem, rx, busy, tx⟩ := s
  simp only at hpc hnpc hsp hrx
  subst hpc hnpc hrx
  obtain ⟨regs₁, mem₁, j₁, hchosen, hs0₁, hs4₁, hsp₁, hagree₁⟩ :=
    menu_address D.toBootBoard hstack hapart (c := 52#8) (by decide) hnumber (count ++ rest) regs
      mem busy tx hsp (d := d)
  obtain ⟨regs₂, hjump, hkeeps₂⟩ :=
    menu_jump D.toBootBoard 0x10001284#32 regs₁ mem₁
      ⟨count ++ rest, j₁, tx ++ menuPrompt a⟩ hs0₁ (by decide) rfl
  have hs4₂ : regs₂.get .s4 = a := by rw [hkeeps₂.get (by simp), hs4₁]
  have hsp₂ : regs₂.get .sp = sp := by rw [hkeeps₂.get (by simp), hsp₁]
  obtain ⟨regs₃, mem₃, j₃, hputs, hkeeps₃, hagree₃⟩ :=
    dump_question D hstack regs₂ mem₁ ⟨count ++ rest, j₁, tx ++ menuPrompt a⟩ hsp₂
  let ask := regs₃.set .ra 0x10001298#32
  have hask (v : Uart) : Steps (step P) ⟨regs₃, 0x10001290#32, 0x10001294#32, mem₃, v⟩
      ⟨ask, 0x1000048c#32, 0x10000490#32, mem₃, v⟩ := by
    apply Steps.of_run (n := 2)
    simp [dump_listing D, ask]
  have hsp₃ : ask.get .sp = sp := by simp [ask, hkeeps₃.get, hsp₂]
  obtain ⟨regs₄, mem₄, hget, hv0, hkeeps₄, hframe₄⟩ :=
    D.toBoard.serial.getword_number ask mem₃ rest j₃
      (tx ++ menuPrompt a ++ textBytes bootImage 6224)
      (by rwa [hsp₃]) hcount
  rw [show ask.get .ra = 0x10001298#32 by simp [ask]] at hget
  rw [hsp₃] at hframe₄
  refine ⟨regs₄, mem₄, ⟨rest, j₃, tx ++ menuPrompt a ++ textBytes bootImage 6224⟩, ?run, hv0,
    ?address,
    ?stack, ?sent, ?memory⟩
  case run =>
    exact ((hchosen.trans hjump).trans hputs).trans ((hask _).trans hget)
  case address => simp [hkeeps₄.get, ask, hkeeps₃.get, hs4₂]
  case stack => rw [hkeeps₄.get (by simp), hsp₃]
  case sent => simp only [dumpPrompt, List.append_assoc]
  case memory => exact (hagree₁.trans hagree₃).trans (hframe₄.mono fun x hx => Or.inl hx)

theorem dump_start (D : DumpBoard P) (hstack : Stack P sp 72)
    (hapart : ∀ a, InHexBuffer a → ¬ Below sp 56 a) (hpc : s.pc = 0x100010fc#32)
    (hnpc : s.npc = 0x10001100#32) (hsp : s.regs.get .sp = sp)
    (hrx : s.dev.rx = (d, 52#8) :: (number ++ (count ++ rest)))
    (hnumber : getword (number.map Prod.snd) = some (a, []))
    (hcount : getword (count.map Prod.snd) = some (n, [])) :
    (n = 0#32 → Dumped P sp a n s) ∧ (n ≠ 0#32 → ∃ t, Reached P sp a n s 0 [] t) := by
  obtain ⟨regs, mem, u, hsteps, hv0, hs4, hspw, hsent, hagree⟩ :=
    dump_asked D hstack hapart hpc hnpc hsp hrx hnumber hcount
  constructor
  · intro hzero
    have hbranch : Steps (step P) ⟨regs, 0x10001298#32, 0x1000129c#32, mem, u⟩
        ⟨regs.set .s2 0#32, 0x100012f0#32, 0x100012f4#32, mem, u⟩ := by
      apply Steps.of_run (n := 2)
      simp [dump_listing D, hv0, hzero]
    obtain ⟨t, hend, hpc', hnpc', hline⟩ :=
      dump_end D hstack (regs.set .s2 0#32) mem u (by simp [hspw])
    refine ⟨t, [], (hsteps.trans hbranch).trans hend, hpc', hnpc', by simp [hzero], ?_, by simp⟩
    simp [hline, hsent, dumpWords]
  · intro hn
    let entry := ((regs.set .s2 n).set .s0 0#32).set .s1 0#32
    have hbranch : Steps (step P) ⟨regs, 0x10001298#32, 0x1000129c#32, mem, u⟩
        ⟨entry, 0x100012b8#32, 0x100012bc#32, mem, u⟩ := by
      apply Steps.of_run (n := 5)
      simp [dump_listing D, hv0, hn, entry]
    refine ⟨_, hsteps.trans hbranch, rfl, rfl, ?loop, by simp, rfl, ?sent, by simp⟩
    case loop => constructor <;> simp [entry, hs4, hspw, hagree]
    case sent => simp [hsent, dumpWords]

end Command

section Extent

theorem loadable_word (hread : Readable P) (h : P.device a = true ∨ a.toNat % 4 = 0) :
    Loadable P a := by
  intro m u
  cases hdev : P.device a with
  | true =>
    obtain ⟨w, u', hload, htx⟩ := hread u a hdev
    exact ⟨w, u', by simp [Platform.loadWord, hdev, hload], htx⟩
  | false =>
    have halign := h.resolve_left (by simp [hdev])
    cases hcode : P.code a with
    | none =>
      exact ⟨m.readWord a, u, by simp [Platform.loadWord, Platform.readWord, hdev, halign, hcode],
        rfl⟩
    | some w =>
      exact ⟨w, u, by simp [Platform.loadWord, Platform.readWord, hdev, halign, hcode], rfl⟩

theorem loadable_breakAt {stops : Addr → Prop} [DecidablePred stops] (h : Loadable P a) :
    Loadable (P.breakAt stops) a := by
  intro m u
  rw [breakAt_loadWord]
  exact h m u

theorem offset_below {k : ℕ} (hk : 4 * k < 4294967296) :
    (BitVec.ofNat 32 (4 * k)).ult n = decide (4 * k < n.toNat) := by
  simp [BitVec.ult, Nat.mod_eq_of_lt hk]

variable {s t : State Uart}

theorem dump_rounds (D : DumpBoard P) (hstack : Stack P sp 72)
    (hapart : ∀ a, InHexBuffer a → ¬ Below sp 56 a) (h : Reached P sp a n s 0 [] t) {k : ℕ}
    (hk : 4 * k < n.toNat) (hload : ∀ j < k, Loadable P (a + BitVec.ofNat 32 (4 * j))) :
    ∃ words t', Reached P sp a n s k words t' := by
  induction k with
  | zero => exact ⟨[], t, h⟩
  | succ k ih =>
    obtain ⟨words, t', hreached⟩ := ih (by omega) fun j hj => hload j (by omega)
    have hmore : (BitVec.ofNat 32 (4 * (k + 1))).ult n = true := by
      rw [offset_below (by have := n.isLt; omega), decide_eq_true hk]
    obtain ⟨w, t'', hnext, -⟩ := dump_round D hstack hapart hreached (hload k (by omega)) hmore
    exact ⟨words ++ [w], t'', hnext⟩

theorem dump_ends (D : DumpBoard P) (hstack : Stack P sp 72)
    (hapart : ∀ a, InHexBuffer a → ¬ Below sp 56 a) (h : Reached P sp a n s 0 [] t) (hn : n ≠ 0#32)
    (hlimit : n.toNat ≤ 0xfffffffc)
    (hload : ∀ k < (n.toNat + 3) / 4, Loadable P (a + BitVec.ofNat 32 (4 * k))) :
    Dumped P sp a n s := by
  have hpos : 0 < n.toNat := by bv_omega
  obtain ⟨k, hk⟩ : ∃ k, k + 1 = (n.toNat + 3) / 4 := ⟨(n.toNat + 3) / 4 - 1, by omega⟩
  obtain ⟨words, t', hreached⟩ :=
    dump_rounds D hstack hapart h (k := k) (by omega) fun j hj => hload j (by omega)
  have hlast : (BitVec.ofNat 32 (4 * (k + 1))).ult n = false := by
    rw [offset_below (by omega), decide_eq_false (by omega)]
  exact dump_last D hstack hapart hreached (hload k (by omega)) hlast hk

/-- No multiple of 4 is large enough to end the dump of more than 0xfffffffc bytes. -/
theorem dump_forever (D : DumpBoard P) (hstack : Stack P sp 72)
    (hapart : ∀ a, InHexBuffer a → ¬ Below sp 56 a) (h : Reached P sp a n s 0 [] t)
    (hlimit : 0xfffffffc < n.toNat) (hload : ∀ k, Loadable P (a + BitVec.ofNat 32 (4 * k))) :
    Diverges (step P) t := by
  refine Diverges.of_rounds (I := fun x => ∃ k words, Reached P sp a n s k words x) ?round
    ⟨0, [], h⟩
  rintro x ⟨k, words, hx⟩
  have hmore : (BitVec.ofNat 32 (4 * (k + 1))).ult n = true := by
    simp only [BitVec.ult, BitVec.toNat_ofNat, decide_eq_true_eq]
    omega
  obtain ⟨w, y, hy, hsteps⟩ := dump_round D hstack hapart hx (hload k) hmore
  refine ⟨y, hsteps, ?_, k + 1, words ++ [w], hy⟩
  rintro rfl
  -- a round sends something, so it does not come back to the same state
  have hgrown := hy.sent
  rw [hx.sent, dumpWords_append] at hgrown
  simpa [dumpWord] using congrArg List.length hgrown

theorem dump_comes (D : DumpBoard P) (hstack : Stack P sp 72)
    (hapart : ∀ a, InHexBuffer a → ¬ Below sp 56 a) (h : Reached P sp a n s 0 [] t) {k : ℕ}
    (hk : 4 * k < n.toNat) (hload : ∀ j < k, Loadable P (a + BitVec.ofNat 32 (4 * j))) :
    ∃ x, Steps (step P) s x ∧ x.pc = 0x100012c8#32 ∧
      x.regs.get .v0 = a + BitVec.ofNat 32 (4 * k) := by
  obtain ⟨words, ⟨regs, pc, npc, mem, u⟩, hreached⟩ := dump_rounds D hstack hapart h hk hload
  obtain rfl : pc = dumpEntry k := hreached.pc
  obtain rfl : npc = dumpEntry k + 4#32 := hreached.npc
  obtain ⟨regs', mem', j, hbreak, hv0, -⟩ :=
    dump_break D hstack regs mem u hreached.loop hreached.address
  exact ⟨_, hreached.steps.trans hbreak, rfl, hv0⟩

theorem load_stuck (D : DumpBoard P) (hpc : s.pc = 0x100012c8#32)
    (hfault : ∀ m u, P.loadWord m u (s.regs.get .v0) = none) : step P s = none := by
  obtain ⟨regs, pc, npc, mem, u⟩ := s
  obtain rfl : pc = 0x100012c8#32 := hpc
  rw [step_mk, show P.fetch 0x100012c8#32 = some (.lw .a0 0 .v0) by simp [dump_listing D],
    andThen_some, exec_lw_loadWord]
  simpa using hfault mem u

theorem offset_wraps (k : ℕ) :
    BitVec.ofNat 32 (4 * k) = BitVec.ofNat 32 (4 * (k % 1073741824)) := by
  rw [← BitVec.toNat_inj, BitVec.toNat_ofNat, BitVec.toNat_ofNat]
  omega

theorem offset_aligned (a : Addr) (k : ℕ) :
    (a + BitVec.ofNat 32 (4 * k)).toNat % 4 = a.toNat % 4 := by
  simp only [BitVec.toNat_add, BitVec.toNat_ofNat]
  omega

theorem loadable_offset (hread : Readable P) {k : ℕ}
    (h : P.device (a + BitVec.ofNat 32 (4 * k)) = true ∨ a.toNat % 4 = 0) :
    Loadable P (a + BitVec.ofNat 32 (4 * k)) :=
  loadable_word hread (by rwa [offset_aligned])

abbrev atMenu (a : Addr) : Prop := a = 0x100010e8#32

theorem DumpBoard.stop (D : DumpBoard P) : DumpBoard (P.breakAt atMenu) :=
  D.breakAt (by rintro x rfl; exact ⟨rfl, rfl⟩)

theorem passes_menu {x v : State Uart} (h : Steps (step (P.breakAt atMenu)) s x)
    (hv : Steps (step P) s v) (hpc : v.pc = 0x100010e8#32) : Steps (step P) x v := by
  rcases h.passes (fun _ _ h => (step_breakAt h).1) hv with hrest | ⟨y, hy⟩
  · exact hrest
  · exact absurd hpc (step_breakAt hy).2

section Ended

variable (D : DumpBoard P) (hread : Readable P) (hstack : Stack P sp 72)
  (hapart : ∀ a, InHexBuffer a → ¬ Below sp 56 a) {v : State Uart} (hv : Steps (step P) s v)
  (hpc : v.pc = 0x100010e8#32) (h : Reached (P.breakAt atMenu) sp a n s 0 [] t)

include D hread hstack hapart hv hpc h

theorem words_loadable :
    ∀ k < (n.toNat + 3) / 4, P.device (a + BitVec.ofNat 32 (4 * k)) = true ∨ a.toNat % 4 = 0 := by
  intro k
  induction k using Nat.strong_induction_on with
  | h k ih =>
    intro hk
    by_contra hbad
    rw [not_or, Bool.not_eq_true] at hbad
    have hfault (m : Mem) (u : Uart) : P.loadWord m u (a + BitVec.ofNat 32 (4 * k)) = none := by
      simp [Platform.loadWord, Platform.readWord, hbad.1, hbad.2]
    obtain ⟨y, hy, hypc, hv0⟩ := dump_comes D.stop hstack.breakAt hapart h (k := k) (by omega)
      fun j hj => loadable_breakAt (loadable_offset hread (ih j hj (by omega)))
    have hstuck : step P y = none := load_stuck D hypc (by rwa [hv0])
    rw [← (passes_menu hy hv hpc).eq_of_stuck hstuck, hypc] at hpc
    exact absurd hpc (by decide)

theorem count_reachable : n.toNat ≤ 0xfffffffc := by
  by_contra hlimit
  have hforever : Diverges (step (P.breakAt atMenu)) t := by
    refine dump_forever D.stop hstack.breakAt hapart h (by omega) fun k => ?_
    -- the offset has wrapped to one the dump has already loaded a word at
    have hwords := words_loadable D hread hstack hapart hv hpc h (k % 1073741824) (by omega)
    rw [offset_wraps]
    exact loadable_breakAt (loadable_offset hread hwords)
  obtain ⟨y, hy⟩ :=
    hforever.passes (fun _ _ h => (step_breakAt h).1) (passes_menu h.steps hv hpc)
  exact (step_breakAt hy).2 hpc

end Ended

/-- The dump ends with the words it is to print exactly for the numbers of bytes that a multiple of
4 can reach, if every word can be loaded: it belongs to a device, or the address is a multiple of
4. -/
theorem dump_extent {number count rest : List (ℕ × Byte)} {d : ℕ} (D : DumpBoard P)
    (hread : Readable P) (hstack : Stack P sp 72)
    (hapart : ∀ a, InHexBuffer a → ¬ Below sp 56 a) (s : State Uart) (hpc : s.pc = 0x100010fc#32)
    (hnpc : s.npc = 0x10001100#32) (hsp : s.regs.get .sp = sp)
    (hrx : s.dev.rx = (d, 52#8) :: (number ++ (count ++ rest)))
    (hnumber : getword (number.map Prod.snd) = some (a, []))
    (hcount : getword (count.map Prod.snd) = some (n, [])) :
    Dumped P sp a n s ↔ n.toNat ≤ 0xfffffffc ∧ ∀ k < (n.toNat + 3) / 4,
      P.device (a + BitVec.ofNat 32 (4 * k)) = true ∨ a.toNat % 4 = 0 := by
  by_cases hn : n = 0#32
  · have hdumped := (dump_start D hstack hapart hpc hnpc hsp hrx hnumber hcount).1 hn
    subst hn
    simp [hdumped]
  constructor
  case mpr =>
    rintro ⟨hlimit, hwords⟩
    obtain ⟨t, ht⟩ := (dump_start D hstack hapart hpc hnpc hsp hrx hnumber hcount).2 hn
    exact dump_ends D hstack hapart ht hn hlimit fun k hk => loadable_offset hread (hwords k hk)
  case mp =>
    rintro ⟨v, words, hv, hvpc, -⟩
    obtain ⟨t, ht⟩ :=
      (dump_start D.stop hstack.breakAt hapart hpc hnpc hsp hrx hnumber hcount).2 hn
    exact ⟨count_reachable D hread hstack hapart hv hvpc ht,
      words_loadable D hread hstack hapart hv hvpc ht⟩

end Extent

section Bench

def answering (P : Platform Uart) : Platform Uart :=
  { P with load := fun u a => some ((P.load u a).getD (0#32, u)) }

theorem Wired.answering (W : Wired P) : Wired (answering P) where
  dataReg := W.dataReg
  busyReg := W.busyReg
  sendReg := W.sendReg
  readyReg := W.readyReg
  loadReady u :=
    have ⟨w, hload, hbit⟩ := W.loadReady u
    ⟨w, by simp [W2.answering, hload], hbit⟩
  loadData u b rest hu :=
    have ⟨w, hload, hbyte⟩ := W.loadData u b rest hu
    ⟨w, by simp [W2.answering, hload], hbyte⟩
  loadBusy u :=
    have ⟨w, hload, hbit⟩ := W.loadBusy u
    ⟨w, by simp [W2.answering, hload], hbit⟩
  storeSend := W.storeSend

theorem Board.answering (B : Board P) : Board (answering P) :=
  ⟨B.toWired.answering, B.toHolds.congr rfl rfl⟩

def dumpBench : Platform Uart :=
  answering { benchWith (bootPieces ++ dumpPieces) with store := bootBench.store }

theorem dumpPieces_placed : Placed (bootPieces ++ dumpPieces) := by decide

theorem dumpBench_low : LowMemory dumpBench := benchWith_low dumpPieces_placed

theorem dumpBench_pieces : Pieces dumpBench (bootPieces ++ dumpPieces) :=
  (benchWith_pieces dumpPieces_placed (by decide)).congr rfl rfl

theorem dumpBench_board : DumpBoard dumpBench where
  toBoard :=
    Board.answering
      { benchWith_board dumpPieces_placed with
        storeSend := fun u b hu => ⟨u.busy, by simp [bootBench, bench]⟩ }
  boot := dumpBench_pieces.mono fun a w h => by simp [codeOf_append, h]
  dump :=
    have hfree : Apart dumpPieces bootPieces := by decide
    dumpBench_pieces.mono fun a w h => by simp [codeOf_append, codeOf_apart hfree h, h]
  buffer := dumpBench_low.buffer
  selectReg := by decide
  storeSelect _ := rfl

theorem dumpBench_readable : Readable dumpBench := by
  intro u a _
  refine ⟨_, _, rfl, ?_⟩
  change ((bench.load u a).getD (0#32, u)).2.tx = u.tx
  cases h : bench.load u a with
  | none => rfl
  | some r => exact bench_load_tx h

theorem dumpBench_stack : Stack dumpBench 0x01000f00#32 72 := dumpBench_low.stack (by decide)

def dumpStart (number count : List Byte) : State Uart where
  regs r := if r = .sp then 0x01000f00#32 else 0#32
  pc := 0x100010fc#32
  npc := 0x10001100#32
  mem _ := 0#8
  dev := ⟨(0, 52#8) :: (number.map (fun b => (0, b)) ++ (count.map (fun b => (0, b)) ++ [])), 0, []⟩

/-- `4100 5 ` prints two words. -/
theorem dump_extent_five :
    Dumped dumpBench 0x01000f00#32 0x100#32 5#32 (dumpStart [49, 48, 48, 32] [53, 32]) :=
  (dump_extent dumpBench_board dumpBench_readable dumpBench_stack (buffer_apart (by decide))
    (dumpStart [49, 48, 48, 32] [53, 32]) rfl rfl rfl rfl (by decide) (by decide)).mpr
    ⟨by decide, fun _ _ => Or.inr (by decide)⟩

/-- `40 ffffffff ` goes on for ever. -/
theorem dump_extent_endless :
    ¬ Dumped dumpBench 0x01000f00#32 0#32 0xffffffff#32
      (dumpStart [48, 32] [102, 102, 102, 102, 102, 102, 102, 102, 32]) := by
  rintro ⟨t, words, hsteps, hpc, -⟩
  have hapart : ∀ a, InHexBuffer a → ¬ Below 0x01000f00#32 56 a := buffer_apart (by decide)
  obtain ⟨x, hx⟩ := (dump_start dumpBench_board.stop dumpBench_stack.breakAt hapart
    (s := dumpStart [48, 32] [102, 102, 102, 102, 102, 102, 102, 102, 32]) (a := 0#32)
    (n := 0xffffffff#32) rfl rfl rfl rfl (by decide) (by decide)).2 (by decide)
  have hlimit := count_reachable dumpBench_board dumpBench_readable dumpBench_stack hapart hsteps
    hpc hx
  exact absurd hlimit (by decide)

end Bench

end W2
