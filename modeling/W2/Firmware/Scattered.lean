import W2.Firmware.Bench

/-!
# The scattered read in machine code

`R` (0x100007d0) collects the addresses it is sent in its stack frame of 440 bytes, from offset 16
on, and then prints the word at each. The frame has room for 100 addresses under the saved
registers at 416 to 432: the next four go over `s0` to `s3`, the one after them over the return
address, and from the 107th on they leave the frame.
-/

namespace W2

open Mips Transition Miniboot Console

def Miniboot.commandScattered : List Word :=
  [0x27bdfe48, 0xafbf01b0, 0xafb301ac, 0xafb201a8, 0xafb101a4, 0x0c000123, 0xafb001a0,
   0x10400021, 0x00408821, 0x00009021, 0x27b00010, 0x0c000123, 0x26520001, 0xae020000,
   0x1651fffc, 0x26100004, 0x0c0000cc, 0x24040002, 0x00008821, 0x27b00010, 0x3c131000,
   0x8e020000, 0x00000000, 0x8c440000, 0x0c0000ff, 0x26310001, 0x0c0000e5, 0x00402021,
   0x0c0000e5, 0x26641770, 0x1632fff6, 0x26100004, 0x0c0000cc, 0x24040003, 0x8fbf01b0,
   0x8fb301ac, 0x8fb201a8, 0x8fb101a4, 0x8fb001a0, 0x03e00008, 0x27bd01b8, 0x0c0000cc,
   0x24040002, 0x08000214, 0x00000000]

variable {P : Platform Uart} {sp : Addr}

theorem scattered_listing (h : Pieces P [(0x100007d0, commandScattered)]) :
    P.fetch 0x100007d0#32 = some (.addiu .sp .sp (-440)) ∧
    P.fetch 0x100007d4#32 = some (.sw .ra 432 .sp) ∧
    P.fetch 0x100007d8#32 = some (.sw .s3 428 .sp) ∧
    P.fetch 0x100007dc#32 = some (.sw .s2 424 .sp) ∧
    P.fetch 0x100007e0#32 = some (.sw .s1 420 .sp) ∧
    P.fetch 0x100007e4#32 = some (.jal 0x123) ∧
    P.fetch 0x100007e8#32 = some (.sw .s0 416 .sp) ∧
    P.fetch 0x100007ec#32 = some (.beq .v0 .zero 33) ∧
    P.fetch 0x100007f0#32 = some (.addu .s1 .v0 .zero) ∧
    P.fetch 0x100007f4#32 = some (.addu .s2 .zero .zero) ∧
    P.fetch 0x100007f8#32 = some (.addiu .s0 .sp 16) ∧
    P.fetch 0x100007fc#32 = some (.jal 0x123) ∧
    P.fetch 0x10000800#32 = some (.addiu .s2 .s2 1) ∧
    P.fetch 0x10000804#32 = some (.sw .v0 0 .s0) ∧
    P.fetch 0x10000808#32 = some (.bne .s2 .s1 (-4)) ∧
    P.fetch 0x1000080c#32 = some (.addiu .s0 .s0 4) ∧
    P.fetch 0x10000810#32 = some (.jal 0xcc) ∧
    P.fetch 0x10000814#32 = some (.addiu .a0 .zero 2) ∧
    P.fetch 0x10000818#32 = some (.addu .s1 .zero .zero) ∧
    P.fetch 0x1000081c#32 = some (.addiu .s0 .sp 16) ∧
    P.fetch 0x10000820#32 = some (.lui .s3 0x1000) ∧
    P.fetch 0x10000824#32 = some (.lw .v0 0 .s0) ∧
    P.fetch 0x10000828#32 = some .nop ∧
    P.fetch 0x1000082c#32 = some (.lw .a0 0 .v0) ∧
    P.fetch 0x10000830#32 = some (.jal 0xff) ∧
    P.fetch 0x10000834#32 = some (.addiu .s1 .s1 1) ∧
    P.fetch 0x10000838#32 = some (.jal 0xe5) ∧
    P.fetch 0x1000083c#32 = some (.addu .a0 .v0 .zero) ∧
    P.fetch 0x10000840#32 = some (.jal 0xe5) ∧
    P.fetch 0x10000844#32 = some (.addiu .a0 .s3 6000) ∧
    P.fetch 0x10000848#32 = some (.bne .s1 .s2 (-10)) ∧
    P.fetch 0x1000084c#32 = some (.addiu .s0 .s0 4) ∧
    P.fetch 0x10000850#32 = some (.jal 0xcc) ∧
    P.fetch 0x10000854#32 = some (.addiu .a0 .zero 3) ∧
    P.fetch 0x10000858#32 = some (.lw .ra 432 .sp) ∧
    P.fetch 0x1000085c#32 = some (.lw .s3 428 .sp) ∧
    P.fetch 0x10000860#32 = some (.lw .s2 424 .sp) ∧
    P.fetch 0x10000864#32 = some (.lw .s1 420 .sp) ∧
    P.fetch 0x10000868#32 = some (.lw .s0 416 .sp) ∧
    P.fetch 0x1000086c#32 = some (.jr .ra) ∧
    P.fetch 0x10000870#32 = some (.addiu .sp .sp 440) ∧
    P.fetch 0x10000874#32 = some (.jal 0xcc) ∧
    P.fetch 0x10000878#32 = some (.addiu .a0 .zero 2) ∧
    P.fetch 0x1000087c#32 = some (.j 0x214) ∧
    P.fetch 0x10000880#32 = some .nop := by
  constructorm* _ ∧ _ <;> exact h.fetch rfl

theorem call_scattered (h : Holds P) : HandlerCall P 0x1000100c#32 0x100007d0#32 := by
  constructor <;> simp [console_listing h]

structure ScatteredBoard (P : Platform Uart) (sp : Addr) : Prop extends Board P where
  routine : Pieces P [(0x100007d0, commandScattered)]
  stack : Stack P sp 512
  buffer : HexBuffer P
  apart : ∀ a, InHexBuffer a → ¬ Below sp 512 a

theorem ScatteredBoard.confine (K : ScatteredBoard P sp) :
    ScatteredBoard (P.confine (Scratch sp 512)) sp where
  toBoard := K.toBoard.confine _
  routine := K.routine.congr rfl rfl
  stack := K.stack.confine fun _ => Or.inl
  buffer := K.buffer.confine fun _ => Or.inr
  apart := K.apart

section Collecting

theorem slot_plain (K : ScatteredBoard P sp) {j : ℕ} (hj : j < 106) :
    P.Plain (sp + 0xfffffe58#32 + BitVec.ofNat 32 (4 * j)) := by
  have := K.stack.plain (c := 0xfffffe58#32 + BitVec.ofNat 32 (4 * j)) (by bv_omega) (by bv_omega)
  rwa [← BitVec.add_assoc] at this

/-- The memory after some addresses have been put over the saved registers. -/
def CollectedMem (caller : Regs) (sp : Addr) (mem : Mem) (addrs : List Word) (mem' : Mem) : Prop :=
  Frame (sp + 0xfffffe48#32) 72
    ((save mem sp caller printSlots).writeWords (sp + 0xfffffe58#32) addrs) mem'

structure Collected (caller : Regs) (sp : Addr) (mem : Mem) (tx : List Byte) (n : Word)
    (addrs : List Word) (rest : List Byte) (k : ℕ) (s : State Uart) : Prop where
  pc : s.pc = if k = n.toNat then 0x10000810#32 else 0x100007fc#32
  npc : s.npc = s.pc + 4#32
  s0 : s.regs.get .s0 = sp + 0xfffffe58#32 + BitVec.ofNat 32 (4 * k)
  s1 : s.regs.get .s1 = n
  s2 : s.regs.get .s2 = BitVec.ofNat 32 k
  frame : s.regs.get .sp = sp + 0xfffffe48#32
  keeps : caller.KeepsBut [.s0, .s1, .s2, .s3, .sp, .ra] s.regs
  agree : CollectedMem caller sp mem (addrs.take k) s.mem
  input : getwords (n.toNat - k) s.dev.input = some (addrs.drop k, rest)
  tx : s.dev.tx = tx

variable {caller : Regs} {mem : Mem} {tx : List Byte} {n : Word} {addrs : List Word}
  {rest : List Byte} {k : ℕ} {s : State Uart}

theorem collected_get (K : ScatteredBoard P sp) (hs : Collected caller sp mem tx n addrs rest k s)
    (hk : k < n.toNat) :
    ∃ regs mem' u a ws, Steps (step P) s ⟨regs, 0x10000804#32, 0x10000808#32, mem', u⟩ ∧
      addrs.drop k = a :: ws ∧ regs.get .v0 = a ∧ regs.get .s0 = s.regs.get .s0 ∧
      regs.get .s1 = n ∧ regs.get .s2 = BitVec.ofNat 32 (k + 1) ∧
      regs.get .sp = sp + 0xfffffe48#32 ∧
      caller.KeepsBut [.s0, .s1, .s2, .s3, .sp, .ra] regs ∧
      CollectedMem caller sp mem (addrs.take k) mem' ∧
      getwords (n.toNat - (k + 1)) u.input = some (ws, rest) ∧ u.tx = tx := by
  obtain ⟨regs, pc, npc, mem₁, u⟩ := s
  obtain ⟨hpc, hnpc, hs0, hs1, hs2, hsp, hkeeps, hmem, hinput, htx⟩ := hs
  simp only at hpc hnpc hs0 hs1 hs2 hsp hkeeps hmem hinput htx
  rw [if_neg (by omega)] at hpc
  subst hpc hnpc
  rw [show n.toNat - k = n.toNat - (k + 1) + 1 by omega] at hinput
  obtain ⟨a, input₁, ws, ha, hws, hdrop⟩ := getwords_succ.mp hinput
  let entry := (regs.set .ra 0x10000804#32).set .s2 (BitVec.ofNat 32 (k + 1))
  have hentry : Steps (step P) ⟨regs, 0x100007fc#32, 0x100007fc#32 + 4#32, mem₁, u⟩
      ⟨entry, 0x1000048c#32, 0x10000490#32, mem₁, u⟩ := by
    have hnext : BitVec.ofNat 32 k + 1#32 = BitVec.ofNat 32 (k + 1) := by bv_omega
    apply Steps.of_run (n := 2)
    simp [scattered_listing K.routine, hs2, hnext, entry]
  obtain ⟨regs', mem', u', hget, hv0, hkeeps', hrest, htx', hframe⟩ :=
    getword_call K.toBoard 0x10000804#32 (sp + 0xfffffe48#32) hentry (by simp [entry])
      (by simp [entry, hsp]) (K.stack.callee (by decide) (by decide)) ha
  refine ⟨regs', mem', u', a, ws, by simpa using hget, hdrop, hv0, ?_, ?_, ?_, ?_, ?_,
    hmem.trans hframe, hrest ▸ hws, htx'.trans htx⟩
  · simp [hkeeps'.get, entry]
  · simp [hkeeps'.get, entry, hs1]
  · simp [hkeeps'.get, entry]
  · simp [hkeeps'.get, entry, hsp]
  · simp [Regs.keepsBut_iff, hkeeps'.get, entry, hkeeps.get]

theorem collected_round (K : ScatteredBoard P sp)
    (hs : Collected caller sp mem tx n addrs rest k s) (hk : k < n.toNat) (hroom : k < 106) :
    ∃ t, Steps (step P) s t ∧ Collected caller sp mem tx n addrs rest (k + 1) t := by
  obtain ⟨regs, mem', u, a, ws, hget, hdrop, hv0, hs0, hs1, hs2, hsp, hkeeps, hmem, hinput, htx⟩ :=
    collected_get K hs hk
  rw [hs.s0] at hs0
  have hslot := slot_plain K hroom
  have hmore : BitVec.ofNat 32 (k + 1) = n ↔ k + 1 = n.toNat := by
    constructor
    · rintro rfl
      bv_omega
    · intro h
      bv_omega
  have htake : addrs.take (k + 1) = addrs.take k ++ [a] := by
    rw [List.take_add_one, ← List.head?_drop, hdrop]
    rfl
  have hlen : (addrs.take k).length = k := by
    have := congrArg List.length hdrop
    simp only [List.length_drop, List.length_cons] at this
    simp only [List.length_take]
    omega
  refine ⟨⟨regs.set .s0 (sp + 0xfffffe58#32 + BitVec.ofNat 32 (4 * (k + 1))),
    if k + 1 = n.toNat then 0x10000810#32 else 0x100007fc#32,
    (if k + 1 = n.toNat then 0x10000810#32 else 0x100007fc#32) + 4#32,
    mem'.writeWord (sp + 0xfffffe58#32 + BitVec.ofNat 32 (4 * k)) a, u⟩,
    hget.trans (Steps.of_run (n := 3) ?run), rfl, rfl, by simp, by simp [hs1], by simp [hs2],
    by simp [hsp], ?keeps, ?mem, ?input, htx⟩
  case run =>
    have hnext : sp + 0xfffffe58#32 + BitVec.ofNat 32 (4 * k) + 4#32 =
        sp + 0xfffffe58#32 + BitVec.ofNat 32 (4 * (k + 1)) := by bv_omega
    by_cases hlast : k + 1 = n.toNat <;>
      simp [scattered_listing K.routine, hs0, hs1, hs2, hv0, hslot, hmore, hlast, hnext]
  case keeps => simp [Regs.keepsBut_iff, hkeeps.get]
  case mem =>
    rw [htake, CollectedMem, Mem.writeWords_append, hlen]
    exact Agree.writeWord hmem _ _
  case input =>
    have hws : addrs.drop (k + 1) = ws := by
      rw [← List.drop_drop, hdrop]
      rfl
    rw [hws]
    exact hinput

theorem collected_rounds (K : ScatteredBoard P sp) {j : ℕ}
    (hs : Collected caller sp mem tx n addrs rest 0 s) (hj : j ≤ n.toNat) (hroom : j ≤ 106) :
    ∃ t, Steps (step P) s t ∧ Collected caller sp mem tx n addrs rest j t :=
  Steps.iterate (fun _ hk _ ha => collected_round K ha (by omega) (by omega)) hs

variable {mem' : Mem}

theorem CollectedMem.agree (h : CollectedMem caller sp mem addrs mem') (hlen : addrs.length ≤ 106) :
    Agree (Scratch sp 512) mem mem' := by
  have hsave : Agree (Scratch sp 512) mem (save mem sp caller printSlots) :=
    (save_frame (n := 40) (by decide) mem sp caller).mono fun _ hx => Or.inl (hx.weaken (by omega))
  have htable : Agree (Scratch sp 512) (save mem sp caller printSlots)
      ((save mem sp caller printSlots).writeWords (sp + 0xfffffe58#32) addrs) := by
    intro x hx
    refine Mem.writeWords_outside _ _ _ fun hin => hx (Or.inl ?_)
    unfold InRange at hin
    unfold Below
    bv_omega
  exact (hsave.trans htable).trans (Agree.mono h fun _ hx => Or.inl (hx.mono (by decide)))

theorem CollectedMem.slot (h : CollectedMem caller sp mem addrs mem') (hlen : addrs.length ≤ 106)
    {j : ℕ} (hj : j < addrs.length) :
    mem'.readWord (sp + 0xfffffe58#32 + BitVec.ofNat 32 (4 * j)) = addrs[j] := by
  rw [Agree.readWord h fun i hi => by unfold Below; bv_omega,
    Mem.readWord_writeWords _ _ _ hj (by omega)]

theorem CollectedMem.saved (h : CollectedMem caller sp mem addrs mem') (hlen : addrs.length ≤ 106)
    {j : ℕ} (hj : 100 ≤ j) (hj' : j ≤ 104) {r : Reg}
    (hslot : (0xfffffe58#32 + BitVec.ofNat 32 (4 * j), r) ∈ printSlots) :
    mem'.readWord (sp + 0xfffffe58#32 + BitVec.ofNat 32 (4 * j)) =
      addrs.getD j (caller.get r) := by
  by_cases hin : j < addrs.length
  · rw [h.slot hlen hin]
    simp [List.getD_eq_getElem?_getD, hin]
  · have hsaved : Saved printSlots (save mem sp caller printSlots) sp caller := by
      simp [Saved, save]
    rw [Agree.readWord h fun i hi => by unfold Below; bv_omega,
      Mem.readWord_writeWords_outside _ _ _ fun i hi => by unfold InRange; bv_omega,
      BitVec.add_assoc, hsaved _ hslot]
    simp [List.getD_eq_getElem?_getD, hin]

end Collecting

section Printing

def printScattered (m : Mem) (addrs : List Addr) : List Byte :=
  addrs.flatMap fun a => formatHex (m.readWord a) ++ [32#8]

theorem puts_printed (w : Word) :
    Console.puts (formatHex w) ++ Console.puts [32#8] = formatHex w ++ [32#8] := by
  rw [puts_formatHex]
  rfl

structure Source (P : Platform Uart) (hidden : Addr → Prop) (a : Addr) : Prop where
  ram : ∀ i < 4, P.Ram (a + BitVec.ofNat 32 i)
  apart : ∀ i < 4, ¬ hidden (a + BitVec.ofNat 32 i)

theorem Source.confine {hidden area : Addr → Prop} [DecidablePred area] {a : Addr}
    (h : Source P hidden a) : Source (P.confine area) hidden a :=
  ⟨h.ram, h.apart⟩

theorem Source.word {hidden : Addr → Prop} {a : Addr} (h : Source P hidden a)
    (ha : a.toNat % 4 = 0) : P.RamWord a := by
  have := h.ram 0 (by decide)
  exact ⟨by simpa using this, ha⟩

theorem printWord_scattered (h : Pieces P [(0x100007d0, commandScattered)]) :
    PrintWord P 0x10000838#32 := by
  constructor <;> simp [scattered_listing h]

theorem slot_agree (K : ScatteredBoard P sp) {m m' : Mem}
    (h : Agree (Scratch (sp + 0xfffffe48#32) 56) m m') {j : ℕ} (hj : j < 106) :
    m'.readWord (sp + 0xfffffe58#32 + BitVec.ofNat 32 (4 * j)) =
      m.readWord (sp + 0xfffffe58#32 + BitVec.ofNat 32 (4 * j)) := by
  refine h.readWord fun i hi => ?_
  rintro (hb | hb)
  · unfold Below at hb
    bv_omega
  · refine K.apart _ hb ?_
    unfold Below
    bv_omega

structure Printed (caller : Regs) (sp : Addr) (mem : Mem) (tx : List Byte) (n : Word)
    (addrs : List Word) (k : ℕ) (s : State Uart) : Prop where
  pc : s.pc = if k = n.toNat then 0x10000850#32 else 0x10000824#32
  npc : s.npc = s.pc + 4#32
  s0 : s.regs.get .s0 = sp + 0xfffffe58#32 + BitVec.ofNat 32 (4 * k)
  s1 : s.regs.get .s1 = BitVec.ofNat 32 k
  s2 : s.regs.get .s2 = n
  s3 : s.regs.get .s3 = 0x10000000#32
  frame : s.regs.get .sp = sp + 0xfffffe48#32
  keeps : caller.KeepsBut [.s0, .s1, .s2, .s3, .sp, .ra] s.regs
  tx : s.dev.tx = tx ++ printScattered mem (addrs.take k)
  agree : Agree (Scratch (sp + 0xfffffe48#32) 56) mem s.mem

variable {caller : Regs} {mem : Mem} {tx : List Byte} {n : Word} {addrs : List Word}
  {k : ℕ} {s : State Uart}

theorem printed_load (K : ScatteredBoard P sp) (hs : Printed caller sp mem tx n addrs k s)
    (hlen : addrs.length = n.toNat) (hn : n.toNat ≤ 106) (hk : k < addrs.length)
    (hslots : ∀ j (hj : j < addrs.length),
      mem.readWord (sp + 0xfffffe58#32 + BitVec.ofNat 32 (4 * j)) = addrs[j]) :
    Steps (step P) s
      ⟨s.regs.set .v0 addrs[k], 0x1000082c#32, 0x10000830#32, s.mem, s.dev⟩ := by
  obtain ⟨regs, pc, npc, mem₁, u⟩ := s
  have hpc := hs.pc
  have hnpc := hs.npc
  have hs0 := hs.s0
  simp only at hpc hnpc hs0
  rw [if_neg (by omega)] at hpc
  subst hpc hnpc
  have hslot := (slot_plain K (show k < 106 by omega)).1
  have hslot_word : mem₁.readWord (sp + 0xfffffe58#32 + BitVec.ofNat 32 (4 * k)) = addrs[k] := by
    rw [slot_agree K hs.agree (by omega), hslots k hk]
  apply Steps.of_run (n := 2)
  simp [scattered_listing K.routine, hs0, hslot, hslot_word]

theorem printed_round (K : ScatteredBoard P sp) (hs : Printed caller sp mem tx n addrs k s)
    (hlen : addrs.length = n.toNat) (hn : n.toNat ≤ 106) (hk : k < addrs.length)
    (hslots : ∀ j (hj : j < addrs.length),
      mem.readWord (sp + 0xfffffe58#32 + BitVec.ofNat 32 (4 * j)) = addrs[j])
    (hsource : Source P (Scratch sp 512) addrs[k]) (haligned : addrs[k].toNat % 4 = 0) :
    ∃ t, Steps (step P) s t ∧ Printed caller sp mem tx n addrs (k + 1) t := by
  have hload := printed_load K hs hlen hn hk hslots
  obtain ⟨regs, pc, npc, mem₁, u⟩ := s
  obtain ⟨-, -, hs0, hs1, hs2, hs3, hsp, hkeeps, htx, hmem⟩ := hs
  simp only at hload hs0 hs1 hs2 hs3 hsp hkeeps htx hmem
  have hinner (x : Addr) (hx : Scratch (sp + 0xfffffe48#32) 56 x) : Scratch sp 512 x :=
    hx.mono (by decide)
  have haddr_ram := hsource.word haligned
  generalize haddr : addrs[k] = a at hload hsource haddr_ram
  have haddr_word : mem₁.readWord a = mem.readWord a :=
    hmem.readWord fun i hi hin => hsource.apart i hi (hinner _ hin)
  let entry := (((regs.set .v0 a).set .a0 (mem.readWord a)).set .ra 0x10000838#32).set .s1
    (BitVec.ofNat 32 (k + 1))
  have hcall : Steps (step P) ⟨regs.set .v0 a, 0x1000082c#32, 0x10000830#32, mem₁, u⟩
      ⟨entry, 0x100003fc#32, 0x10000400#32, mem₁, u⟩ := by
    have hnext : BitVec.ofNat 32 k + 1#32 = BitVec.ofNat 32 (k + 1) := by bv_omega
    apply Steps.of_run (n := 3)
    simp [scattered_listing K.routine, hs1, haddr_ram, haddr_word, hnext, entry]
  have hentry := hload.trans hcall
  obtain ⟨regs', mem', m, hprint, hkeeps', hagree⟩ :=
    printWord_spec K.toBoard K.buffer (printWord_scattered K.routine) (mem.readWord a) hentry
      (by simp [entry]) (by simp [entry])
      (show entry.get .sp = sp + 0xfffffe48#32 by simp [entry, hsp])
      (by simp [entry, hs3]) (K.stack.callee (by decide) (by decide))
      fun x hx hb => K.apart x hx (hb.mono (by decide))
  rw [puts_printed] at hprint
  have hmore : BitVec.ofNat 32 (k + 1) = n ↔ k + 1 = n.toNat := by
    constructor
    · rintro rfl
      bv_omega
    · intro h
      bv_omega
  refine ⟨⟨regs'.set .s0 (sp + 0xfffffe58#32 + BitVec.ofNat 32 (4 * (k + 1))),
    if k + 1 = n.toNat then 0x10000850#32 else 0x10000824#32,
    (if k + 1 = n.toNat then 0x10000850#32 else 0x10000824#32) + 4#32, mem',
    u.sent m (formatHex (mem.readWord a) ++ [32#8])⟩,
    hprint.trans (Steps.of_run (n := 2) ?run), rfl, rfl, by simp, ?s1, ?s2, ?s3, ?frame, ?keeps,
    ?tx, hmem.trans hagree⟩
  case run =>
    have hs0' : regs'.get .s0 = regs.get .s0 := by simp [hkeeps'.get, entry]
    have hs1' : regs'.get .s1 = BitVec.ofNat 32 (k + 1) := by simp [hkeeps'.get, entry]
    have hs2' : regs'.get .s2 = n := by simp [hkeeps'.get, entry, hs2]
    have hnext : sp + 0xfffffe58#32 + BitVec.ofNat 32 (4 * k) + 4#32 =
        sp + 0xfffffe58#32 + BitVec.ofNat 32 (4 * (k + 1)) := by bv_omega
    by_cases hlast : k + 1 = n.toNat <;>
      simp [scattered_listing K.routine, hs0', hs0, hs1', hs2', hmore, hlast, hnext]
  case s1 => simp [hkeeps'.get, entry]
  case s2 => simp [hkeeps'.get, entry, hs2]
  case s3 => simp [hkeeps'.get, entry, hs3]
  case frame => simp [hkeeps'.get, entry, hsp]
  case keeps => simp [Regs.keepsBut_iff, hkeeps'.get, entry, hkeeps.get]
  case tx =>
    rw [Uart.sent_tx, htx, List.append_assoc]
    congr 1
    simp [printScattered, List.take_add_one, hk, haddr]

theorem printed_rounds (K : ScatteredBoard P sp) (hs : Printed caller sp mem tx n addrs 0 s)
    (hlen : addrs.length = n.toNat) (hn : n.toNat ≤ 106) {j : ℕ} (hj : j ≤ addrs.length)
    (hslots : ∀ j (hj : j < addrs.length),
      mem.readWord (sp + 0xfffffe58#32 + BitVec.ofNat 32 (4 * j)) = addrs[j])
    (hsources : ∀ a ∈ addrs, Source P (Scratch sp 512) a)
    (haligned : ∀ k (hk : k < addrs.length), k < j → addrs[k].toNat % 4 = 0) :
    ∃ t, Steps (step P) s t ∧ Printed caller sp mem tx n addrs j t :=
  Steps.iterate (fun k hk _ ha => printed_round K ha hlen hn (by omega) hslots
    (hsources _ (List.getElem_mem _)) (haligned k (by omega) hk)) hs

theorem printScattered_length (m : Mem) (addrs : List Addr) :
    (printScattered m addrs).length = 9 * addrs.length := by
  simp [printScattered, Console.formatHex, List.length_flatMap, Nat.mul_comm]

theorem printed_stuck (K : ScatteredBoard P sp) (hs : Printed caller sp mem tx n addrs k s)
    (hlen : addrs.length = n.toNat) (hn : n.toNat ≤ 106) (hk : k < addrs.length)
    (hslots : ∀ j (hj : j < addrs.length),
      mem.readWord (sp + 0xfffffe58#32 + BitVec.ofNat 32 (4 * j)) = addrs[j])
    (hsource : Source P (Scratch sp 512) addrs[k]) (hodd : addrs[k].toNat % 4 ≠ 0) :
    ∃ v, Steps (step P) s v ∧ step P v = none ∧ v.pc = 0x1000082c#32 ∧
      v.dev.tx = tx ++ printScattered mem (addrs.take k) := by
  refine ⟨_, printed_load K hs hlen hn hk hslots, ?_, rfl, hs.tx⟩
  have hram := hsource.ram 0 (by decide)
  simp only [BitVec.add_zero] at hram
  simp [scattered_listing K.routine, exec, hram.1, Platform.readWord, hodd]

end Printing

section Leaving

structure Leaving (caller : Regs) (sp : Addr) (mem : Mem) (tx : List Byte) (addrs : List Word)
    (s : State Uart) : Prop where
  pc : s.pc = 0x10000850#32
  npc : s.npc = 0x10000854#32
  frame : s.regs.get .sp = sp + 0xfffffe48#32
  saved : ∀ j, 100 ≤ j → j ≤ 104 → ∀ r,
    (0xfffffe58#32 + BitVec.ofNat 32 (4 * j), r) ∈ printSlots →
      s.mem.readWord (sp + 0xfffffe58#32 + BitVec.ofNat 32 (4 * j)) =
        addrs.getD j (caller.get r)
  tx : s.dev.tx = tx ++ 2#8 :: printScattered mem addrs
  agree : Agree (Scratch sp 512) mem s.mem

variable {caller : Regs} {mem : Mem} {tx : List Byte} {n : Word} {addrs : List Word}
  {rest : List Byte} {s : State Uart}

theorem printScattered_agree {m m' : Mem} {hidden : Addr → Prop} (h : Agree hidden m m')
    (hsources : ∀ a ∈ addrs, Source P hidden a) :
    printScattered m' addrs = printScattered m addrs := by
  refine List.flatMap_congr fun a ha => ?_
  rw [h.readWord (hsources a ha).apart]

theorem collected_printed (K : ScatteredBoard P sp)
    (hs : Collected caller sp mem tx n addrs rest n.toNat s) (hzero : n ≠ 0#32)
    (hlen : addrs.length = n.toNat) :
    ∃ t, Steps (step P) s t ∧ CollectedMem caller sp mem addrs t.mem ∧
      Printed caller sp t.mem (tx ++ [2#8]) n addrs 0 t := by
  obtain ⟨regs, pc, npc, mem₁, u⟩ := s
  obtain ⟨hpc, hnpc, hs0, hs1, hs2, hsp, hkeeps, hmem, hinput, htx⟩ := hs
  simp only [if_true] at hpc hnpc hs0 hs1 hs2 hsp hkeeps hmem hinput htx
  subst hpc hnpc
  rw [List.take_of_length_le hlen.le] at hmem
  let entry := (regs.set .ra 0x10000818#32).set .a0 2#32
  have hentry : Steps (step P) ⟨regs, 0x10000810#32, 0x10000810#32 + 4#32, mem₁, u⟩
      ⟨entry, 0x10000330#32, 0x10000334#32, mem₁, u⟩ := by
    apply Steps.of_run (n := 2)
    simp [scattered_listing K.routine, entry]
  obtain ⟨regs₁, m, hput, hkeeps₁⟩ := putchar_spec K.toBoard entry mem₁ u
  rw [show entry.get .ra = 0x10000818#32 by simp [entry],
    show (entry.get .a0).setWidth 8 = 2#8 by simp [entry]] at hput
  let head := ((regs₁.set .s1 0#32).set .s0 (sp + 0xfffffe58#32)).set .s3 0x10000000#32
  have hhead : Steps (step P) ⟨regs₁, 0x10000818#32, 0x10000818#32 + 4#32, mem₁, u.sent m [2#8]⟩
      ⟨head, 0x10000824#32, 0x10000828#32, mem₁, u.sent m [2#8]⟩ := by
    apply Steps.of_run (n := 3)
    simp [scattered_listing K.routine, hkeeps₁.get, entry, hsp, BitVec.add_assoc, head]
  have hne : ¬ 0 = n.toNat := fun h => hzero (by bv_omega)
  refine ⟨⟨head, 0x10000824#32, 0x10000828#32, mem₁, u.sent m [2#8]⟩,
    (hentry.trans hput).trans hhead, hmem, (if_neg hne).symm, rfl, by simp [head], by simp [head],
    ?_, by simp [head], ?_, ?_, ?_, Agree.refl _ _⟩
  · simp [head, hkeeps₁.get, entry, hs2]
  · simp [head, hkeeps₁.get, entry, hsp]
  · simp [Regs.keepsBut_iff, head, hkeeps₁.get, entry, hkeeps.get]
  · simp [printScattered, htx]

theorem collected_leaving (K : ScatteredBoard P sp)
    (hs : Collected caller sp mem tx n addrs rest n.toNat s) (hzero : n ≠ 0#32)
    (hlen : addrs.length = n.toNat) (hn : n.toNat ≤ 106)
    (hsources : ∀ a ∈ addrs, Source P (Scratch sp 512) a)
    (haligned : ∀ a ∈ addrs, a.toNat % 4 = 0) :
    ∃ t, Steps (step P) s t ∧ Leaving caller sp mem tx addrs t := by
  obtain ⟨w, hprint, hmem, hstart⟩ := collected_printed K hs hzero hlen
  obtain ⟨t, hloop, ht⟩ := printed_rounds K hstart hlen hn le_rfl
    (fun j hj => hmem.slot (by omega) hj) hsources fun k hk _ => haligned _ (List.getElem_mem hk)
  rw [hlen] at ht
  have hpc : t.pc = 0x10000850#32 := ht.pc.trans (if_pos rfl)
  have hagree := hmem.agree (by omega)
  refine ⟨t, hprint.trans hloop, hpc, ?_, ht.frame, ?_, ?_, ?_⟩
  · rw [ht.npc, hpc]
    rfl
  · intro j hj hj' r hr
    rw [slot_agree K ht.agree (by omega), hmem.saved (by omega) hj hj' hr]
  · rw [ht.tx, List.take_of_length_le hlen.le, printScattered_agree hagree hsources]
    simp
  · exact hagree.trans (ht.agree.mono fun _ hx => hx.mono (by decide))

theorem collected_stuck (K : ScatteredBoard P sp)
    (hs : Collected caller sp mem tx n addrs rest n.toNat s) (hzero : n ≠ 0#32)
    (hlen : addrs.length = n.toNat) (hn : n.toNat ≤ 106)
    (hsources : ∀ a ∈ addrs, Source P (Scratch sp 512) a)
    (hodd : ∃ k, ∃ hk : k < addrs.length, addrs[k].toNat % 4 ≠ 0) :
    ∃ v sent, Steps (step P) s v ∧ step P v = none ∧ v.pc = 0x1000082c#32 ∧
      v.dev.tx = tx ++ sent ∧ sent.length ≤ 1 + 9 * addrs.length := by
  obtain ⟨w, hprint, hmem, hstart⟩ := collected_printed K hs hzero hlen
  have hslots (j : ℕ) (hj : j < addrs.length) := hmem.slot (by omega) hj
  obtain ⟨hk, hbad⟩ := Nat.find_spec hodd
  obtain ⟨t, hloop, ht⟩ := printed_rounds K hstart hlen hn hk.le hslots hsources
    fun i hi hfirst => by
      by_contra hne
      exact Nat.find_min hodd hfirst ⟨hi, hne⟩
  obtain ⟨v, hload, hstuck, hpc, htx⟩ :=
    printed_stuck K ht hlen hn hk hslots (hsources _ (List.getElem_mem hk)) hbad
  refine ⟨v, _, (hprint.trans hloop).trans hload, hstuck, hpc, by rw [htx, List.append_assoc], ?_⟩
  simp only [List.length_append, List.length_singleton, printScattered_length, List.length_take]
  omega

theorem scattered_entry (K : ScatteredBoard P sp) (caller : Regs) (mem : Mem) (u : Uart)
    {input : List Byte} (hsp : caller.get .sp = sp) (hn : getword u.input = some (n, input))
    (haddrs : getwords n.toNat input = some (addrs, rest)) :
    ∃ t, Steps (step P) ⟨caller, 0x100007d0#32, 0x100007d4#32, mem, u⟩ t ∧
      (n ≠ 0#32 → Collected caller sp mem u.tx n addrs rest 0 t) ∧
      (n = 0#32 → Leaving caller sp mem u.tx [] t) := by
  let entry := (caller.set .sp (sp + 0xfffffe48#32)).set .ra 0x100007ec#32
  have hentry : Steps (step P) ⟨caller, 0x100007d0#32, 0x100007d4#32, mem, u⟩
      ⟨entry, 0x1000048c#32, 0x10000490#32, save mem sp caller printSlots, u⟩ := by
    apply Steps.of_run (n := 7)
    simp [scattered_listing K.routine, BitVec.add_assoc, hsp, K.stack.plain, entry, save]
  obtain ⟨regs, mem₁, u₁, hget, hv0, hkeeps, hinput, htx, hframe⟩ :=
    getword_call K.toBoard 0x100007ec#32 (sp + 0xfffffe48#32) hentry (by simp [entry])
      (by simp [entry]) (K.stack.callee (by decide) (by decide)) hn
  have hempty : CollectedMem caller sp mem [] mem₁ := hframe
  by_cases hzero : n = 0#32
  · let none := (regs.set .s1 n).set .ra 0x1000087c#32
    let mark := none.set .a0 2#32
    have hmark : Steps (step P) ⟨regs, 0x100007ec#32, 0x100007ec#32 + 4#32, mem₁, u₁⟩
        ⟨mark, 0x10000330#32, 0x10000334#32, mem₁, u₁⟩ := by
      apply Steps.of_run (n := 4)
      simp [scattered_listing K.routine, hv0, hzero, mark, none]
    obtain ⟨regs₁, m, hput, hkeeps₁⟩ := putchar_spec K.toBoard mark mem₁ u₁
    rw [show mark.get .ra = 0x1000087c#32 by simp [mark, none],
      show (mark.get .a0).setWidth 8 = 2#8 by simp [mark]] at hput
    have hback : Steps (step P) ⟨regs₁, 0x1000087c#32, 0x1000087c#32 + 4#32, mem₁,
        u₁.sent m [2#8]⟩ ⟨regs₁, 0x10000850#32, 0x10000854#32, mem₁, u₁.sent m [2#8]⟩ := by
      apply Steps.of_run (n := 2)
      simp [scattered_listing K.routine]
    refine ⟨_, ((hget.trans hmark).trans hput).trans hback, fun h => absurd hzero h, fun _ => ?_⟩
    refine ⟨rfl, rfl, ?_, fun j hj hj' r hr => hempty.saved (by simp) hj hj' hr, ?_,
      hempty.agree (by simp)⟩
    · simp [hkeeps₁.get, mark, none, hkeeps.get, entry]
    · simp [htx, printScattered]
  · let head := ((regs.set .s1 n).set .s2 0#32).set .s0 (sp + 0xfffffe58#32)
    have hhead : Steps (step P) ⟨regs, 0x100007ec#32, 0x100007ec#32 + 4#32, mem₁, u₁⟩
        ⟨head, 0x100007fc#32, 0x10000800#32, mem₁, u₁⟩ := by
      apply Steps.of_run (n := 4)
      simp [scattered_listing K.routine, hv0, hzero, hkeeps.get, entry, BitVec.add_assoc, head]
    refine ⟨_, hget.trans hhead, fun _ => ?_, fun h => absurd h hzero⟩
    have hne : ¬ 0 = n.toNat := fun h => hzero (by bv_omega)
    refine ⟨(if_neg hne).symm, rfl, by simp [head], by simp [head], by simp [head], ?_, ?_,
      hempty, ?_, htx⟩
    · simp [head, hkeeps.get, entry]
    · simp [Regs.keepsBut_iff, head, hkeeps.get, entry]
    · simpa [hinput] using haddrs

def scatteredReply (m : Mem) (addrs : List Addr) : List Byte :=
  2#8 :: printScattered m addrs ++ [3#8]

def Replied (tx reply : List Byte) (s : State Uart) : Prop :=
  s.pc = 0x10001014#32 ∧ s.dev.tx = tx ++ reply

/-- The addresses that go over a saved register other than the return address. -/
def overwritten : List (ℕ × Reg) := [(100, .s0), (101, .s1), (102, .s2), (103, .s3)]

theorem leaving_ends (K : ScatteredBoard P sp) (hs : Leaving caller sp mem tx addrs s)
    (hra : caller.get .ra = 0x10001014#32) (hsources : ∀ a ∈ addrs, Source P (Scratch sp 512) a)
    (haligned : ∀ a ∈ addrs, a.toNat % 4 = 0) :
    ∃ v t, Steps (step P) s v ∧ v.dev.tx = tx ++ 2#8 :: printScattered mem addrs ∧
      EndsAt (step P) (Replied tx (scatteredReply mem addrs)) v t ∧
      t.pc = addrs.getD 104 0x10001014#32 ∧ t.regs.get .ra = t.pc ∧ t.regs.get .sp = sp ∧
      (∀ p ∈ overwritten, t.regs.get p.2 = addrs.getD p.1 (caller.get p.2)) ∧
      t.dev.tx = tx ++ scatteredReply mem addrs ∧ Agree (Scratch sp 512) mem t.mem := by
  obtain ⟨regs, pc, npc, mem₁, u⟩ := s
  obtain ⟨hpc, hnpc, hsp, hsaved, htx, hagree⟩ := hs
  simp only at hpc hnpc hsp hsaved htx hagree
  subst hpc hnpc
  let entry := (regs.set .ra 0x10000858#32).set .a0 3#32
  have hentry : Steps (step P) ⟨regs, 0x10000850#32, 0x10000854#32, mem₁, u⟩
      ⟨entry, 0x10000330#32, 0x10000334#32, mem₁, u⟩ := by
    apply Steps.of_run (n := 2)
    simp [scattered_listing K.routine, entry]
  have S := K.toBoard.serial
  obtain ⟨regs₁, hwait, hv0, hbyte, hkeeps⟩ := S.putchar_wait entry mem₁ u
  rw [show (entry.get .a0).setWidth 8 = 3#8 by simp [entry]] at hbyte
  obtain ⟨m, hstore⟩ := S.storeSend { u with busy := 0 } 3#8 rfl
  have hs0 := hsaved 100 (by decide) (by decide) .s0 (by decide)
  have hs1 := hsaved 101 (by decide) (by decide) .s1 (by decide)
  have hs2 := hsaved 102 (by decide) (by decide) .s2 (by decide)
  have hs3 := hsaved 103 (by decide) (by decide) .s3 (by decide)
  have hret := hsaved 104 (by decide) (by decide) .ra (by decide)
  have hput := S.putchar
  simp only [BitVec.reduceAdd] at hput
  have hsp₁ : regs₁.get .sp = sp + 0xfffffe48#32 := by simp [hkeeps.get, entry, hsp]
  have hra₁ : regs₁.get .ra = 0x10000858#32 := by simp [hkeeps.get, entry]
  simp [BitVec.add_assoc, hra] at hs0 hs1 hs2 hs3 hret hstore
  refine ⟨⟨regs₁, 0x10000350#32, 0x10000354#32, mem₁, { u with busy := 0 }⟩, ?last,
    hentry.trans hwait, htx, ⟨11, ?run, ?stop, ?before⟩, ?post⟩
  case run =>
    simp [hput, scattered_listing K.routine, BitVec.add_assoc, hv0, hbyte, hstore, S.sendReg, hsp₁,
      hra₁, K.stack.ramWord, hs0, hs1, hs2, hs3, hret]
    rfl
  case before =>
    rintro j hj w hw ⟨hpc, -⟩
    interval_cases j <;>
      simp [hput, scattered_listing K.routine, BitVec.add_assoc, hv0, hbyte, hstore, S.sendReg,
        hsp₁, hra₁, K.stack.ramWord] at hw <;>
      simp [← hw] at hpc
  case stop =>
    by_cases hin : 104 < addrs.length
    · have hlast := List.getElem_mem hin
      have hword := (hsources _ hlast).word (haligned _ hlast)
      right
      simp [hin, hword.fetch, andThen]
    · left
      refine ⟨by simp [hin], ?_⟩
      simp [htx, scatteredReply]
  case post =>
    refine ⟨by simp, by simp, by simp, ?_, ?_, hagree⟩
    · simp [overwritten]
    · simp [htx, scatteredReply]

end Leaving

section Reading

structure ReadWell (sp : Addr) (addrs : List Addr) (s t : State Uart) : Prop where
  replied : Replied s.dev.tx (scatteredReply s.mem addrs) t
  ra : t.regs.get .ra = 0x10001014#32
  stack : t.regs.get .sp = sp
  kept : ∀ p ∈ overwritten, t.regs.get p.2 = s.regs.get p.2
  mem : Agree (Scratch sp 512) s.mem t.mem

/-- The run from the prompt in which no store leaves the stack of the handler and the digit buffer
comes back to the console, with the reply sent, and is then as a call leaves it. -/
def WellBehaved (P : Platform Uart) (sp : Addr) (addrs : List Addr) (s : State Uart) : Prop :=
  ∃ t, EndsAt (step (P.confine (Scratch sp 512)))
      (Replied s.dev.tx (scatteredReply s.mem addrs)) s t ∧
    ReadWell sp addrs s t

/-- The addresses fit in the frame with the saved registers, where an address that goes over a
saved register does no harm if it is what was saved. -/
def Fits (regs : Regs) (addrs : List Addr) : Prop :=
  addrs.length ≤ 104 ∧ ∀ p ∈ overwritten, ∀ a, addrs[p.1]? = some a → a = regs.get p.2

variable {n : Word} {addrs : List Word} {input rest : List Byte}

theorem scatteredReply_length (m : Mem) (addrs : List Addr) :
    (scatteredReply m addrs).length = 9 * addrs.length + 2 := by
  simp [scatteredReply, printScattered_length]

theorem stuck_ends {tx sent reply : List Byte} {s v : State Uart} (C : Cumulative P)
    (hv : Steps (step P) s v) (hstuck : step P v = none) (htx : v.dev.tx = tx ++ sent)
    (hlen : sent.length < reply.length) : EndsAt (step P) (Replied tx reply) s v :=
  .of_steps hv (fun _ _ hm hreplied => C.unsent hm htx hlen hreplied.2) (.here (Or.inr hstuck))

theorem leaving_fits (K : ScatteredBoard P sp) (C : Cumulative P) (regs : Regs) (mem : Mem)
    (u : Uart) {s w : State Uart} (hs : Steps (step P) s w)
    (hleave : Leaving (regs.set .ra 0x10001014#32) sp mem u.tx addrs w)
    (hsources : ∀ a ∈ addrs, Source P (Scratch sp 512) a)
    (haligned : ∀ a ∈ addrs, a.toNat % 4 = 0) {pc npc : Addr} :
    ∃ t, EndsAt (step P) (Replied u.tx (scatteredReply mem addrs)) s t ∧
      (ReadWell sp addrs ⟨regs, pc, npc, mem, u⟩ t ↔ Fits regs addrs) := by
  obtain ⟨v, t, hv, hsent, hends, hpc, hra, hsp, hregs, htx, hagree⟩ :=
    leaving_ends K hleave (by simp) hsources haligned
  have hbefore (m : State Uart) (_ : Steps (step P) s m) (hm : Steps (step P) m v) :
      ¬ Replied u.tx (scatteredReply mem addrs) m :=
    fun hreplied => C.unsent hm hsent (by simp [scatteredReply]) hreplied.2
  refine ⟨t, .of_steps (hs.trans hv) hbefore hends, ?_, ?_⟩
  · rintro ⟨⟨hret, -⟩, -, -, hkept, -⟩
    rw [hpc] at hret
    have hshort : addrs.length ≤ 104 := by
      by_contra hlong
      have hin : 104 < addrs.length := by omega
      have hlast := List.getElem_mem hin
      have hcode := ((hsources _ hlast).word (haligned _ hlast)).fetch
      rw [List.getD_eq_getElem?_getD, List.getElem?_eq_getElem hin, Option.getD_some] at hret
      rw [hret, (console_listing K.toHolds).2.2.2.2.2.2.2.2.2.2.2.2.2.2.2.2.2.2.2.2.2.2.2.2.1]
        at hcode
      cases hcode
    refine ⟨hshort, fun p hp a ha => ?_⟩
    have := hregs p hp
    rw [hkept p hp, List.getD_eq_getElem?_getD, ha] at this
    exact this.symm
  · rintro ⟨hshort, hsame⟩
    have hret : t.pc = 0x10001014#32 := by
      rw [hpc, List.getD_eq_getElem?_getD, List.getElem?_eq_none hshort]
      rfl
    refine ⟨⟨hret, htx⟩, hra.trans hret, hsp, fun p hp => ?_, hagree⟩
    rw [hregs p hp, List.getD_eq_getElem?_getD]
    cases ha : addrs[p.1]? with
    | none =>
      have hother : p.2 ≠ .ra ∧ p.2 ≠ .zero := by
        simp only [overwritten, List.mem_cons, List.not_mem_nil, or_false] at hp
        rcases hp with rfl | rfl | rfl | rfl <;> simp
      simp [hother]
    | some a => exact hsame p hp a ha

theorem scattered_end (K : ScatteredBoard P sp) (C : Cumulative P) (hdev : P.device sp = false)
    (hcaller : ¬ P.Plain sp) (regs : Regs) (mem : Mem) (u : Uart) (hsp : regs.get .sp = sp)
    (hn : getword u.input = some (n, input)) (haddrs : getwords n.toNat input = some (addrs, rest))
    (hsources : ∀ a ∈ addrs, Source P (Scratch sp 512) a) :
    ∃ t, EndsAt (step P) (Replied u.tx (scatteredReply mem addrs))
        ⟨regs, 0x1000100c#32, 0x10001010#32, mem, u⟩ t ∧
      (ReadWell sp addrs ⟨regs, 0x1000100c#32, 0x10001010#32, mem, u⟩ t ↔
        (∀ a ∈ addrs, a.toNat % 4 = 0) ∧ Fits regs addrs) := by
  have hlen := getwords_length haddrs
  let caller := regs.set .ra 0x10001014#32
  have hcall : Steps (step P) ⟨regs, 0x1000100c#32, 0x10001010#32, mem, u⟩
      ⟨caller, 0x100007d0#32, 0x100007d4#32, mem, u⟩ :=
    (call_scattered K.toHolds).enter regs mem u
  obtain ⟨s, hentry, hfirst, hnone⟩ :=
    scattered_entry K caller mem u (by simp [caller, hsp]) hn haddrs
  have hstart := hcall.trans hentry
  by_cases hroom : n.toNat ≤ 106
  · by_cases haligned : ∀ a ∈ addrs, a.toNat % 4 = 0
    · have hleaving : ∃ w, Steps (step P) s w ∧ Leaving caller sp mem u.tx addrs w := by
        by_cases hzero : n = 0#32
        · have hnil : addrs = [] := List.eq_nil_of_length_eq_zero (by rw [hlen, hzero]; rfl)
          exact ⟨s, Steps.refl s, hnil ▸ hnone hzero⟩
        · obtain ⟨s₁, hcollect, hs₁⟩ := collected_rounds K (hfirst hzero) le_rfl hroom
          obtain ⟨s₂, hprint, hs₂⟩ :=
            collected_leaving K hs₁ hzero hlen hroom hsources haligned
          exact ⟨s₂, hcollect.trans hprint, hs₂⟩
      obtain ⟨w, hw, hleave⟩ := hleaving
      obtain ⟨t, hends, hiff⟩ :=
        leaving_fits K C regs mem u (hstart.trans hw) hleave hsources haligned
      exact ⟨t, hends, hiff.trans (and_iff_right haligned).symm⟩
    · have hodd : ∃ k, ∃ hk : k < addrs.length, addrs[k].toNat % 4 ≠ 0 := by
        push Not at haligned
        obtain ⟨a, ha, hbad⟩ := haligned
        obtain ⟨k, hk, rfl⟩ := List.getElem_of_mem ha
        exact ⟨k, hk, hbad⟩
      have hzero : n ≠ 0#32 := by
        obtain ⟨k, hk, -⟩ := hodd
        rintro rfl
        simp [hlen] at hk
      obtain ⟨s₁, hcollect, hs₁⟩ := collected_rounds K (hfirst hzero) le_rfl hroom
      obtain ⟨v, sent, hprint, hstuck, hpc, htx, hsent⟩ :=
        collected_stuck K hs₁ hzero hlen hroom hsources hodd
      refine ⟨v, stuck_ends C ((hstart.trans hcollect).trans hprint) hstuck htx
        (by rw [scatteredReply_length]; omega), ?_, fun h => absurd h.1 haligned⟩
      rintro ⟨⟨hret, -⟩, -⟩
      simp [hpc] at hret
  · have hzero : n ≠ 0#32 := by
      rintro rfl
      exact hroom (by decide)
    obtain ⟨s₁, hcollect, hs₁⟩ := collected_rounds K (hfirst hzero) (j := 106) (by omega) le_rfl
    obtain ⟨regs', mem', u', a, ws, hget, -, -, hs0, -, -, -, -, -, -, htx⟩ :=
      collected_get K hs₁ (by omega)
    have hstuck : step P ⟨regs', 0x10000804#32, 0x10000808#32, mem', u'⟩ = none := by
      rw [hs₁.s0] at hs0
      simp [BitVec.add_assoc] at hs0
      simp [scattered_listing K.routine, exec, hs0, hdev, hcaller]
    refine ⟨_, stuck_ends C ((hstart.trans hcollect).trans hget) hstuck
      (by rw [htx, List.append_nil]) (by simp [scatteredReply]), ?_, ?_⟩
    · rintro ⟨⟨hpc, -⟩, -⟩
      simp at hpc
    · rintro ⟨-, hshort, -⟩
      omega

theorem overwritten_kept {p : ℕ × Reg} (hp : p ∈ overwritten) : p.2.Kept ∧ p.2 ∉ [.ra] := by
  simp only [overwritten, List.mem_cons, List.not_mem_nil, or_false] at hp
  rcases hp with rfl | rfl | rfl | rfl <;> simp

theorem prompt_scattered (K : ScatteredBoard P sp) (C : Cumulative P)
    (hdev : P.device sp = false) (hcaller : ¬ P.Plain sp) {s : State Uart} {typed : List Byte}
    (hpc : s.pc = 0x10000fb4#32) (hnpc : s.npc = 0x10000fb8#32) (hsp : s.regs.get .sp = sp)
    (hletter : s.dev.input = 82#8 :: typed) (hn : getword typed = some (n, input))
    (haddrs : getwords n.toNat input = some (addrs, rest))
    (hsources : ∀ a ∈ addrs, Source P (Scratch sp 512) a) :
    ∃ t, EndsAt (step P) (Replied s.dev.tx (scatteredReply s.mem addrs)) s t ∧
      (ReadWell sp addrs s t ↔ (∀ a ∈ addrs, a.toNat % 4 = 0) ∧ Fits s.regs addrs) := by
  obtain ⟨regs, pc, npc, mem, rx, busy, tx⟩ := s
  obtain rfl : pc = 0x10000fb4#32 := hpc
  obtain rfl : npc = 0x10000fb8#32 := hnpc
  obtain ⟨⟨d, b⟩, rx, rfl, hb, hrx⟩ := List.map_eq_cons_iff.mp hletter
  obtain rfl : b = 82#8 := hb
  have hroom : Stack P sp 24 := K.stack.weaken (by omega)
  obtain ⟨regs₁, mem₁, hprompt, hkeeps, hframe⟩ :=
    prompt_letter K.toBoard regs mem d 82#8 rx busy tx (hsp ▸ hroom)
  have hhandler : handler 82#8 = 0x1000100c#32 := rfl
  rw [hhandler] at hprompt
  have hmem : Agree (Scratch sp 512) mem mem₁ := by
    rw [show regs.get .sp = sp from hsp] at hframe
    exact hframe.mono fun x hx => Or.inl (hx.weaken (by omega))
  have hreply : scatteredReply mem₁ addrs = scatteredReply mem addrs := by
    rw [scatteredReply, scatteredReply, printScattered_agree hmem hsources]
  have hsame (p : ℕ × Reg) (hp : p ∈ overwritten) : regs₁.get p.2 = regs.get p.2 :=
    hkeeps.get (overwritten_kept hp).1 (overwritten_kept hp).2
  have hcount : getword (rx.map Prod.snd) = some (n, input) := hrx.symm ▸ hn
  obtain ⟨t, hends, hiff⟩ := scattered_end K C hdev hcaller regs₁ mem₁ ⟨rx, busy, tx⟩
    ((hkeeps.get (by simp) (by simp)).trans hsp) hcount haddrs hsources
  rw [hreply] at hends
  refine ⟨t, .of_steps hprompt (fun v _ hv hreplied => ?_) hends, ?_⟩
  · exact C.unsent hv (List.append_nil tx).symm (by simp [scatteredReply]) hreplied.2
  -- The handler's call and the prompt have the same memory and the same saved registers.
  have hwell : ReadWell sp addrs
      ⟨regs, 0x10000fb4#32, 0x10000fb8#32, mem, ⟨(d, 82#8) :: rx, busy, tx⟩⟩ t ↔
      ReadWell sp addrs ⟨regs₁, 0x1000100c#32, 0x10001010#32, mem₁, ⟨rx, busy, tx⟩⟩ t := by
    constructor
    · rintro ⟨hreplied, hra, hstack, hkept, hagree⟩
      exact ⟨hreply ▸ hreplied, hra, hstack, fun p hp => (hkept p hp).trans (hsame p hp).symm,
        hmem.symm.trans hagree⟩
    · rintro ⟨hreplied, hra, hstack, hkept, hagree⟩
      exact ⟨hreply ▸ hreplied, hra, hstack, fun p hp => (hkept p hp).trans (hsame p hp),
        hmem.trans hagree⟩
  have hfits : Fits regs₁ addrs ↔ Fits regs addrs :=
    and_congr_right fun _ => forall₂_congr fun p hp => by rw [hsame p hp]
  rw [hwell, hiff, hfits]

/-- For every count and every addresses of plain memory: `R` is well behaved exactly when the
addresses are multiples of 4 and fit in its frame. -/
theorem scattered_read (K : ScatteredBoard P sp) (C : Cumulative P) (hcaller : P.Plain sp)
    (hbuffer : ¬ InHexBuffer sp) (s : State Uart) {typed : List Byte}
    (hpc : s.pc = 0x10000fb4#32) (hnpc : s.npc = 0x10000fb8#32) (hsp : s.regs.get .sp = sp)
    (hletter : s.dev.input = 82#8 :: typed) (hn : getword typed = some (n, input))
    (haddrs : getwords n.toNat input = some (addrs, rest))
    (hsources : ∀ a ∈ addrs, Source P (Scratch sp 512) a) :
    WellBehaved P sp addrs s ↔ (∀ a ∈ addrs, a.toNat % 4 = 0) ∧ Fits s.regs addrs := by
  have hrefused : ¬ (P.confine (Scratch sp 512)).Plain sp := by
    rintro ⟨-, hw⟩
    simp only [Platform.confine, Bool.and_eq_true, decide_eq_true_eq] at hw
    rcases hw.2 with hbelow | hin
    · unfold Below at hbelow
      bv_omega
    · exact hbuffer hin
  obtain ⟨t, hends, hiff⟩ := prompt_scattered K.confine ⟨C.load, C.store⟩ hcaller.1.1.1 hrefused
    hpc hnpc hsp hletter hn haddrs fun a ha => (hsources a ha).confine
  rw [← hiff]
  constructor
  · rintro ⟨t', hends', hwell⟩
    rwa [hends'.unique hends] at hwell
  · intro hwell
    exact ⟨t, hends, hwell⟩

def scatteredBench : Platform Uart := benchWith [(0x100007d0, commandScattered)]

theorem scatteredBench_board : ScatteredBoard scatteredBench 0x01000f00#32 where
  toBoard := benchWith_board (by decide)
  routine := benchWith_pieces (by decide) (by decide)
  stack := (benchWith_low (by decide)).stack (by decide)
  buffer := (benchWith_low (by decide)).buffer
  apart := buffer_apart (by decide)

theorem scatteredBench_cumulative : Cumulative scatteredBench :=
  ⟨bench_cumulative.load, bench_cumulative.store⟩

theorem scatteredBench_source {a : Addr} (hfits : a.toNat + 4 ≤ 0x01000000) :
    Source scatteredBench (Scratch 0x01000f00#32 512) a where
  ram := fun i hi => benchWith_ram (by decide) (by bv_omega)
  apart := by
    rintro i hi (h | h)
    · unfold Below at h
      bv_omega
    · unfold InHexBuffer at h
      bv_omega

theorem scatteredBench_caller :
    scatteredBench.Plain 0x01000f00#32 ∧ ¬ InHexBuffer 0x01000f00#32 :=
  ⟨⟨⟨benchWith_ram (by decide) (by decide), by decide⟩, rfl⟩, by decide⟩

theorem scattered_read_two :
    WellBehaved scatteredBench 0x01000f00#32 [0x100#32, 0x200#32]
        (benchPrompt (fun _ => 0#8) [82, 50, 32, 49, 48, 48, 32, 50, 48, 48, 32]) ↔
      (∀ a ∈ [0x100#32, 0x200#32], a.toNat % 4 = 0) ∧
        Fits (benchPrompt (fun _ => 0#8) []).regs [0x100#32, 0x200#32] :=
  have hcount : getword [50, 32, 49, 48, 48, 32, 50, 48, 48, 32] =
    some (2#32, [49, 48, 48, 32, 50, 48, 48, 32]) := by decide
  have haddrs : getwords 2 [49, 48, 48, 32, 50, 48, 48, 32] = some ([0x100#32, 0x200#32], []) := by
    decide
  scattered_read scatteredBench_board scatteredBench_cumulative scatteredBench_caller.1
    scatteredBench_caller.2
    (benchPrompt (fun _ => 0#8) [82, 50, 32, 49, 48, 48, 32, 50, 48, 48, 32]) rfl rfl rfl rfl hcount
    haddrs
    (by
      intro a ha
      simp only [List.mem_cons, List.not_mem_nil, or_false] at ha
      rcases ha with rfl | rfl <;> exact scatteredBench_source (by decide))

theorem getwords_replicate {text : List Byte} {w : Word}
    (h : ∀ rest, getword (text ++ rest) = some (w, rest)) (k : ℕ) (rest : List Byte) :
    getwords k ((List.replicate k text).flatten ++ rest) = some (List.replicate k w, rest) := by
  induction k with
  | zero => rfl
  | succ k ih =>
    refine getwords_succ.mpr ⟨w, _, List.replicate k w, ?_, ih, rfl⟩
    rw [List.replicate_succ, List.flatten_cons, List.append_assoc]
    exact h _

/-- `R69 ` and then 105 times `100 `. -/
def longRequest : List Byte := 82 :: ([54, 57, 32] ++ (List.replicate 105 [49, 48, 48, 32]).flatten)

theorem scattered_read_long :
    ¬ WellBehaved scatteredBench 0x01000f00#32 (List.replicate 105 0x100#32)
      (benchPrompt (fun _ => 0#8) longRequest) := by
  have hn (more : List Byte) : getword ([54, 57, 32] ++ more) = some (105#32, more) :=
    getword_digits [digit false 6, digit false 9] blank_ends more (by decide)
  have haddr (more : List Byte) : getword ([49, 48, 48, 32] ++ more) = some (0x100#32, more) :=
    getword_digits [digit false 1, digit false 0, digit false 0] blank_ends more (by decide)
  have haddrs : getwords 105 (List.replicate 105 [49, 48, 48, 32]).flatten =
      some (List.replicate 105 0x100#32, []) := by
    simpa using getwords_replicate haddr 105 []
  have hrefused : ¬ (scatteredBench.confine (Scratch 0x01000f00#32 512)).Plain 0x01000f00#32 := by
    decide
  have hsources : ∀ a ∈ List.replicate 105 0x100#32,
      Source (scatteredBench.confine (Scratch 0x01000f00#32 512))
        (Scratch 0x01000f00#32 512) a := by
    intro a ha
    rw [List.eq_of_mem_replicate ha]
    exact (scatteredBench_source (by decide)).confine
  obtain ⟨t, hends, hiff⟩ := prompt_scattered (n := 105#32) scatteredBench_board.confine
    ⟨scatteredBench_cumulative.load, scatteredBench_cumulative.store⟩
    scatteredBench_caller.1.1.1.1 hrefused (s := benchPrompt (fun _ => 0#8) longRequest) rfl rfl rfl
    (benchPrompt_input _ longRequest) (hn _) haddrs hsources
  rintro ⟨t', hends', hwell⟩
  rw [hends'.unique hends] at hwell
  have hfits := (hiff.mp hwell).2.1
  simp at hfits

end Reading

end W2
