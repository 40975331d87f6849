import W2.Firmware.Getword
import W2.Firmware.Print

/-!
# The print commands in machine code

`r` (0x10000884) and `l` (0x10000738) share their print loop and their exit. The loop formats
each word in the digit buffer, which is the one place besides the stack that a print command
writes to.
-/

namespace W2

open Mips Transition Miniboot Console

variable {P : Platform Uart}

/-- What a print command may change with `n` bytes of stack: the stack and the digit buffer. -/
def Scratch (sp : Addr) (n : ℕ) (a : Addr) : Prop := Below sp n a ∨ InHexBuffer a

instance (sp : Addr) (n : ℕ) (a : Addr) : Decidable (Scratch sp n a) :=
  inferInstanceAs (Decidable (_ ∨ _))

theorem Scratch.mono {sp a c : Addr} {n k : ℕ} (h : Scratch (sp + c) n a)
    (hk : (-c).toNat + n ≤ k) : Scratch sp k a :=
  h.imp (fun hb => hb.mono hk) id

theorem Scratch.weaken {sp a : Addr} {n k : ℕ} (h : Scratch sp n a) (hk : n ≤ k) :
    Scratch sp k a :=
  h.imp (fun hb => hb.weaken hk) id

theorem hexDigits_scratch (sp : Addr) (n : ℕ) (m : Mem) (w : Word) :
    Agree (Scratch sp n) m (hexDigits m w 8) :=
  (hexDigits_agree m w le_rfl).mono fun _ => Or.inr

theorem printWords_agree {hidden : Addr → Prop} {m m' : Mem} (h : Agree hidden m m') {a : Addr}
    {n : ℕ} (ha : Span P hidden a n) : printWords m' a n = printWords m a n := by
  induction n generalizing a with
  | zero => rfl
  | succ n ih =>
    have hword : m'.readWord a = m.readWord a :=
      h.readWord fun i hi => (ha.plain _ (by unfold InRange; bv_omega)).2.2
    rw [printWords, printWords, hword]
    cases n with
    | zero => rfl
    | succ n => rw [ih (ha.tail (by omega))]

structure PrintLoop (P : Platform Uart) (pc : Addr) : Prop where
  get : P.fetch pc = some (.lw .a0 0 .s0)
  format : P.fetch (pc + 4#32) = some (.jal 0xff)
  next : P.fetch (pc + 8#32) = some (.addiu .s0 .s0 4)
  text : P.fetch (pc + 12#32) = some (.jal 0xe5)
  digits : P.fetch (pc + 16#32) = some (.addu .a0 .v0 .zero)
  blank : P.fetch (pc + 20#32) = some (.jal 0xe5)
  string : P.fetch (pc + 24#32) = some (.addiu .a0 .s3 6000)
  count : P.fetch (pc + 28#32) = some (.addiu .s1 .s1 1)
  back : P.fetch (pc + 32#32) = some (.bne .s2 .s1 (-9))
  delay : P.fetch (pc + 36#32) = some .nop
  formatHex : jumpTarget (pc + 4#32) 0xff = 0x100003fc#32
  puts : jumpTarget (pc + 12#32) 0xe5 = 0x10000394#32
  puts' : jumpTarget (pc + 20#32) 0xe5 = 0x10000394#32

theorem printLoop_r (h : Holds P) : PrintLoop P 0x100008c0#32 := by
  constructor <;> simp [commandR_listing h]

theorem printLoop_l (h : Holds P) : PrintLoop P 0x10000784#32 := by
  constructor <;> simp [commandL_listing h]

structure PrintWord (P : Platform Uart) (pc : Addr) : Prop where
  text : P.fetch pc = some (.jal 0xe5)
  digits : P.fetch (pc + 4#32) = some (.addu .a0 .v0 .zero)
  blank : P.fetch (pc + 8#32) = some (.jal 0xe5)
  string : P.fetch (pc + 12#32) = some (.addiu .a0 .s3 6000)
  puts : jumpTarget pc 0xe5 = 0x10000394#32
  puts' : jumpTarget (pc + 8#32) 0xe5 = 0x10000394#32

theorem PrintLoop.word {pc : Addr} (L : PrintLoop P pc) : PrintWord P (pc + 12#32) where
  text := L.text
  digits := by simpa [BitVec.add_assoc] using L.digits
  blank := by simpa [BitVec.add_assoc] using L.blank
  string := by simpa [BitVec.add_assoc] using L.string
  puts := L.puts
  puts' := by simpa [BitVec.add_assoc] using L.puts'

theorem printWord_spec (B : Board P) (hbuf : HexBuffer P) {pc sp : Addr} (W : PrintWord P pc)
    (w : Word) {s : State Uart} {entry : Regs} {mem : Mem} {u : Uart}
    (h : Steps (step P) s ⟨entry, 0x100003fc#32, 0x10000400#32, mem, u⟩)
    (hra : entry.get .ra = pc) (ha0 : entry.get .a0 = w) (hregs : entry.get .sp = sp)
    (hs3 : entry.get .s3 = 0x10000000#32) (hsp : Stack P sp 56)
    (hapart : ∀ a, InHexBuffer a → ¬ Below sp 56 a) :
    ∃ regs' mem' n, Steps (step P) s ⟨regs', pc + 16#32, pc + 16#32 + 4#32, mem',
        u.sent n (Console.puts (formatHex w) ++ Console.puts [32#8])⟩ ∧
      entry.KeepsBut [.ra] regs' ∧ Agree (Scratch sp 56) mem mem' := by
  have hputs := W.puts
  have hputs' := W.puts'
  simp only [jumpTarget, BitVec.ofNat_eq_ofNat, BitVec.add_assoc, BitVec.reduceAdd] at hputs hputs'
  obtain ⟨regs₁, hfmt, hv₁, hkeeps₁⟩ := formatHex_call B hbuf pc w h hra ha0
  let second := (regs₁.set .ra (pc + 8#32)).set .a0 0x01000010#32
  have hsecond : Steps (step P) ⟨regs₁, pc, pc + 4#32, hexDigits mem w 8, u⟩
      ⟨second, 0x10000394#32, 0x10000398#32, hexDigits mem w 8, u⟩ := by
    apply Steps.of_run (n := 2)
    simp [W.text, W.digits, hputs, hv₁, second]
  obtain ⟨regs₂, mem₂, n₂, hdigits, hkeeps₂, hframe₂⟩ :=
    puts_call B (pc + 8#32) sp 0x01000010#32 (hfmt.trans hsecond) (by simp [second])
      (by simp [second, hkeeps₁.get, hregs]) (by simp [second]) hsp
      (hexDigits_string hbuf hapart mem w) fun _ hx => hx
  let third := (regs₂.set .ra (pc + 16#32)).set .a0 0x10001770#32
  have hthird : Steps (step P)
      ⟨regs₂, pc + 8#32, pc + 8#32 + 4#32, mem₂, u.sent n₂ (Console.puts (formatHex w))⟩
      ⟨third, 0x10000394#32, 0x10000398#32, mem₂, u.sent n₂ (Console.puts (formatHex w))⟩ := by
    have hbase : regs₂.get .s3 = 0x10000000#32 := by
      simp [hkeeps₂.get, second, hkeeps₁.get, hs3]
    apply Steps.of_run (n := 2)
    simp [BitVec.add_assoc, W.blank, W.string, hputs', hbase, third]
  obtain ⟨regs₃, mem₃, n₃, hblank, hkeeps₃, hframe₃⟩ :=
    puts_call B (pc + 16#32) sp 0x10001770#32 (hdigits.trans hthird) (by simp [third])
      (by simp [third, hkeeps₂.get, second, hkeeps₁.get, hregs]) (by simp [third]) hsp
      (blank_string B _ mem₂) fun _ hx => hx
  refine ⟨regs₃, mem₃, n₃, by simpa using hblank, ?keeps, ?mem⟩
  case keeps => simp [Regs.keepsBut_iff, hkeeps₃.get, third, hkeeps₂.get, second, hkeeps₁.get]
  case mem =>
    exact (hexDigits_scratch sp 56 mem w).trans ((hframe₂.trans hframe₃).mono fun _ => Or.inl)

theorem printLoop_round (B : Board P) (hbuf : HexBuffer P) {pc : Addr} (L : PrintLoop P pc)
    (regs : Regs) (mem : Mem) (u : Uart) (hs3 : regs.get .s3 = 0x10000000#32)
    (hsp : Stack P (regs.get .sp) 56) (hapart : ∀ a, InHexBuffer a → ¬ Below (regs.get .sp) 56 a)
    (hget : P.RamWord (regs.get .s0)) {target : Addr}
    (htarget : target = if regs.get .s2 = regs.get .s1 + 1#32 then pc + 40#32 else pc) :
    ∃ regs' mem' n, Steps (step P) ⟨regs, pc, pc + 4#32, mem, u⟩
        ⟨regs', target, target + 4#32, mem', u.sent n (Console.printWords mem (regs.get .s0) 1)⟩ ∧
      regs'.get .s0 = regs.get .s0 + 4#32 ∧ regs'.get .s1 = regs.get .s1 + 1#32 ∧
      regs.KeepsBut [.s0, .s1, .ra] regs' ∧ Agree (Scratch (regs.get .sp) 56) mem mem' := by
  have hformat := L.formatHex
  simp only [jumpTarget, BitVec.ofNat_eq_ofNat, BitVec.add_assoc, BitVec.reduceAdd] at hformat
  generalize hw : mem.readWord (regs.get .s0) = w
  let entry := ((regs.set .a0 w).set .ra (pc + 12#32)).set .s0 (regs.get .s0 + 4#32)
  have hentry : Steps (step P) ⟨regs, pc, pc + 4#32, mem, u⟩
      ⟨entry, 0x100003fc#32, 0x10000400#32, mem, u⟩ := by
    apply Steps.of_run (n := 3)
    simp [BitVec.add_assoc, L.get, L.format, L.next, hget, hformat, hw, entry]
  obtain ⟨regs₁, mem₁, n, hprint, hkeeps, hagree⟩ :=
    printWord_spec B hbuf L.word w hentry (by simp [entry]) (by simp [entry]) (by simp [entry])
      (by simp [entry, hs3]) hsp hapart
  have hs1 : regs₁.get .s1 = regs.get .s1 := by simp [hkeeps.get, entry]
  have hs2 : regs₁.get .s2 = regs.get .s2 := by simp [hkeeps.get, entry]
  refine ⟨regs₁.set .s1 (regs.get .s1 + 1#32), mem₁, n,
    hprint.trans (Steps.of_run (n := 3) ?run), ?s0, by simp, ?keeps, hagree⟩
  case run =>
    by_cases hexit : regs.get .s2 = regs.get .s1 + 1#32 <;>
      simp [BitVec.add_assoc, L.count, L.back, L.delay, hs1, hs2, htarget, hexit, printWords, hw]
  case s0 => simp [hkeeps.get, entry]
  case keeps => simp [Regs.keepsBut_iff, hkeeps.get, entry]

/-- The loop prints the words. The induction is on the rounds still to come, as in the store
loop; the memory it reads is the one it was entered with. -/
theorem printLoop_spec (B : Board P) (hbuf : HexBuffer P) {pc : Addr} (L : PrintLoop P pc)
    (k : ℕ) (regs : Regs) (mem : Mem) (u : Uart) (hk : k + 1 < 4294967296)
    (hcount : regs.get .s2 = regs.get .s1 + BitVec.ofNat 32 (k + 1))
    (hs3 : regs.get .s3 = 0x10000000#32) (hsp : Stack P (regs.get .sp) 56)
    (hapart : ∀ a, InHexBuffer a → ¬ Below (regs.get .sp) 56 a)
    (hspan : Span P (Scratch (regs.get .sp) 56) (regs.get .s0) (k + 1)) :
    ∃ regs' mem' n, Steps (step P) ⟨regs, pc, pc + 4#32, mem, u⟩
        ⟨regs', pc + 40#32, pc + 44#32, mem',
          u.sent n (Console.printWords mem (regs.get .s0) (k + 1))⟩ ∧
      regs.KeepsBut [.s0, .s1, .ra] regs' ∧ Agree (Scratch (regs.get .sp) 56) mem mem' := by
  induction k generalizing regs mem u with
  | zero =>
    obtain ⟨regs', mem', n, hround, -, -, hkeeps, hagree⟩ :=
      printLoop_round B hbuf L regs mem u hs3 hsp hapart
        (by simpa using (hspan.word (j := 0) (by omega)).1) (if_pos (by simpa using hcount)).symm
    exact ⟨regs', mem', n, by simpa [BitVec.add_assoc] using hround, hkeeps, hagree⟩
  | succ k ih =>
    have hmore : regs.get .s2 ≠ regs.get .s1 + 1#32 := by
      rw [hcount]
      bv_omega
    obtain ⟨regs₁, mem₁, n₁, hround, hs0, hs1, hkeeps, hagree⟩ :=
      printLoop_round B hbuf L regs mem u hs3 hsp hapart
        (by simpa using (hspan.word (j := 0) (by omega)).1) (if_neg hmore).symm
    have hsp₁ : regs₁.get .sp = regs.get .sp := hkeeps.get (by simp) (by simp)
    have hs2 : regs₁.get .s2 = regs.get .s2 := hkeeps.get (by simp) (by simp)
    have hs3₁ : regs₁.get .s3 = regs.get .s3 := hkeeps.get (by simp) (by simp)
    have htail := hspan.tail (by omega)
    obtain ⟨regs₂, mem₂, n₂, hloop, hkeeps₂, hagree₂⟩ :=
      ih regs₁ mem₁ (u.sent n₁ (Console.printWords mem (regs.get .s0) 1)) (by omega)
        (by rw [hs2, hs1, hcount]; bv_omega) (hs3₁.trans hs3) (hsp₁ ▸ hsp) (hsp₁ ▸ hapart)
        (by rwa [hsp₁, hs0])
    rw [hs0, printWords_agree hagree htail] at hloop
    rw [hsp₁] at hagree₂
    refine ⟨regs₂, mem₂, n₂, ?run, hkeeps.trans hkeeps₂, hagree.trans hagree₂⟩
    simpa [printWords] using hround.trans hloop

theorem printLoop_words (B : Board P) (hbuf : HexBuffer P) {pc : Addr} (L : PrintLoop P pc)
    (regs : Regs) (mem : Mem) (u : Uart) {n : Word}
    (hstart : n ≠ 0#32 → regs.get .s1 = 0#32 ∧ regs.get .s3 = 0x10000000#32)
    (hs2 : regs.get .s2 = n) (hsp : Stack P (regs.get .sp) 56)
    (hapart : ∀ a, InHexBuffer a → ¬ Below (regs.get .sp) 56 a)
    (hspan : Span P (Scratch (regs.get .sp) 56) (regs.get .s0) n.toNat) {head : Addr}
    (hhead : head = if n = 0#32 then pc + 40#32 else pc) :
    ∃ regs' mem' k, Steps (step P) ⟨regs, head, head + 4#32, mem, u⟩
        ⟨regs', pc + 40#32, pc + 44#32, mem',
          u.sent k (Console.printWords mem (regs.get .s0) n.toNat)⟩ ∧
      regs.KeepsBut [.s0, .s1, .ra] regs' ∧ Agree (Scratch (regs.get .sp) 56) mem mem' := by
  by_cases hn : n = 0#32
  · subst hn
    refine ⟨regs, mem, u.busy, ?_, fun _ _ _ => rfl, Agree.refl _ mem⟩
    simpa [hhead, BitVec.add_assoc, printWords] using Steps.refl _
  · obtain ⟨k, hk⟩ : ∃ k, n.toNat = k + 1 := ⟨n.toNat - 1, by bv_omega⟩
    rw [hk] at hspan ⊢
    rw [hhead, if_neg hn]
    refine printLoop_spec B hbuf L k regs mem u (by omega) ?_ (hstart hn).2 hsp hapart hspan
    rw [(hstart hn).1, hs2, ← hk]
    simp

abbrev printSlots : Slots :=
  [(0xfffffff8#32, .ra), (0xfffffff4#32, .s3), (0xfffffff0#32, .s2), (0xffffffec#32, .s1),
    (0xffffffe8#32, .s0)]

structure PrintExit (P : Platform Uart) (pc : Addr) : Prop where
  send : P.fetch pc = some (.jal 0xcc)
  mark : P.fetch (pc + 4#32) = some (.addiu .a0 .zero 3)
  ra : P.fetch (pc + 8#32) = some (.lw .ra 32 .sp)
  s3 : P.fetch (pc + 12#32) = some (.lw .s3 28 .sp)
  s2 : P.fetch (pc + 16#32) = some (.lw .s2 24 .sp)
  s1 : P.fetch (pc + 20#32) = some (.lw .s1 20 .sp)
  s0 : P.fetch (pc + 24#32) = some (.lw .s0 16 .sp)
  ret : P.fetch (pc + 28#32) = some (.jr .ra)
  leave : P.fetch (pc + 32#32) = some (.addiu .sp .sp 40)
  segment : jumpTarget pc 0xcc = 0x10000330#32

theorem printExit_r (h : Holds P) : PrintExit P 0x100008e8#32 := by
  constructor <;> simp [commandR_listing h]

theorem printExit_l (h : Holds P) : PrintExit P 0x100007ac#32 := by
  constructor <;> simp [commandL_listing h]

theorem printExit_spec (B : Board P) {pc sp : Addr} (E : PrintExit P pc) (caller regs : Regs)
    (mem : Mem) (u : Uart) (hsp : Stack P sp 40) (hregs : regs.get .sp = sp + 0xffffffd8#32)
    (hkeeps : caller.KeepsBut [.s0, .s1, .s2, .s3, .sp, .ra] regs) (hcaller : caller.get .sp = sp)
    (hsaved : Saved printSlots mem sp caller) :
    ∃ regs' n, Steps (step P) ⟨regs, pc, pc + 4#32, mem, u⟩
        ⟨regs', caller.get .ra, caller.get .ra + 4#32, mem, u.sent n [3#8]⟩ ∧
      caller.Keeps regs' := by
  let entry := (regs.set .ra (pc + 8#32)).set .a0 3#32
  have hcall : Steps (step P) ⟨regs, pc, pc + 4#32, mem, u⟩
      ⟨entry, 0x10000330#32, 0x10000334#32, mem, u⟩ := by
    have hseg := E.segment
    simp only [jumpTarget, BitVec.ofNat_eq_ofNat] at hseg
    apply Steps.of_run (n := 2)
    simp [E.send, E.mark, hseg, entry]
  obtain ⟨regs₁, n, hput, hkeeps₁⟩ := putchar_spec B entry mem u
  rw [show entry.get .ra = pc + 8#32 by simp [entry],
    show (entry.get .a0).setWidth 8 = 3#8 by simp [entry]] at hput
  have hsp₁ : regs₁.get .sp = sp + 0xffffffd8#32 := by simp [hkeeps₁.get, entry, hregs]
  refine ⟨?exit, n, (hcall.trans hput).trans (Steps.of_run (n := 7) ?run), ?keeps⟩
  case run =>
    simp [Saved] at hsaved
    simp [BitVec.add_assoc, E.ra, E.s3, E.s2, E.s1, E.s0, E.ret, E.leave, hsp₁, hsp.ramWord, hsaved]
    rfl
  case keeps => simp [Regs.keeps_iff, hkeeps₁.get, hkeeps.get, entry, hcaller]

structure PrintRegs (caller regs : Regs) (sp addr : Addr) (n : Word) : Prop where
  s0 : regs.get .s0 = addr
  start : n ≠ 0#32 → regs.get .s1 = 0#32 ∧ regs.get .s3 = 0x10000000#32
  s2 : regs.get .s2 = n
  sp : regs.get .sp = sp + 0xffffffd8#32
  keeps : caller.KeepsBut [.s0, .s1, .s2, .s3, .sp, .ra] regs

theorem print_entry_agree {caller : Regs} {sp : Addr} {mem mem₁ : Mem}
    (hcalls : Frame (sp + 0xffffffd8#32) 72 (save mem sp caller printSlots) mem₁) :
    Agree (Scratch sp 112) mem mem₁ :=
  ((save_frame (n := 40) (by decide) mem sp caller).mono fun _ hx =>
    Or.inl (hx.weaken (by omega))).trans
    (hcalls.mono fun _ hx => Or.inl (hx.mono (by decide)))

theorem print_finish (B : Board P) (hbuf : HexBuffer P) {pc : Addr} (L : PrintLoop P pc)
    (E : PrintExit P (pc + 40#32)) {caller regs : Regs} {mem mem₁ : Mem} (u : Uart)
    {sp addr : Addr} {n : Word} (hsp : Stack P sp 112) (hcaller : caller.get .sp = sp)
    (hapart : ∀ a, InHexBuffer a → ¬ Below sp 112 a)
    (hspan : Span P (Scratch sp 112) addr n.toNat)
    (hcalls : Frame (sp + 0xffffffd8#32) 72 (save mem sp caller printSlots) mem₁)
    (hregs : PrintRegs caller regs sp addr n) {head : Addr}
    (hhead : head = if n = 0#32 then pc + 40#32 else pc) :
    ∃ regs' mem' k, Steps (step P) ⟨regs, head, head + 4#32, mem₁, u⟩
        ⟨regs', caller.get .ra, caller.get .ra + 4#32, mem',
          u.sent k (Console.printWords mem addr n.toNat ++ [3#8])⟩ ∧
      caller.Keeps regs' ∧ Agree (Scratch sp 112) mem mem' := by
  have hentry := print_entry_agree hcalls
  have hinner (x : Addr) (hx : Scratch (sp + 0xffffffd8#32) 56 x) : Scratch sp 112 x :=
    hx.mono (by decide)
  obtain ⟨regs₁, mem₂, n₁, hloop, hkeeps₁, hagree⟩ :=
    printLoop_words B hbuf L regs mem₁ u hregs.start hregs.s2
      (by rw [hregs.sp]; exact hsp.callee (by decide) (by decide))
      (by rw [hregs.sp]; exact fun a ha hb => hapart a ha (hb.mono (by decide)))
      (by rw [hregs.sp, hregs.s0]; exact hspan.mono hinner) hhead
  rw [hregs.s0, printWords_agree hentry hspan] at hloop
  rw [hregs.sp] at hagree
  have hsaved : Saved printSlots (save mem sp caller printSlots) sp caller := by
    simp [Saved, save]
  have hread := hsaved.frame (by decide) hcalls (by decide)
  have hexit : Saved printSlots mem₂ sp caller := hread.agree (n := 40) (by decide) fun x hx =>
    hagree x fun h => h.elim (fun hb => by unfold Below at *; bv_omega)
      fun hb => hapart x hb (hx.weaken (by omega))
  have hroom : Stack P sp 40 := hsp.weaken (by omega)
  obtain ⟨regs₂, n₂, hret, hkeeps₂⟩ :=
    printExit_spec B E caller regs₁ mem₂ (u.sent n₁ (Console.printWords mem addr n.toNat)) hroom
      (by rw [hkeeps₁.get (by simp) (by simp), hregs.sp])
      (by simp [Regs.keepsBut_iff, hkeeps₁.get, hregs.keeps.get]) hcaller hexit
  refine ⟨regs₂, mem₂, n₂, ?run, hkeeps₂, hentry.trans (hagree.mono hinner)⟩
  simpa [BitVec.add_assoc] using hloop.trans (by simpa [BitVec.add_assoc] using hret)

theorem commandR_spec (B : Board P) (hbuf : HexBuffer P) (regs : Regs) (mem : Mem) (u : Uart)
    {addr : Addr} {n : Word} {rest : List Byte}
    (hread : commandR u.input = some (.r addr n, rest)) (hsp : Stack P (regs.get .sp) 112)
    (hapart : ∀ a, InHexBuffer a → ¬ Below (regs.get .sp) 112 a)
    (hspan : Span P (Scratch (regs.get .sp) 112) addr n.toNat) :
    ∃ regs' mem' u', Steps (step P) ⟨regs, 0x10000884#32, 0x10000888#32, mem, u⟩
        ⟨regs', regs.get .ra, regs.get .ra + 4#32, mem', u'⟩ ∧
      regs.Keeps regs' ∧ u'.input = rest ∧
      u'.tx = u.tx ++ (2#8 :: Console.printWords mem addr n.toNat ++ [3#8]) ∧
      Agree (Scratch (regs.get .sp) 112) mem mem' := by
  obtain ⟨_, input₁, _, haddr, hn, hc⟩ := commandR_eq hread
  obtain ⟨rfl, rfl⟩ : addr = _ ∧ n = _ := by simpa using hc
  generalize hsp₀ : regs.get .sp = sp at *
  have hcallee : Stack P (sp + 0xffffffd8#32) 72 := hsp.callee (by decide) (by decide)
  let entry := (regs.set .sp (sp + 0xffffffd8#32)).set .ra 0x100008a0#32
  have hentry : Steps (step P) ⟨regs, 0x10000884#32, 0x10000888#32, mem, u⟩
      ⟨entry, 0x1000048c#32, 0x10000490#32, save mem sp regs printSlots, u⟩ := by
    apply Steps.of_run (n := 7)
    simp [commandR_listing B.toHolds, BitVec.add_assoc, hsp₀, hsp.plain, entry, save]
  obtain ⟨regs₁, mem₁, u₁, hget₁, hv₁, hkeeps₁, hinput₁, htx₁, hframe₁⟩ :=
    getword_call B 0x100008a0#32 _ hentry (by simp [entry]) (by simp [entry]) hcallee haddr
  let second := (regs₁.set .ra 0x100008a8#32).set .s0 addr
  have hsecond : Steps (step P) ⟨regs₁, 0x100008a0#32, 0x100008a4#32, mem₁, u₁⟩
      ⟨second, 0x1000048c#32, 0x10000490#32, mem₁, u₁⟩ := by
    apply Steps.of_run (n := 2)
    simp [commandR_listing B.toHolds, hv₁, second]
  obtain ⟨regs₂, mem₂, u₂, hget₂, hv₂, hkeeps₂, hinput₂, htx₂, hframe₂⟩ :=
    getword_call B 0x100008a8#32 _ (hget₁.trans hsecond) (by simp [second])
      (by simp [second, hkeeps₁.get, entry]) hcallee (hinput₁ ▸ hn)
  let third := ((regs₂.set .s2 n).set .ra 0x100008b4#32).set .a0 2#32
  have hthird : Steps (step P) ⟨regs₂, 0x100008a8#32, 0x100008ac#32, mem₂, u₂⟩
      ⟨third, 0x10000330#32, 0x10000334#32, mem₂, u₂⟩ := by
    apply Steps.of_run (n := 3)
    simp [commandR_listing B.toHolds, hv₂, third]
  obtain ⟨regs₃, n₃, hput, hkeeps₃⟩ := putchar_spec B third mem₂ u₂
  rw [show third.get .ra = 0x100008b4#32 by simp [third],
    show (third.get .a0).setWidth 8 = 2#8 by simp [third]] at hput
  have htest : ∃ fourth, Steps (step P)
      ⟨regs₃, 0x100008b4#32, 0x100008b8#32, mem₂, u₂.sent n₃ [2#8]⟩
      ⟨fourth, if n = 0#32 then 0x100008e8#32 else 0x100008c0#32,
        (if n = 0#32 then 0x100008e8#32 else 0x100008c0#32) + 4#32, mem₂, u₂.sent n₃ [2#8]⟩ ∧
      PrintRegs regs fourth sp addr n := by
    have hs0 : regs₃.get .s0 = addr := by simp [hkeeps₃.get, third, hkeeps₂.get, second]
    have hs2 : regs₃.get .s2 = n := by simp [hkeeps₃.get, third]
    have hsp₃ : regs₃.get .sp = sp + 0xffffffd8#32 := by
      simp [hkeeps₃.get, third, hkeeps₂.get, second, hkeeps₁.get, entry]
    have hkeeps : regs.KeepsBut [.s0, .s1, .s2, .s3, .sp, .ra] regs₃ := by
      simp [Regs.keepsBut_iff, hkeeps₃.get, third, hkeeps₂.get, second, hkeeps₁.get, entry]
    by_cases hzero : n = 0#32
    · refine ⟨regs₃.set .s1 0#32, Steps.of_run (n := 2) ?_, ?_⟩
      · simp [commandR_listing B.toHolds, hs2, hzero]
      · constructor <;> simp [hs0, hs2, hsp₃, hzero, Regs.keepsBut_iff, hkeeps.get]
    · refine ⟨(regs₃.set .s1 0#32).set .s3 0x10000000#32, Steps.of_run (n := 3) ?_, ?_⟩
      · simp [commandR_listing B.toHolds, hs2, hzero]
      · constructor <;> simp [hs0, hs2, hsp₃, Regs.keepsBut_iff, hkeeps.get]
  obtain ⟨fourth, htest, hregs⟩ := htest
  obtain ⟨regs₄, mem₄, n₄, hfinish, hkeeps₄, hagree⟩ :=
    print_finish B hbuf (printLoop_r B.toHolds) (printExit_r B.toHolds) (u₂.sent n₃ [2#8]) hsp hsp₀
      hapart hspan (hframe₁.trans hframe₂) hregs rfl
  refine ⟨regs₄, mem₄, _, (((hget₂.trans hthird).trans hput).trans htest).trans hfinish, hkeeps₄,
    by simpa using hinput₂, by simp [htx₂, htx₁], hagree⟩

/-- Command `l`. The pointer is loaded after the count has been read. -/
theorem commandL_spec (B : Board P) (hbuf : HexBuffer P) (regs : Regs) (mem : Mem) (u : Uart)
    {ptr off : Addr} {n : Word} {rest : List Byte}
    (hread : commandL u.input = some (.l ptr off n, rest)) (hsp : Stack P (regs.get .sp) 112)
    (hapart : ∀ a, InHexBuffer a → ¬ Below (regs.get .sp) 112 a)
    (hptr : Span P (Scratch (regs.get .sp) 112) ptr 1)
    (hspan : Span P (Scratch (regs.get .sp) 112) (off + mem.readWord ptr) n.toNat) :
    ∃ regs' mem' u', Steps (step P) ⟨regs, 0x10000738#32, 0x1000073c#32, mem, u⟩
        ⟨regs', regs.get .ra, regs.get .ra + 4#32, mem', u'⟩ ∧
      regs.Keeps regs' ∧ u'.input = rest ∧
      u'.tx = u.tx ++ (2#8 :: Console.printWords mem (off + mem.readWord ptr) n.toNat ++ [3#8]) ∧
      Agree (Scratch (regs.get .sp) 112) mem mem' := by
  obtain ⟨_, input₁, _, input₂, _, hptr', hoff, hn, hc⟩ := commandL_eq hread
  obtain ⟨rfl, rfl, rfl⟩ : ptr = _ ∧ off = _ ∧ n = _ := by simpa using hc
  generalize hsp₀ : regs.get .sp = sp at *
  have hcallee : Stack P (sp + 0xffffffd8#32) 72 := hsp.callee (by decide) (by decide)
  let entry := (regs.set .sp (sp + 0xffffffd8#32)).set .ra 0x10000754#32
  have hentry : Steps (step P) ⟨regs, 0x10000738#32, 0x1000073c#32, mem, u⟩
      ⟨entry, 0x1000048c#32, 0x10000490#32, save mem sp regs printSlots, u⟩ := by
    apply Steps.of_run (n := 7)
    simp [commandL_listing B.toHolds, BitVec.add_assoc, hsp₀, hsp.plain, entry, save]
  obtain ⟨regs₁, mem₁, u₁, hget₁, hv₁, hkeeps₁, hinput₁, htx₁, hframe₁⟩ :=
    getword_call B 0x10000754#32 _ hentry (by simp [entry]) (by simp [entry]) hcallee hptr'
  let second := (regs₁.set .ra 0x1000075c#32).set .s0 ptr
  have hsecond : Steps (step P) ⟨regs₁, 0x10000754#32, 0x10000758#32, mem₁, u₁⟩
      ⟨second, 0x1000048c#32, 0x10000490#32, mem₁, u₁⟩ := by
    apply Steps.of_run (n := 2)
    simp [commandL_listing B.toHolds, hv₁, second]
  obtain ⟨regs₂, mem₂, u₂, hget₂, hv₂, hkeeps₂, hinput₂, htx₂, hframe₂⟩ :=
    getword_call B 0x1000075c#32 _ (hget₁.trans hsecond) (by simp [second])
      (by simp [second, hkeeps₁.get, entry]) hcallee (hinput₁ ▸ hoff)
  let third := (regs₂.set .ra 0x10000764#32).set .s1 off
  have hthird : Steps (step P) ⟨regs₂, 0x1000075c#32, 0x10000760#32, mem₂, u₂⟩
      ⟨third, 0x1000048c#32, 0x10000490#32, mem₂, u₂⟩ := by
    apply Steps.of_run (n := 2)
    simp [commandL_listing B.toHolds, hv₂, third]
  obtain ⟨regs₃, mem₃, u₃, hget₃, hv₃, hkeeps₃, hinput₃, htx₃, hframe₃⟩ :=
    getword_call B 0x10000764#32 _ (hget₂.trans hthird) (by simp [third])
      (by simp [third, hkeeps₂.get, second, hkeeps₁.get, entry]) hcallee (hinput₂ ▸ hn)
  have hcalls := (hframe₁.trans hframe₂).trans hframe₃
  have hload : mem₃.readWord ptr = mem.readWord ptr :=
    (print_entry_agree hcalls).readWord fun i hi =>
      (hptr.plain _ (by unfold InRange; bv_omega)).2.2
  have hptrRam : P.RamWord ptr := by simpa using (hptr.word (j := 0) (by omega)).1
  have hs0₃ : regs₃.get .s0 = ptr := by simp [hkeeps₃.get, third, hkeeps₂.get, second]
  let fourth := (((regs₃.set .s2 n).set .s0 (mem.readWord ptr)).set .ra 0x10000774#32).set .a0 2#32
  have hfourth : Steps (step P) ⟨regs₃, 0x10000764#32, 0x10000768#32, mem₃, u₃⟩
      ⟨fourth, 0x10000330#32, 0x10000334#32, mem₃, u₃⟩ := by
    apply Steps.of_run (n := 4)
    simp [commandL_listing B.toHolds, hv₃, hs0₃, hptrRam, hload, fourth]
  obtain ⟨regs₄, n₄, hput, hkeeps₄⟩ := putchar_spec B fourth mem₃ u₃
  rw [show fourth.get .ra = 0x10000774#32 by simp [fourth],
    show (fourth.get .a0).setWidth 8 = 2#8 by simp [fourth]] at hput
  have htest : ∃ fifth, Steps (step P) ⟨regs₄, 0x10000774#32, 0x10000778#32, mem₃, u₃.sent n₄ [2#8]⟩
      ⟨fifth, if n = 0#32 then 0x100007ac#32 else 0x10000784#32,
        (if n = 0#32 then 0x100007ac#32 else 0x10000784#32) + 4#32, mem₃, u₃.sent n₄ [2#8]⟩ ∧
      PrintRegs regs fifth sp (off + mem.readWord ptr) n := by
    have hs0 : regs₄.get .s0 = mem.readWord ptr := by simp [hkeeps₄.get, fourth]
    have hs1 : regs₄.get .s1 = off := by simp [hkeeps₄.get, fourth, hkeeps₃.get, third]
    have hs2 : regs₄.get .s2 = n := by simp [hkeeps₄.get, fourth]
    have hsp₄ : regs₄.get .sp = sp + 0xffffffd8#32 := by
      simp [hkeeps₄.get, fourth, hkeeps₃.get, third, hkeeps₂.get, second, hkeeps₁.get, entry]
    have hkeeps : regs.KeepsBut [.s0, .s1, .s2, .s3, .sp, .ra] regs₄ := by
      simp [Regs.keepsBut_iff, hkeeps₄.get, fourth, hkeeps₃.get, third, hkeeps₂.get, second,
        hkeeps₁.get, entry]
    by_cases hzero : n = 0#32
    · refine ⟨regs₄.set .s0 (off + mem.readWord ptr), Steps.of_run (n := 2) ?_, ?_⟩
      · simp [commandL_listing B.toHolds, hs0, hs1, hs2, hzero]
      · constructor <;> simp [hs2, hsp₄, hzero, Regs.keepsBut_iff, hkeeps.get]
    · refine ⟨((regs₄.set .s0 (off + mem.readWord ptr)).set .s1 0#32).set .s3 0x10000000#32,
        Steps.of_run (n := 4) ?_, ?_⟩
      · simp [commandL_listing B.toHolds, hs0, hs1, hs2, hzero]
      · constructor <;> simp [hs2, hsp₄, Regs.keepsBut_iff, hkeeps.get]
  obtain ⟨fifth, htest, hregs⟩ := htest
  obtain ⟨regs₅, mem₅, n₅, hfinish, hkeeps₅, hagree⟩ :=
    print_finish B hbuf (printLoop_l B.toHolds) (printExit_l B.toHolds) (u₃.sent n₄ [2#8]) hsp hsp₀
      hapart hspan hcalls hregs rfl
  refine ⟨regs₅, mem₅, _, (((hget₃.trans hfourth).trans hput).trans htest).trans hfinish, hkeeps₅,
    by simpa using hinput₃, by simp [htx₃, htx₂, htx₁], hagree⟩

end W2
