import W2.Firmware.Uart
import W2.Console.Commands

/-!
# Text output in machine code

`sendByte` (0x10000370) wraps `putchar` in a stack frame, `puts` (0x10000394) sends a
zero-terminated string with every line feed preceded by a carriage return, and `formatHex`
(0x100003fc) leaves the eight digits of a word in a buffer of nine bytes at 0x01000010.
-/

namespace W2

open Mips Transition Miniboot

variable {P : Platform Uart}

theorem sendByte_spec (B : Board P) (regs : Regs) (mem : Mem) (u : Uart)
    (hsp : Stack P (regs.get .sp) 24) :
    ∃ regs' mem' n, Steps (step P) ⟨regs, 0x10000370#32, 0x10000374#32, mem, u⟩
        ⟨regs', regs.get .ra, regs.get .ra + 4#32, mem',
          u.sent n [(regs.get .a0).setWidth 8]⟩ ∧
      regs.Keeps regs' ∧ Frame (regs.get .sp) 24 mem mem' := by
  let mem' := mem.writeWord (regs.get .sp + 0xfffffff8#32) (regs.get .ra)
  let entry := ((regs.set .sp (regs.get .sp + 0xffffffe8#32)).set .ra 0x10000380#32).set .a0
    (regs.get .a0 &&& 0xff#32)
  have hentry : Steps (step P) ⟨regs, 0x10000370#32, 0x10000374#32, mem, u⟩
      ⟨entry, 0x10000330#32, 0x10000334#32, mem', u⟩ := by
    apply Steps.of_run (n := 4)
    simp [sendByte_listing B.toHolds, BitVec.add_assoc, hsp.plain, entry, mem']
  obtain ⟨regs₁, n, hput, hkeeps⟩ := putchar_spec B entry mem' u
  have hbyte : (entry.get .a0).setWidth 8 = (regs.get .a0).setWidth 8 := by
    ext i hi
    simp [entry]
    interval_cases i <;> simp
  have hra : entry.get .ra = 0x10000380#32 := by simp [entry]
  have hsp₁ : regs₁.get .sp = regs.get .sp + 0xffffffe8#32 := by simp [hkeeps.get, entry]
  rw [hbyte, hra] at hput
  refine ⟨?exit, mem', n, (hentry.trans hput).trans (Steps.of_run (n := 5) ?run), ?post⟩
  case run =>
    simp [sendByte_listing B.toHolds, BitVec.add_assoc, hsp.ramWord, hsp₁, mem']
    rfl
  case post =>
    refine ⟨?_, Frame.write (Agree.refl _ mem) _ (by decide) (by decide)⟩
    simp [Regs.keeps_iff, hkeeps.get, entry]

/-- A zero-terminated string at `a`, whatever the hidden addresses hold. -/
def CString (P : Platform Uart) (hidden : Addr → Prop) (m : Mem) (a : Addr) : List Byte → Prop
  | [] => ∀ m', Agree hidden m m' → P.readByte m' a = some 0#8
  | b :: bs => b ≠ 0#8 ∧ (∀ m', Agree hidden m m' → P.readByte m' a = some b) ∧
      CString P hidden m (a + 1#32) bs

theorem CString.agree {hidden : Addr → Prop} {m m' : Mem} {a : Addr} {bs : List Byte}
    (h : CString P hidden m a bs) (hm : Agree hidden m m') : CString P hidden m' a bs := by
  induction bs generalizing a with
  | nil => exact fun m'' hm' => h m'' (hm.trans hm')
  | cons b bs ih => exact ⟨h.1, fun m'' hm' => h.2.1 m'' (hm.trans hm'), ih h.2.2⟩

theorem CString.head {hidden : Addr → Prop} {m : Mem} {a : Addr} {bs : List Byte}
    (h : CString P hidden m a bs) : P.readByte m a = some (bs.headD 0#8) := by
  cases bs with
  | nil => exact h m (Agree.refl _ m)
  | cons b bs => exact h.2.1 m (Agree.refl _ m)

def textIn (image : Addr → Option Word) : ℕ → Addr → Option (List Byte)
  | 0, _ => none
  | n + 1, a =>
    (image (alignAddr a)).bind fun w =>
      if byteOf w (a.toNat % 4) = 0#8 then some []
      else (textIn image n (a + 1#32)).map fun bs => byteOf w (a.toNat % 4) :: bs

theorem textIn_string {image : Addr → Option Word} (H : Rom P image) (hidden : Addr → Prop)
    (m : Mem) {n : ℕ} {a : Addr} {bs : List Byte} (h : textIn image n a = some bs) :
    CString P hidden m a bs := by
  induction n generalizing a bs with
  | zero => cases h
  | succ n ih =>
    obtain ⟨w, hw, hrest⟩ := Option.bind_eq_some_iff.mp h
    have hread (m' : Mem) : P.readByte m' a = some (byteOf w (a.toNat % 4)) := by
      simp only [Platform.readByte, H.device _ _ hw, if_true, H.code _ _ hw]
    split at hrest
    next hzero =>
      obtain rfl := Option.some.inj hrest
      intro m' _
      rw [hread, hzero]
    next hzero =>
      obtain ⟨bs', hbs, rfl⟩ := Option.map_eq_some_iff.mp hrest
      exact ⟨hzero, fun m' _ => hread m', ih hbs⟩

theorem signExtend_byte_eq (b k : Byte) : b.signExtend 32 = k.signExtend 32 ↔ b = k := by
  have hlow (c : Byte) : (c.signExtend 32).setWidth 8 = c := by
    ext i hi
    simp [BitVec.getLsbD_signExtend, hi]
    omega
  constructor
  · intro h
    rw [← hlow b, h, hlow k]
  · rintro rfl
    rfl

theorem puts_char (B : Board P) (regs : Regs) (mem : Mem) (u : Uart) {b : Byte}
    (hb : P.readByte mem (regs.get .s0) = some b) (hsp : Stack P (regs.get .sp) 24) :
    ∃ regs' mem' n, Steps (step P) ⟨regs, 0x100003c8#32, 0x100003cc#32, mem, u⟩
        ⟨regs', 0x100003d4#32, 0x100003d8#32, mem', u.sent n [b]⟩ ∧
      regs'.get .s0 = regs.get .s0 + 1#32 ∧ regs.KeepsBut [.s0, .ra] regs' ∧
      Frame (regs.get .sp) 24 mem mem' := by
  let entry := ((regs.set .a0 (b.setWidth 32)).set .ra 0x100003d4#32).set .s0
    (regs.get .s0 + 1#32)
  have hentry : Steps (step P) ⟨regs, 0x100003c8#32, 0x100003cc#32, mem, u⟩
      ⟨entry, 0x10000370#32, 0x10000374#32, mem, u⟩ := by
    apply Steps.of_run (n := 3)
    simp [puts_listing B.toHolds, hb, entry]
  obtain ⟨regs', mem', n, hsend, hkeeps, hframe⟩ :=
    sendByte_spec B entry mem u (by simpa [entry] using hsp)
  have hsent : (entry.get .a0).setWidth 8 = b := by simp [entry]
  rw [hsent, show entry.get .ra = 0x100003d4#32 by simp [entry]] at hsend
  refine ⟨regs', mem', n, hentry.trans hsend, by simp [hkeeps.get, entry], ?_,
    by simpa [entry] using hframe⟩
  simp [Regs.keepsBut_iff, hkeeps.get, entry]

theorem puts_return (B : Board P) (regs : Regs) (mem : Mem) (u : Uart)
    (hsp : Stack P (regs.get .sp) 24) :
    ∃ regs' mem' n, Steps (step P) ⟨regs, 0x100003c0#32, 0x100003c4#32, mem, u⟩
        ⟨regs', 0x100003c8#32, 0x100003cc#32, mem', u.sent n [13#8]⟩ ∧
      regs.KeepsBut [.ra] regs' ∧ Frame (regs.get .sp) 24 mem mem' := by
  let entry := (regs.set .ra 0x100003c8#32).set .a0 13#32
  have hentry : Steps (step P) ⟨regs, 0x100003c0#32, 0x100003c4#32, mem, u⟩
      ⟨entry, 0x10000370#32, 0x10000374#32, mem, u⟩ := by
    apply Steps.of_run (n := 2)
    simp [puts_listing B.toHolds, entry]
  obtain ⟨regs', mem', n, hsend, hkeeps, hframe⟩ :=
    sendByte_spec B entry mem u (by simpa [entry] using hsp)
  rw [show (entry.get .a0).setWidth 8 = 13#8 by simp [entry],
    show entry.get .ra = 0x100003c8#32 by simp [entry]] at hsend
  refine ⟨regs', mem', n, hentry.trans hsend, ?_, by simpa [entry] using hframe⟩
  simp [Regs.keepsBut_iff, hkeeps.get, entry]

theorem puts_round (B : Board P) {hidden : Addr → Prop} (regs : Regs) (mem : Mem) (u : Uart)
    {b : Byte} (hb : ∀ m', Agree hidden mem m' → P.readByte m' (regs.get .s0) = some b)
    (hv0 : regs.get .v0 = b.signExtend 32) (hs1 : regs.get .s1 = 10#32)
    (hsp : Stack P (regs.get .sp) 24) (hhide : ∀ a, Below (regs.get .sp) 24 a → hidden a) :
    ∃ regs' mem' n, Steps (step P) ⟨regs, 0x100003b8#32, 0x100003bc#32, mem, u⟩
        ⟨regs', 0x100003d4#32, 0x100003d8#32, mem', u.sent n (Console.puts [b])⟩ ∧
      regs'.get .s0 = regs.get .s0 + 1#32 ∧ regs.KeepsBut [.s0, .ra] regs' ∧
      Frame (regs.get .sp) 24 mem mem' := by
  have hnl := signExtend_byte_eq b 10#8
  simp only [BitVec.reduceSignExtend] at hnl
  by_cases h10 : b = 10#8
  · have htest : Steps (step P) ⟨regs, 0x100003b8#32, 0x100003bc#32, mem, u⟩
        ⟨regs, 0x100003c0#32, 0x100003c4#32, mem, u⟩ := by
      apply Steps.of_run (n := 2)
      simp [puts_listing B.toHolds, hv0, hs1, h10]
    obtain ⟨regs₁, mem₁, n₁, hreturn, hkeeps₁, hframe₁⟩ := puts_return B regs mem u hsp
    have hs0 : regs₁.get .s0 = regs.get .s0 := hkeeps₁.get (by simp) (by simp)
    have hsp₁ : regs₁.get .sp = regs.get .sp := hkeeps₁.get (by simp) (by simp)
    obtain ⟨regs₂, mem₂, n₂, hchar, hnext, hkeeps₂, hframe₂⟩ :=
      puts_char B regs₁ mem₁ (u.sent n₁ [13#8]) (b := b)
        (by rw [hs0]; exact hb mem₁ (hframe₁.mono hhide)) (by rwa [hsp₁])
    refine ⟨regs₂, mem₂, n₂, ?run, by rw [hnext, hs0], ?keeps, hframe₁.trans (hsp₁ ▸ hframe₂)⟩
    case run => simpa [Console.puts, h10] using (htest.trans hreturn).trans hchar
    case keeps => simp [Regs.keepsBut_iff, hkeeps₁.get, hkeeps₂.get]
  · have htest : Steps (step P) ⟨regs, 0x100003b8#32, 0x100003bc#32, mem, u⟩
        ⟨regs, 0x100003c8#32, 0x100003cc#32, mem, u⟩ := by
      apply Steps.of_run (n := 2)
      simp [puts_listing B.toHolds, hv0, hs1, hnl, h10]
    obtain ⟨regs₂, mem₂, n₂, hchar, hpost⟩ :=
      puts_char B regs mem u (hb mem (Agree.refl _ mem)) hsp
    exact ⟨regs₂, mem₂, n₂, by simpa [Console.puts, h10] using htest.trans hchar, hpost⟩

/-- The loop of `puts`, entered with the first character in `v0`. The induction is on the text
still to be sent. -/
theorem puts_loop (B : Board P) {hidden : Addr → Prop} (b : Byte) (bs : List Byte) (regs : Regs)
    (mem : Mem) (u : Uart) (htext : CString P hidden mem (regs.get .s0) (b :: bs))
    (hv0 : regs.get .v0 = b.signExtend 32) (hs1 : regs.get .s1 = 10#32)
    (hsp : Stack P (regs.get .sp) 24) (hhide : ∀ a, Below (regs.get .sp) 24 a → hidden a) :
    ∃ regs' mem' n, Steps (step P) ⟨regs, 0x100003b8#32, 0x100003bc#32, mem, u⟩
        ⟨regs', 0x100003e4#32, 0x100003e8#32, mem', u.sent n (Console.puts (b :: bs))⟩ ∧
      regs.KeepsBut [.s0, .ra] regs' ∧ Frame (regs.get .sp) 24 mem mem' := by
  induction bs generalizing b regs mem u with
  | nil =>
    obtain ⟨regs₁, mem₁, n₁, hround, hs0, hkeeps, hframe⟩ :=
      puts_round B regs mem u htext.2.1 hv0 hs1 hsp hhide
    have hend : P.readByte mem₁ (regs₁.get .s0) = some 0#8 := by
      rw [hs0]
      exact htext.2.2 mem₁ (hframe.mono hhide)
    refine ⟨?exit, mem₁, n₁, hround.trans (Steps.of_run (n := 4) ?run), ?post⟩
    case run =>
      simp [puts_listing B.toHolds, hend]
      rfl
    case post => exact ⟨by simp [Regs.keepsBut_iff, hkeeps.get], hframe⟩
  | cons c bs ih =>
    obtain ⟨regs₁, mem₁, n₁, hround, hs0, hkeeps, hframe⟩ :=
      puts_round B regs mem u htext.2.1 hv0 hs1 hsp hhide
    have hrest : CString P hidden mem₁ (regs₁.get .s0) (c :: bs) := by
      rw [hs0]
      exact htext.2.2.agree (hframe.mono hhide)
    have hc := signExtend_byte_eq c 0#8
    simp only [BitVec.reduceSignExtend, hrest.1, iff_false] at hc
    have hback : Steps (step P) ⟨regs₁, 0x100003d4#32, 0x100003d8#32, mem₁,
          u.sent n₁ (Console.puts [b])⟩
        ⟨regs₁.set .v0 (c.signExtend 32), 0x100003b8#32, 0x100003bc#32, mem₁,
          u.sent n₁ (Console.puts [b])⟩ := by
      apply Steps.of_run (n := 4)
      simp [puts_listing B.toHolds, hrest.head, hc]
    have hsp₁ : regs₁.get .sp = regs.get .sp := hkeeps.get (by simp) (by simp)
    have hs1₁ : regs₁.get .s1 = regs.get .s1 := hkeeps.get (by simp) (by simp)
    obtain ⟨regs₂, mem₂, n₂, hloop, hkeeps₂, hframe₂⟩ :=
      ih c (regs₁.set .v0 (c.signExtend 32)) mem₁ (u.sent n₁ (Console.puts [b]))
        (by simpa using hrest) (by simp) (by simp [hs1₁, hs1]) (by simpa [hsp₁] using hsp)
        (by simpa [hsp₁] using hhide)
    refine ⟨regs₂, mem₂, n₂, ?run, ?keeps, ?frame⟩
    case run => simpa [Console.puts] using (hround.trans hback).trans hloop
    case keeps => simp [Regs.keepsBut_iff, hkeeps.get, hkeeps₂.get]
    case frame => exact hframe.trans (by simpa [hsp₁] using hframe₂)

theorem puts_spec (B : Board P) (hidden : Addr → Prop) (bs : List Byte) (regs : Regs) (mem : Mem)
    (u : Uart) (htext : CString P hidden mem (regs.get .a0) bs) (hsp : Stack P (regs.get .sp) 56)
    (hhide : ∀ a, Below (regs.get .sp) 56 a → hidden a) :
    ∃ regs' mem' n, Steps (step P) ⟨regs, 0x10000394#32, 0x10000398#32, mem, u⟩
        ⟨regs', regs.get .ra, regs.get .ra + 4#32, mem', u.sent n (Console.puts bs)⟩ ∧
      regs.Keeps regs' ∧ Frame (regs.get .sp) 56 mem mem' := by
  let sp := regs.get .sp
  let saved := ((mem.writeWord (sp + 0xfffffff8#32) (regs.get .ra)).writeWord
    (sp + 0xfffffff4#32) (regs.get .s1)).writeWord (sp + 0xfffffff0#32) (regs.get .s0)
  have hsaved : Frame sp 56 mem saved :=
    ((Frame.write (Agree.refl _ mem) _ (by decide) (by decide)).write _ (by decide)
      (by decide)).write _ (by decide) (by decide)
  have htext' := htext.agree (hsaved.mono hhide)
  have hread := htext'.head
  cases bs with
  | nil =>
    refine ⟨?empty, saved, u.busy, Steps.of_run (n := 14) ?run, ?post⟩
    case run =>
      simp [puts_listing B.toHolds, BitVec.add_assoc, hsp.plain, hsp.ramWord, hread, saved, sp,
        Console.puts]
      rfl
    case post => exact ⟨by simp [Regs.keeps_iff], hsaved⟩
  | cons b bs =>
    have hb := signExtend_byte_eq b 0#8
    simp only [BitVec.reduceSignExtend, htext.1, iff_false] at hb
    let entry := (((regs.set .sp (sp + 0xffffffe0#32)).set .v0 (b.signExtend 32)).set .s0
      (regs.get .a0)).set .s1 10#32
    have hentry : Steps (step P) ⟨regs, 0x10000394#32, 0x10000398#32, mem, u⟩
        ⟨entry, 0x100003b8#32, 0x100003bc#32, saved, u⟩ := by
      apply Steps.of_run (n := 9)
      simp [puts_listing B.toHolds, BitVec.add_assoc, hsp.plain, hread, hb, saved, sp, entry]
    have hentry_sp : entry.get .sp = sp + 0xffffffe0#32 := by simp [entry]
    have htext_s0 : CString P hidden saved (entry.get .s0) (b :: bs) := by
      simpa [entry] using htext'
    obtain ⟨regs₁, mem₁, n, hloop, hkeeps, hframe⟩ :=
      puts_loop B b bs entry saved u htext_s0 (by simp [entry]) (by simp [entry])
        (by rw [hentry_sp]; exact hsp.callee (by decide) (by decide))
        (by rw [hentry_sp]; exact fun a ha => hhide a (ha.mono (by decide)))
    rw [hentry_sp] at hframe
    have hsp₁ : regs₁.get .sp = sp + 0xffffffe0#32 := by simp [hkeeps.get, entry]
    refine ⟨?exit, mem₁, n, (hentry.trans hloop).trans (Steps.of_run (n := 6) ?run), ?post⟩
    case run =>
      simp [puts_listing B.toHolds, BitVec.add_assoc, hsp.ramWord, hsp₁, hframe.readSlot, saved,
        sp]
      rfl
    case post =>
      refine ⟨?_, hsaved.trans (hframe.caller (by decide))⟩
      simp [Regs.keeps_iff, hkeeps.get, entry, sp]

theorem puts_call (B : Board P) (pc sp a : Addr) {hidden : Addr → Prop} {bs : List Byte}
    {s : State Uart} {entry : Regs} {mem : Mem} {u : Uart}
    (h : Steps (step P) s ⟨entry, 0x10000394#32, 0x10000398#32, mem, u⟩)
    (hra : entry.get .ra = pc) (hsp : entry.get .sp = sp) (ha0 : entry.get .a0 = a)
    (hstack : Stack P sp 56) (htext : CString P hidden mem a bs)
    (hhide : ∀ x, Below sp 56 x → hidden x) :
    ∃ regs' mem' n, Steps (step P) s ⟨regs', pc, pc + 4#32, mem', u.sent n (Console.puts bs)⟩ ∧
      entry.Keeps regs' ∧ Frame sp 56 mem mem' := by
  subst hra hsp ha0
  obtain ⟨regs', mem', n, hputs, hpost⟩ := puts_spec B hidden bs entry mem u htext hstack hhide
  exact ⟨regs', mem', n, h.trans hputs, hpost⟩

/-- A call of `puts` for a text whose address is completed in the delay slot. -/
theorem puts_text (B : Board P) {pc sp upper : Addr} {r : Reg} {low : BitVec 16} {bs : List Byte}
    (hcall : Calls P pc 0x10000394#32) (harg : P.fetch (pc + 4#32) = some (.addiu .a0 r low))
    (hr : r ≠ .ra) (regs : Regs) (mem : Mem) (u : Uart) (hupper : regs.get r = upper)
    (hsp : regs.get .sp = sp) (hstack : Stack P sp 56)
    (htext : CString P (Below sp 56) mem (upper + low.signExtend 32) bs) :
    ∃ regs' mem' n, Steps (step P) ⟨regs, pc, pc + 4#32, mem, u⟩
        ⟨regs', pc + 8#32, pc + 8#32 + 4#32, mem', u.sent n (Console.puts bs)⟩ ∧
      regs.KeepsBut [.ra] regs' ∧ Frame sp 56 mem mem' := by
  have hset : (regs.set .ra (pc + 8#32)).get r = upper := by
    by_cases hzero : r = .zero <;> simp [← hupper, hr, hzero]
  let entry := (regs.set .ra (pc + 8#32)).set .a0 (upper + low.signExtend 32)
  have hentry : Steps (step P) ⟨regs, pc, pc + 4#32, mem, u⟩
      ⟨entry, 0x10000394#32, 0x10000398#32, mem, u⟩ := by
    apply Steps.of_run (n := 2)
    simp only [run_succ, step_mk, hcall.run, andThen_some, harg, exec_addiu, hset, entry]
    simp
  obtain ⟨regs', mem', n, hputs, hkeeps, hframe⟩ :=
    puts_call B (pc + 8#32) sp (upper + low.signExtend 32) hentry (by simp [entry])
      (by simp [entry, hsp]) (by simp [entry]) hstack htext fun _ hx => hx
  refine ⟨regs', mem', n, hputs, ?_, hframe⟩
  simp [Regs.keepsBut_iff, hkeeps.get, entry]

theorem puts_literal (B : Board P) {pc sp : Addr} {r : Reg} {low : BitVec 16} {bs : List Byte}
    (hlui : P.fetch pc = some (.lui r 0x1000)) (hr : r = .a0 ∨ r = .v0)
    (hcall : Calls P (pc + 4#32) 0x10000394#32)
    (harg : P.fetch (pc + 8#32) = some (.addiu .a0 r low)) (regs : Regs) (mem : Mem) (u : Uart)
    (hsp : regs.get .sp = sp) (hstack : Stack P sp 56)
    (htext : CString P (Below sp 56) mem (0x10000000#32 + low.signExtend 32) bs) :
    ∃ regs' mem' n, Steps (step P) ⟨regs, pc, pc + 4#32, mem, u⟩
        ⟨regs', pc + 12#32, pc + 12#32 + 4#32, mem', u.sent n (Console.puts bs)⟩ ∧
      regs.KeepsBut [.ra] regs' ∧ Frame sp 56 mem mem' := by
  have hset : (regs.set r 0x10000000#32).get r = 0x10000000#32 ∧ r ≠ .ra := by
    rcases hr with rfl | rfl <;> simp
  have hkeep : regs.Keeps (regs.set r 0x10000000#32) := by
    rcases hr with rfl | rfl <;> simp [Regs.keeps_iff]
  have hupper : Steps (step P) ⟨regs, pc, pc + 4#32, mem, u⟩
      ⟨regs.set r 0x10000000#32, pc + 4#32, pc + 4#32 + 4#32, mem, u⟩ := by
    apply Steps.of_run (n := 1)
    simp [hlui]
  have harg' : P.fetch (pc + 4#32 + 4#32) = some (.addiu .a0 r low) := by
    simpa [BitVec.add_assoc] using harg
  obtain ⟨regs', mem', n, hputs, hkeeps, hframe⟩ :=
    puts_text B hcall harg' hset.2 (regs.set r 0x10000000#32) mem u hset.1
      (by rw [hkeep.get (by simp), hsp]) hstack htext
  refine ⟨regs', mem', n, ?_, (hkeep.but _).trans hkeeps, hframe⟩
  simpa [BitVec.add_assoc] using hupper.trans hputs

def InHexBuffer (a : Addr) : Prop := (a - 0x01000010#32).toNat < 9

instance (a : Addr) : Decidable (InHexBuffer a) := inferInstanceAs (Decidable (_ < _))

def HexBuffer (P : Platform Uart) : Prop :=
  ∀ a, InHexBuffer a → P.Ram a ∧ P.writable a = true

theorem HexBuffer.confine {area : Addr → Prop} [DecidablePred area] (h : HexBuffer P)
    (harea : ∀ a, InHexBuffer a → area a) : HexBuffer (P.confine area) :=
  fun a ha => ⟨(h a ha).1, by simp [Platform.confine, h a ha, harea a ha]⟩

def hexDigit (w : Word) (k : ℕ) : Byte := Console.hexChar ((w >>> (4 * k)) &&& 0xf#32)

def hexDigits (m : Mem) (w : Word) : ℕ → Mem
  | 0 => m.writeByte 0x01000018#32 0#8
  | k + 1 => (hexDigits m w k).writeByte (0x01000017#32 - BitVec.ofNat 32 k) (hexDigit w k)

theorem hexDigits_agree (m : Mem) (w : Word) {k : ℕ} (hk : k ≤ 8) :
    Agree InHexBuffer m (hexDigits m w k) := by
  induction k with
  | zero =>
    intro a ha
    have : a ≠ 0x01000018#32 := by rintro rfl; exact ha (by decide)
    simp [hexDigits, Mem.writeByte, this]
  | succ k ih =>
    intro a ha
    have : a ≠ 0x01000017#32 - BitVec.ofNat 32 k := by
      rintro rfl
      exact ha (by unfold InHexBuffer; bv_omega)
    simpa [hexDigits, Mem.writeByte, this] using ih (by omega) a ha

theorem hexDigits_end (m : Mem) (w : Word) {k : ℕ} (hk : k ≤ 8) :
    hexDigits m w k 0x01000018#32 = 0#8 := by
  induction k with
  | zero => simp [hexDigits, Mem.writeByte]
  | succ k ih =>
    have : 0x01000018#32 ≠ 0x01000017#32 - BitVec.ofNat 32 k := by bv_omega
    simpa [hexDigits, Mem.writeByte, this] using ih (by omega)

theorem hexDigits_digit (m : Mem) (w : Word) {j k : ℕ} (hj : j < k) (hk : k ≤ 8) :
    hexDigits m w k (0x01000017#32 - BitVec.ofNat 32 j) = hexDigit w j := by
  induction k with
  | zero => omega
  | succ k ih =>
    by_cases hjk : j = k
    · simp [hexDigits, Mem.writeByte, hjk]
    · have : 0x01000017#32 - BitVec.ofNat 32 j ≠ 0x01000017#32 - BitVec.ofNat 32 k := by bv_omega
      simpa [hexDigits, Mem.writeByte, this] using ih (by omega) (by omega)

structure HexRegs (caller regs : Regs) (k : ℕ) : Prop where
  a0 : regs.get .a0 = caller.get .a0 >>> (4 * k)
  a1 : regs.get .a1 = 0x01000017#32 - BitVec.ofNat 32 k
  a2 : regs.get .a2 = 0x0100000f#32
  keeps : caller.Keeps regs

theorem formatHex_digit (B : Board P) (hbuf : HexBuffer P) {caller regs : Regs} (mem : Mem)
    (u : Uart) {k : ℕ} (hk : k < 8) (hr : HexRegs caller regs k) :
    ∃ regs', Steps (step P)
        ⟨regs, 0x10000414#32, 0x10000418#32, hexDigits mem (caller.get .a0) k, u⟩
        ⟨regs', 0x10000434#32, 0x10000438#32, hexDigits mem (caller.get .a0) (k + 1), u⟩ ∧
      regs'.get .a0 = regs.get .a0 ∧ regs'.get .a1 = 0x01000017#32 - BitVec.ofNat 32 (k + 1) ∧
      regs'.get .a2 = 0x0100000f#32 ∧ caller.Keeps regs' := by
  have hin : InHexBuffer (0x01000017#32 - BitVec.ofNat 32 k) := by unfold InHexBuffer; bv_omega
  obtain ⟨hram, hw⟩ := hbuf _ hin
  cases hslt : ((caller.get .a0 >>> (4 * k)) &&& 0xf#32).slt 10#32 with
  | true =>
    refine ⟨?decimal, Steps.of_run (n := 7) ?run, ?post⟩
    case run =>
      simp [formatHex_listing B.toHolds, hr.a0, hr.a1, hslt, hram, hw, hexDigits, hexDigit,
        Console.hexChar, BitVec.add_comm]
      rfl
    case post =>
      refine ⟨by simp, by simp; bv_omega, by simp [hr.a2], ?_⟩
      simp [Regs.keeps_iff, hr.keeps.get]
  | false =>
    refine ⟨?letter, Steps.of_run (n := 8) ?run, ?post⟩
    case run =>
      simp [formatHex_listing B.toHolds, hr.a0, hr.a1, hslt, hram, hw, hexDigits, hexDigit,
        Console.hexChar, BitVec.add_comm]
      rfl
    case post =>
      refine ⟨by simp, by simp; bv_omega, by simp [hr.a2], ?_⟩
      simp [Regs.keeps_iff, hr.keeps.get]

theorem formatHex_loop (B : Board P) (hbuf : HexBuffer P) {caller regs : Regs} (mem : Mem)
    (u : Uart) (hr : HexRegs caller regs 0) :
    ∃ regs', Steps (step P)
        ⟨regs, 0x10000414#32, 0x10000418#32, hexDigits mem (caller.get .a0) 0, u⟩
        ⟨regs', 0x10000414#32, 0x10000418#32, hexDigits mem (caller.get .a0) 7, u⟩ ∧
      HexRegs caller regs' 7 := by
  let I (k : ℕ) (s : State Uart) : Prop := ∃ regs', s = ⟨regs', 0x10000414#32, 0x10000418#32,
    hexDigits mem (caller.get .a0) k, u⟩ ∧ HexRegs caller regs' k
  have round : ∀ k < 7, ∀ s, I k s → ∃ t, Steps (step P) s t ∧ I (k + 1) t := by
    rintro k hk _ ⟨regs₁, rfl, hr₁⟩
    obtain ⟨regs₂, hdigit, ha0, ha1, ha2, hkeeps⟩ := formatHex_digit B hbuf mem u (by omega) hr₁
    have hmore : regs₂.get .a1 ≠ regs₂.get .a2 := by
      rw [ha1, ha2]
      bv_omega
    refine ⟨_, hdigit.trans (Steps.of_run (n := 2) ?run), regs₂.set .a0 (regs₂.get .a0 >>> 4),
      rfl, ?regs⟩
    case run => simp [formatHex_listing B.toHolds, hmore]
    case regs =>
      refine ⟨?_, by simp [ha1], by simp [ha2], by simp [Regs.keeps_iff, hkeeps.get]⟩
      simp [ha0, hr₁.a0, BitVec.shiftRight_add, Nat.mul_add]
  obtain ⟨_, hsteps, regs', rfl, hr'⟩ := Steps.iterate round ⟨regs, rfl, hr⟩
  exact ⟨regs', hsteps, hr'⟩

theorem formatHex_spec (B : Board P) (hbuf : HexBuffer P) (regs : Regs) (mem : Mem) (u : Uart) :
    ∃ regs', Steps (step P) ⟨regs, 0x100003fc#32, 0x10000400#32, mem, u⟩
        ⟨regs', regs.get .ra, regs.get .ra + 4#32, hexDigits mem (regs.get .a0) 8, u⟩ ∧
      regs'.get .v0 = 0x01000010#32 ∧ regs.Keeps regs' := by
  let entry := (((regs.set .v0 0x01000000#32).set .a1 0x01000017#32).set .v0 0x01000000#32).set
    .a2 0x0100000f#32
  obtain ⟨hram, hw⟩ := hbuf 0x01000018#32 (by decide)
  have hentry : Steps (step P) ⟨regs, 0x100003fc#32, 0x10000400#32, mem, u⟩
      ⟨entry, 0x10000414#32, 0x10000418#32, hexDigits mem (regs.get .a0) 0, u⟩ := by
    apply Steps.of_run (n := 6)
    simp [formatHex_listing B.toHolds, hram, hw, hexDigits, entry]
  have hr : HexRegs regs entry 0 := by
    refine ⟨?_, ?_, ?_, ?_⟩ <;> simp [entry, Regs.keeps_iff]
  obtain ⟨regs₁, hloop, hr₁⟩ := formatHex_loop B hbuf mem u hr
  obtain ⟨regs₂, hlast, ha0, ha1, ha2, hkeeps⟩ := formatHex_digit B hbuf mem u (by omega) hr₁
  have hdone : regs₂.get .a1 = regs₂.get .a2 := by
    rw [ha1, ha2]
    rfl
  refine ⟨?exit, ((hentry.trans hloop).trans hlast).trans (Steps.of_run (n := 5) ?run), ?post⟩
  case run =>
    simp [formatHex_listing B.toHolds, hdone, hkeeps.get]
    rfl
  case post => simp [Regs.keeps_iff, hkeeps.get]

theorem formatHex_call (B : Board P) (hbuf : HexBuffer P) (pc : Addr) (w : Word)
    {s : State Uart} {entry : Regs} {mem : Mem} {u : Uart}
    (h : Steps (step P) s ⟨entry, 0x100003fc#32, 0x10000400#32, mem, u⟩)
    (hra : entry.get .ra = pc) (ha0 : entry.get .a0 = w) :
    ∃ regs', Steps (step P) s ⟨regs', pc, pc + 4#32, hexDigits mem w 8, u⟩ ∧
      regs'.get .v0 = 0x01000010#32 ∧ entry.Keeps regs' := by
  subst hra ha0
  obtain ⟨regs', hformat, hpost⟩ := formatHex_spec B hbuf entry mem u
  exact ⟨regs', h.trans hformat, hpost⟩

theorem hexDigit_value (w : Word) (k : ℕ) :
    ∃ n < 16, hexDigit w k = Console.hexChar (BitVec.ofNat 32 n) := by
  refine ⟨((w >>> (4 * k)) &&& 0xf#32).toNat, ?_, ?_⟩
  · rw [BitVec.toNat_and]
    exact Nat.lt_of_le_of_lt Nat.and_le_right (by decide)
  · rw [BitVec.ofNat_toNat, BitVec.setWidth_eq]
    rfl

theorem hexDigit_char (w : Word) (k : ℕ) : hexDigit w k ≠ 0#8 ∧ hexDigit w k ≠ 10#8 := by
  obtain ⟨n, hn, hdigit⟩ := hexDigit_value w k
  rw [hdigit]
  interval_cases n <;> decide

theorem puts_formatHex (w : Word) : Console.puts (Console.formatHex w) = Console.formatHex w := by
  have hchar : ∀ b ∈ Console.formatHex w, b ≠ 10#8 := by
    intro b hb
    obtain ⟨k, -, rfl⟩ := List.mem_map.mp hb
    exact (hexDigit_char w _).2
  rw [Console.puts, List.flatMap_congr fun b hb => if_neg (hchar b hb)]
  simp

theorem hexDigits_string (hbuf : HexBuffer P) {hidden : Addr → Prop}
    (hapart : ∀ a, InHexBuffer a → ¬ hidden a) (m : Mem) (w : Word) :
    CString P hidden (hexDigits m w 8) 0x01000010#32 (Console.formatHex w) := by
  have hbyte (j : ℕ) (hj : j < 8) : hexDigit w (7 - j) ≠ 0#8 ∧
      ∀ m', Agree hidden (hexDigits m w 8) m' →
        P.readByte m' (0x01000010#32 + BitVec.ofNat 32 j) = some (hexDigit w (7 - j)) := by
    refine ⟨(hexDigit_char w _).1, fun m' hm' => ?_⟩
    have hin : InHexBuffer (0x01000010#32 + BitVec.ofNat 32 j) := by
      unfold InHexBuffer
      bv_omega
    have haddr : 0x01000010#32 + BitVec.ofNat 32 j = 0x01000017#32 - BitVec.ofNat 32 (7 - j) := by
      bv_omega
    rw [(hbuf _ hin).1.readByte, hm' _ (hapart _ hin), haddr,
      hexDigits_digit m w (by omega) le_rfl]
  have hend : ∀ m', Agree hidden (hexDigits m w 8) m' →
      P.readByte m' 0x01000018#32 = some 0#8 := by
    intro m' hm'
    rw [(hbuf _ (by decide)).1.readByte, hm' _ (hapart _ (by decide)), hexDigits_end m w le_rfl]
  exact ⟨(hbyte 0 (by omega)).1, (hbyte 0 (by omega)).2, (hbyte 1 (by omega)).1,
    (hbyte 1 (by omega)).2, (hbyte 2 (by omega)).1, (hbyte 2 (by omega)).2,
    (hbyte 3 (by omega)).1, (hbyte 3 (by omega)).2, (hbyte 4 (by omega)).1,
    (hbyte 4 (by omega)).2, (hbyte 5 (by omega)).1, (hbyte 5 (by omega)).2,
    (hbyte 6 (by omega)).1, (hbyte 6 (by omega)).2, (hbyte 7 (by omega)).1,
    (hbyte 7 (by omega)).2, hend⟩

theorem puts_digits (B : Board P) (hbuf : HexBuffer P) {pc sp : Addr}
    (hcall : Calls P pc 0x10000394#32) (harg : P.fetch (pc + 4#32) = some (.addu .a0 .v0 .zero))
    {s : State Uart} {entry : Regs} {mem : Mem} {u : Uart} {w : Word}
    (h : Steps (step P) s ⟨entry, 0x100003fc#32, 0x10000400#32, mem, u⟩)
    (hra : entry.get .ra = pc) (ha0 : entry.get .a0 = w) (hsp : entry.get .sp = sp)
    (hstack : Stack P sp 56) (hapart : ∀ a, InHexBuffer a → ¬ Below sp 56 a) :
    ∃ regs' mem' n, Steps (step P) s
        ⟨regs', pc + 8#32, pc + 8#32 + 4#32, mem', u.sent n (Console.puts (Console.formatHex w))⟩ ∧
      entry.KeepsBut [.ra] regs' ∧ Frame sp 56 (hexDigits mem w 8) mem' := by
  obtain ⟨regs₁, hformat, hv0, hkeeps₁⟩ := formatHex_call B hbuf pc w h hra ha0
  let second := (regs₁.set .ra (pc + 8#32)).set .a0 0x01000010#32
  have hsecond : Steps (step P) ⟨regs₁, pc, pc + 4#32, hexDigits mem w 8, u⟩
      ⟨second, 0x10000394#32, 0x10000398#32, hexDigits mem w 8, u⟩ := by
    apply Steps.of_run (n := 2)
    simp [hcall.run, harg, hv0, second]
  obtain ⟨regs₂, mem₂, n, hputs, hkeeps₂, hframe⟩ :=
    puts_call B (pc + 8#32) sp 0x01000010#32 (hformat.trans hsecond) (by simp [second])
      (by simp [second, hkeeps₁.get, hsp]) (by simp [second]) hstack
      (hexDigits_string hbuf hapart mem w) fun _ hx => hx
  refine ⟨regs₂, mem₂, n, hputs, ?_, hframe⟩
  simp [Regs.keepsBut_iff, hkeeps₂.get, second, hkeeps₁.get]

theorem puts_register (B : Board P) (hbuf : HexBuffer P) {pc sp : Addr} {r : Reg}
    (hformat : Calls P pc 0x100003fc#32) (hvalue : P.fetch (pc + 4#32) = some (.addu .a0 r .zero))
    (hputs : Calls P (pc + 8#32) 0x10000394#32)
    (hdigits : P.fetch (pc + 12#32) = some (.addu .a0 .v0 .zero)) (hr : r ≠ .ra) (regs : Regs)
    (mem : Mem) (u : Uart) (hsp : regs.get .sp = sp) (hstack : Stack P sp 56)
    (hapart : ∀ a, InHexBuffer a → ¬ Below sp 56 a) :
    ∃ regs' mem' n, Steps (step P) ⟨regs, pc, pc + 4#32, mem, u⟩
        ⟨regs', pc + 16#32, pc + 16#32 + 4#32, mem',
          u.sent n (Console.puts (Console.formatHex (regs.get r)))⟩ ∧
      regs.KeepsBut [.ra] regs' ∧ Frame sp 56 (hexDigits mem (regs.get r) 8) mem' := by
  generalize hw : regs.get r = w
  have hset : (regs.set .ra (pc + 8#32)).get r = w := by
    by_cases hzero : r = .zero <;> simp [← hw, hr, hzero]
  let entry := (regs.set .ra (pc + 8#32)).set .a0 w
  have hentry : Steps (step P) ⟨regs, pc, pc + 4#32, mem, u⟩
      ⟨entry, 0x100003fc#32, 0x10000400#32, mem, u⟩ := by
    apply Steps.of_run (n := 2)
    simp only [run_succ, step_mk, hformat.run, andThen_some, hvalue, exec_addu, hset, entry]
    simp
  obtain ⟨regs', mem', n, hprinted, hkeeps, hframe⟩ :=
    puts_digits B hbuf (w := w) hputs (by simpa [BitVec.add_assoc] using hdigits) hentry
      (by simp [entry]) (by simp [entry]) (by simp [entry, hsp]) hstack hapart
  refine ⟨regs', mem', n, by simpa [BitVec.add_assoc] using hprinted, ?_, hframe⟩
  simp [Regs.keepsBut_iff, hkeeps.get, entry]

theorem blank_string (B : Board P) (hidden : Addr → Prop) (m : Mem) :
    CString P hidden m 0x10001770#32 [32#8] :=
  textIn_string B.toHolds hidden m (n := 2) (by decide +kernel)

end W2
