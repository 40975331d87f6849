import W2.Firmware.Uart
import W2.Console.Reader

/-!
# The number reader in machine code

The routine (0x1000048c in the older image) computes `Console.getword` of the bytes that arrive:
the loop keeps the digit count in `s0` and the accumulator in `s1`, and each byte is classified
by subtracting the first character of a range and comparing unsigned.
-/

namespace W2

open Mips Transition Miniboot Console

variable {P : Platform Uart} {base : Addr}

theorem lowByte_add (c : Byte) (k : Word) :
    c.setWidth 32 + k &&& 0xff#32 = (c + k.setWidth 8).setWidth 32 := by
  apply BitVec.eq_of_toNat_eq
  rw [BitVec.toNat_and, show (0xff#32).toNat = 2 ^ 8 - 1 from rfl, Nat.and_two_pow_sub_one_eq_mod]
  simp
  omega

theorem range_test (c k : Byte) (n : Word) :
    ((c + -k).setWidth 32).ult n = decide ((c - k).toNat < n.toNat) := by
  rw [← BitVec.sub_eq_add_neg]
  simp only [BitVec.ult, BitVec.toNat_setWidth]
  rw [Nat.mod_eq_of_lt (by omega)]

theorem byte_eq (b : Byte) (k : Word) (hk : k.toNat < 256) :
    b.setWidth 32 = k ↔ b = k.setWidth 8 := by
  constructor
  · rintro rfl
    simp
  · rintro rfl
    apply BitVec.eq_of_toNat_eq
    simp
    omega

/-- The registers in the reader's loop: the constants it compares with, the digit count, the
accumulator, and the caller's values it has not touched. -/
structure ReaderRegs (caller regs : Regs) (count : ℕ) (acc : Word) : Prop where
  s0 : regs.get .s0 = BitVec.ofNat 32 count
  s1 : regs.get .s1 = acc
  s2 : regs.get .s2 = 32#32
  s3 : regs.get .s3 = 10#32
  s4 : regs.get .s4 = 13#32
  s5 : regs.get .s5 = 8#32
  s6 : regs.get .s6 = caller.get .s6
  s7 : regs.get .s7 = caller.get .s7
  s8 : regs.get .s8 = caller.get .s8
  gp : regs.get .gp = caller.get .gp
  sp : regs.get .sp = caller.get .sp + 0xffffffd0#32

theorem ReaderRegs.keeps {caller regs regs' : Regs} {count : ℕ} {acc : Word}
    (hr : ReaderRegs caller regs count acc) (h : regs.Keeps regs') :
    ReaderRegs caller regs' count acc := by
  constructor <;> rw [h.get (by simp)]
  exacts [hr.s0, hr.s1, hr.s2, hr.s3, hr.s4, hr.s5, hr.s6, hr.s7, hr.s8, hr.gp, hr.sp]

theorem getword_digit (S : Serial P base) {caller regs : Regs} (mem : Mem) (u : Uart) {c : Byte}
    {count : ℕ} {acc : Word} (hr : ReaderRegs caller regs count acc)
    (hv0 : regs.get .v0 = c.setWidth 32) (hc : ¬ Ends c) (h8 : c ≠ 8#8) :
    ∃ regs', Steps (step P) ⟨regs, base + 0x19c#32, base + 0x1a0#32, mem, u⟩
        ⟨regs', base + 0x21c#32, base + 0x220#32, mem, u⟩ ∧
      regs.Keeps regs' ∧ regs'.get .v0 = acc <<< 4 ∧
      regs'.get .v1 = (digitOf c).setWidth 32 := by
  simp only [Ends, not_or] at hc
  have hdec := range_test c 48#8 10#32
  have hupper := range_test c 65#8 26#32
  have hlower := range_test c 97#8 26#32
  simp only [BitVec.reduceNeg, BitVec.reduceToNat] at hdec hupper hlower
  unfold digitOf
  split_ifs with h48 h65 h97
  case pos =>
    rw [decide_eq_true h48] at hdec
    refine ⟨?decimal, Steps.of_run (n := 12) ?run, ?post⟩
    case run =>
      simp [S.getword, BitVec.add_assoc, hr.s1, hr.s2, hr.s3, hr.s4, hv0, lowByte_add, byte_eq, hc,
        hdec]
      rfl
    case post => simp [Regs.keeps_iff, BitVec.sub_eq_add_neg]
  case pos =>
    rw [decide_eq_false h48] at hdec
    rw [decide_eq_true h65] at hupper
    refine ⟨?upper, Steps.of_run (n := 18) ?run, ?post⟩
    case run =>
      simp [S.getword, BitVec.add_assoc, S.upperDigit.run, hr.s1, hr.s2, hr.s3, hr.s4, hv0,
        lowByte_add, byte_eq, hc, hdec, hupper]
      rfl
    case post => simp [Regs.keeps_iff, BitVec.sub_eq_add_neg]
  case pos =>
    rw [decide_eq_false h48] at hdec
    rw [decide_eq_false h65] at hupper
    rw [decide_eq_true h97] at hlower
    refine ⟨?lower, Steps.of_run (n := 21) ?run, ?post⟩
    case run =>
      simp [S.getword, BitVec.add_assoc, S.lowerDigit.run, hr.s1, hr.s2, hr.s3, hr.s4, hv0,
        lowByte_add, byte_eq, hc, hdec, hupper, hlower]
      rfl
    case post => simp [Regs.keeps_iff, BitVec.sub_eq_add_neg]
  case neg =>
    rw [decide_eq_false h48] at hdec
    rw [decide_eq_false h65] at hupper
    rw [decide_eq_false h97] at hlower
    refine ⟨?other, Steps.of_run (n := 20) ?run, ?post⟩
    case run =>
      simp [S.getword, BitVec.add_assoc, hr.s1, hr.s2, hr.s3, hr.s4, hr.s5, hv0, lowByte_add,
        byte_eq, hc, hdec, hupper, hlower, h8]
      rfl
    case post => simp [Regs.keeps_iff]

theorem getword_backspace (S : Serial P base) {caller regs : Regs} (mem : Mem) (u : Uart)
    {count : ℕ} {acc : Word} (hr : ReaderRegs caller regs count acc) (hcount : count < 16)
    (hv0 : regs.get .v0 = 8#32) :
    ∃ regs', Steps (step P) ⟨regs, base + 0x19c#32, base + 0x1a0#32, mem, u⟩
        ⟨regs', base + 0x224#32, base + 0x228#32, mem, u⟩ ∧
      ReaderRegs caller regs' (count - 1) (acc >>> 4) := by
  cases count with
  | zero =>
    refine ⟨?empty, Steps.of_run (n := 24) ?run, ?post⟩
    case run =>
      simp [S.getword, BitVec.add_assoc, S.deleted.run, hr.s0, hr.s1, hr.s2, hr.s3, hr.s4, hr.s5,
        hv0]
      rfl
    case post =>
      constructor <;> simp [hr.s0, hr.s2, hr.s3, hr.s4, hr.s5, hr.s6, hr.s7, hr.s8, hr.gp, hr.sp]
  | succ n =>
    have hpos : ¬ (BitVec.ofNat 32 (n + 1)).toInt ≤ 0 := by
      have hn : n < 15 := by omega
      interval_cases n <;> decide
    refine ⟨?digit, Steps.of_run (n := 25) ?run, ?post⟩
    case run =>
      simp [S.getword, BitVec.add_assoc, S.deleted.run, hr.s0, hr.s1, hr.s2, hr.s3, hr.s4, hr.s5,
        hv0, hpos]
      rfl
    case post =>
      constructor <;> simp [hr.s2, hr.s3, hr.s4, hr.s5, hr.s6, hr.s7, hr.s8, hr.gp, hr.sp]
      bv_omega

theorem getword_byte (S : Serial P base) {caller regs : Regs} (mem : Mem) (u : Uart) {c : Byte}
    {count : ℕ} {acc : Word} (hr : ReaderRegs caller regs count acc) (hcount : count < 16)
    (hv0 : regs.get .v0 = c.setWidth 32) (hc : ¬ Ends c) :
    ∃ regs', Steps (step P) ⟨regs, base + 0x19c#32, base + 0x1a0#32, mem, u⟩
        ⟨regs', base + 0x224#32, base + 0x228#32, mem, u⟩ ∧
      ReaderRegs caller regs' (readDigit c count acc).1 (readDigit c count acc).2 := by
  by_cases h8 : c = 8#8
  · subst h8
    simpa [readDigit] using getword_backspace S mem u hr hcount hv0
  · obtain ⟨regs₁, hsteps, hkeeps, hshift, hdigit⟩ := getword_digit S mem u hr hv0 hc h8
    have hr₁ := hr.keeps hkeeps
    refine ⟨?regs, hsteps.trans (Steps.of_run (n := 2) ?run), ?post⟩
    case run =>
      simp [S.getword, BitVec.add_assoc]
      rfl
    case post =>
      simp only [readDigit, h8, if_false]
      constructor <;> simp [hr₁.s0, hr₁.s2, hr₁.s3, hr₁.s4, hr₁.s5, hr₁.s6, hr₁.s7, hr₁.s8,
        hr₁.gp, hr₁.sp, hshift, hdigit, BitVec.ofNat_add]

theorem getword_end (S : Serial P base) {caller regs : Regs} (mem : Mem) (u : Uart) {c : Byte}
    {count : ℕ} {acc : Word} (hr : ReaderRegs caller regs count acc)
    (hv0 : regs.get .v0 = c.setWidth 32) (hc : Ends c) :
    ∃ regs', Steps (step P) ⟨regs, base + 0x19c#32, base + 0x1a0#32, mem, u⟩
        ⟨regs', base + 0x230#32, base + 0x234#32, mem, u⟩ ∧
      regs.Keeps regs' := by
  obtain rfl | rfl | rfl := hc
  · refine ⟨regs.set .v1 13#32, Steps.of_run (n := 2) ?_, by simp [Regs.keeps_iff]⟩
    simp [S.getword, BitVec.add_assoc, hr.s4, hv0]
  · refine ⟨regs.set .v1 10#32, Steps.of_run (n := 4) ?_, by simp [Regs.keeps_iff]⟩
    simp [S.getword, BitVec.add_assoc, hr.s3, hr.s4, hv0]
  · refine ⟨(regs.set .v1 32#32).set .v0 0xfffffff0#32, Steps.of_run (n := 6) ?_,
      by simp [Regs.keeps_iff]⟩
    simp [S.getword, BitVec.add_assoc, hr.s2, hr.s3, hr.s4, hv0]

theorem readDigit_count_le (c : Byte) {count : ℕ} (acc : Word) (h : count < 16) :
    (readDigit c count acc).1 ≤ 16 := by
  unfold readDigit
  split_ifs <;> simp <;> omega

theorem count_slt {k : ℕ} (h : k ≤ 16) :
    (BitVec.ofNat 32 k).slt 16#32 = decide (k < 16) := by
  interval_cases k <;> rfl

/-- The reader's loop runs to its exit with the value the reader computes. The induction is on
the bytes still to arrive; every round takes one of them through `getchar`. -/
theorem getword_loop (S : Serial P base) {caller : Regs} (busy : ℕ) (tx : List Byte)
    (hsp : Stack P (caller.get .sp + 0xffffffd0#32) 24) (rx : List (ℕ × Byte)) (count : ℕ)
    (acc v : Word) (rest : List Byte) (regs : Regs) (mem : Mem) (hcount : count < 16)
    (hr : ReaderRegs caller regs count acc)
    (hread : getwordFrom count acc (rx.map Prod.snd) = some (v, rest)) :
    ∃ regs' mem' rx' count', Steps (step P)
        ⟨regs, base + 0x194#32, base + 0x198#32, mem, ⟨rx, busy, tx⟩⟩
        ⟨regs', base + 0x230#32, base + 0x234#32, mem', ⟨rx', busy, tx⟩⟩ ∧
      ReaderRegs caller regs' count' v ∧ rx'.map Prod.snd = rest ∧ rx' <:+ rx ∧
      Frame (caller.get .sp + 0xffffffd0#32) 24 mem mem' := by
  induction rx generalizing count acc regs mem with
  | nil => simp [getwordFrom] at hread
  | cons head rx ih =>
    obtain ⟨d, c⟩ := head
    have hcall : Steps (step P)
        ⟨regs, base + 0x194#32, base + 0x198#32, mem, ⟨(d, c) :: rx, busy, tx⟩⟩
        ⟨regs.set .ra (base + 0x19c#32), base + 0x12c#32, base + 0x130#32, mem,
          ⟨(d, c) :: rx, busy, tx⟩⟩ := by
      apply Steps.of_run (n := 2)
      simp [S.getword, BitVec.add_assoc, S.nextChar.run]
    obtain ⟨regs₁, mem₁, hget, hv0, hkeeps, hframe⟩ :=
      S.getchar_spec (regs.set .ra (base + 0x19c#32)) mem d c rx busy tx
        (by simpa [hr.sp] using hsp)
    have hr₁ : ReaderRegs caller regs₁ count acc := by
      constructor <;> simp [hkeeps.get, hr.s0, hr.s1, hr.s2, hr.s3, hr.s4, hr.s5, hr.s6, hr.s7,
        hr.s8, hr.gp, hr.sp]
    have hframe₁ : Frame (caller.get .sp + 0xffffffd0#32) 24 mem mem₁ := by
      simpa [hr.sp] using hframe
    have hstart := hcall.trans hget
    simp [BitVec.add_assoc] at hstart
    by_cases hc : Ends c
    · obtain ⟨rfl, rfl⟩ : acc = v ∧ rx.map Prod.snd = rest := by
        simpa [getwordFrom, hc] using hread
      obtain ⟨regs₂, hend, hkeeps₂⟩ := getword_end S mem₁ ⟨rx, busy, tx⟩ hr₁ hv0 hc
      exact ⟨regs₂, mem₁, rx, count, hstart.trans hend, hr₁.keeps hkeeps₂, rfl,
        List.suffix_cons _ _, hframe₁⟩
    · obtain ⟨regs₂, hbyte, hr₂⟩ := getword_byte S mem₁ ⟨rx, busy, tx⟩ hr₁ hcount hv0 hc
      have hslt := count_slt (readDigit_count_le c acc hcount)
      simp only [List.map_cons, getwordFrom, hc, if_false] at hread
      by_cases hmore : (readDigit c count acc).1 < 16
      · have hback : Steps (step P) ⟨regs₂, base + 0x224#32, base + 0x228#32, mem₁, ⟨rx, busy, tx⟩⟩
            ⟨regs₂.set .v0 1#32, base + 0x194#32, base + 0x198#32, mem₁, ⟨rx, busy, tx⟩⟩ := by
          apply Steps.of_run (n := 3)
          simp [S.getword, BitVec.add_assoc, hr₂.s0, hslt, hmore]
        rw [if_pos hmore] at hread
        obtain ⟨regs₃, mem₃, rx₃, count₃, hrest, hr₃, hrx, hsuffix, hframe₃⟩ :=
          ih _ _ (regs₂.set .v0 1#32) mem₁ hmore (hr₂.keeps (by simp [Regs.keeps_iff])) hread
        exact ⟨regs₃, mem₃, rx₃, count₃, hstart.trans (hbyte.trans (hback.trans hrest)), hr₃, hrx,
          hsuffix.trans (List.suffix_cons _ _), hframe₁.trans hframe₃⟩
      · have hexit : Steps (step P) ⟨regs₂, base + 0x224#32, base + 0x228#32, mem₁, ⟨rx, busy, tx⟩⟩
            ⟨regs₂.set .v0 0#32, base + 0x230#32, base + 0x234#32, mem₁, ⟨rx, busy, tx⟩⟩ := by
          apply Steps.of_run (n := 3)
          simp [S.getword, BitVec.add_assoc, hr₂.s0, hslt, hmore]
        rw [if_neg hmore] at hread
        obtain ⟨hv, hrest⟩ : (readDigit c count acc).2 = v ∧ rx.map Prod.snd = rest := by
          simpa using hread
        subst hv
        exact ⟨regs₂.set .v0 0#32, mem₁, rx, _, hstart.trans (hbyte.trans hexit),
          hr₂.keeps (by simp [Regs.keeps_iff]), hrest, List.suffix_cons _ _, hframe₁⟩

theorem Serial.getword_run (S : Serial P base) (regs : Regs) (mem : Mem) (u : Uart) {v : Word}
    {rest : List Byte} (hsp : Stack P (regs.get .sp) 72)
    (hread : Console.getword u.input = some (v, rest)) :
    ∃ regs' mem' rx, Steps (step P) ⟨regs, base + 0x15c#32, base + 0x160#32, mem, u⟩
        ⟨regs', regs.get .ra, regs.get .ra + 4#32, mem', { u with rx := rx }⟩ ∧
      regs'.get .v0 = v ∧ regs.Keeps regs' ∧ rx.map Prod.snd = rest ∧ rx <:+ u.rx ∧
      Frame (regs.get .sp) 72 mem mem' := by
  obtain ⟨rx, busy, tx⟩ := u
  let sp := regs.get .sp
  let saved := ((((((mem.writeWord (sp + 0xfffffff8#32) (regs.get .ra)).writeWord
    (sp + 0xfffffff4#32) (regs.get .s5)).writeWord (sp + 0xfffffff0#32) (regs.get .s4)).writeWord
    (sp + 0xffffffec#32) (regs.get .s3)).writeWord (sp + 0xffffffe8#32) (regs.get .s2)).writeWord
    (sp + 0xffffffe4#32) (regs.get .s1)).writeWord (sp + 0xffffffe0#32) (regs.get .s0)
  have hentry : ∃ regs₁, Steps (step P)
      ⟨regs, base + 0x15c#32, base + 0x160#32, mem, ⟨rx, busy, tx⟩⟩
      ⟨regs₁, base + 0x194#32, base + 0x198#32, saved, ⟨rx, busy, tx⟩⟩ ∧
      ReaderRegs regs regs₁ 0 0#32 := by
    refine ⟨?entry, Steps.of_run (n := 14) ?run, ?post⟩
    case run =>
      simp [S.getword, BitVec.add_assoc, hsp.plain, saved, sp]
      rfl
    case post => constructor <;> simp
  obtain ⟨regs₁, hentry, hr₁⟩ := hentry
  obtain ⟨regs₂, mem₂, rx₂, count₂, hloop, hr₂, hrx₂, hsuffix, hframe₂⟩ :=
    getword_loop S busy tx (hsp.callee (by decide) (by decide)) rx 0 0#32 v rest regs₁ saved
      (by decide) hr₁ hread
  have hsaved : Frame sp 72 mem saved :=
    ((((((Frame.write (Agree.refl _ mem) _ (by decide) (by decide)).write _ (by decide)
      (by decide)).write _ (by decide) (by decide)).write _ (by decide) (by decide)).write _
      (by decide) (by decide)).write _ (by decide) (by decide)).write _ (by decide) (by decide)
  refine ⟨?exit, mem₂, rx₂, (hentry.trans hloop).trans (Steps.of_run (n := 10) ?run),
    ?post⟩
  case run =>
    simp [S.getword, BitVec.add_assoc, hsp.ramWord, hr₂.sp, hr₂.s1,
      hframe₂.readSlot, saved, sp]
    rfl
  case post =>
    refine ⟨by simp, ?_, hrx₂, hsuffix, hsaved.trans (hframe₂.caller (by decide))⟩
    simp [Regs.keeps_iff, hr₂.s6, hr₂.s7, hr₂.s8, hr₂.gp]

theorem Serial.getword_spec (S : Serial P base) (regs : Regs) (mem : Mem) (u : Uart) {v : Word}
    {rest : List Byte} (hsp : Stack P (regs.get .sp) 72)
    (hread : Console.getword u.input = some (v, rest)) :
    ∃ regs' mem' u', Steps (step P) ⟨regs, base + 0x15c#32, base + 0x160#32, mem, u⟩
        ⟨regs', regs.get .ra, regs.get .ra + 4#32, mem', u'⟩ ∧
      regs'.get .v0 = v ∧ regs.Keeps regs' ∧ u'.input = rest ∧ u'.tx = u.tx ∧
      Frame (regs.get .sp) 72 mem mem' := by
  obtain ⟨regs', mem', rx, hsteps, hv0, hkeeps, hrest, -, hframe⟩ :=
    S.getword_run regs mem u hsp hread
  exact ⟨regs', mem', _, hsteps, hv0, hkeeps, hrest, rfl, hframe⟩

theorem Serial.getword_number (S : Serial P base) (regs : Regs) (mem : Mem)
    {number : List (ℕ × Byte)} (more : List (ℕ × Byte)) (busy : ℕ) (tx : List Byte) {v : Word}
    (hsp : Stack P (regs.get .sp) 72)
    (hnumber : Console.getword (number.map Prod.snd) = some (v, [])) :
    ∃ regs' mem', Steps (step P)
        ⟨regs, base + 0x15c#32, base + 0x160#32, mem, ⟨number ++ more, busy, tx⟩⟩
        ⟨regs', regs.get .ra, regs.get .ra + 4#32, mem', ⟨more, busy, tx⟩⟩ ∧
      regs'.get .v0 = v ∧ regs.Keeps regs' ∧ Frame (regs.get .sp) 72 mem mem' := by
  have hread : Console.getword (Uart.input ⟨number ++ more, busy, tx⟩) =
      some (v, more.map Prod.snd) := by
    simpa [Uart.input] using getword_append hnumber (more.map Prod.snd)
  obtain ⟨regs', mem', rx, hsteps, hv0, hkeeps, hrest, hsuffix, hframe⟩ :=
    S.getword_run regs mem _ hsp hread
  have hlen : rx.length = more.length := by simpa using congrArg List.length hrest
  have hmore : rx = more :=
    (List.suffix_of_suffix_length_le hsuffix (List.suffix_append number more) hlen.le).eq_of_length
      hlen
  exact ⟨regs', mem', hmore ▸ hsteps, hv0, hkeeps, hframe⟩

/-- `getword` returns what the reader computes from the bytes that arrive, and has taken exactly
the bytes the reader has consumed. -/
theorem getword_spec (B : Board P) (regs : Regs) (mem : Mem) (u : Uart) {v : Word}
    {rest : List Byte} (hsp : Stack P (regs.get .sp) 72)
    (hread : getword u.input = some (v, rest)) :
    ∃ regs' mem' u', Steps (step P) ⟨regs, 0x1000048c#32, 0x10000490#32, mem, u⟩
        ⟨regs', regs.get .ra, regs.get .ra + 4#32, mem', u'⟩ ∧
      regs'.get .v0 = v ∧ regs.Keeps regs' ∧ u'.input = rest ∧ u'.tx = u.tx ∧
      Frame (regs.get .sp) 72 mem mem' :=
  B.serial.getword_spec regs mem u hsp hread

theorem getword_call (B : Board P) (pc sp : Addr) {s : State Uart} {entry : Regs} {mem : Mem}
    {u : Uart} {v : Word} {rest : List Byte}
    (h : Steps (step P) s ⟨entry, 0x1000048c#32, 0x10000490#32, mem, u⟩)
    (hra : entry.get .ra = pc) (hsp : entry.get .sp = sp) (hstack : Stack P sp 72)
    (hread : getword u.input = some (v, rest)) :
    ∃ regs' mem' u', Steps (step P) s ⟨regs', pc, pc + 4#32, mem', u'⟩ ∧
      regs'.get .v0 = v ∧ entry.Keeps regs' ∧ u'.input = rest ∧ u'.tx = u.tx ∧
      Frame sp 72 mem mem' := by
  subst hra hsp
  obtain ⟨regs', mem', u', hget, hpost⟩ := getword_spec B entry mem u hstack hread
  exact ⟨regs', mem', u', h.trans hget, hpost⟩

end W2
