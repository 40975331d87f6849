import W2.Firmware.Read

/-!
# Runs of output in machine code

The menu, its boot loader and the slaves print alike: calls of `puts`, for texts of the image and
for numbers, with no other code between them. Whether the code at an address is such a run is a
check on the image.
-/

namespace W2

open Mips Transition Miniboot

/-- A piece of output: a text, given by the low half of its address, whose upper half is put in a
register first or is kept in `s8`, or the value of a register that calls keep. -/
inductive Output
  | text (r : Reg) (low : BitVec 16)
  | label (low : BitVec 16)
  | number (r : Reg)

def Output.size : Output → Word
  | .text _ _ => 12#32
  | .label _ => 8#32
  | .number _ => 16#32

def printsEnd (pc : Addr) : List Output → Addr
  | [] => pc
  | item :: items => printsEnd (pc + item.size) items

section Image

variable (image : Addr → Option Word)

def textOf (low : BitVec 16) : Option (List Byte) :=
  textIn image 64 (0x10000000#32 + low.signExtend 32)

def textBytes (low : BitVec 16) : List Byte := Console.puts ((textOf image low).getD [])

def Output.bytes (regs : Regs) : Output → List Byte
  | .text _ low => textBytes image low
  | .label low => textBytes image low
  | .number r => Console.puts (Console.formatHex (regs.get r))

def outputs (regs : Regs) (items : List Output) : List Byte :=
  items.flatMap (Output.bytes image regs)

def fetchIn (a : Addr) : Option Instr := (image a).bind decode

def callIn (pc target : Addr) (t : BitVec 26) : Bool :=
  fetchIn image pc = some (.jal t) && jumpTarget pc t = target

def Output.codeAt (pc : Addr) : Output → Bool
  | .text r low =>
    (r = .a0 || r = .v0) && fetchIn image pc = some (.lui r 0x1000) &&
      callIn image (pc + 4#32) 0x10000394#32 0xe5 &&
      fetchIn image (pc + 8#32) = some (.addiu .a0 r low) && (textOf image low).isSome
  | .label low =>
    callIn image pc 0x10000394#32 0xe5 &&
      fetchIn image (pc + 4#32) = some (.addiu .a0 .s8 low) && (textOf image low).isSome
  | .number r =>
    (r.Kept && r ≠ .ra) && callIn image pc 0x100003fc#32 0xff &&
      fetchIn image (pc + 4#32) = some (.addu .a0 r .zero) &&
      callIn image (pc + 8#32) 0x10000394#32 0xe5 &&
      fetchIn image (pc + 12#32) = some (.addu .a0 .v0 .zero)

def printsAt (pc : Addr) : List Output → Bool
  | [] => true
  | item :: items => item.codeAt image pc && printsAt (pc + item.size) items

end Image

variable {P : Platform Uart} {image : Addr → Option Word} {pc sp : Addr} {item : Output}
  {items : List Output}

theorem textOf_string (H : Rom P image) {low : BitVec 16} (h : (textOf image low).isSome = true)
    (hidden : Addr → Prop) (m : Mem) :
    ∃ bs, textBytes image low = Console.puts bs ∧
      CString P hidden m (0x10000000#32 + low.signExtend 32) bs := by
  obtain ⟨bs, hbs⟩ := Option.isSome_iff_exists.mp h
  exact ⟨bs, by rw [textBytes, hbs, Option.getD_some], textIn_string H hidden m hbs⟩

theorem printsAt_append (items more : List Output) :
    printsAt image pc (items ++ more) =
      (printsAt image pc items && printsAt image (printsEnd pc items) more) := by
  induction items generalizing pc with
  | nil => simp [printsAt, printsEnd]
  | cons item items ih => simp only [List.cons_append, printsAt, printsEnd, ih, Bool.and_assoc]

theorem outputs_cons (regs : Regs) :
    outputs image regs (item :: items) = item.bytes image regs ++ outputs image regs items :=
  List.flatMap_cons

theorem bytes_keeps {regs regs' : Regs} (h : regs.KeepsBut [.ra] regs')
    (hcode : item.codeAt image pc = true) : item.bytes image regs' = item.bytes image regs := by
  cases item with
  | text r low => rfl
  | label low => rfl
  | number r =>
    simp only [Output.codeAt, Bool.and_eq_true, decide_eq_true_eq] at hcode
    obtain ⟨hkept, hra⟩ := hcode.1.1.1.1
    rw [Output.bytes, Output.bytes, h.get hkept (by simpa using hra)]

theorem outputs_keeps {regs regs' : Regs} (h : regs.KeepsBut [.ra] regs')
    (hcode : printsAt image pc items = true) :
    outputs image regs' items = outputs image regs items := by
  induction items generalizing pc with
  | nil => simp only [outputs, List.flatMap_nil]
  | cons item items ih =>
    obtain ⟨hitem, hrest⟩ := Bool.and_eq_true_iff.mp hcode
    rw [outputs_cons, outputs_cons, bytes_keeps h hitem, ih hrest]

structure Printer (P : Platform Uart) (image : Addr → Option Word) (sp : Addr) : Prop
    extends Board P where
  rom : Rom P image
  buffer : HexBuffer P
  stack : Stack P sp 56
  apart : ∀ a, InHexBuffer a → ¬ Below sp 56 a

theorem Printer.calls (R : Printer P image sp) {target : Addr} {t : BitVec 26}
    (h : callIn image pc target t = true) : Calls P pc target := by
  simp only [callIn, Bool.and_eq_true, decide_eq_true_eq] at h
  exact ⟨t, R.rom.fetch h.1, h.2⟩

/-- From `pc` to `pc'` the machine sends `bs`, with the registers that calls keep as they were and
the memory as it was but for the hidden part. -/
def Prints (P : Platform Uart) (hidden : Addr → Prop) (pc pc' : Addr) (regs : Regs) (mem : Mem)
    (u : Uart) (bs : List Byte) : Prop :=
  ∃ regs' mem' n, Steps (step P) ⟨regs, pc, pc + 4#32, mem, u⟩
      ⟨regs', pc', pc' + 4#32, mem', u.sent n bs⟩ ∧
    regs.KeepsBut [.ra] regs' ∧ Agree hidden mem mem'

section Piece

variable {regs : Regs}

theorem text_entered (R : Printer P image sp) {r : Reg} {low : BitVec 16}
    (h : (Output.text r low).codeAt image pc = true) (mem : Mem) (u : Uart)
    (hsp : regs.get .sp = sp) (hupper : regs.get r = 0x10000000#32) :
    Prints P (Below sp 56) (pc + 4#32) (pc + 12#32) regs mem u (textBytes image low) := by
  simp only [Output.codeAt, Bool.and_eq_true, Bool.or_eq_true, decide_eq_true_eq] at h
  obtain ⟨⟨⟨⟨hr, -⟩, hcall⟩, harg⟩, htext⟩ := h
  obtain ⟨bs, hbytes, hstring⟩ := textOf_string R.rom htext (Below sp 56) mem
  have harg' : P.fetch (pc + 4#32 + 4#32) = some (.addiu .a0 r low) := by
    simpa [BitVec.add_assoc] using R.rom.fetch harg
  have hra : r ≠ .ra := by rcases hr with rfl | rfl <;> decide
  obtain ⟨regs', mem', n, hputs, hpost⟩ :=
    puts_text R.toBoard (R.calls hcall) harg' hra regs mem u hupper hsp R.stack hstring
  exact ⟨regs', mem', n, by simpa [hbytes, BitVec.add_assoc] using hputs, hpost⟩

theorem text_spec (R : Printer P image sp) {r : Reg} {low : BitVec 16}
    (h : (Output.text r low).codeAt image pc = true) (mem : Mem) (u : Uart)
    (hsp : regs.get .sp = sp) :
    Prints P (Below sp 56) pc (pc + 12#32) regs mem u (textBytes image low) := by
  have hcode := h
  simp only [Output.codeAt, Bool.and_eq_true, Bool.or_eq_true, decide_eq_true_eq] at hcode
  obtain ⟨⟨⟨⟨hr, hlui⟩, -⟩, -⟩, -⟩ := hcode
  let entry := regs.set r 0x10000000#32
  have hentry : entry.get r = 0x10000000#32 ∧ regs.Keeps entry := by
    rcases hr with rfl | rfl <;> simp [Regs.keeps_iff, entry]
  have hload : Steps (step P) ⟨regs, pc, pc + 4#32, mem, u⟩
      ⟨entry, pc + 4#32, pc + 4#32 + 4#32, mem, u⟩ := by
    apply Steps.of_run (n := 1)
    simp [R.rom.fetch hlui, entry]
  obtain ⟨regs', mem', n, hsteps, hkeeps, hagree⟩ :=
    text_entered R h mem u (by rw [hentry.2.get (by simp), hsp]) hentry.1
  exact ⟨regs', mem', n, hload.trans hsteps, (hentry.2.but _).trans hkeeps, hagree⟩

theorem label_spec (R : Printer P image sp) {low : BitVec 16}
    (h : (Output.label low).codeAt image pc = true) (mem : Mem) (u : Uart)
    (hsp : regs.get .sp = sp) (hs8 : regs.get .s8 = 0x10000000#32) :
    Prints P (Below sp 56) pc (pc + 8#32) regs mem u (textBytes image low) := by
  simp only [Output.codeAt, Bool.and_eq_true, decide_eq_true_eq] at h
  obtain ⟨⟨hcall, harg⟩, htext⟩ := h
  obtain ⟨bs, hbytes, hstring⟩ := textOf_string R.rom htext (Below sp 56) mem
  rw [hbytes]
  exact puts_text R.toBoard (R.calls hcall) (R.rom.fetch harg) (by decide) regs mem u hs8 hsp
    R.stack hstring

theorem number_spec (R : Printer P image sp) {r : Reg}
    (h : (Output.number r).codeAt image pc = true) (mem : Mem) (u : Uart)
    (hsp : regs.get .sp = sp) :
    ∃ regs' mem' n, Steps (step P) ⟨regs, pc, pc + 4#32, mem, u⟩
        ⟨regs', pc + 16#32, pc + 16#32 + 4#32, mem',
          u.sent n (Console.puts (Console.formatHex (regs.get r)))⟩ ∧
      regs.KeepsBut [.ra] regs' ∧ Frame sp 56 (hexDigits mem (regs.get r) 8) mem' := by
  simp only [Output.codeAt, Bool.and_eq_true, decide_eq_true_eq] at h
  obtain ⟨⟨⟨⟨⟨-, hra⟩, hformat⟩, hvalue⟩, hputs⟩, hdigits⟩ := h
  exact puts_register R.toBoard R.buffer (R.calls hformat) (R.rom.fetch hvalue) (R.calls hputs)
    (R.rom.fetch hdigits) hra regs mem u hsp R.stack R.apart

end Piece

section Run

variable {regs : Regs} {hidden : Addr → Prop}

theorem piece_spec (R : Printer P image sp) (hstack : ∀ a, Below sp 56 a → hidden a)
    (h : item.codeAt image pc = true) (mem : Mem) (u : Uart) (hsp : regs.get .sp = sp)
    (hs8 : ∀ low, item = .label low → regs.get .s8 = 0x10000000#32)
    (hbuffer : ∀ r, item = .number r → ∀ a, InHexBuffer a → hidden a) :
    Prints P hidden pc (pc + item.size) regs mem u (item.bytes image regs) := by
  cases item with
  | text r low =>
    obtain ⟨regs', mem', n, hsteps, hkeeps, hframe⟩ := text_spec R h mem u hsp
    exact ⟨regs', mem', n, hsteps, hkeeps, hframe.mono hstack⟩
  | label low =>
    obtain ⟨regs', mem', n, hsteps, hkeeps, hframe⟩ := label_spec R h mem u hsp (hs8 low rfl)
    exact ⟨regs', mem', n, hsteps, hkeeps, hframe.mono hstack⟩
  | number r =>
    obtain ⟨regs', mem', n, hsteps, hkeeps, hframe⟩ := number_spec R h mem u hsp
    exact ⟨regs', mem', n, hsteps, hkeeps,
      ((hexDigits_agree mem _ le_rfl).mono (hbuffer r rfl)).trans (hframe.mono hstack)⟩

/-- A run of output prints its pieces and ends where its code ends. The induction is on the
pieces. -/
theorem run_spec (R : Printer P image sp) (hstack : ∀ a, Below sp 56 a → hidden a)
    (h : printsAt image pc items = true) (mem : Mem) (u : Uart) (hsp : regs.get .sp = sp)
    (hs8 : ∀ low, .label low ∈ items → regs.get .s8 = 0x10000000#32)
    (hbuffer : ∀ r, .number r ∈ items → ∀ a, InHexBuffer a → hidden a) :
    Prints P hidden pc (printsEnd pc items) regs mem u (outputs image regs items) := by
  induction items generalizing pc regs mem u with
  | nil => exact ⟨regs, mem, u.busy, by simpa [printsEnd, outputs] using Steps.refl _,
      fun _ _ _ => rfl, Agree.refl _ mem⟩
  | cons item items ih =>
    obtain ⟨hitem, hrest⟩ := Bool.and_eq_true_iff.mp h
    obtain ⟨regs₁, mem₁, n₁, hsteps₁, hkeeps₁, hagree₁⟩ :=
      piece_spec R hstack hitem mem u hsp (fun low hlow => hs8 low (by simp [hlow]))
        fun r hr => hbuffer r (by simp [hr])
    obtain ⟨regs₂, mem₂, n₂, hsteps₂, hkeeps₂, hagree₂⟩ :=
      ih hrest mem₁ (u.sent n₁ (item.bytes image regs))
        (by rw [hkeeps₁.get (by simp) (by simp), hsp])
        (fun low hlow => by rw [hkeeps₁.get (by simp) (by simp), hs8 low (by simp [hlow])])
        fun r hr => hbuffer r (by simp [hr])
    rw [Uart.sent_sent, outputs_keeps hkeeps₁ hrest] at hsteps₂
    exact ⟨regs₂, mem₂, n₂, hsteps₁.trans hsteps₂, hkeeps₁.trans hkeeps₂,
      hagree₁.trans hagree₂⟩

theorem prints_spec (R : Printer P image sp) (h : printsAt image pc items = true) (regs : Regs)
    (mem : Mem) (u : Uart) (hsp : regs.get .sp = sp)
    (hs8 : ∀ low, .label low ∈ items → regs.get .s8 = 0x10000000#32) :
    Prints P (Scratch sp 56) pc (printsEnd pc items) regs mem u (outputs image regs items) :=
  run_spec R (fun _ => Or.inl) h mem u hsp hs8 fun _ _ _ => Or.inr

theorem texts_spec (R : Printer P image sp) (h : printsAt image pc items = true)
    (hitems : ∀ item ∈ items, ∃ r low, item = .text r low) (regs : Regs) (mem : Mem) (u : Uart)
    (hsp : regs.get .sp = sp) :
    Prints P (Below sp 56) pc (printsEnd pc items) regs mem u (outputs image regs items) := by
  refine run_spec R (fun _ ha => ha) h mem u hsp (fun low hlow => ?_) fun r hr => ?_
  · obtain ⟨r, low', hlabel⟩ := hitems _ hlow
    cases hlabel
  · obtain ⟨r', low', hnumber⟩ := hitems _ hr
    cases hnumber

theorem prints_entered (R : Printer P image sp) {r : Reg} {low : BitVec 16}
    (h : printsAt image pc (.text r low :: items) = true) (regs : Regs) (mem : Mem) (u : Uart)
    (hsp : regs.get .sp = sp) (hupper : regs.get r = 0x10000000#32)
    (hs8 : ∀ low, .label low ∈ items → regs.get .s8 = 0x10000000#32) :
    Prints P (Scratch sp 56) (pc + 4#32) (printsEnd pc (.text r low :: items)) regs mem u
      (outputs image regs (.text r low :: items)) := by
  obtain ⟨hitem, hrest⟩ := Bool.and_eq_true_iff.mp h
  obtain ⟨regs₁, mem₁, n₁, hsteps₁, hkeeps₁, hframe₁⟩ := text_entered R hitem mem u hsp hupper
  obtain ⟨regs₂, mem₂, n₂, hsteps₂, hkeeps₂, hagree₂⟩ :=
    prints_spec R hrest regs₁ mem₁ (u.sent n₁ (textBytes image low))
      (by rw [hkeeps₁.get (by simp) (by simp), hsp])
      fun low hlow => by rw [hkeeps₁.get (by simp) (by simp), hs8 low hlow]
  rw [Uart.sent_sent, outputs_keeps hkeeps₁ hrest] at hsteps₂
  exact ⟨regs₂, mem₂, n₂, hsteps₁.trans hsteps₂, hkeeps₁.trans hkeeps₂,
    (hframe₁.mono fun _ => Or.inl).trans hagree₂⟩

end Run

end W2
