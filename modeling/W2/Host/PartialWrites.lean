import W2.Host.Uploader

/-!
# Requests under partial writes

Both programs hand a request to the system in one low-level write and go on with whatever count
it returns: `writeChunk` compares the count with zero, `write_bytes` asserts that it is positive
and returns it to `write_words`, which does not look at it.
-/

namespace W2.Host

open Mips

/-- The port as the low-level writes see it: what call `k` answers when it is offered `n` bytes,
and the bytes it has accepted so far. -/
structure Port where
  answer : ℕ → ℕ → WriteResult
  calls : ℕ
  handed : List Byte

def Port.write (p : Port) (buf : ℕ → Byte) (offered : ℕ) : WriteResult × Port :=
  match p.answer p.calls offered with
  | .accepted n => (.accepted n, ⟨p.answer, p.calls + 1, p.handed ++ (List.range n).map buf⟩)
  | .refused errno => (.refused errno, ⟨p.answer, p.calls + 1, p.handed⟩)

def writeChunk (buffer : ℕ → Byte) (bufferSize : ℕ) (p : Port) : Except String Unit × Port :=
  match p.write buffer bufferSize with
  | (.accepted _, p') => (.ok (), p')
  | (.refused errno, p') => (.error ("Write failed: " ++ errno), p')

def asInt (n : ℕ) : ℤ := (BitVec.ofNat 32 n).toInt

def asSize (i : ℤ) : ℕ := (BitVec.ofInt 64 i).toNat

/-- `SerialPort::write_bytes` on an open port; `none` is a failed assertion. -/
def SerialPort.writeBytes (buf : ℕ → Byte) (size : ℤ) (p : Port) : Option (ℤ × Port) :=
  if size = 0 then some (0, p)
  else
    match p.write buf (asSize size) with
    | (.accepted n, p') => if 0 < asInt n then some (asInt n, p') else none
    | (.refused _, _) => none

inductive Sender
  | client
  | serialPort
  deriving DecidableEq, Repr

def Sender.transmit (sender : Sender) (request : ℕ → Byte) (m : ℕ) (p : Port) : Option Port :=
  match sender with
  | .client =>
    match writeChunk request m p with
    | (.ok _, p') => some p'
    | (.error _, _) => none
  | .serialPort => (SerialPort.writeBytes request (asInt m) p).map Prod.snd

def Port.Accepting (p : Port) : Prop :=
  ∀ k n, 0 < n → ∃ a, p.answer k n = .accepted a ∧ 1 ≤ a ∧ a ≤ n

/-- The first low-level write accepts the whole request. A length of 2^31 or more does not fit the
`int` of `write_bytes`: such a count stops the program, a length that becomes 0 sends nothing. -/
def Sender.AtOnce (sender : Sender) (m : ℕ) (p : Port) : Prop :=
  match sender with
  | .client => p.answer p.calls m = .accepted m
  | .serialPort => asInt m ≠ 0 ∧ ∃ n, p.answer p.calls (asSize (asInt m)) = .accepted n ∧
      (n = m ∨ asInt n ≤ 0)

theorem handed_whole {request : ℕ → Byte} {n m : ℕ} :
    (List.range n).map request = (List.range m).map request ↔ n = m := by
  constructor
  · intro h
    simpa using congrArg List.length h
  · rintro rfl
    rfl

theorem transmit_client {p : Port} (request : ℕ → Byte) {m n : ℕ}
    (h : p.answer p.calls m = .accepted n) :
    Sender.client.transmit request m p =
      some ⟨p.answer, p.calls + 1, p.handed ++ (List.range n).map request⟩ := by
  simp only [Sender.transmit, writeChunk, Port.write, h]

theorem transmit_serialPort {p : Port} (request : ℕ → Byte) {m n : ℕ} (hm : asInt m ≠ 0)
    (h : p.answer p.calls (asSize (asInt m)) = .accepted n) :
    Sender.serialPort.transmit request m p = if 0 < asInt n then
      some ⟨p.answer, p.calls + 1, p.handed ++ (List.range n).map request⟩ else none := by
  simp only [Sender.transmit, SerialPort.writeBytes, hm, if_false, Port.write, h]
  split <;> rfl

theorem asSize_pos {i : ℤ} (h : asSize i = 0) (hlo : -4294967296 < i) (hhi : i < 4294967296) :
    i = 0 := by
  have hmod : i % 18446744073709551616 = 0 := by
    unfold asSize at h
    rw [BitVec.toNat_ofInt] at h
    omega
  omega

/-- A request reaches the port whole, in every return to the caller, exactly when the first
low-level write takes all of it: nothing sends what it leaves. -/
theorem transmit_whole (sender : Sender) (request : ℕ → Byte) (m : ℕ) (p : Port) (hm : 0 < m)
    (hp : p.Accepting) :
    (∀ p', sender.transmit request m p = some p' →
      p'.handed = p.handed ++ (List.range m).map request) ↔ sender.AtOnce m p := by
  cases sender with
  | client =>
    obtain ⟨n, hn, -, -⟩ := hp p.calls m hm
    rw [transmit_client request hn, Sender.AtOnce, hn]
    simp [handed_whole]
  | serialPort =>
    by_cases hzero : asInt m = 0
    · have hreturn : Sender.serialPort.transmit request m p = some p := by
        simp [Sender.transmit, SerialPort.writeBytes, hzero]
      simp [Sender.AtOnce, hreturn, hzero, hm.ne']
    · have hlo : -4294967296 < asInt m := by
        have := BitVec.le_toInt (BitVec.ofNat 32 m)
        simp at this
        unfold asInt
        omega
      have hhi : asInt m < 4294967296 := by
        have := BitVec.toInt_lt (w := 32) (x := BitVec.ofNat 32 m)
        unfold asInt
        omega
      have hpos : 0 < asSize (asInt m) :=
        Nat.pos_of_ne_zero fun h => hzero (asSize_pos h hlo hhi)
      obtain ⟨n, hn, -, -⟩ := hp p.calls _ hpos
      rw [transmit_serialPort request hzero hn, Sender.AtOnce, hn]
      by_cases hcount : 0 < asInt n
      · have hcount' : ¬ asInt n ≤ 0 := by omega
        simp [hzero, hcount, hcount', handed_whole]
      · have hcount' : asInt n ≤ 0 := by omega
        simp [hzero, hcount, hcount']

def obliging : Port := ⟨fun _ n => .accepted n, 0, []⟩

theorem obliging_accepting : obliging.Accepting := fun _ n hn => ⟨n, rfl, hn, le_rfl⟩

theorem transmit_whole_three :
    (∀ p', Sender.serialPort.transmit (fun i => BitVec.ofNat 8 i) 3 obliging = some p' →
      p'.handed = [] ++ (List.range 3).map fun i => BitVec.ofNat 8 i) ↔
      Sender.serialPort.AtOnce 3 obliging :=
  transmit_whole .serialPort (fun i => BitVec.ofNat 8 i) 3 obliging (by decide) obliging_accepting

def reluctant : Port := ⟨fun _ n => .accepted (max 1 (n - 1)), 0, []⟩

theorem reluctant_accepting : reluctant.Accepting :=
  fun _ n hn => ⟨max 1 (n - 1), rfl, by omega, by omega⟩

theorem transmit_fifteen : reluctant.Accepting ∧
    ∀ sender : Sender, ∃ p', sender.transmit (disableSpecialSeqInstr.getD · 0) 15 reluctant =
      some p' ∧ p'.handed ≠ disableSpecialSeqInstr := by
  refine ⟨reluctant_accepting, fun sender => ?_⟩
  cases sender with
  | client => exact ⟨_, rfl, by decide⟩
  | serialPort => exact ⟨_, rfl, by decide⟩

end W2.Host
