import W2.Console.Reader
import W2.Mips.Memory
import W2.Transition

/-!
# The console on byte lists

The command language of the dispatch loop (0x10000f9c): what `w`, `s`, `r` and `l` mean, how
their handlers read them from the bytes that arrive, and a round of the loop as a partial
step on sessions. `none` is a console that waits for more input, or one of the letters `R`,
`d`, `i`, `j`, whose handlers are outside this model.
-/

namespace W2.Console

open Mips

def hexChar (d : Word) : Byte :=
  (if d.slt 10#32 then d + 48#32 else d + 55#32).setWidth 8

def formatHex (w : Word) : List Byte :=
  (List.range 8).map fun k => hexChar ((w >>> (4 * (7 - k))) &&& 0xf#32)

def puts (text : List Byte) : List Byte :=
  text.flatMap fun b => if b = 10#8 then [13#8, 10#8] else [b]

def printWords (m : Mem) (a : Addr) : ℕ → List Byte
  | 0 => []
  | n + 1 => puts (formatHex (m.readWord a)) ++ puts [32#8] ++ printWords m (a + 4#32) n

inductive Command
  | w (addr : Addr) (words : List Word)
  | s (ptr off : Addr) (words : List Word)
  | r (addr : Addr) (n : Word)
  | l (ptr off : Addr) (n : Word)

/-- The address a command works at: given, or an offset from a word in memory. -/
def Command.target (m : Mem) : Command → Addr
  | .w addr _ => addr
  | .s ptr off _ => off + m.readWord ptr
  | .r addr _ => addr
  | .l ptr off _ => off + m.readWord ptr

def Command.count : Command → ℕ
  | .w _ words => words.length
  | .s _ _ words => words.length
  | .r _ n => n.toNat
  | .l _ _ n => n.toNat

def Command.pointer : Command → Option Addr
  | .s ptr _ _ => some ptr
  | .l ptr _ _ => some ptr
  | _ => none

def Command.store (m : Mem) (c : Command) : Mem :=
  match c with
  | .w _ words => m.writeWords (c.target m) words
  | .s _ _ words => m.writeWords (c.target m) words
  | _ => m

def Command.reply (m : Mem) (c : Command) : List Byte :=
  match c with
  | .w _ _ => [6#8]
  | .s _ _ _ => [6#8]
  | _ => 2#8 :: printWords m (c.target m) c.count ++ [3#8]

def getwords : ℕ → List Byte → Option (List Word × List Byte)
  | 0, input => some ([], input)
  | n + 1, input => do
    let (w, input) ← getword input
    let (ws, input) ← getwords n input
    some (w :: ws, input)

theorem getwords_succ {n : ℕ} {input rest : List Byte} {words : List Word} :
    getwords (n + 1) input = some (words, rest) ↔ ∃ w input₁ ws,
      getword input = some (w, input₁) ∧ getwords n input₁ = some (ws, rest) ∧
        words = w :: ws := by
  constructor
  · intro h
    obtain ⟨p, hp, h⟩ := Option.bind_eq_some_iff.mp h
    obtain ⟨q, hq, h⟩ := Option.bind_eq_some_iff.mp h
    obtain ⟨rfl, rfl⟩ : p.1 :: q.1 = words ∧ q.2 = rest := by simpa using h
    exact ⟨p.1, p.2, q.1, hp, hq, rfl⟩
  · rintro ⟨w, input₁, ws, hw, hws, rfl⟩
    simp [getwords, hw, hws]

theorem getwords_length {n : ℕ} {input rest : List Byte} {words : List Word}
    (h : getwords n input = some (words, rest)) : words.length = n := by
  induction n generalizing input words with
  | zero =>
    obtain ⟨rfl, -⟩ : [] = words ∧ input = rest := by simpa [getwords] using h
    rfl
  | succ n ih =>
    obtain ⟨w, input₁, ws, -, hws, rfl⟩ := getwords_succ.mp h
    simp [ih hws]

def commandW (input : List Byte) : Option (Command × List Byte) := do
  let (addr, input) ← getword input
  let (n, input) ← getword input
  let (words, input) ← getwords n.toNat input
  some (.w addr words, input)

def commandS (input : List Byte) : Option (Command × List Byte) := do
  let (ptr, input) ← getword input
  let (off, input) ← getword input
  let (n, input) ← getword input
  let (words, input) ← getwords n.toNat input
  some (.s ptr off words, input)

def commandR (input : List Byte) : Option (Command × List Byte) := do
  let (addr, input) ← getword input
  let (n, input) ← getword input
  some (.r addr n, input)

def commandL (input : List Byte) : Option (Command × List Byte) := do
  let (ptr, input) ← getword input
  let (off, input) ← getword input
  let (n, input) ← getword input
  some (.l ptr off n, input)

theorem commandW_eq {input rest : List Byte} {c : Command} (h : commandW input = some (c, rest)) :
    ∃ addr input₁ n input₂ words, getword input = some (addr, input₁) ∧
      getword input₁ = some (n, input₂) ∧ getwords n.toNat input₂ = some (words, rest) ∧
      c = .w addr words := by
  obtain ⟨p, hp, h⟩ := Option.bind_eq_some_iff.mp h
  obtain ⟨q, hq, h⟩ := Option.bind_eq_some_iff.mp h
  obtain ⟨r, hr, h⟩ := Option.bind_eq_some_iff.mp h
  obtain ⟨rfl, rfl⟩ : .w p.1 r.1 = c ∧ r.2 = rest := by simpa using h
  exact ⟨p.1, p.2, q.1, q.2, r.1, hp, hq, hr, rfl⟩

theorem commandS_eq {input rest : List Byte} {c : Command} (h : commandS input = some (c, rest)) :
    ∃ ptr input₁ off input₂ n input₃ words, getword input = some (ptr, input₁) ∧
      getword input₁ = some (off, input₂) ∧ getword input₂ = some (n, input₃) ∧
      getwords n.toNat input₃ = some (words, rest) ∧ c = .s ptr off words := by
  obtain ⟨p, hp, h⟩ := Option.bind_eq_some_iff.mp h
  obtain ⟨q, hq, h⟩ := Option.bind_eq_some_iff.mp h
  obtain ⟨r, hr, h⟩ := Option.bind_eq_some_iff.mp h
  obtain ⟨t, ht, h⟩ := Option.bind_eq_some_iff.mp h
  obtain ⟨rfl, rfl⟩ : .s p.1 q.1 t.1 = c ∧ t.2 = rest := by simpa using h
  exact ⟨p.1, p.2, q.1, q.2, r.1, r.2, t.1, hp, hq, hr, ht, rfl⟩

theorem commandR_eq {input rest : List Byte} {c : Command} (h : commandR input = some (c, rest)) :
    ∃ addr input₁ n, getword input = some (addr, input₁) ∧
      getword input₁ = some (n, rest) ∧ c = .r addr n := by
  obtain ⟨p, hp, h⟩ := Option.bind_eq_some_iff.mp h
  obtain ⟨q, hq, h⟩ := Option.bind_eq_some_iff.mp h
  obtain ⟨rfl, rfl⟩ : .r p.1 q.1 = c ∧ q.2 = rest := by simpa using h
  exact ⟨p.1, p.2, q.1, hp, hq, rfl⟩

theorem commandL_eq {input rest : List Byte} {c : Command} (h : commandL input = some (c, rest)) :
    ∃ ptr input₁ off input₂ n, getword input = some (ptr, input₁) ∧
      getword input₁ = some (off, input₂) ∧ getword input₂ = some (n, rest) ∧
      c = .l ptr off n := by
  obtain ⟨p, hp, h⟩ := Option.bind_eq_some_iff.mp h
  obtain ⟨q, hq, h⟩ := Option.bind_eq_some_iff.mp h
  obtain ⟨r, hr, h⟩ := Option.bind_eq_some_iff.mp h
  obtain ⟨rfl, rfl⟩ : .l p.1 q.1 r.1 = c ∧ r.2 = rest := by simpa using h
  exact ⟨p.1, p.2, q.1, q.2, r.1, hp, hq, hr, rfl⟩

/-- The letters whose handlers are outside the model. -/
def Other (c : Byte) : Prop := c = 82#8 ∨ c = 100#8 ∨ c = 105#8 ∨ c = 106#8

instance (c : Byte) : Decidable (Other c) := inferInstanceAs (Decidable (_ ∨ _))

/-- What follows a letter: a command with its numbers, or nothing for a byte the loop skips. -/
def parse (letter : Byte) (input : List Byte) : Option (Option Command × List Byte) :=
  if letter = 119#8 then (commandW input).map fun p => (some p.1, p.2)
  else if letter = 115#8 then (commandS input).map fun p => (some p.1, p.2)
  else if letter = 114#8 then (commandR input).map fun p => (some p.1, p.2)
  else if letter = 108#8 then (commandL input).map fun p => (some p.1, p.2)
  else if Other letter then none
  else some (none, input)

structure Session where
  input : List Byte
  mem : Mem
  output : List Byte

def Session.exec (s : Session) (rest : List Byte) : Option Command → Session
  | none => { s with input := rest }
  | some c => ⟨rest, c.store s.mem, s.output ++ c.reply s.mem⟩

def dispatch (s : Session) : Option Session :=
  match s.input with
  | [] => none
  | letter :: input => (parse letter input).map fun p => s.exec p.2 p.1

end W2.Console
