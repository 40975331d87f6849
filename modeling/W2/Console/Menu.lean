import W2.Console.Language

/-!
# The menu on byte lists

What the menu is for: it reads a character and, for the characters `1` to `9`, an address, works on
the memory at that address, and reports in text. After every command it prints its screen again.
The commands that leave the menu (`3`, `5`, `a`, `c` to `f`), the endless reads of `6` and the dump
of `8`, which loads from one byte further each time, are outside this model.
-/

namespace W2.Console

open Mips

def characters (text : String) : List Byte := text.toList.map fun c => BitVec.ofNat 8 c.toNat

def sends (text : String) : List Byte := puts (characters text)

def screenLines : List String :=
  ["\r\n Menu-0000-: \r\n", "a. CamelStudio Console\r\n", "c. i2c Slave\r\n",
   "d. i2c Slave dbg\r\n", "e. dmi JTAG\r\n", "f. dmi JTAG dbg\r\n", "-----------\r\n",
   "1. Memory write word\r\n", "2. Memory read word\r\n",
   "3. Jump to address -- i.g.: 0x10000000\r\n", "4. Dump from address\r\n", "5. Bootloader\r\n",
   "6. Memory loop read word\r\n", "7. Memory loop write word\r\n",
   "8. Dump word from address\r\n", "> "]

def menuScreen : List Byte := screenLines.flatMap sends ++ sends "v1.12 > "

inductive MenuCommand
  | write (a : Addr) (v : Word)
  | read (a : Addr)
  | dump (a : Addr) (n : Word)
  | address (a : Addr)
  | unknown
  deriving DecidableEq

def rowWord (m : Mem) (a : Addr) (k : ℕ) : List Byte :=
  (if k % 4 = 0 then sends "\r\n" else []) ++
    (upperHex (m.readWord (a + BitVec.ofNat 32 (4 * k))) ++ [32#8])

def rows (m : Mem) (a : Addr) (n : ℕ) : List Byte := (List.range n).flatMap (rowWord m a)

theorem rows_succ (m : Mem) (a : Addr) (n : ℕ) :
    rows m a (n + 1) = rows m a n ++ rowWord m a n := by
  simp [rows, List.range_succ]

def addressText (a : Addr) : List Byte :=
  sends "\nAddress in hex> " ++ sends "Address = " ++ upperHex a ++ sends "\n"

def MenuCommand.store (m : Mem) : MenuCommand → Mem
  | .write a v => m.writeWord a v
  | _ => m

def MenuCommand.reply (m : Mem) : MenuCommand → List Byte
  | .write a v => addressText a ++ sends "\nValue in hex> " ++ upperHex v
  | .read a => addressText a ++ upperHex (m.readWord a) ++ sends "\r\n"
  | .dump a n =>
    addressText a ++ sends "\nCount in hex> " ++ rows m a ((n.toNat + 3) / 4) ++ sends "\r\n"
  | .address a => addressText a
  | .unknown => []

def MenuCommand.target : MenuCommand → Addr
  | .write a _ => a
  | .read a => a
  | .dump a _ => a
  | .address a => a
  | .unknown => 0#32

def MenuCommand.count : MenuCommand → ℕ
  | .write _ _ => 1
  | .read _ => 1
  | .dump _ n => (n.toNat + 3) / 4
  | .address _ => 0
  | .unknown => 0

/-- The characters whose commands are outside the model. -/
def MenuOther (c : Byte) : Prop :=
  c ∈ [51#8, 53#8, 54#8, 56#8, 97#8, 99#8, 100#8, 101#8, 102#8]

instance (c : Byte) : Decidable (MenuOther c) := inferInstanceAs (Decidable (_ ∈ _))

/-- What follows a character. `7` stores again and again until another byte arrives. -/
def parseMenu (c : Byte) (input : List Byte) : Option (MenuCommand × List Byte) :=
  if c = 49#8 then do
    let (a, input) ← getword input
    let (v, input) ← getword input
    some (.write a v, input)
  else if c = 50#8 then do
    let (a, input) ← getword input
    some (.read a, input)
  else if c = 52#8 then do
    let (a, input) ← getword input
    let (n, input) ← getword input
    some (.dump a n, input)
  else if c = 55#8 then do
    let (a, input) ← getword input
    let (v, input) ← getword input
    if input = [] then none else some (.write a v, input)
  else if c = 57#8 then do
    let (a, input) ← getword input
    some (.address a, input)
  else if MenuOther c then none
  else some (.unknown, input)

def menuRound (s : Session) : Option Session :=
  match s.input with
  | [] => none
  | c :: input => (parseMenu c input).map fun p =>
    ⟨p.2, p.1.store s.mem, s.output ++ p.1.reply s.mem ++ menuScreen⟩

end W2.Console
