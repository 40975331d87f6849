import W2.Console.Commands

/-!
# The command language and its texts

What the console is for, without its reader and its dispatch loop: an interpreter of commands
on memory, and the texts a command may be written as. The numbers of a command are one to
eight hexadecimal digits of either case, each ended by CR, LF or space; bytes that are no
command letter may stand between commands. Reading such a text is one round of the dispatch
loop for each command and for each byte between them.
-/

namespace W2.Console

open Mips Transition

section Interpreter

def upperHex (w : Word) : List Byte :=
  (List.range 8).map fun i => hexDigit true (w.toNat / 16 ^ (7 - i) % 16)

def listing (m : Mem) (a : Addr) (n : ℕ) : List Byte :=
  2#8 :: (List.range n).flatMap (fun k =>
    upperHex (m.readWord (a + BitVec.ofNat 32 (4 * k))) ++ [32#8]) ++ [3#8]

def Command.answer (m : Mem) (c : Command) : List Byte :=
  match c with
  | .w _ _ => [6#8]
  | .s _ _ _ => [6#8]
  | .r addr n => listing m addr n.toNat
  | .l ptr off n => listing m (m.readWord ptr + off) n.toNat

def interpret (m : Mem) : List Command → Mem × List Byte
  | [] => (m, [])
  | c :: cs => ((interpret (c.store m) cs).1, c.answer m ++ (interpret (c.store m) cs).2)

theorem hexChar_eq {d : ℕ} (hd : d < 16) :
    hexChar (BitVec.ofNat 32 d) = hexDigit true d ∧ hexChar (BitVec.ofNat 32 d) ≠ 10#8 := by
  interval_cases d <;> decide

theorem formatHex_eq (w : Word) : formatHex w = upperHex w := by
  refine List.map_congr_left fun k hk => ?_
  have hk : k < 8 := List.mem_range.mp hk
  have hdigit : w >>> (4 * (7 - k)) &&& 0xf#32 =
      BitVec.ofNat 32 (w.toNat / 16 ^ (7 - k) % 16) := by
    apply BitVec.eq_of_toNat_eq
    rw [BitVec.toNat_and, show (0xf#32).toNat = 2 ^ 4 - 1 from rfl, Nat.and_two_pow_sub_one_eq_mod,
      BitVec.toNat_ushiftRight, Nat.shiftRight_eq_div_pow, Nat.pow_mul, BitVec.toNat_ofNat]
    have := Nat.mod_lt (w.toNat / 16 ^ (7 - k)) (show 0 < 16 by omega)
    exact (Nat.mod_eq_of_lt (by omega)).symm
  rw [hdigit, (hexChar_eq (Nat.mod_lt _ (by omega))).1]

theorem puts_plain {text : List Byte} (h : ∀ b ∈ text, b ≠ 10#8) : puts text = text := by
  induction text with
  | nil => rfl
  | cons b text ih =>
    have hb : b ≠ 10#8 := h b (by simp)
    have ht : puts text = text := ih fun c hc => h c (by simp [hc])
    rw [puts, List.flatMap_cons, if_neg hb]
    exact congrArg (b :: ·) ht

theorem upperHex_plain (w : Word) : ∀ b ∈ upperHex w, b ≠ 10#8 := by
  intro b hb
  obtain ⟨i, -, rfl⟩ := List.mem_map.mp hb
  have h := hexChar_eq (Nat.mod_lt (w.toNat / 16 ^ (7 - i)) (show 0 < 16 by omega))
  exact h.1 ▸ h.2

theorem printWords_eq (m : Mem) (a : Addr) (n : ℕ) :
    printWords m a n = (List.range n).flatMap fun k =>
      upperHex (m.readWord (a + BitVec.ofNat 32 (4 * k))) ++ [32#8] := by
  induction n generalizing a with
  | zero => rfl
  | succ n ih =>
    have hshift (k : ℕ) : a + 4#32 + BitVec.ofNat 32 (4 * k) =
        a + BitVec.ofNat 32 (4 * (k + 1)) := by bv_omega
    rw [printWords, ih, formatHex_eq, puts_plain (upperHex_plain _), puts_plain (by simp),
      List.range_succ_eq_map, List.flatMap_cons, List.flatMap_map]
    simp [hshift]

theorem reply_eq_answer (m : Mem) (c : Command) : c.reply m = c.answer m := by
  cases c with
  | w addr words => rfl
  | s ptr off words => rfl
  | r addr n =>
    simp only [Command.reply, Command.answer, listing, Command.target, Command.count, printWords_eq]
  | l ptr off n =>
    simp only [Command.reply, Command.answer, listing, Command.target, Command.count, printWords_eq,
      BitVec.add_comm off]

end Interpreter

section Texts

/-- A number as it is written: one to eight digits of either case and a terminator. -/
structure Numeral where
  digits : List (Bool × Fin 16)
  terminator : Byte
  length : 1 ≤ digits.length ∧ digits.length ≤ 8
  ends : Ends terminator

def Numeral.text (x : Numeral) : List Byte := digitsText x.digits ++ [x.terminator]

def Numeral.value (x : Numeral) : Word := BitVec.ofNat 32 (digitsValue x.digits)

/-- A command as it is written; the count is the number of words that follow. -/
inductive Spelled
  | w (addr count : Numeral) (words : List Numeral) (h : count.value.toNat = words.length)
  | s (ptr off count : Numeral) (words : List Numeral) (h : count.value.toNat = words.length)
  | r (addr count : Numeral)
  | l (ptr off count : Numeral)

def Spelled.text : Spelled → List Byte
  | .w addr count words _ => 119#8 :: (addr.text ++ count.text ++ words.flatMap Numeral.text)
  | .s ptr off count words _ =>
    115#8 :: (ptr.text ++ off.text ++ count.text ++ words.flatMap Numeral.text)
  | .r addr count => 114#8 :: (addr.text ++ count.text)
  | .l ptr off count => 108#8 :: (ptr.text ++ off.text ++ count.text)

def Spelled.command : Spelled → Command
  | .w addr _ words _ => .w addr.value (words.map Numeral.value)
  | .s ptr off _ words _ => .s ptr.value off.value (words.map Numeral.value)
  | .r addr count => .r addr.value count.value
  | .l ptr off count => .l ptr.value off.value count.value

def Letter (b : Byte) : Prop := b = 119#8 ∨ b = 115#8 ∨ b = 114#8 ∨ b = 108#8 ∨ Other b

instance (b : Byte) : Decidable (Letter b) := inferInstanceAs (Decidable (_ ∨ _))

inductive Item
  | command (c : Spelled)
  | between (b : Byte) (h : ¬ Letter b)

def Item.text : Item → List Byte
  | .command c => c.text
  | .between b _ => [b]

def Item.command? : Item → Option Command
  | .command c => some c.command
  | .between _ _ => none

theorem getword_numeral (x : Numeral) (rest : List Byte) :
    getword (x.text ++ rest) = some (x.value, rest) := by
  have h := getword_digits x.digits x.ends rest (by have := x.length; omega)
  simpa [Numeral.text, Numeral.value] using h

theorem getwords_numerals (xs : List Numeral) (rest : List Byte) :
    getwords xs.length (xs.flatMap Numeral.text ++ rest) = some (xs.map Numeral.value, rest) := by
  induction xs with
  | nil => rfl
  | cons x xs ih =>
    rw [List.flatMap_cons, List.append_assoc]
    exact getwords_succ.mpr ⟨_, _, _, getword_numeral x _, ih, rfl⟩

theorem commandW_numerals (addr count : Numeral) (words : List Numeral)
    (h : count.value.toNat = words.length) (rest : List Byte) :
    commandW (addr.text ++ (count.text ++ (words.flatMap Numeral.text ++ rest))) =
      some (.w addr.value (words.map Numeral.value), rest) := by
  have hwords := getwords_numerals words rest
  rw [← h] at hwords
  simp [commandW, getword_numeral, hwords]

theorem commandS_numerals (ptr off count : Numeral) (words : List Numeral)
    (h : count.value.toNat = words.length) (rest : List Byte) :
    commandS (ptr.text ++ (off.text ++ (count.text ++ (words.flatMap Numeral.text ++ rest)))) =
      some (.s ptr.value off.value (words.map Numeral.value), rest) := by
  have hwords := getwords_numerals words rest
  rw [← h] at hwords
  simp [commandS, getword_numeral, hwords]

theorem parse_spelled (c : Spelled) (rest : List Byte) :
    ∃ letter input, c.text ++ rest = letter :: input ∧
      parse letter input = some (some c.command, rest) := by
  cases c with
  | w addr count words h =>
    exact ⟨119#8, _, rfl, by simp [parse, commandW_numerals _ _ _ h, Spelled.command]⟩
  | s ptr off count words h =>
    exact ⟨115#8, _, rfl, by simp [parse, commandS_numerals _ _ _ _ h, Spelled.command]⟩
  | r addr count =>
    have hread : commandR (addr.text ++ (count.text ++ rest)) =
        some (.r addr.value count.value, rest) := by
      simp [commandR, getword_numeral]
    exact ⟨114#8, _, rfl, by simp [parse, hread, Spelled.command]⟩
  | l ptr off count =>
    have hread : commandL (ptr.text ++ (off.text ++ (count.text ++ rest))) =
        some (.l ptr.value off.value count.value, rest) := by
      simp [commandL, getword_numeral]
    exact ⟨108#8, _, rfl, by simp [parse, hread, Spelled.command]⟩

theorem parse_between {b : Byte} (h : ¬ Letter b) (rest : List Byte) :
    parse b rest = some (none, rest) := by
  simp only [Letter, not_or] at h
  simp [parse, h]

theorem parse_item (item : Item) (rest : List Byte) :
    ∃ letter input, item.text ++ rest = letter :: input ∧
      parse letter input = some (item.command?, rest) := by
  cases item with
  | command c => exact parse_spelled c rest
  | between b h => exact ⟨b, rest, rfl, parse_between h rest⟩

theorem dispatch_item (item : Item) (s : Session) (rest : List Byte)
    (h : s.input = item.text ++ rest) : dispatch s = some (s.exec rest item.command?) := by
  obtain ⟨letter, input, htext, hparse⟩ := parse_item item rest
  simp [dispatch, h, htext, hparse]

theorem getwords_append {n : ℕ} {xs rest : List Byte} {words : List Word}
    (h : getwords n xs = some (words, rest)) (ys : List Byte) :
    getwords n (xs ++ ys) = some (words, rest ++ ys) := by
  induction n generalizing xs words with
  | zero =>
    obtain ⟨rfl, rfl⟩ : [] = words ∧ xs = rest := by simpa [getwords] using h
    rfl
  | succ n ih =>
    obtain ⟨w, xs₁, ws, hw, hws, rfl⟩ := getwords_succ.mp h
    exact getwords_succ.mpr ⟨w, xs₁ ++ ys, ws, getword_append hw ys, ih hws, rfl⟩

theorem parse_append {letter : Byte} {xs rest : List Byte} {c : Option Command}
    (h : parse letter xs = some (c, rest)) (ys : List Byte) :
    parse letter (xs ++ ys) = some (c, rest ++ ys) := by
  unfold parse at h ⊢
  split_ifs at h ⊢
  · obtain ⟨⟨cmd, rest'⟩, hread, hp⟩ := Option.map_eq_some_iff.mp h
    obtain ⟨rfl, rfl⟩ : some cmd = c ∧ rest' = rest := by simpa using hp
    obtain ⟨addr, xs₁, n, xs₂, words, haddr, hn, hwords, rfl⟩ := commandW_eq hread
    simp [commandW, getword_append haddr, getword_append hn, getwords_append hwords]
  · obtain ⟨⟨cmd, rest'⟩, hread, hp⟩ := Option.map_eq_some_iff.mp h
    obtain ⟨rfl, rfl⟩ : some cmd = c ∧ rest' = rest := by simpa using hp
    obtain ⟨ptr, xs₁, off, xs₂, n, xs₃, words, hptr, hoff, hn, hwords, rfl⟩ := commandS_eq hread
    simp [commandS, getword_append hptr, getword_append hoff, getword_append hn,
      getwords_append hwords]
  · obtain ⟨⟨cmd, rest'⟩, hread, hp⟩ := Option.map_eq_some_iff.mp h
    obtain ⟨rfl, rfl⟩ : some cmd = c ∧ rest' = rest := by simpa using hp
    obtain ⟨addr, xs₁, n, haddr, hn, rfl⟩ := commandR_eq hread
    simp [commandR, getword_append haddr, getword_append hn]
  · obtain ⟨⟨cmd, rest'⟩, hread, hp⟩ := Option.map_eq_some_iff.mp h
    obtain ⟨rfl, rfl⟩ : some cmd = c ∧ rest' = rest := by simpa using hp
    obtain ⟨ptr, xs₁, off, xs₂, n, hptr, hoff, hn, rfl⟩ := commandL_eq hread
    simp [commandL, getword_append hptr, getword_append hoff, getword_append hn]
  · obtain ⟨rfl, rfl⟩ : none = c ∧ xs = rest := by simpa using h
    rfl

theorem dispatch_waits {letter : Byte} {input : List Byte} {c : Option Command}
    (hparse : parse letter input = some (c, [])) {xs ys : List Byte}
    (hsplit : letter :: input = xs ++ ys) (hys : ys ≠ []) (m : Mem) (out : List Byte) :
    dispatch ⟨xs, m, out⟩ = none := by
  cases xs with
  | nil => rfl
  | cons x xs =>
    obtain ⟨rfl, rfl⟩ : letter = x ∧ input = xs ++ ys := by simpa using hsplit
    cases hx : parse letter xs with
    | none => simp [dispatch, hx]
    | some p =>
      have hmore := parse_append hx ys
      rw [hparse] at hmore
      have : p.2 ++ ys = [] := by simpa using (congrArg Prod.snd (Option.some.inj hmore)).symm
      exact absurd (List.append_eq_nil_iff.mp this).2 hys

/-- What a request of its own does to the memory, when one round of the dispatch loop consumes
the whole of it. -/
def execRequest (m : Mem) (request : List Byte) : Option Mem :=
  (dispatch ⟨request, m, []⟩).bind fun s => if s.input = [] then some s.mem else none

theorem execRequest_spelled (m : Mem) (c : Spelled) :
    execRequest m c.text = some (c.command.store m) := by
  have h := dispatch_item (.command c) ⟨c.text, m, []⟩ [] (by simp [Item.text])
  simp [execRequest, h, Session.exec, Item.command?]

def execRequests (m : Mem) : List (List Byte) → Option Mem
  | [] => some m
  | request :: requests => (execRequest m request).bind fun m' => execRequests m' requests

theorem execRequests_append {m m' : Mem} {rs rs' : List (List Byte)}
    (h : execRequests m rs = some m') : execRequests m (rs ++ rs') = execRequests m' rs' := by
  induction rs generalizing m with
  | nil =>
    obtain rfl : m = m' := by simpa [execRequests] using h
    rfl
  | cons r rs ih =>
    obtain ⟨m₁, hr, hrs⟩ := Option.bind_eq_some_iff.mp h
    rw [List.cons_append, execRequests, hr]
    exact ih hrs

end Texts

end W2.Console
