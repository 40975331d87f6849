import W2.Firmware.Bench
import W2.Console.Language

/-!
# The machine runs the command language

The interpreter of commands is the console's purpose, the session of byte lists its reader and
dispatcher, the machine code its implementation. The two refinements compose: from the prompt
the machine consumes any list of written commands and does what the interpreter does.
-/

namespace W2

open Mips Transition Miniboot Console

variable {P : Platform Uart} {hidden : Addr → Prop}

def AllSafe (P : Platform Uart) (hidden : Addr → Prop) (m : Mem) : List Command → Prop
  | [] => True
  | c :: cs => Safe P hidden m c ∧ AllSafe P hidden (c.store m) cs

def scriptText (script : List Item) : List Byte := script.flatMap Item.text

def scriptCommands (script : List Item) : List Command := script.filterMap Item.command?

theorem item_allowed {item : Item} {s : Session} {rest : List Byte}
    (htext : s.input = item.text ++ rest)
    (hsafe : ∀ c, item.command? = some c → Safe P hidden s.mem c) : Allowed P hidden s := by
  intro letter input cmd rest' hinput hparse
  obtain ⟨letter', input', htext', hparse'⟩ := parse_item item rest
  obtain ⟨rfl, rfl⟩ : letter' = letter ∧ input' = input := by
    simpa using (htext'.symm.trans htext.symm).trans hinput
  have hitem : item.command? = some cmd := by
    rw [hparse'] at hparse
    simpa using congrArg Prod.fst (Option.some.inj hparse)
  exact hsafe cmd hitem

/-- The dispatch loop on byte lists interprets the commands of a script. The induction is on
the items, each of which is one round. -/
theorem script_rounds (script : List Item) (m : Mem) (out rest : List Byte)
    (hsafe : AllSafe P hidden m (scriptCommands script)) :
    Relation.ReflTransGen (fun a b => dispatch a = some b ∧ Allowed P hidden a)
      ⟨scriptText script ++ rest, m, out⟩
      ⟨rest, (interpret m (scriptCommands script)).1,
        out ++ (interpret m (scriptCommands script)).2⟩ := by
  induction script generalizing m out with
  | nil => simpa [scriptText, scriptCommands, interpret] using Relation.ReflTransGen.refl
  | cons item script ih =>
    have htext : scriptText (item :: script) ++ rest =
        item.text ++ (scriptText script ++ rest) := by
      simp [scriptText]
    rw [htext]
    have hround := dispatch_item item ⟨item.text ++ (scriptText script ++ rest), m, out⟩ _ rfl
    cases hitem : item.command? with
    | none =>
      have hcmds : scriptCommands (item :: script) = scriptCommands script := by
        simp [scriptCommands, hitem]
      rw [hcmds] at hsafe ⊢
      rw [hitem] at hround
      exact .head ⟨hround, item_allowed rfl (by simp [hitem])⟩ (ih m out hsafe)
    | some c =>
      have hcmds : scriptCommands (item :: script) = c :: scriptCommands script := by
        simp [scriptCommands, hitem]
      rw [hcmds] at hsafe ⊢
      rw [hitem] at hround
      refine .head ⟨hround, item_allowed rfl (by simpa [hitem] using hsafe.1)⟩ ?_
      simpa [Session.exec, interpret, reply_eq_answer] using
        ih (c.store m) (out ++ c.reply m) hsafe.2

/-- The console consumes any list of written commands, with any other bytes between them, and
leaves the memory and sends the output of the interpreter. -/
theorem console_runs_script {sp : Addr} (K : ConsoleBoard P sp) (script : List Item)
    (s : State Uart) (hpc : s.pc = 0x10000fb4#32) (hnpc : s.npc = 0x10000fb8#32)
    (hsp : s.regs.get .sp = sp) (hinput : s.dev.input = scriptText script)
    (hsafe : AllSafe P (Scratch sp 112) s.mem (scriptCommands script)) :
    ∃ s', Steps (step P) s s' ∧ s'.pc = 0x10000fb4#32 ∧ s'.npc = 0x10000fb8#32 ∧
      s'.regs.get .sp = sp ∧ s'.dev.input = [] ∧
      s'.dev.tx = s.dev.tx ++ (interpret s.mem (scriptCommands script)).2 ∧
      ∀ a, ¬ Scratch sp 112 a → s'.mem a = (interpret s.mem (scriptCommands script)).1 a := by
  have hstart : AtPrompt (Scratch sp 112) sp ⟨scriptText script ++ [], s.mem, s.dev.tx⟩ s :=
    ⟨hpc, hnpc, hsp, by simpa using hinput, rfl, Agree.refl _ _⟩
  obtain ⟨s', hsteps, hend⟩ :=
    console_refines K hstart (script_rounds script s.mem s.dev.tx [] hsafe)
  exact ⟨s', hsteps, hend.pc, hend.npc, hend.sp, hend.input, hend.output, hend.mem⟩

/-- `w00000100 1 dEadBeef`, a line feed of its own, and `r100 1`. -/
def benchScript : List Item :=
  [.command (.w
      ⟨[0, 0, 0, 0, 0, 1, 0, 0].map (digit false), 32#8, by decide, blank_ends⟩
      ⟨[1].map (digit false), 32#8, by decide, blank_ends⟩
      [⟨[digit false 13, digit true 14, digit false 10, digit false 13, digit true 11,
        digit false 14, digit false 14, digit false 15], 13#8, by decide, return_ends⟩]
      (by decide)),
    .between 10#8 (by decide),
    .command (.r ⟨[1, 0, 0].map (digit false), 32#8, by decide, blank_ends⟩
      ⟨[1].map (digit false), 13#8, by decide, return_ends⟩)]

theorem bench_span {a : Addr} {n : ℕ} (haligned : a.toNat % 4 = 0)
    (hfits : a.toNat + 4 * n ≤ 0x01000000) : Span bench (Scratch 0x01000f00#32 112) a n :=
  bench_low.span (by decide) haligned hfits

theorem console_runs_script_bench :
    ∃ s', Steps (step bench) (benchPrompt (fun _ => 0#8) (scriptText benchScript)) s' ∧
      s'.pc = 0x10000fb4#32 ∧ s'.npc = 0x10000fb8#32 ∧ s'.regs.get .sp = 0x01000f00#32 ∧
      s'.dev.input = [] ∧
      s'.dev.tx = [] ++ (interpret (fun _ => 0#8) (scriptCommands benchScript)).2 ∧
      ∀ a, ¬ Scratch 0x01000f00#32 112 a →
        s'.mem a = (interpret (fun _ => 0#8) (scriptCommands benchScript)).1 a :=
  console_runs_script bench_console benchScript
    (benchPrompt (fun _ => 0#8) (scriptText benchScript)) rfl rfl rfl (benchPrompt_input _ _)
    ⟨.direct rfl (bench_span (by decide) (by decide)),
      .direct rfl (bench_span (by decide) (by decide)), trivial⟩

example : (interpret (fun _ => 0#8) (scriptCommands benchScript)).2 =
    [6, 2, 68, 69, 65, 68, 66, 69, 69, 70, 32, 3] := by decide

end W2
