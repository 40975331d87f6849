import W2.Link.Jump

/-!
# Programs called from the console

The command `j` calls the address it reads as a subroutine: the program gets a return address and a
stack below the console's frame. If it comes back as the calling convention asks, the console is at
its prompt again and goes on with the bytes that have not been read.
-/

namespace W2

open Mips Transition Miniboot Console

variable {P : Platform Uart} {sp a : Addr} {s : State Uart} {input rest : List Byte}

theorem commandJ_return_listing (h : Pieces P [(0x1000062c, commandJ)]) :
    P.fetch 0x10000650#32 = some (.lw .ra 20 .sp) ∧
    P.fetch 0x10000654#32 = some (.lw .s0 16 .sp) ∧
    P.fetch 0x10000658#32 = some (.jr .ra) ∧
    P.fetch 0x1000065c#32 = some (.addiu .sp .sp 24) := by
  constructorm* _ ∧ _ <;> exact h.fetch rfl

def callSlots : Slots := [(0xfffffffc#32, .ra), (0xfffffff8#32, .s0)]

/-- The program at `a` has been called: with the return address in the handler, the console's frame
above its stack pointer, one acknowledgement sent, and `rest` to be read. -/
structure Called (sp a : Addr) (s : State Uart) (rest : List Byte) (t : State Uart) : Prop where
  pc : t.pc = a
  npc : t.npc = a + 4#32
  ra : t.regs.get .ra = 0x10000650#32
  stack : t.regs.get .sp = sp + 0xffffffe8#32
  output : t.dev.tx = s.dev.tx ++ [6#8]
  input : t.dev.input = rest
  mem : Agree (Below sp 96) s.mem t.mem

/-- The program called at `t` has come back at `u`, with the stack pointer and the bytes of its
caller's frame as they were. -/
structure CameBack (sp : Addr) (t u : State Uart) : Prop where
  pc : u.pc = t.regs.get .ra
  npc : u.npc = t.regs.get .ra + 4#32
  stack : u.regs.get .sp = t.regs.get .sp
  frame : ∀ x, Below sp 24 x → u.mem x = t.mem x

theorem commandJ_call (B : Board P) (hcode : Pieces P [(0x1000062c, commandJ)])
    (hstack : Stack P sp 96) (regs : Regs) (mem : Mem) (u : Uart) (hsp : regs.get .sp = sp)
    (hread : getword u.input = some (a, rest)) :
    ∃ regs' mem' n, Steps (step P) ⟨regs, 0x1000062c#32, 0x10000630#32, mem, u⟩
        ⟨regs', a, a + 4#32, mem', n⟩ ∧ n.tx = u.tx ++ [6#8] ∧ n.input = rest ∧
      regs'.get .ra = 0x10000650#32 ∧ regs'.get .sp = sp + 0xffffffe8#32 ∧
      mem'.readWord (sp + 0xfffffffc#32) = regs.get .ra ∧ Frame sp 96 mem mem' := by
  let entry := (regs.set .sp (sp + 0xffffffe8#32)).set .ra 0x1000063c#32
  let saved := save mem sp regs callSlots
  have hentry : Steps (step P) ⟨regs, 0x1000062c#32, 0x10000630#32, mem, u⟩
      ⟨entry, 0x1000048c#32, 0x10000490#32, saved, u⟩ := by
    apply Steps.of_run (n := 4)
    simp [commandJ_listing hcode, BitVec.add_assoc, hsp, hstack.plain, entry, saved, save,
      callSlots]
  obtain ⟨regs₁, mem₁, u₁, hget, hv0, hkeeps₁, hrest, htx, hframe₁⟩ :=
    getword_call B 0x1000063c#32 (sp + 0xffffffe8#32) hentry (by simp [entry]) (by simp [entry])
      (hstack.callee (by decide) (by decide)) hread
  let sending := ((regs₁.set .s0 a).set .ra 0x10000648#32).set .a0 6#32
  have hsend : Steps (step P) ⟨regs₁, 0x1000063c#32, 0x1000063c#32 + 4#32, mem₁, u₁⟩
      ⟨sending, 0x10000330#32, 0x10000334#32, mem₁, u₁⟩ := by
    apply Steps.of_run (n := 3)
    simp [commandJ_listing hcode, hv0, sending]
  obtain ⟨regs₂, n, hput, hkeeps₂⟩ := B.serial.putchar_spec sending mem₁ u₁
  have hra : sending.get .ra = 0x10000648#32 := by simp [sending]
  have ha0 : (sending.get .a0).setWidth 8 = 6#8 := by simp [sending]
  have hs0 : regs₂.get .s0 = a := by simp [hkeeps₂.get, sending]
  have hsp₂ : regs₂.get .sp = sp + 0xffffffe8#32 := by
    simp [hkeeps₂.get, hkeeps₁.get, sending, entry]
  rw [hra, ha0] at hput
  have hjump : Steps (step P) ⟨regs₂, 0x10000648#32, 0x10000648#32 + 4#32, mem₁, u₁.sent n [6#8]⟩
      ⟨regs₂.set .ra 0x10000650#32, a, a + 4#32, mem₁, u₁.sent n [6#8]⟩ := by
    apply Steps.of_run (n := 2)
    simp [commandJ_listing hcode, hs0]
  have hsaved : Frame sp 96 mem saved := save_frame (by decide) mem sp regs
  refine ⟨regs₂.set .ra 0x10000650#32, mem₁, _, (hget.trans hsend).trans (hput.trans hjump),
    by simp [htx], by simp [hrest], by simp, by simp [hsp₂], ?_,
    hsaved.trans (hframe₁.mono fun x hx => hx.mono (by decide))⟩
  rw [hframe₁.readSlot (d := 0xfffffffc#32) (by decide)]
  simp [saved, save, callSlots]

theorem commandJ_back (hcode : Pieces P [(0x1000062c, commandJ)]) (hstack : Stack P sp 96)
    (regs : Regs) (mem : Mem) (u : Uart) (hsp : regs.get .sp = sp + 0xffffffe8#32) :
    ∃ regs', Steps (step P) ⟨regs, 0x10000650#32, 0x10000654#32, mem, u⟩
        ⟨regs', mem.readWord (sp + 0xfffffffc#32), mem.readWord (sp + 0xfffffffc#32) + 4#32, mem,
          u⟩ ∧ regs'.get .sp = sp := by
  refine ⟨?regs, Steps.of_run (n := 4) ?run, ?post⟩
  case run =>
    simp [commandJ_return_listing hcode, BitVec.add_assoc, hsp, hstack.ramWord]
    rfl
  case post => simp

/-- `j` with any number calls the address, and when the program comes back the console is at its
prompt, with the memory and the serial port as the program left them. -/
theorem console_calls (B : Board P) (hcode : Pieces P [(0x1000062c, commandJ)])
    (hstack : Stack P sp 96) (s : State Uart) (hpc : s.pc = 0x10000fb4#32)
    (hnpc : s.npc = 0x10000fb8#32) (hsp : s.regs.get .sp = sp)
    (hinput : s.dev.input = 106#8 :: input) (hread : getword input = some (a, rest)) :
    ∃ t, Steps (step P) s t ∧ Called sp a s rest t ∧ ∀ u, CameBack sp t u →
      ∃ s', Steps (step P) u s' ∧ s'.pc = 0x10000fb4#32 ∧ s'.npc = 0x10000fb8#32 ∧
        s'.regs.get .sp = sp ∧ s'.mem = u.mem ∧ s'.dev = u.dev := by
  have hprompt : AtPrompt (Below sp 96) sp ⟨s.dev.input, s.mem, s.dev.tx⟩ s :=
    ⟨hpc, hnpc, hsp, rfl, rfl, Agree.refl _ _⟩
  obtain ⟨regs₁, mem₁, u₁, hfound, hsp₁, hinput₁, htx₁, hmem₁⟩ :=
    prompt_spec B hprompt (hstack.weaken (by omega)) (fun x hx => hx.weaken (by omega)) hinput
  obtain ⟨regs₂, mem₂, u₂, hcall, htx₂, hinput₂, hra, hsp₂, hsaved, hframe⟩ :=
    commandJ_call B hcode hstack (regs₁.set .ra 0x10001044#32) mem₁ u₁ (by simp [hsp₁])
      (hinput₁ ▸ hread)
  have henter := (call_j B.toHolds).enter regs₁ mem₁ u₁
  refine ⟨_, (hfound.trans henter).trans hcall, ⟨rfl, rfl, hra, hsp₂, by rw [htx₂, htx₁], hinput₂,
    hmem₁.trans hframe⟩, fun u hu => ?_⟩
  obtain ⟨regs, pc, npc, mem, dev⟩ := u
  obtain ⟨rfl, rfl, hspu, hkept⟩ := hu
  simp only [hra] at *
  have hslot : mem.readWord (sp + 0xfffffffc#32) = 0x10001044#32 := by
    rw [Mem.readWord_congr (m := mem₂) fun i hi => hkept _ (by unfold Below; bv_omega), hsaved]
    simp
  obtain ⟨regs₃, hback, hsp₃⟩ := commandJ_back hcode hstack regs mem dev (hspu.trans hsp₂)
  rw [hslot] at hback
  exact ⟨_, hback.trans ((call_j B.toHolds).leave regs₃ mem dev), rfl, rfl, hsp₃, rfl, rfl⟩

theorem console_calls_low :
    ∃ t, Steps (step jumpBench) (benchPrompt (fun _ => 0#8) [106, 50, 48, 48, 13, 65]) t ∧
      Called 0x01000f00#32 0x200#32 (benchPrompt (fun _ => 0#8) [106, 50, 48, 48, 13, 65])
        [65] t ∧
      ∀ u, CameBack 0x01000f00#32 t u → ∃ s', Steps (step jumpBench) u s' ∧
        s'.pc = 0x10000fb4#32 ∧ s'.npc = 0x10000fb8#32 ∧ s'.regs.get .sp = 0x01000f00#32 ∧
        s'.mem = u.mem ∧ s'.dev = u.dev :=
  console_calls (benchWith_board (by decide)) jumpBench_code jumpBench_stack
    (benchPrompt (fun _ => 0#8) [106, 50, 48, 48, 13, 65]) rfl rfl rfl (benchPrompt_input _ _)
    (by decide)

end W2
