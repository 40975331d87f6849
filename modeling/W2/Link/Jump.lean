import W2.Firmware.Bench
import W2.Host.Uploader

/-!
# Jump requests

The host's `jump` against the console's command `j` (0x1000062c), which reads an address,
acknowledges and calls it. The host has the address as a parameter and sends a fixed text.
-/

namespace W2

open Mips Transition Miniboot Console

/-- `utils::jump`: what `write_bytes` is given. -/
def Host.jump (_address : ℤ) : List Byte := Host.ascii "j10000000\r"

def Miniboot.commandJ : List Word :=
  [0x27bdffe8, 0xafbf0014, 0x0c000123, 0xafb00010, 0x00408021, 0x0c0000cc, 0x24040006,
   0x0200f809, 0x00000000, 0x8fbf0014, 0x8fb00010, 0x03e00008, 0x27bd0018]

variable {P : Platform Uart} {sp a : Addr} {s : State Uart} {rest : List Byte}

theorem commandJ_listing (h : Pieces P [(0x1000062c, commandJ)]) :
    P.fetch 0x1000062c#32 = some (.addiu .sp .sp (-24)) ∧
    P.fetch 0x10000630#32 = some (.sw .ra 20 .sp) ∧
    P.fetch 0x10000634#32 = some (.jal 0x123) ∧
    P.fetch 0x10000638#32 = some (.sw .s0 16 .sp) ∧
    P.fetch 0x1000063c#32 = some (.addu .s0 .v0 .zero) ∧
    P.fetch 0x10000640#32 = some (.jal 0xcc) ∧
    P.fetch 0x10000644#32 = some (.addiu .a0 .zero 6) ∧
    P.fetch 0x10000648#32 = some (.jalr .ra .s0) ∧
    P.fetch 0x1000064c#32 = some .nop := by
  constructorm* _ ∧ _ <;> exact h.fetch rfl

theorem call_j (h : Holds P) : HandlerCall P 0x1000103c#32 0x1000062c#32 := by
  constructor <;> simp [console_listing h]

def Calling (s x : State Uart) : Prop := x.pc = 0x1000064c#32 ∧ x.dev.tx ≠ s.dev.tx

/-- The console goes to `a`, with one acknowledgement sent and the request consumed. -/
def Transfers (P : Platform Uart) (a : Addr) (rest : List Byte) (s : State Uart) : Prop :=
  ∃ v t, EndsAt (step P) (Calling s) s v ∧ step P v = some t ∧ t.pc = a ∧ t.npc = a + 4#32 ∧
    t.dev.tx = s.dev.tx ++ [6#8] ∧ t.dev.input = rest

theorem commandJ_reads (B : Board P) (hcode : Pieces P [(0x1000062c, commandJ)])
    (hstack : Stack P sp 96) (regs : Regs) (mem : Mem) (u : Uart) (hsp : regs.get .sp = sp)
    (hread : getword u.input = some (a, rest)) :
    ∃ regs' mem' u', Steps (step P) ⟨regs, 0x1000062c#32, 0x10000630#32, mem, u⟩
        ⟨regs', 0x10000330#32, 0x10000334#32, mem', u'⟩ ∧
      regs'.get .s0 = a ∧ regs'.get .ra = 0x10000648#32 ∧ regs'.get .a0 = 6#32 ∧
      u'.input = rest ∧ u'.tx = u.tx := by
  let entry := (regs.set .sp (sp + 0xffffffe8#32)).set .ra 0x1000063c#32
  let saved := (mem.writeWord (sp + 0xfffffffc#32) (regs.get .ra)).writeWord
    (sp + 0xfffffff8#32) (regs.get .s0)
  have hentry : Steps (step P) ⟨regs, 0x1000062c#32, 0x10000630#32, mem, u⟩
      ⟨entry, 0x1000048c#32, 0x10000490#32, saved, u⟩ := by
    apply Steps.of_run (n := 4)
    simp [commandJ_listing hcode, BitVec.add_assoc, hsp, hstack.plain, entry, saved]
  obtain ⟨regs₁, mem₁, u₁, hget, hv0, -, hrest, htx, -⟩ :=
    getword_call B 0x1000063c#32 (sp + 0xffffffe8#32) hentry (by simp [entry]) (by simp [entry])
      (hstack.callee (by decide) (by decide)) hread
  refine ⟨((regs₁.set .s0 a).set .ra 0x10000648#32).set .a0 6#32, mem₁, u₁,
    hget.trans (Steps.of_run (n := 3) ?call), by simp, by simp, by simp, hrest, htx⟩
  simp [commandJ_listing hcode, hv0]

theorem commandJ_calls (B : Board P) (C : Cumulative P)
    (hcode : Pieces P [(0x1000062c, commandJ)]) (regs : Regs) (mem : Mem) (u : Uart)
    (hs : Steps (step P) s ⟨regs, 0x10000330#32, 0x10000334#32, mem, u⟩) (htx : u.tx = s.dev.tx)
    (hs0 : regs.get .s0 = a) (hra : regs.get .ra = 0x10000648#32) (ha0 : regs.get .a0 = 6#32) :
    ∃ v t, EndsAt (step P) (Calling s) s v ∧ step P v = some t ∧ t.pc = a ∧ t.npc = a + 4#32 ∧
      t.dev.tx = s.dev.tx ++ [6#8] ∧ t.dev.input = u.input := by
  have S := B.serial
  obtain ⟨regs₁, hwait, hv0, hbyte, hkeeps⟩ := S.putchar_wait regs mem u
  obtain ⟨n, hstore⟩ := S.storeSend { u with busy := 0 } 6#8 rfl
  rw [ha0] at hbyte
  have hra₁ : regs₁.get .ra = 0x10000648#32 := by rw [hkeeps.get (by simp), hra]
  have hs0₁ : regs₁.get .s0 = a := by rw [hkeeps.get (by simp), hs0]
  let ready := regs₁.set .v0 0x1f800002#32
  let sent : Uart := { u with busy := n, tx := u.tx ++ [6#8] }
  let v : State Uart := ⟨ready.set .ra 0x10000650#32, 0x1000064c#32, a, mem, sent⟩
  have hput := S.putchar
  simp only [BitVec.reduceAdd] at hput hwait
  simp only [BitVec.reduceSetWidth] at hstore
  have hready : Steps (step P) ⟨regs₁, 0x10000350#32, 0x10000354#32, mem, { u with busy := 0 }⟩
      ⟨ready, 0x10000354#32, 0x10000358#32, mem, { u with busy := 0 }⟩ := by
    apply Steps.of_run (n := 1)
    simp [hput, hv0, ready]
  have hsend : step P ⟨ready, 0x10000354#32, 0x10000358#32, mem, { u with busy := 0 }⟩ =
      some ⟨ready, 0x10000358#32, 0x1000035c#32, mem, sent⟩ := by
    simp [hput, hbyte, S.sendReg, hstore, ready, sent]
  have hreturn : step P ⟨ready, 0x10000358#32, 0x1000035c#32, mem, sent⟩ =
      some ⟨ready, 0x1000035c#32, 0x10000648#32, mem, sent⟩ := by
    simp [hput, hra₁, ready]
  have hdelay : step P ⟨ready, 0x1000035c#32, 0x10000648#32, mem, sent⟩ =
      some ⟨ready, 0x10000648#32, 0x1000064c#32, mem, sent⟩ := by
    simp [hput]
  have hcall : step P ⟨ready, 0x10000648#32, 0x1000064c#32, mem, sent⟩ = some v := by
    simp [commandJ_listing hcode, hs0₁, ready, v]
  have hnot {x : State Uart} (hpc : x.pc ≠ 0x1000064c#32) : ¬ Calling s x := fun h => hpc h.1
  have hends : EndsAt (step P) (Calling s)
      ⟨ready, 0x10000354#32, 0x10000358#32, mem, { u with busy := 0 }⟩ v := by
    refine .head (hnot (by simp)) hsend (.head (hnot (by simp)) hreturn
      (.head (hnot (by simp)) hdelay (.head (hnot (by simp)) hcall (.here (Or.inl ⟨rfl, ?_⟩)))))
    simp [v, sent, htx]
  refine ⟨v, ⟨v.regs, a, a + 4#32, mem, sent⟩, .of_steps ((hs.trans hwait).trans hready) ?_ hends,
    ?_, rfl, rfl, by simp [sent, htx], rfl⟩
  · exact fun x hsx hxv hcalling => hcalling.2 (C.silent hsx hxv htx)
  · simp [commandJ_listing hcode, v]

theorem jump_runs (B : Board P) (hcode : Pieces P [(0x1000062c, commandJ)]) (C : Cumulative P)
    (hstack : Stack P sp 96) (address : ℤ) (s : State Uart) (hpc : s.pc = 0x10000fb4#32)
    (hnpc : s.npc = 0x10000fb8#32) (hsp : s.regs.get .sp = sp)
    (hinput : s.dev.input = Host.jump address ++ rest) :
    ∃ v t, EndsAt (step P) (Calling s) s v ∧ step P v = some t ∧ t.pc = 0x10000000#32 ∧
      t.npc = 0x10000004#32 ∧ t.dev.tx = s.dev.tx ++ [6#8] ∧ t.dev.input = rest := by
  have hletter : s.dev.input = 106#8 :: ([49, 48, 48, 48, 48, 48, 48, 48, 13] ++ rest) := hinput
  have htyped : getword [49, 48, 48, 48, 48, 48, 48, 48, 13] = some (0x10000000#32, []) := by decide
  have hnumber : getword ([49, 48, 48, 48, 48, 48, 48, 48, 13] ++ rest) =
      some (0x10000000#32, rest) :=
    getword_append htyped rest
  have hprompt : AtPrompt (Below sp 96) sp ⟨s.dev.input, s.mem, s.dev.tx⟩ s :=
    ⟨hpc, hnpc, hsp, rfl, rfl, Agree.refl _ _⟩
  obtain ⟨regs₁, mem₁, u₁, hfound, hsp₁, hinput₁, htx₁, -⟩ :=
    prompt_spec B hprompt (hstack.weaken (by omega)) (fun x hx => hx.weaken (by omega)) hletter
  obtain ⟨regs₂, mem₂, u₂, hreads, hs0, hra, ha0, hinput₂, htx₂⟩ :=
    commandJ_reads B hcode hstack (regs₁.set .ra 0x10001044#32) mem₁ u₁ (by simp [hsp₁])
      (hinput₁ ▸ hnumber)
  have henter := (call_j B.toHolds).enter regs₁ mem₁ u₁
  obtain ⟨v, t, hends, hstep, hpc', hnpc', htx, hconsumed⟩ :=
    commandJ_calls B C hcode regs₂ mem₂ u₂ ((hfound.trans henter).trans hreads) (htx₂.trans htx₁)
      hs0 hra ha0
  exact ⟨v, t, hends, hstep, hpc', hnpc', htx, hconsumed.trans hinput₂⟩

/-- The console goes where a jump request asks it to exactly when it asks for 0x10000000. -/
theorem jump_transfers (B : Board P) (hcode : Pieces P [(0x1000062c, commandJ)])
    (C : Cumulative P) (hstack : Stack P sp 96) (a : Addr) (s : State Uart)
    (hpc : s.pc = 0x10000fb4#32) (hnpc : s.npc = 0x10000fb8#32) (hsp : s.regs.get .sp = sp)
    (hinput : s.dev.input = Host.jump a.toNat ++ rest) :
    Transfers P a rest s ↔ a = 0x10000000#32 := by
  obtain ⟨v, t, hends, hstep, hpc', hnpc', htx, hconsumed⟩ :=
    jump_runs B hcode C hstack a.toNat s hpc hnpc hsp hinput
  constructor
  · rintro ⟨v', t', hends', hstep', ha, -⟩
    obtain rfl : v' = v := hends'.unique hends
    obtain rfl : t' = t := Option.some.inj (hstep'.symm.trans hstep)
    exact ha.symm.trans hpc'
  · rintro rfl
    exact ⟨v, t, hends, hstep, hpc', hnpc', htx, hconsumed⟩

def jumpBench : Platform Uart := benchWith [(0x1000062c, commandJ)]

theorem jumpBench_code : Pieces jumpBench [(0x1000062c, commandJ)] :=
  benchWith_pieces (by decide) (by decide)

theorem jumpBench_cumulative : Cumulative jumpBench :=
  ⟨bench_cumulative.load, bench_cumulative.store⟩

theorem jumpBench_stack : Stack jumpBench 0x01000f00#32 96 :=
  (benchWith_low (by decide)).stack (by decide)

theorem jump_transfers_start :
    Transfers jumpBench 0x10000000#32 [] (benchPrompt (fun _ => 0#8) (Host.jump 0x10000000)) ↔
      (0x10000000#32 : Addr) = 0x10000000#32 :=
  jump_transfers (benchWith_board (by decide)) jumpBench_code jumpBench_cumulative jumpBench_stack
    0x10000000#32 (benchPrompt (fun _ => 0#8) (Host.jump 0x10000000)) rfl rfl rfl (by decide)

theorem jump_transfers_elsewhere :
    ¬ Transfers jumpBench 0x20000000#32 []
      (benchPrompt (fun _ => 0#8) (Host.jump 0x20000000)) := by
  have hinput : (benchPrompt (fun _ => 0#8) (Host.jump 0x20000000)).dev.input =
      Host.jump 0x20000000 ++ [] := by decide
  obtain ⟨v, t, hends, hstep, hpc, -⟩ :=
    jump_runs (benchWith_board (by decide)) jumpBench_code jumpBench_cumulative jumpBench_stack
      0x20000000 (benchPrompt (fun _ => 0#8) (Host.jump 0x20000000)) rfl rfl rfl hinput
  rintro ⟨v', t', hends', hstep', ha, -⟩
  obtain rfl : v' = v := hends'.unique hends
  obtain rfl : t' = t := Option.some.inj (hstep'.symm.trans hstep)
  rw [hpc] at ha
  exact absurd ha (by decide)

end W2
