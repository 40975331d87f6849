import W2.Firmware.Dispatch

/-!
# A word written to a device register

The `w` of a single word to an address that belongs to a device: the loop makes one store, which the
device takes, and no word of the memory changes but those of the stack.
-/

namespace W2

open Mips Transition Miniboot Console

variable {P : Platform Uart} {hidden : Addr → Prop} {sp a : Addr} {v : Word}

/-- The device at the address takes the word, and the serial port does not notice. -/
structure Takes (P : Platform Uart) (a : Addr) (v : Word) : Prop where
  device : P.device a = true
  store : ∀ u, P.store u a v = some u

theorem storeLoop_register (B : Board P) {pc : Addr} (L : StoreLoop P pc) (regs : Regs) (mem : Mem)
    (u : Uart) {rest : List Byte} (hread : getword u.input = some (v, rest))
    (hsp : Stack P (regs.get .sp) 72) (htakes : Takes P (regs.get .s0) v)
    (hlast : regs.get .s2 = regs.get .s1 + 1#32) :
    ∃ regs' mem' u', Steps (step P) ⟨regs, pc, pc + 4#32, mem, u⟩
        ⟨regs', pc + 24#32, pc + 28#32, mem', u'⟩ ∧
      regs.KeepsBut [.s0, .s1, .ra] regs' ∧ u'.input = rest ∧ u'.tx = u.tx ∧
      Frame (regs.get .sp) 72 mem mem' := by
  have hcall : Steps (step P) ⟨regs, pc, pc + 4#32, mem, u⟩
      ⟨regs.set .ra (pc + 8#32), 0x1000048c#32, 0x10000490#32, mem, u⟩ := by
    have hseg := L.segment
    simp only [jumpTarget, BitVec.ofNat_eq_ofNat] at hseg
    apply Steps.of_run (n := 2)
    simp [L.call, L.delay, hseg]
  obtain ⟨regs₁, mem₁, u₁, hget, hv0, hkeeps, hinput, htx, hframe⟩ :=
    getword_call B (pc + 8#32) (regs.get .sp) hcall (by simp) (by simp) hsp hread
  have hs0 : regs₁.get .s0 = regs.get .s0 := by simp [hkeeps.get]
  have hs1 : regs₁.get .s1 = regs.get .s1 := by simp [hkeeps.get]
  have hs2 : regs₁.get .s2 = regs.get .s2 := by simp [hkeeps.get]
  refine ⟨(regs₁.set .s1 (regs.get .s1 + 1#32)).set .s0 (regs.get .s0 + 4#32), mem₁, u₁,
    hget.trans (Steps.of_run (n := 4) ?run), ?keeps, hinput, htx, hframe⟩
  case run =>
    simp [BitVec.add_assoc, L.put, L.count, L.back, L.next, hs0, hs1, hs2, hv0, hlast,
      htakes.device, htakes.store]
  case keeps => simp [Regs.keepsBut_iff, hkeeps.get]

theorem oneWord_numbers {input rest : List Byte}
    (h : getwords 3 input = some ([a, 1#32, v], rest)) : ∃ input₁ input₂,
      getword input = some (a, input₁) ∧ getword input₁ = some (1#32, input₂) ∧
        getword input₂ = some (v, rest) := by
  obtain ⟨_, input₁, _, haddr, h₁, heq⟩ := getwords_succ.mp h
  obtain ⟨rfl, rfl⟩ := List.cons.inj heq
  obtain ⟨_, input₂, _, hn, h₂, heq⟩ := getwords_succ.mp h₁
  obtain ⟨rfl, rfl⟩ := List.cons.inj heq
  obtain ⟨_, input₃, _, hv, h₃, heq⟩ := getwords_succ.mp h₂
  obtain ⟨rfl, rfl⟩ := List.cons.inj heq
  obtain rfl : input₃ = rest := by simpa [getwords] using h₃
  exact ⟨input₁, input₂, haddr, hn, hv⟩

theorem commandW_one {input rest : List Byte}
    (h : getwords 3 input = some ([a, 1#32, v], rest)) :
    Console.commandW input = some (.w a [v], rest) := by
  obtain ⟨input₁, input₂, haddr, hn, hv⟩ := oneWord_numbers h
  simp [Console.commandW, haddr, hn, hv, getwords]

theorem commandW_register (B : Board P) (regs : Regs) (mem : Mem) (u : Uart) {rest : List Byte}
    (hread : getwords 3 u.input = some ([a, 1#32, v], rest)) (hsp : Stack P (regs.get .sp) 104)
    (htakes : Takes P a v) :
    ∃ regs' mem' u', Steps (step P) ⟨regs, 0x100006d4#32, 0x100006d8#32, mem, u⟩
        ⟨regs', 0x10000718#32, 0x1000071c#32, mem', u'⟩ ∧
      Stored regs mem u 0#32 [] rest regs' mem' u' := by
  obtain ⟨input₁, input₂, haddr, hn, hv⟩ := oneWord_numbers hread
  generalize hsp₀ : regs.get .sp = sp at *
  have hcallee : Stack P (sp + 0xffffffe0#32) 72 := hsp.callee (by decide) (by decide)
  obtain ⟨third, mem₂, u₂, hhead, hs0, hs1, hs2, hsp₃, hkeeps₃, hinput₂, htx₂, hframe₂⟩ :=
    commandW_numbers B regs mem u haddr hn hsp₀ hsp
  obtain ⟨regs₄, mem₄, u₄, hloop, hkeeps₄, hinput₄, htx₄, hframe₄⟩ :=
    storeLoop_register B (storeLoop_w B.toHolds) third mem₂ u₂ (hinput₂ ▸ hv) (hsp₃ ▸ hcallee)
      (hs0 ▸ htakes) (by rw [hs2, hs1 (by decide)]; rfl)
  rw [hsp₃] at hframe₄
  have hspan : Span P (Below sp 104) 0#32 ([] : List Word).length :=
    ⟨by decide, by decide, fun x hx => by simp [InRange] at hx⟩
  exact ⟨regs₄, mem₄, u₄, hhead.trans hloop,
    Stored.of_loop hsp₀ hframe₂ hkeeps₃ hsp₃ hspan (fun _ => id) hkeeps₄ hframe₄ hinput₄
      (htx₄.trans htx₂)⟩

theorem prompt_register (B : Board P) {c : Session} {s : State Uart} (hs : AtPrompt hidden sp c s)
    (hsp : Stack P sp 104) (hhide : ∀ x, Below sp 104 x → hidden x) {input rest : List Byte}
    (hinput : c.input = 119#8 :: input) (hread : getwords 3 input = some ([a, 1#32, v], rest))
    (htakes : Takes P a v) :
    ∃ t s', Steps (step P) s t ∧ t.dev.tx = c.output ∧ Agree hidden c.mem t.mem ∧
      Steps (step P.protect) t s' ∧ AtPrompt hidden sp ⟨rest, c.mem, c.output ++ [6#8]⟩ s' := by
  obtain ⟨regs₁, mem₁, u₁, hprompt, hsp₁, hin₁, htx₁, hmem₁⟩ :=
    prompt_spec B hs (hsp.weaken (by omega))
      (fun x hx => hhide x (hx.weaken (by omega))) hinput
  obtain ⟨regs₂, mem₂, u₂, hstore, hstored⟩ :=
    commandW_register B (regs₁.set .ra 0x10000ff4#32) mem₁ u₁ (hin₁ ▸ hread)
      (by simpa [hsp₁] using hsp) htakes
  obtain ⟨hagree, s', hack, hprompt'⟩ :=
    acknowledge_prompt B (.w 0#32 []) (call_w B.protect.toHolds) (ackExit_w B.toHolds) hstored
      hsp₁ hsp hhide hmem₁ htx₁ rfl rfl
  exact ⟨_, s', (hprompt.trans ((call_w B.toHolds).enter regs₁ mem₁ u₁)).trans hstore,
    hstored.tx.trans htx₁, hagree, hack, hprompt'⟩

end W2
