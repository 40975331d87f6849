import W2.Firmware.Getword
import W2.Console.Commands

/-!
# The store commands in machine code

`w` (0x100006d4) and `s` (0x10000660) share the shape of their loop and of their exit: the
loop reads a word and stores it, the exit acknowledges and returns. Both are proved once,
for the addresses at which the shape occurs. The exit is a run of the write-protected
platform: it sends the acknowledgement and stores nothing.
-/

namespace W2

open Mips Transition Miniboot Console

variable {P : Platform Uart}

structure StoreLoop (P : Platform Uart) (pc : Addr) : Prop where
  call : P.fetch pc = some (.jal 0x123)
  delay : P.fetch (pc + 4#32) = some .nop
  put : P.fetch (pc + 8#32) = some (.sw .v0 0 .s0)
  count : P.fetch (pc + 12#32) = some (.addiu .s1 .s1 1)
  back : P.fetch (pc + 16#32) = some (.bne .s2 .s1 (-5))
  next : P.fetch (pc + 20#32) = some (.addiu .s0 .s0 4)
  segment : jumpTarget pc 0x123 = 0x1000048c#32

theorem storeLoop_w (h : Holds P) : StoreLoop P 0x10000700#32 := by
  constructor <;> simp [commandW_listing h]

theorem storeLoop_s (h : Holds P) : StoreLoop P 0x1000069c#32 := by
  constructor <;> simp [commandS_listing h]

theorem storeLoop_round (B : Board P) {pc : Addr} (L : StoreLoop P pc) (regs : Regs) (mem : Mem)
    (u : Uart) {v : Word} {rest : List Byte} (hread : getword u.input = some (v, rest))
    (hsp : Stack P (regs.get .sp) 72) (hput : P.Plain (regs.get .s0)) {target : Addr}
    (htarget : target = if regs.get .s2 = regs.get .s1 + 1#32 then pc + 24#32 else pc) :
    ∃ regs' mem' u', Steps (step P) ⟨regs, pc, pc + 4#32, mem, u⟩
        ⟨regs', target, target + 4#32, mem', u'⟩ ∧
      regs'.get .s0 = regs.get .s0 + 4#32 ∧ regs'.get .s1 = regs.get .s1 + 1#32 ∧
      regs.KeepsBut [.s0, .s1, .ra] regs' ∧ u'.input = rest ∧ u'.tx = u.tx ∧
      Frame (regs.get .sp) 72 (mem.writeWord (regs.get .s0) v) mem' := by
  have hcall : Steps (step P) ⟨regs, pc, pc + 4#32, mem, u⟩
      ⟨regs.set .ra (pc + 8#32), 0x1000048c#32, 0x10000490#32, mem, u⟩ := by
    have hseg := L.segment
    simp only [jumpTarget, BitVec.ofNat_eq_ofNat] at hseg
    apply Steps.of_run (n := 2)
    simp [L.call, L.delay, hseg]
  obtain ⟨regs₁, mem₁, u₁, hget, hv0, hkeeps, hinput, htx, hframe⟩ :=
    getword_call B (pc + 8#32) (regs.get .sp) hcall (by simp) (by simp) hsp hread
  have hs0 : regs₁.get .s0 = regs.get .s0 := by simp [hkeeps.get]
  have hs1 : regs₁.get .s1 = regs.get .s1 := by simp [hkeeps.get]
  have hs2 : regs₁.get .s2 = regs.get .s2 := by simp [hkeeps.get]
  refine ⟨(regs₁.set .s1 (regs.get .s1 + 1#32)).set .s0 (regs.get .s0 + 4#32),
    mem₁.writeWord (regs.get .s0) v, u₁, hget.trans (Steps.of_run (n := 4) ?run),
    by simp, by simp, ?keeps, hinput, htx, ?frame⟩
  case run =>
    by_cases hexit : regs.get .s2 = regs.get .s1 + 1#32 <;>
      simp [BitVec.add_assoc, L.put, L.count, L.back, L.next, hs0, hs1, hs2, hv0, hput, htarget,
        hexit]
  case keeps => simp [Regs.keepsBut_iff, hkeeps.get]
  case frame => exact hframe.writeWord _ _

/-- The loop stores the words that arrive. The induction is on the rounds still to come: the
limit in `s2` is that many above the counter in `s1`. -/
theorem storeLoop_spec (B : Board P) {pc : Addr} (L : StoreLoop P pc) (k : ℕ) (regs : Regs)
    (mem : Mem) (u : Uart) {ws : List Word} {rest : List Byte} (hk : k + 1 < 4294967296)
    (hread : getwords (k + 1) u.input = some (ws, rest))
    (hcount : regs.get .s2 = regs.get .s1 + BitVec.ofNat 32 (k + 1))
    (hsp : Stack P (regs.get .sp) 72)
    (hput : ∀ j < k + 1, P.Plain (regs.get .s0 + BitVec.ofNat 32 (4 * j))) :
    ∃ regs' mem' u', Steps (step P) ⟨regs, pc, pc + 4#32, mem, u⟩
        ⟨regs', pc + 24#32, pc + 28#32, mem', u'⟩ ∧
      regs.KeepsBut [.s0, .s1, .ra] regs' ∧ u'.input = rest ∧ u'.tx = u.tx ∧
      Frame (regs.get .sp) 72 (mem.writeWords (regs.get .s0) ws) mem' := by
  induction k generalizing regs mem u ws with
  | zero =>
    obtain ⟨v, input₁, vs, hv, hnil, rfl⟩ := getwords_succ.mp hread
    obtain ⟨rfl, rfl⟩ : [] = vs ∧ input₁ = rest := by simpa [getwords] using hnil
    obtain ⟨regs', mem', u', hround, -, -, hkeeps, hinput, htx, hframe⟩ :=
      storeLoop_round B L regs mem u hv hsp (by simpa using hput 0 (by omega))
        (if_pos (by simpa using hcount)).symm
    exact ⟨regs', mem', u', by simpa [BitVec.add_assoc] using hround, hkeeps, hinput, htx, hframe⟩
  | succ k ih =>
    obtain ⟨v, input₁, vs, hv, hvs, rfl⟩ := getwords_succ.mp hread
    have hmore : regs.get .s2 ≠ regs.get .s1 + 1#32 := by
      rw [hcount]
      bv_omega
    obtain ⟨regs₁, mem₁, u₁, hround, hs0, hs1, hkeeps, hinput, htx, hframe⟩ :=
      storeLoop_round B L regs mem u hv hsp (by simpa using hput 0 (by omega))
        (if_neg hmore).symm
    have hsp₁ : regs₁.get .sp = regs.get .sp := hkeeps.get (by simp) (by simp)
    have hs2 : regs₁.get .s2 = regs.get .s2 := hkeeps.get (by simp) (by simp)
    obtain ⟨regs₂, mem₂, u₂, hloop, hkeeps₂, hinput₂, htx₂, hframe₂⟩ :=
      ih regs₁ mem₁ u₁ (by omega) (hinput ▸ hvs) (by rw [hs2, hs1, hcount]; bv_omega)
        (hsp₁ ▸ hsp) (by
          intro j hj
          have := hput (j + 1) (by omega)
          rwa [hs0, show regs.get .s0 + 4#32 + BitVec.ofNat 32 (4 * j) =
            regs.get .s0 + BitVec.ofNat 32 (4 * (j + 1)) by bv_omega])
    refine ⟨regs₂, mem₂, u₂, hround.trans hloop, hkeeps.trans hkeeps₂, hinput₂,
      htx₂.trans htx, ?_⟩
    rw [hsp₁, hs0] at hframe₂
    exact (Agree.writeWords hframe _ _).trans hframe₂

theorem storeLoop_words (B : Board P) {pc : Addr} (L : StoreLoop P pc) {hidden : Addr → Prop}
    (regs : Regs) (mem : Mem) (u : Uart) {n : Word} {words : List Word} {rest : List Byte}
    (hread : getwords n.toNat u.input = some (words, rest)) (hs1 : n ≠ 0#32 → regs.get .s1 = 0#32)
    (hs2 : regs.get .s2 = n) (hsp : Stack P (regs.get .sp) 72)
    (hspan : Span P hidden (regs.get .s0) words.length) {head : Addr}
    (hhead : head = if n = 0#32 then pc + 24#32 else pc) :
    ∃ regs' mem' u', Steps (step P) ⟨regs, head, head + 4#32, mem, u⟩
        ⟨regs', pc + 24#32, pc + 28#32, mem', u'⟩ ∧
      regs.KeepsBut [.s0, .s1, .ra] regs' ∧ u'.input = rest ∧ u'.tx = u.tx ∧
      Frame (regs.get .sp) 72 (mem.writeWords (regs.get .s0) words) mem' := by
  have hlen := getwords_length hread
  by_cases hn : n = 0#32
  · subst hn
    obtain ⟨rfl, rfl⟩ : [] = words ∧ u.input = rest := by simpa [getwords] using hread
    refine ⟨regs, mem, u, ?_, fun _ _ _ => rfl, rfl, rfl, Agree.refl _ mem⟩
    simpa [hhead, BitVec.add_assoc] using Steps.refl _
  · obtain ⟨k, hk⟩ : ∃ k, n.toNat = k + 1 := ⟨n.toNat - 1, by bv_omega⟩
    rw [hk] at hread hlen
    rw [hhead, if_neg hn]
    refine storeLoop_spec B L k regs mem u (by omega) hread ?_ hsp fun j hj => ?_
    · rw [hs1 hn, hs2, ← hk]
      simp
    · exact hspan.word (by omega)

abbrev storeSlots : Slots :=
  [(0xfffffffc#32, .ra), (0xfffffff8#32, .s2), (0xfffffff4#32, .s1), (0xfffffff0#32, .s0)]

structure AckExit (P : Platform Uart) (pc : Addr) : Prop where
  send : P.fetch pc = some (.jal 0xcc)
  ack : P.fetch (pc + 4#32) = some (.addiu .a0 .zero 6)
  ra : P.fetch (pc + 8#32) = some (.lw .ra 28 .sp)
  s2 : P.fetch (pc + 12#32) = some (.lw .s2 24 .sp)
  s1 : P.fetch (pc + 16#32) = some (.lw .s1 20 .sp)
  s0 : P.fetch (pc + 20#32) = some (.lw .s0 16 .sp)
  ret : P.fetch (pc + 24#32) = some (.jr .ra)
  leave : P.fetch (pc + 28#32) = some (.addiu .sp .sp 32)
  segment : jumpTarget pc 0xcc = 0x10000330#32

theorem ackExit_w (h : Holds P) : AckExit P 0x10000718#32 := by
  constructor <;> simp [commandW_listing h]

theorem ackExit_s (h : Holds P) : AckExit P 0x100006b4#32 := by
  constructor <;> simp [commandS_listing h]

theorem ackExit_spec (B : Board P) {pc sp : Addr} (E : AckExit P pc) (caller regs : Regs)
    (mem : Mem) (u : Uart) (hsp : Stack P sp 32) (hregs : regs.get .sp = sp + 0xffffffe0#32)
    (hkeeps : caller.KeepsBut [.s0, .s1, .s2, .sp, .ra] regs) (hcaller : caller.get .sp = sp)
    (hsaved : Saved storeSlots mem sp caller) :
    ∃ regs' n, Steps (step P.protect) ⟨regs, pc, pc + 4#32, mem, u⟩
        ⟨regs', caller.get .ra, caller.get .ra + 4#32, mem, u.sent n [6#8]⟩ ∧
      caller.Keeps regs' := by
  have hfetch (a : Addr) : P.protect.fetch a = P.fetch a := rfl
  have hload (c : Word) (hc : c.toNat % 4 = 0) (hn : 4294967296 ≤ c.toNat + 32) :
      P.protect.RamWord (sp + c) := hsp.ramWord hc hn
  let entry := (regs.set .ra (pc + 8#32)).set .a0 6#32
  have hcall : Steps (step P.protect) ⟨regs, pc, pc + 4#32, mem, u⟩
      ⟨entry, 0x10000330#32, 0x10000334#32, mem, u⟩ := by
    have hseg := E.segment
    simp only [jumpTarget, BitVec.ofNat_eq_ofNat] at hseg
    apply Steps.of_run (n := 2)
    simp [hfetch, E.send, E.ack, hseg, entry]
  obtain ⟨regs₁, n, hput, hkeeps₁⟩ := putchar_spec B.protect entry mem u
  rw [show entry.get .ra = pc + 8#32 by simp [entry],
    show (entry.get .a0).setWidth 8 = 6#8 by simp [entry]] at hput
  have hsp₁ : regs₁.get .sp = sp + 0xffffffe0#32 := by simp [hkeeps₁.get, entry, hregs]
  refine ⟨?exit, n, (hcall.trans hput).trans (Steps.of_run (n := 6) ?run), ?keeps⟩
  case run =>
    simp [Saved] at hsaved
    simp [hfetch, BitVec.add_assoc, E.ra, E.s2, E.s1, E.s0, E.ret, E.leave, hsp₁, hload, hsaved]
    rfl
  case keeps =>
    simp [Regs.keeps_iff, hkeeps₁.get, hkeeps.get, entry, hcaller]

/-- What the exit of a store command finds: the words stored, the caller's registers saved or
untouched, nothing sent yet. -/
structure Stored (regs : Regs) (mem : Mem) (u : Uart) (addr : Addr) (words : List Word)
    (rest : List Byte) (regs' : Regs) (mem' : Mem) (u' : Uart) : Prop where
  sp : regs'.get .sp = regs.get .sp + 0xffffffe0#32
  keeps : regs.KeepsBut [.s0, .s1, .s2, .sp, .ra] regs'
  saved : Saved storeSlots mem' (regs.get .sp) regs
  input : u'.input = rest
  tx : u'.tx = u.tx
  mem : Frame (regs.get .sp) 104 (mem.writeWords addr words) mem'

theorem store_entry_frame {sp : Addr} {regs : Regs} {mem mem₁ : Mem}
    (hcalls : Frame (sp + 0xffffffe0#32) 72 (save mem sp regs storeSlots) mem₁) :
    Frame sp 104 mem mem₁ :=
  ((save_frame (n := 32) (by decide) mem sp regs).mono fun _ hx => hx.weaken (by omega)).trans
    (hcalls.caller (by decide))

theorem Stored.of_loop {hidden : Addr → Prop} {sp addr : Addr} {regs regs₁ regs' : Regs}
    {mem mem₁ mem' : Mem} {u u' : Uart} {words : List Word} {rest : List Byte}
    (hsp : regs.get .sp = sp)
    (hcalls : Frame (sp + 0xffffffe0#32) 72 (save mem sp regs storeSlots) mem₁)
    (hkeeps : regs.KeepsBut [.s0, .s1, .s2, .sp, .ra] regs₁)
    (hsp₁ : regs₁.get .sp = sp + 0xffffffe0#32) (hspan : Span P hidden addr words.length)
    (hhide : ∀ x, Below sp 104 x → hidden x) (hloop : regs₁.KeepsBut [.s0, .s1, .ra] regs')
    (hframe : Frame (sp + 0xffffffe0#32) 72 (mem₁.writeWords addr words) mem')
    (hinput : u'.input = rest) (htx : u'.tx = u.tx) :
    Stored regs mem u addr words rest regs' mem' u' := by
  constructor
  case sp => simp [hloop.get, hsp₁, hsp]
  case keeps => simp [Regs.keepsBut_iff, hloop.get, hkeeps.get]
  case saved =>
    have hsaved : Saved storeSlots (save mem sp regs storeSlots) sp regs := by simp [Saved, save]
    have hread := hsaved.frame (by decide) hcalls (by decide)
    have hwords := hread.agree (n := 32) (by decide) fun x hx =>
      Mem.writeWords_outside mem₁ addr words fun hin =>
        (hspan.plain x hin).2.2 (hhide x (hx.weaken (by omega)))
    exact hsp ▸ hwords.frame (by decide) hframe (by decide)
  case input => exact hinput
  case tx => exact htx
  case mem =>
    exact hsp ▸ ((store_entry_frame hcalls).writeWords _ _).trans (hframe.caller (by decide))

theorem commandW_numbers (B : Board P) (regs : Regs) (mem : Mem) (u : Uart) {addr n : Word}
    {input₁ input₂ : List Byte} (haddr : getword u.input = some (addr, input₁))
    (hn : getword input₁ = some (n, input₂)) {sp : Addr} (hsp₀ : regs.get .sp = sp)
    (hsp : Stack P sp 104) :
    ∃ third mem₂ u₂, Steps (step P) ⟨regs, 0x100006d4#32, 0x100006d8#32, mem, u⟩
        ⟨third, if n = 0#32 then 0x10000718#32 else 0x10000700#32,
          (if n = 0#32 then 0x10000718#32 else 0x10000700#32) + 4#32, mem₂, u₂⟩ ∧
      third.get .s0 = addr ∧ (n ≠ 0#32 → third.get .s1 = 0#32) ∧ third.get .s2 = n ∧
      third.get .sp = sp + 0xffffffe0#32 ∧ regs.KeepsBut [.s0, .s1, .s2, .sp, .ra] third ∧
      u₂.input = input₂ ∧ u₂.tx = u.tx ∧
      Frame (sp + 0xffffffe0#32) 72 (save mem sp regs storeSlots) mem₂ := by
  have hcallee : Stack P (sp + 0xffffffe0#32) 72 := hsp.callee (by decide) (by decide)
  let entry := (regs.set .sp (sp + 0xffffffe0#32)).set .ra 0x100006ec#32
  have hentry : Steps (step P) ⟨regs, 0x100006d4#32, 0x100006d8#32, mem, u⟩
      ⟨entry, 0x1000048c#32, 0x10000490#32, save mem sp regs storeSlots, u⟩ := by
    apply Steps.of_run (n := 6)
    simp [commandW_listing B.toHolds, BitVec.add_assoc, hsp₀, hsp.plain, entry, save]
  obtain ⟨regs₁, mem₁, u₁, hget₁, hv₁, hkeeps₁, hinput₁, htx₁, hframe₁⟩ :=
    getword_call B 0x100006ec#32 _ hentry (by simp [entry]) (by simp [entry]) hcallee haddr
  let second := (regs₁.set .ra 0x100006f4#32).set .s0 addr
  have hsecond : Steps (step P) ⟨regs₁, 0x100006ec#32, 0x100006f0#32, mem₁, u₁⟩
      ⟨second, 0x1000048c#32, 0x10000490#32, mem₁, u₁⟩ := by
    apply Steps.of_run (n := 2)
    simp [commandW_listing B.toHolds, hv₁, second]
  obtain ⟨regs₂, mem₂, u₂, hget₂, hv₂, hkeeps₂, hinput₂, htx₂, hframe₂⟩ :=
    getword_call B 0x100006f4#32 _ (hget₁.trans hsecond) (by simp [second])
      (by simp [second, hkeeps₁.get, entry]) hcallee (hinput₁ ▸ hn)
  have hs0 : regs₂.get .s0 = addr := by simp [hkeeps₂.get, second]
  have hsp₂ : regs₂.get .sp = sp + 0xffffffe0#32 := by
    simp [hkeeps₂.get, second, hkeeps₁.get, entry]
  have hkeeps : regs.KeepsBut [.s0, .s1, .s2, .sp, .ra] regs₂ := by
    simp [Regs.keepsBut_iff, hkeeps₂.get, second, hkeeps₁.get, entry]
  have htx : u₂.tx = u.tx := htx₂.trans htx₁
  have hframe := hframe₁.trans hframe₂
  by_cases hzero : n = 0#32
  · refine ⟨regs₂.set .s2 n, mem₂, u₂, hget₂.trans (Steps.of_run (n := 2) ?_), ?_, ?_, ?_, ?_, ?_,
      hinput₂, htx, hframe⟩
    · simp [commandW_listing B.toHolds, hv₂, hzero]
    · simp [hs0]
    · simp [hzero]
    · simp
    · simp [hsp₂]
    · simp [Regs.keepsBut_iff, hkeeps.get]
  · refine ⟨(regs₂.set .s2 n).set .s1 0#32, mem₂, u₂, hget₂.trans (Steps.of_run (n := 3) ?_), ?_,
      ?_, ?_, ?_, ?_, hinput₂, htx, hframe⟩
    · simp [commandW_listing B.toHolds, hv₂, hzero]
    · simp [hs0]
    · simp
    · simp
    · simp [hsp₂]
    · simp [Regs.keepsBut_iff, hkeeps.get]

theorem commandW_store (B : Board P) {hidden : Addr → Prop} (regs : Regs) (mem : Mem) (u : Uart)
    {addr : Addr} {words : List Word} {rest : List Byte}
    (hread : commandW u.input = some (.w addr words, rest)) (hsp : Stack P (regs.get .sp) 104)
    (hspan : Span P hidden addr words.length) (hhide : ∀ x, Below (regs.get .sp) 104 x → hidden x) :
    ∃ regs' mem' u', Steps (step P) ⟨regs, 0x100006d4#32, 0x100006d8#32, mem, u⟩
        ⟨regs', 0x10000718#32, 0x1000071c#32, mem', u'⟩ ∧
      Stored regs mem u addr words rest regs' mem' u' := by
  obtain ⟨_, input₁, n, input₂, _, haddr, hn, hwords, hc⟩ := commandW_eq hread
  obtain ⟨rfl, rfl⟩ : addr = _ ∧ words = _ := by simpa using hc
  generalize hsp₀ : regs.get .sp = sp at *
  have hcallee : Stack P (sp + 0xffffffe0#32) 72 := hsp.callee (by decide) (by decide)
  obtain ⟨third, mem₂, u₂, hhead, hs0, hs1, hs2, hsp₃, hkeeps₃, hinput₂, htx₂, hframe₂⟩ :=
    commandW_numbers B regs mem u haddr hn hsp₀ hsp
  obtain ⟨regs₄, mem₄, u₄, hloop, hkeeps₄, hinput₄, htx₄, hframe₄⟩ :=
    storeLoop_words B (storeLoop_w B.toHolds) third mem₂ u₂ (hinput₂ ▸ hwords) hs1 hs2
      (hsp₃ ▸ hcallee) (hs0 ▸ hspan) rfl
  rw [hs0, hsp₃] at hframe₄
  exact ⟨regs₄, mem₄, u₄, hhead.trans hloop,
    Stored.of_loop hsp₀ hframe₂ hkeeps₃ hsp₃ hspan hhide hkeeps₄ hframe₄ hinput₄
      (htx₄.trans htx₂)⟩

/-- Command `s` as far as its numbers. The pointer is loaded after the count has been read and
before the first store. -/
theorem commandS_numbers (B : Board P) {hidden : Addr → Prop} (regs : Regs) (mem : Mem) (u : Uart)
    {ptr off n : Word} {input₁ input₂ input₃ : List Byte}
    (hptr' : getword u.input = some (ptr, input₁)) (hoff : getword input₁ = some (off, input₂))
    (hn : getword input₂ = some (n, input₃)) {sp : Addr} (hsp₀ : regs.get .sp = sp)
    (hsp : Stack P sp 104) (hptr : Span P hidden ptr 1)
    (hhide : ∀ x, Below sp 104 x → hidden x) :
    ∃ fourth mem₃ u₃, Steps (step P) ⟨regs, 0x10000660#32, 0x10000664#32, mem, u⟩
        ⟨fourth, if n = 0#32 then 0x100006b4#32 else 0x1000069c#32,
          (if n = 0#32 then 0x100006b4#32 else 0x1000069c#32) + 4#32, mem₃, u₃⟩ ∧
      fourth.get .s0 = off + mem.readWord ptr ∧ (n ≠ 0#32 → fourth.get .s1 = 0#32) ∧
      fourth.get .s2 = n ∧ fourth.get .sp = sp + 0xffffffe0#32 ∧
      regs.KeepsBut [.s0, .s1, .s2, .sp, .ra] fourth ∧ u₃.input = input₃ ∧ u₃.tx = u.tx ∧
      Frame (sp + 0xffffffe0#32) 72 (save mem sp regs storeSlots) mem₃ := by
  have hcallee : Stack P (sp + 0xffffffe0#32) 72 := hsp.callee (by decide) (by decide)
  let entry := (regs.set .sp (sp + 0xffffffe0#32)).set .ra 0x10000678#32
  have hentry : Steps (step P) ⟨regs, 0x10000660#32, 0x10000664#32, mem, u⟩
      ⟨entry, 0x1000048c#32, 0x10000490#32, save mem sp regs storeSlots, u⟩ := by
    apply Steps.of_run (n := 6)
    simp [commandS_listing B.toHolds, BitVec.add_assoc, hsp₀, hsp.plain, entry, save]
  obtain ⟨regs₁, mem₁, u₁, hget₁, hv₁, hkeeps₁, hinput₁, htx₁, hframe₁⟩ :=
    getword_call B 0x10000678#32 _ hentry (by simp [entry]) (by simp [entry]) hcallee hptr'
  let second := (regs₁.set .ra 0x10000680#32).set .s0 ptr
  have hsecond : Steps (step P) ⟨regs₁, 0x10000678#32, 0x1000067c#32, mem₁, u₁⟩
      ⟨second, 0x1000048c#32, 0x10000490#32, mem₁, u₁⟩ := by
    apply Steps.of_run (n := 2)
    simp [commandS_listing B.toHolds, hv₁, second]
  obtain ⟨regs₂, mem₂, u₂, hget₂, hv₂, hkeeps₂, hinput₂, htx₂, hframe₂⟩ :=
    getword_call B 0x10000680#32 _ (hget₁.trans hsecond) (by simp [second])
      (by simp [second, hkeeps₁.get, entry]) hcallee (hinput₁ ▸ hoff)
  let third := (regs₂.set .ra 0x10000688#32).set .s1 off
  have hthird : Steps (step P) ⟨regs₂, 0x10000680#32, 0x10000684#32, mem₂, u₂⟩
      ⟨third, 0x1000048c#32, 0x10000490#32, mem₂, u₂⟩ := by
    apply Steps.of_run (n := 2)
    simp [commandS_listing B.toHolds, hv₂, third]
  obtain ⟨regs₃, mem₃, u₃, hget₃, hv₃, hkeeps₃, hinput₃, htx₃, hframe₃⟩ :=
    getword_call B 0x10000688#32 _ (hget₂.trans hthird) (by simp [third])
      (by simp [third, hkeeps₂.get, second, hkeeps₁.get, entry]) hcallee (hinput₂ ▸ hn)
  have hcalls := (hframe₁.trans hframe₂).trans hframe₃
  have hload : mem₃.readWord ptr = mem.readWord ptr :=
    ((store_entry_frame hcalls).mono hhide).readWord fun i hi =>
      (hptr.plain _ (by unfold InRange; bv_omega)).2.2
  have hptrRam : P.RamWord ptr := by simpa using (hptr.word (j := 0) (by omega)).1
  have hs0 : regs₃.get .s0 = ptr := by simp [hkeeps₃.get, third, hkeeps₂.get, second]
  have hs1 : regs₃.get .s1 = off := by simp [hkeeps₃.get, third]
  have hsp₃ : regs₃.get .sp = sp + 0xffffffe0#32 := by
    simp [hkeeps₃.get, third, hkeeps₂.get, second, hkeeps₁.get, entry]
  have hkeeps : regs.KeepsBut [.s0, .s1, .s2, .sp, .ra] regs₃ := by
    simp [Regs.keepsBut_iff, hkeeps₃.get, third, hkeeps₂.get, second, hkeeps₁.get, entry]
  have htx : u₃.tx = u.tx := by rw [htx₃, htx₂, htx₁]
  have htest : ∃ fourth, Steps (step P) ⟨regs₃, 0x10000688#32, 0x1000068c#32, mem₃, u₃⟩
      ⟨fourth, if n = 0#32 then 0x100006b4#32 else 0x1000069c#32,
        (if n = 0#32 then 0x100006b4#32 else 0x1000069c#32) + 4#32, mem₃, u₃⟩ ∧
      fourth.get .s0 = off + mem.readWord ptr ∧ (n ≠ 0#32 → fourth.get .s1 = 0#32) ∧
      fourth.get .s2 = n ∧ fourth.get .sp = sp + 0xffffffe0#32 ∧
      regs.KeepsBut [.s0, .s1, .s2, .sp, .ra] fourth := by
    by_cases hzero : n = 0#32
    · refine ⟨?stop, Steps.of_run (n := 4) ?run, ?post⟩
      case run =>
        simp [commandS_listing B.toHolds, hv₃, hzero, hs0, hs1, hptrRam, hload]
        rfl
      case post => simp [hsp₃, Regs.keepsBut_iff, hkeeps.get, hzero]
    · refine ⟨?go, Steps.of_run (n := 5) ?run', ?post'⟩
      case run' =>
        simp [commandS_listing B.toHolds, hv₃, hzero, hs0, hs1, hptrRam, hload]
        rfl
      case post' => simp [hsp₃, Regs.keepsBut_iff, hkeeps.get]
  obtain ⟨fourth, htest, hs0', hs1', hs2', hsp₄, hkeeps₄⟩ := htest
  exact ⟨fourth, mem₃, u₃, hget₃.trans htest, hs0', hs1', hs2', hsp₄, hkeeps₄, hinput₃, htx,
    hcalls⟩

theorem commandS_store (B : Board P) {hidden : Addr → Prop} (regs : Regs) (mem : Mem) (u : Uart)
    {ptr off : Addr} {words : List Word} {rest : List Byte}
    (hread : commandS u.input = some (.s ptr off words, rest)) (hsp : Stack P (regs.get .sp) 104)
    (hptr : Span P hidden ptr 1)
    (hspan : Span P hidden (off + mem.readWord ptr) words.length)
    (hhide : ∀ x, Below (regs.get .sp) 104 x → hidden x) :
    ∃ regs' mem' u', Steps (step P) ⟨regs, 0x10000660#32, 0x10000664#32, mem, u⟩
        ⟨regs', 0x100006b4#32, 0x100006b8#32, mem', u'⟩ ∧
      Stored regs mem u (off + mem.readWord ptr) words rest regs' mem' u' := by
  obtain ⟨_, input₁, _, input₂, n, input₃, _, hptr', hoff, hn, hwords, hc⟩ := commandS_eq hread
  obtain ⟨rfl, rfl, rfl⟩ : ptr = _ ∧ off = _ ∧ words = _ := by simpa using hc
  generalize hsp₀ : regs.get .sp = sp at *
  have hcallee : Stack P (sp + 0xffffffe0#32) 72 := hsp.callee (by decide) (by decide)
  obtain ⟨fourth, mem₃, u₃, hhead, hs0, hs1, hs2, hsp₄, hkeeps₄, hinput₃, htx₃, hcalls⟩ :=
    commandS_numbers B regs mem u hptr' hoff hn hsp₀ hsp hptr hhide
  obtain ⟨regs₅, mem₅, u₅, hloop, hkeeps₅, hinput₅, htx₅, hframe₅⟩ :=
    storeLoop_words B (storeLoop_s B.toHolds) fourth mem₃ u₃ (hinput₃ ▸ hwords) hs1 hs2
      (hsp₄ ▸ hcallee) (hs0 ▸ hspan) rfl
  rw [hs0, hsp₄] at hframe₅
  exact ⟨regs₅, mem₅, u₅, hhead.trans hloop,
    Stored.of_loop hsp₀ hcalls hkeeps₄ hsp₄ hspan hhide hkeeps₅ hframe₅ hinput₅
      (htx₅.trans htx₃)⟩

end W2
