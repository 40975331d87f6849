import W2.Firmware.Write
import W2.Firmware.Read

/-!
# The dispatch loop in machine code

The loop at 0x10000fb4 takes one byte, finds the handler in a jump table of 38 entries for the
letters from `R` on, calls it and returns to the prompt. `AtPrompt` relates the machine at its
prompt to a session of the console on byte lists; every round of that console whose memory
accesses are allowed is a run of the machine from prompt to prompt.
-/

namespace W2

open Mips Transition Miniboot Console

variable {P : Platform Uart}

/-- The machine waits at its prompt, with the session's input to come, its output sent, and its
memory outside the hidden addresses. -/
structure AtPrompt (hidden : Addr → Prop) (sp : Addr) (c : Session) (s : State Uart) : Prop where
  pc : s.pc = 0x10000fb4#32
  npc : s.npc = 0x10000fb8#32
  sp : s.regs.get .sp = sp
  input : s.dev.input = c.input
  output : s.dev.tx = c.output
  mem : Agree hidden c.mem s.mem

structure Safe (P : Platform Uart) (hidden : Addr → Prop) (m : Mem) (c : Command) : Prop where
  pointer : ∀ ptr, c.pointer = some ptr → Span P hidden ptr 1
  span : Span P hidden (c.target m) c.count

theorem Safe.direct {P : Platform Uart} {hidden : Addr → Prop} {m : Mem} {c : Command}
    (hpointer : c.pointer = none) (hspan : Span P hidden (c.target m) c.count) :
    Safe P hidden m c :=
  ⟨fun ptr hptr => by simp [hpointer] at hptr, hspan⟩

def handler (b : Byte) : Addr :=
  if (b - 82#8).toNat < 38 then commandTable.getD (b - 82#8).toNat 0#32 else 0x10000fb4#32

theorem commandTable_code {k : ℕ} (hk : k < 38) :
    code (0x10001928#32 + BitVec.ofNat 32 (4 * k)) = some (commandTable.getD k 0#32) := by
  interval_cases k <;> rfl

theorem commandTable_other {k : ℕ} (hk : k < 38)
    (h : k ∉ [0, 18, 23, 24, 26, 32, 33, 37]) : commandTable.getD k 0#32 = 0x10000fb4#32 := by
  interval_cases k <;> first | rfl | simp at h

theorem handler_other {b : Byte} (hw : b ≠ 119#8) (hs : b ≠ 115#8) (hr : b ≠ 114#8)
    (hl : b ≠ 108#8) (ho : ¬ Other b) : handler b = 0x10000fb4#32 := by
  unfold handler
  split
  next hk =>
    refine commandTable_other hk fun hmem => ?_
    simp only [Other, not_or] at ho
    simp only [List.mem_cons, List.not_mem_nil, or_false] at hmem
    bv_omega
  next => rfl

theorem prompt_branch (B : Board P) (regs : Regs) (mem : Mem) (u : Uart) (b : Byte)
    (hv0 : regs.get .v0 = b.setWidth 32) :
    ∃ regs', Steps (step P) ⟨regs, 0x10000fbc#32, 0x10000fc0#32, mem, u⟩
        ⟨regs', handler b, handler b + 4#32, mem, u⟩ ∧ regs.Keeps regs' := by
  have hrange := range_test b 82#8 38#32
  simp only [BitVec.reduceNeg, BitVec.reduceToNat] at hrange
  unfold handler
  split
  next hk =>
    rw [decide_eq_true hk] at hrange
    generalize hkey : (b - 82#8).toNat = k at hk
    have hindex : ∃ regs₁, Steps (step P) ⟨regs, 0x10000fbc#32, 0x10000fc0#32, mem, u⟩
        ⟨regs₁, 0x10000fdc#32, 0x10000fe0#32, mem, u⟩ ∧
        regs₁.get .v0 = 0x10001928#32 + BitVec.ofNat 32 (4 * k) ∧ regs.Keeps regs₁ := by
      refine ⟨?index, Steps.of_run (n := 8) ?run, ?post⟩
      case run =>
        simp [console_listing B.toHolds, hv0, lowByte_add, hrange]
        rfl
      case post =>
        refine ⟨?_, by simp [Regs.keeps_iff]⟩
        simp [← hkey]
        bv_omega
    obtain ⟨regs₁, hindex, hv₁, hkeeps⟩ := hindex
    have hcode := commandTable_code hk
    have halign : (0x10001928#32 + BitVec.ofNat 32 (4 * k)).toNat % 4 = 0 := by bv_omega
    have hdev : P.device (0x10001928#32 + BitVec.ofNat 32 (4 * k)) = false :=
      B.device _ _ (by rw [alignAddr_of_aligned halign, hcode])
    have hindex' : regs₁.get .v0 + BitVec.signExtend 32 0#16 =
        0x10001928#32 + BitVec.ofNat 32 (4 * k) := by simp [hv₁]
    have hload := exec_lw_code 0x10000fdc#32 0x10000fe0#32 mem u .v0 .v0 0 hindex' hdev halign
      (B.code _ _ hcode)
    generalize commandTable.getD k 0#32 = target at hload
    refine ⟨regs₁.set .v0 target, hindex.trans (Steps.of_run (n := 4) ?jump),
      by simp [Regs.keeps_iff, hkeeps.get]⟩
    case jump =>
      simp at hload
      simp [console_listing B.toHolds, hload]
  next hk =>
    rw [decide_eq_false hk] at hrange
    refine ⟨?skip, Steps.of_run (n := 5) ?run, ?keeps⟩
    case run =>
      simp [console_listing B.toHolds, hv0, lowByte_add, hrange]
      rfl
    case keeps => simp [Regs.keeps_iff]

theorem prompt_letter (B : Board P) (regs : Regs) (mem : Mem) (d : ℕ) (b : Byte)
    (rx : List (ℕ × Byte)) (busy : ℕ) (tx : List Byte) (hsp : Stack P (regs.get .sp) 24) :
    ∃ regs' mem', Steps (step P)
        ⟨regs, 0x10000fb4#32, 0x10000fb8#32, mem, ⟨(d, b) :: rx, busy, tx⟩⟩
        ⟨regs', handler b, handler b + 4#32, mem', ⟨rx, busy, tx⟩⟩ ∧
      regs.KeepsBut [.ra] regs' ∧ Frame (regs.get .sp) 24 mem mem' := by
  let entry := regs.set .ra 0x10000fbc#32
  have hcall : Steps (step P) ⟨regs, 0x10000fb4#32, 0x10000fb8#32, mem, ⟨(d, b) :: rx, busy, tx⟩⟩
      ⟨entry, 0x1000045c#32, 0x10000460#32, mem, ⟨(d, b) :: rx, busy, tx⟩⟩ := by
    apply Steps.of_run (n := 2)
    simp [console_listing B.toHolds, entry]
  obtain ⟨regs₁, mem₁, hget, hv₁, hkeeps₁, hframe⟩ :=
    getchar_spec B entry mem d b rx busy tx (by simpa [entry] using hsp)
  rw [show entry.get .ra = 0x10000fbc#32 by simp [entry]] at hget
  rw [show entry.get .sp = regs.get .sp by simp [entry]] at hframe
  obtain ⟨regs₂, hbranch, hkeeps₂⟩ := prompt_branch B regs₁ mem₁ ⟨rx, busy, tx⟩ b hv₁
  exact ⟨regs₂, mem₁, (hcall.trans hget).trans hbranch,
    by simp [Regs.keepsBut_iff, hkeeps₂.get, hkeeps₁.get, entry], hframe⟩

theorem prompt_spec (B : Board P) {hidden : Addr → Prop} {sp : Addr} {c : Session} {s : State Uart}
    (hs : AtPrompt hidden sp c s) (hsp : Stack P sp 24) (hhide : ∀ x, Below sp 24 x → hidden x)
    {b : Byte} {rest : List Byte} (hinput : c.input = b :: rest) :
    ∃ regs' mem' u', Steps (step P) s ⟨regs', handler b, handler b + 4#32, mem', u'⟩ ∧
      regs'.get .sp = sp ∧ u'.input = rest ∧ u'.tx = c.output ∧ Agree hidden c.mem mem' := by
  obtain ⟨regs, pc, npc, mem, rx, busy, tx⟩ := s
  obtain ⟨rfl, rfl, rfl, hrx, htx, hmem⟩ := hs
  simp only [Uart.input, hinput] at hrx
  obtain ⟨⟨d, b'⟩, rx, rfl, hb, hrest⟩ := List.map_eq_cons_iff.mp hrx
  obtain rfl : b' = b := hb
  obtain ⟨regs', mem', hletter, hkeeps, hframe⟩ := prompt_letter B regs mem d b' rx busy tx hsp
  exact ⟨regs', mem', ⟨rx, busy, tx⟩, hletter, hkeeps.get (by simp) (by simp), hrest, htx,
    hmem.trans (hframe.mono hhide)⟩

structure HandlerCall (P : Platform Uart) (pc entry : Addr) : Prop where
  call : ∃ t, P.fetch pc = some (.jal t) ∧ jumpTarget pc t = entry
  delay : P.fetch (pc + 4#32) = some .nop
  back : P.fetch (pc + 8#32) = some (.j 0x3ed)
  delay' : P.fetch (pc + 12#32) = some .nop
  segment : jumpTarget (pc + 8#32) 0x3ed = 0x10000fb4#32

theorem call_w (h : Holds P) : HandlerCall P 0x10000fec#32 0x100006d4#32 := by
  constructor <;> simp [console_listing h]

theorem call_s (h : Holds P) : HandlerCall P 0x1000101c#32 0x10000660#32 := by
  constructor <;> simp [console_listing h]

theorem call_r (h : Holds P) : HandlerCall P 0x10000ffc#32 0x10000884#32 := by
  constructor <;> simp [console_listing h]

theorem call_l (h : Holds P) : HandlerCall P 0x1000102c#32 0x10000738#32 := by
  constructor <;> simp [console_listing h]

theorem HandlerCall.enter {pc entry : Addr} (H : HandlerCall P pc entry) (regs : Regs) (mem : Mem)
    (u : Uart) : Steps (step P) ⟨regs, pc, pc + 4#32, mem, u⟩
      ⟨regs.set .ra (pc + 8#32), entry, entry + 4#32, mem, u⟩ := by
  obtain ⟨t, hcall, htarget⟩ := H.call
  simp only [jumpTarget] at htarget
  apply Steps.of_run (n := 2)
  simp [hcall, H.delay, htarget]

theorem HandlerCall.leave {pc entry : Addr} (H : HandlerCall P pc entry) (regs : Regs) (mem : Mem)
    (u : Uart) : Steps (step P) ⟨regs, pc + 8#32, pc + 8#32 + 4#32, mem, u⟩
      ⟨regs, 0x10000fb4#32, 0x10000fb8#32, mem, u⟩ := by
  have hseg := H.segment
  simp only [jumpTarget, BitVec.ofNat_eq_ofNat, BitVec.add_assoc, BitVec.reduceAdd] at hseg
  apply Steps.of_run (n := 2)
  simp [BitVec.add_assoc, H.back, H.delay', hseg]

theorem acknowledge_prompt (B : Board P) (cmd : Command) {hidden : Addr → Prop}
    {pc entry exit sp addr : Addr}
    (H : HandlerCall P.protect pc entry) (E : AckExit P exit) {c : Session} {regs regs' : Regs}
    {mem mem' : Mem} {u u' : Uart} {words : List Word} {rest : List Byte}
    (hstored : Stored (regs.set .ra (pc + 8#32)) mem u addr words rest regs' mem' u')
    (hregs : regs.get .sp = sp) (hsp : Stack P sp 104)
    (hhide : ∀ x, Below sp 104 x → hidden x) (hmem : Agree hidden c.mem mem)
    (htx : u.tx = c.output) (hstore : cmd.store c.mem = c.mem.writeWords addr words)
    (hreply : cmd.reply c.mem = [6#8]) :
    Agree hidden (cmd.store c.mem) mem' ∧
    ∃ s', Steps (step P.protect) ⟨regs', exit, exit + 4#32, mem', u'⟩ s' ∧
      AtPrompt hidden sp (c.exec rest (some cmd)) s' := by
  have hframe := hstored.mem
  have hsp' : (regs.set .ra (pc + 8#32)).get .sp = sp := by simp [hregs]
  rw [hsp'] at hframe
  have hagree : Agree hidden (cmd.store c.mem) mem' :=
    hstore ▸ (hmem.writeWords addr words).trans (hframe.mono hhide)
  have hroom : Stack P sp 32 := hsp.weaken (by omega)
  obtain ⟨regs₁, n, hexit, hkeeps⟩ :=
    ackExit_spec B E _ regs' mem' u' hroom (by rw [hstored.sp, hsp']) hstored.keeps hsp'
      (hsp' ▸ hstored.saved)
  rw [show (regs.set .ra (pc + 8#32)).get .ra = pc + 8#32 by simp] at hexit
  refine ⟨hagree, _, hexit.trans (H.leave regs₁ mem' (u'.sent n [6#8])), rfl, rfl, ?_, ?_, ?_, ?_⟩
  · simp [hkeeps.get, hregs]
  · simp [Session.exec, hstored.input]
  · simp [Session.exec, hstored.tx, htx, hreply]
  · exact hagree

/-- A `w` at the prompt: first the words are stored with nothing sent, then 0x06 is sent with
nothing stored. -/
theorem prompt_w (B : Board P) {hidden : Addr → Prop} {sp addr : Addr} {c : Session}
    {s : State Uart} (hs : AtPrompt hidden sp c s) (hsp : Stack P sp 104)
    (hhide : ∀ x, Below sp 104 x → hidden x) {input rest : List Byte} {words : List Word}
    (hinput : c.input = 119#8 :: input) (hread : commandW input = some (.w addr words, rest))
    (hspan : Span P hidden addr words.length) :
    ∃ t s', Steps (step P) s t ∧ t.dev.tx = c.output ∧ t.dev.input = rest ∧
      Agree hidden (c.mem.writeWords addr words) t.mem ∧ Steps (step P.protect) t s' ∧
      AtPrompt hidden sp (c.exec rest (some (.w addr words))) s' := by
  obtain ⟨regs₁, mem₁, u₁, hprompt, hsp₁, hin₁, htx₁, hmem₁⟩ :=
    prompt_spec B hs (hsp.weaken (by omega))
      (fun x hx => hhide x (hx.weaken (by omega))) hinput
  obtain ⟨regs₂, mem₂, u₂, hstore, hstored⟩ :=
    commandW_store B (regs₁.set .ra 0x10000ff4#32) mem₁ u₁ (hin₁ ▸ hread)
      (by simpa [hsp₁] using hsp) hspan (by simpa [hsp₁] using hhide)
  obtain ⟨hagree, s', hack, hprompt'⟩ :=
    acknowledge_prompt B (.w addr words) (call_w B.protect.toHolds) (ackExit_w B.toHolds) hstored
      hsp₁ hsp hhide hmem₁ htx₁ rfl rfl
  exact ⟨_, s', (hprompt.trans ((call_w B.toHolds).enter regs₁ mem₁ u₁)).trans hstore,
    hstored.tx.trans htx₁, hstored.input, hagree, hack, hprompt'⟩

theorem prompt_s (B : Board P) {hidden : Addr → Prop} {sp ptr off : Addr} {c : Session}
    {s : State Uart} (hs : AtPrompt hidden sp c s) (hsp : Stack P sp 104)
    (hhide : ∀ x, Below sp 104 x → hidden x) {input rest : List Byte} {words : List Word}
    (hinput : c.input = 115#8 :: input) (hread : commandS input = some (.s ptr off words, rest))
    (hptr : Span P hidden ptr 1) (hspan : Span P hidden (off + c.mem.readWord ptr) words.length) :
    ∃ t s', Steps (step P) s t ∧ t.dev.tx = c.output ∧ t.dev.input = rest ∧
      Agree hidden (c.mem.writeWords (off + c.mem.readWord ptr) words) t.mem ∧
      Steps (step P.protect) t s' ∧
      AtPrompt hidden sp (c.exec rest (some (.s ptr off words))) s' := by
  obtain ⟨regs₁, mem₁, u₁, hprompt, hsp₁, hin₁, htx₁, hmem₁⟩ :=
    prompt_spec B hs (hsp.weaken (by omega))
      (fun x hx => hhide x (hx.weaken (by omega))) hinput
  have hload : mem₁.readWord ptr = c.mem.readWord ptr :=
    hmem₁.readWord fun i hi => (hptr.plain _ (by unfold InRange; bv_omega)).2.2
  obtain ⟨regs₂, mem₂, u₂, hstore, hstored⟩ :=
    commandS_store B (regs₁.set .ra 0x10001024#32) mem₁ u₁ (hin₁ ▸ hread)
      (by simpa [hsp₁] using hsp) hptr (hload ▸ hspan) (by simpa [hsp₁] using hhide)
  rw [hload] at hstored
  obtain ⟨hagree, s', hack, hprompt'⟩ :=
    acknowledge_prompt B (.s ptr off words) (call_s B.protect.toHolds) (ackExit_s B.toHolds)
      hstored hsp₁ hsp hhide hmem₁ htx₁ rfl rfl
  exact ⟨_, s', (hprompt.trans ((call_s B.toHolds).enter regs₁ mem₁ u₁)).trans hstore,
    hstored.tx.trans htx₁, hstored.input, hagree, hack, hprompt'⟩

section Refinement

structure ConsoleBoard (P : Platform Uart) (sp : Addr) : Prop extends Board P where
  stack : Stack P sp 112
  buffer : HexBuffer P
  apart : ∀ a, InHexBuffer a → ¬ Below sp 112 a

variable {sp : Addr} {c c' : Session} {s : State Uart}

theorem prompt_r (K : ConsoleBoard P sp) (hs : AtPrompt (Scratch sp 112) sp c s) {addr : Addr}
    {n : Word} {input rest : List Byte} (hinput : c.input = 114#8 :: input)
    (hread : commandR input = some (.r addr n, rest))
    (hspan : Span P (Scratch sp 112) addr n.toNat) :
    ∃ s', Steps (step P) s s' ∧
      AtPrompt (Scratch sp 112) sp (c.exec rest (some (.r addr n))) s' := by
  obtain ⟨regs₁, mem₁, u₁, hprompt, hsp₁, hin₁, htx₁, hmem₁⟩ :=
    prompt_spec K.toBoard hs (K.stack.weaken (by omega))
      (fun x hx => Or.inl (hx.weaken (by omega))) hinput
  have hsp₂ : (regs₁.set .ra 0x10001004#32).get .sp = sp := by simp [hsp₁]
  obtain ⟨regs₂, mem₂, u₂, hprint, hkeeps, hin₂, htx₂, hagree⟩ :=
    commandR_spec K.toBoard K.buffer (regs₁.set .ra 0x10001004#32) mem₁ u₁ (hin₁ ▸ hread)
      (hsp₂ ▸ K.stack) (hsp₂ ▸ K.apart) (hsp₂ ▸ hspan)
  rw [printWords_agree hmem₁ hspan, htx₁] at htx₂
  rw [hsp₂] at hagree
  refine ⟨_, ((hprompt.trans ((call_r K.toHolds).enter regs₁ mem₁ u₁)).trans hprint).trans
    ((call_r K.toHolds).leave regs₂ mem₂ u₂), rfl, rfl, ?_, hin₂, htx₂, hmem₁.trans hagree⟩
  rw [hkeeps.get (by simp), hsp₂]

theorem prompt_l (K : ConsoleBoard P sp) (hs : AtPrompt (Scratch sp 112) sp c s) {ptr off : Addr}
    {n : Word} {input rest : List Byte} (hinput : c.input = 108#8 :: input)
    (hread : commandL input = some (.l ptr off n, rest)) (hptr : Span P (Scratch sp 112) ptr 1)
    (hspan : Span P (Scratch sp 112) (off + c.mem.readWord ptr) n.toNat) :
    ∃ s', Steps (step P) s s' ∧
      AtPrompt (Scratch sp 112) sp (c.exec rest (some (.l ptr off n))) s' := by
  obtain ⟨regs₁, mem₁, u₁, hprompt, hsp₁, hin₁, htx₁, hmem₁⟩ :=
    prompt_spec K.toBoard hs (K.stack.weaken (by omega))
      (fun x hx => Or.inl (hx.weaken (by omega))) hinput
  have hsp₂ : (regs₁.set .ra 0x10001034#32).get .sp = sp := by simp [hsp₁]
  have hload : mem₁.readWord ptr = c.mem.readWord ptr :=
    hmem₁.readWord fun i hi => (hptr.plain _ (by unfold InRange; bv_omega)).2.2
  obtain ⟨regs₂, mem₂, u₂, hprint, hkeeps, hin₂, htx₂, hagree⟩ :=
    commandL_spec K.toBoard K.buffer (regs₁.set .ra 0x10001034#32) mem₁ u₁ (hin₁ ▸ hread)
      (hsp₂ ▸ K.stack) (hsp₂ ▸ K.apart) (hsp₂ ▸ hptr) (by rw [hload, hsp₂]; exact hspan)
  rw [hload, printWords_agree hmem₁ hspan, htx₁] at htx₂
  rw [hsp₂] at hagree
  refine ⟨_, ((hprompt.trans ((call_l K.toHolds).enter regs₁ mem₁ u₁)).trans hprint).trans
    ((call_l K.toHolds).leave regs₂ mem₂ u₂), rfl, rfl, ?_, hin₂, htx₂, hmem₁.trans hagree⟩
  rw [hkeeps.get (by simp), hsp₂]

def Allowed (P : Platform Uart) (hidden : Addr → Prop) (c : Session) : Prop :=
  ∀ letter input cmd rest, c.input = letter :: input → parse letter input = some (some cmd, rest) →
    Safe P hidden c.mem cmd

/-- A round of the console on byte lists is a run of the machine from prompt to prompt. -/
theorem dispatch_refines (K : ConsoleBoard P sp) (hs : AtPrompt (Scratch sp 112) sp c s)
    (hround : dispatch c = some c') (hallowed : Allowed P (Scratch sp 112) c) :
    ∃ s', Steps (step P) s s' ∧ AtPrompt (Scratch sp 112) sp c' s' := by
  have hstack : Stack P sp 104 :=
    (K.stack.weaken (by omega))
  have hhide (x : Addr) (hx : Below sp 104 x) : Scratch sp 112 x := Or.inl (hx.weaken (by omega))
  unfold dispatch at hround
  split at hround
  next => cases hround
  next letter input hinput =>
    obtain ⟨⟨cmd, rest⟩, hparse, rfl⟩ := Option.map_eq_some_iff.mp hround
    have hsafe (cmd' : Command) (hcmd : cmd = some cmd') : Safe P (Scratch sp 112) c.mem cmd' :=
      hallowed letter input cmd' rest hinput (hcmd ▸ hparse)
    unfold parse at hparse
    split_ifs at hparse with hw hs' hr hl ho
    · obtain ⟨⟨cmd', rest'⟩, hread, hp⟩ := Option.map_eq_some_iff.mp hparse
      obtain ⟨rfl, rfl⟩ : some cmd' = cmd ∧ rest' = rest := by simpa using hp
      obtain ⟨addr, _, _, _, words, -, -, -, rfl⟩ := commandW_eq hread
      obtain ⟨_, s', hstore, -, -, -, hack, hprompt⟩ :=
        prompt_w K.toBoard hs hstack hhide (hw ▸ hinput) hread (hsafe _ rfl).span
      exact ⟨s', hstore.trans (steps_protect hack).1, hprompt⟩
    · obtain ⟨⟨cmd', rest'⟩, hread, hp⟩ := Option.map_eq_some_iff.mp hparse
      obtain ⟨rfl, rfl⟩ : some cmd' = cmd ∧ rest' = rest := by simpa using hp
      obtain ⟨ptr, _, off, _, _, _, words, -, -, -, -, rfl⟩ := commandS_eq hread
      obtain ⟨_, s', hstore, -, -, -, hack, hprompt⟩ :=
        prompt_s K.toBoard hs hstack hhide (hs' ▸ hinput) hread ((hsafe _ rfl).pointer ptr rfl)
          (hsafe _ rfl).span
      exact ⟨s', hstore.trans (steps_protect hack).1, hprompt⟩
    · obtain ⟨⟨cmd', rest'⟩, hread, hp⟩ := Option.map_eq_some_iff.mp hparse
      obtain ⟨rfl, rfl⟩ : some cmd' = cmd ∧ rest' = rest := by simpa using hp
      obtain ⟨addr, _, n, -, -, rfl⟩ := commandR_eq hread
      exact prompt_r K hs (hr ▸ hinput) hread (hsafe _ rfl).span
    · obtain ⟨⟨cmd', rest'⟩, hread, hp⟩ := Option.map_eq_some_iff.mp hparse
      obtain ⟨rfl, rfl⟩ : some cmd' = cmd ∧ rest' = rest := by simpa using hp
      obtain ⟨ptr, _, off, _, n, -, -, -, rfl⟩ := commandL_eq hread
      exact prompt_l K hs (hl ▸ hinput) hread ((hsafe _ rfl).pointer ptr rfl) (hsafe _ rfl).span
    · obtain ⟨rfl, rfl⟩ : none = cmd ∧ input = rest := by simpa using hparse
      obtain ⟨regs₁, mem₁, u₁, hprompt, hsp₁, hin₁, htx₁, hmem₁⟩ :=
        prompt_spec K.toBoard hs
          (K.stack.weaken (by omega))
          (fun x hx => Or.inl (hx.weaken (by omega))) hinput
      rw [handler_other hw hs' hr hl ho] at hprompt
      exact ⟨_, hprompt, rfl, rfl, hsp₁, hin₁, htx₁, hmem₁⟩

theorem console_refines (K : ConsoleBoard P sp) (hs : AtPrompt (Scratch sp 112) sp c s)
    (hrun : Relation.ReflTransGen
      (fun a b => dispatch a = some b ∧ Allowed P (Scratch sp 112) a) c c') :
    ∃ s', Steps (step P) s s' ∧ AtPrompt (Scratch sp 112) sp c' s' := by
  induction hrun with
  | refl => exact ⟨s, Steps.refl s, hs⟩
  | tail _ hlast ih =>
    obtain ⟨s₁, hsteps₁, hs₁⟩ := ih
    obtain ⟨s₂, hsteps₂, hs₂⟩ := dispatch_refines K hs₁ hlast.1 hlast.2
    exact ⟨s₂, hsteps₁.trans hsteps₂, hs₂⟩

end Refinement

end W2
