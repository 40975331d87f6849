import W2.Firmware.Refinement
import W2.Firmware.Startup

/-!
# From the menu to the console

The command `a` of the menu sets the device registers again, prints its mark and enters the console.
The runs compose: what is typed to a board that waits at its menu is answered by the menu on byte
lists and then by the interpreter of the command language. The interpreter does not see the hidden
memory, so its answers are those for the memory the menu has left.
-/

namespace W2

open Mips Transition Miniboot Console

variable {P : Platform Uart}

section Interpreter

variable {hidden : Addr → Prop} {m m' : Mem}

theorem target_agree {c : Command} (hsafe : Safe P hidden m c) (hagree : Agree hidden m m') :
    c.target m' = c.target m := by
  have hpointer (ptr : Addr) (hptr : c.pointer = some ptr) : m'.readWord ptr = m.readWord ptr := by
    simpa using (hsafe.pointer ptr hptr).readWord Nat.one_pos hagree
  cases c with
  | w addr words | r addr n => rfl
  | s ptr off words | l ptr off n => rw [Command.target, hpointer ptr rfl, Command.target]

theorem store_agree {c : Command} (hsafe : Safe P hidden m c) (hagree : Agree hidden m m') :
    Agree hidden (c.store m) (c.store m') := by
  have htarget := target_agree hsafe hagree
  cases c with
  | w addr words => exact hagree.writeWords addr words
  | s ptr off words =>
    rw [Command.store, Command.store, htarget]
    exact hagree.writeWords _ words
  | r addr n | l ptr off n => exact hagree

theorem listing_agree {a : Addr} {n : ℕ} (hspan : Span P hidden a n) (hagree : Agree hidden m m') :
    listing m' a n = listing m a n := by
  rw [listing, listing]
  congr 2
  refine List.flatMap_congr fun j hj => ?_
  rw [hspan.readWord (List.mem_range.mp hj) hagree]

theorem answer_agree {c : Command} (hsafe : Safe P hidden m c) (hagree : Agree hidden m m') :
    c.answer m' = c.answer m := by
  have htarget := target_agree hsafe hagree
  have hspan := hsafe.span
  cases c with
  | w addr words | s ptr off words => rfl
  | r addr n => exact listing_agree hspan hagree
  | l ptr off n =>
    simp only [Command.target, BitVec.add_comm off] at htarget hspan
    rw [Command.answer, Command.answer, htarget]
    exact listing_agree hspan hagree

theorem Safe.agree {c : Command} (hsafe : Safe P hidden m c) (hagree : Agree hidden m m') :
    Safe P hidden m' c :=
  ⟨hsafe.pointer, target_agree hsafe hagree ▸ hsafe.span⟩

theorem interpret_agree {cs : List Command} (hsafe : AllSafe P hidden m cs)
    (hagree : Agree hidden m m') :
    AllSafe P hidden m' cs ∧ (interpret m' cs).2 = (interpret m cs).2 ∧
      Agree hidden (interpret m cs).1 (interpret m' cs).1 := by
  induction cs generalizing m m' with
  | nil => exact ⟨trivial, rfl, hagree⟩
  | cons c cs ih =>
    obtain ⟨hrest, hanswer, hmem⟩ := ih hsafe.2 (store_agree hsafe.1 hagree)
    refine ⟨⟨hsafe.1.agree hagree, hrest⟩, ?_, hmem⟩
    rw [interpret, interpret, answer_agree hsafe.1 hagree, hanswer]

theorem AllSafe.mono {hidden' : Addr → Prop} (hsub : ∀ x, hidden' x → hidden x)
    {cs : List Command} (h : AllSafe P hidden m cs) : AllSafe P hidden' m cs := by
  induction cs generalizing m with
  | nil => trivial
  | cons c cs ih =>
    exact ⟨⟨fun ptr hptr => (h.1.pointer ptr hptr).mono hsub, h.1.span.mono hsub⟩, ih h.2⟩

end Interpreter

section Console

theorem consoleEntry_listing (h : Pieces P startPieces) :
    P.fetch 0x10000608#32 = some (.addiu .sp .sp (-24)) ∧
    P.fetch 0x1000060c#32 = some (.sw .ra 16 .sp) ∧
    P.fetch 0x10000610#32 = some (.lui .a0 0x1000) ∧
    P.fetch 0x1000061c#32 = some (.lw .ra 16 .sp) ∧
    P.fetch 0x10000620#32 = some .nop ∧
    P.fetch 0x10000624#32 = some (.jr .ra) ∧
    P.fetch 0x10000628#32 = some (.addiu .sp .sp 24) ∧
    P.fetch 0x10000f9c#32 = some (.addiu .sp .sp (-24)) ∧
    P.fetch 0x10000fa0#32 = some (.sw .ra 16 .sp) ∧
    P.fetch 0x10000fa4#32 = some (.jal 0x162) ∧
    P.fetch 0x10000fa8#32 = some .nop ∧
    P.fetch 0x10000fac#32 = some (.jal 0x182) ∧
    P.fetch 0x10000fb0#32 = some .nop ∧
    P.fetch 0x10001198#32 = some (.jal 0x3e7) ∧
    P.fetch 0x1000119c#32 = some (.addu .a0 .zero .zero) := by
  constructorm* _ ∧ _ <;> exact h.fetch rfl

def consoleMark : List Byte := sends "aaaa5555"

theorem mark_spec (K : StartBoard P) {sp : Addr} (regs : Regs) (mem : Mem) (u : Uart)
    (hsp : regs.get .sp = sp) (hstack : Stack P sp 80) :
    ∃ regs' mem' n, Steps (step P) ⟨regs, 0x10000608#32, 0x1000060c#32, mem, u⟩
        ⟨regs', regs.get .ra, regs.get .ra + 4#32, mem', u.sent n consoleMark⟩ ∧
      regs'.get .sp = sp ∧ Frame sp 80 mem mem' := by
  let entry := regs.set .sp (sp + 0xffffffe8#32)
  let saved := mem.writeWord (sp + 0xfffffff8#32) (regs.get .ra)
  have hentry : Steps (step P) ⟨regs, 0x10000608#32, 0x1000060c#32, mem, u⟩
      ⟨entry, 0x10000610#32, 0x10000614#32, saved, u⟩ := by
    apply Steps.of_run (n := 2)
    simp [consoleEntry_listing K.start, BitVec.add_assoc, hsp, hstack.plain, entry, saved]
  have htext : textIn (codeOf startPieces) 64 (0x10000000#32 + BitVec.signExtend 32 5528#16) =
      some (characters "aaaa5555") := by decide +kernel
  have hupper : P.fetch 0x10000610#32 = some (.lui .a0 0x1000) := K.start.fetch rfl
  obtain ⟨regs₁, mem₁, n, hmark, hkeeps, hframe⟩ :=
    puts_literal K.toBoard hupper (Or.inl rfl) ⟨_, K.start.fetch rfl, rfl⟩ (K.start.fetch rfl) entry
      saved u (by simp [entry]) (hstack.callee (c := 0xffffffe8#32) (by decide) (by decide))
      (textIn_string K.start _ saved htext)
  have hsp₁ : regs₁.get .sp = sp + 0xffffffe8#32 := by simp [hkeeps.get, entry]
  have hra : mem₁.readWord (sp + 0xfffffff8#32) = regs.get .ra := by
    rw [hframe.readSlot (d := 0xfffffff8#32) (by decide)]
    simp [saved]
  have hback : Steps (step P) ⟨regs₁, 0x1000061c#32, 0x10000620#32, mem₁, u.sent n consoleMark⟩
      ⟨(regs₁.set .ra (regs.get .ra)).set .sp sp, regs.get .ra, regs.get .ra + 4#32, mem₁,
        u.sent n consoleMark⟩ := by
    apply Steps.of_run (n := 4)
    simp [consoleEntry_listing K.start, BitVec.add_assoc, hstack.ramWord, hsp₁, hra]
  exact ⟨_, mem₁, n, (hentry.trans hmark).trans hback, by simp,
    (Frame.write (Agree.refl _ mem) _ (by decide) (by decide)).trans (hframe.caller (by decide))⟩

theorem console_entered (K : StartBoard P) {m : Mem} {input out : List Byte} {s : State Uart}
    (hs : AtMenu 0x01000fc8#32 ⟨97#8 :: input, m, out⟩ s) :
    ∃ s', Steps (step P) s s' ∧
      AtPrompt (Scratch 0x01000fb0#32 112) 0x01000fb0#32
        ⟨input, s'.mem, out ++ consoleMark⟩ s' ∧
      Agree (Scratch 0x01000fc8#32 136) (cleared m) s'.mem := by
  obtain ⟨regs, pc, npc, mem, u⟩ := s
  obtain ⟨rfl, rfl, hsp, hinput, htx, hmem⟩ := hs
  obtain ⟨regs₁, mem₁, u₁, hletter, hv0, hsp₁, hinput₁, htx₁, hagree₁⟩ :=
    letter_spec K.toMenuBoard (c := 97#8) rfl regs mem u hsp hinput
  have htarget : bootImage (((BitVec.setWidth 32 97#8 + 0xffffffcf#32) &&& 0xff#32) <<< 2 +
      0x100019c0#32) = some 0x10001198#32 := by decide +kernel
  obtain ⟨regs₂, hjump, hkeeps₂⟩ := letter_jump K.toMenuBoard rfl htarget regs₁ mem₁ u₁ hv0
  have hsp₂ : regs₂.get .sp = 0x01000fc8#32 := by rw [hkeeps₂.get (by simp), hsp₁]
  let entry := (((regs₂.set .ra 0x100011a0#32).set .a0 0#32).set .sp 0x01000fb0#32).set .ra
    0x10000fac#32
  let saved := mem₁.writeWord 0x01000fc0#32 0x100011a0#32
  have hslot : P.Plain 0x01000fc0#32 :=
    K.stack.plain (c := 0xfffffff8#32) (by decide) (by decide)
  have hentry : Steps (step P) ⟨regs₂, 0x10001198#32, 0x1000119c#32, mem₁, u₁⟩
      ⟨entry, 0x10000588#32, 0x1000058c#32, saved, u₁⟩ := by
    apply Steps.of_run (n := 6)
    simp [consoleEntry_listing K.start, hsp₂, hslot, entry, saved]
  obtain ⟨regs₃, hinit, hkeeps₃⟩ := registerInit_spec K entry saved u₁
  rw [show entry.get .ra = 0x10000fac#32 by simp [entry]] at hinit
  let call := regs₃.set .ra 0x10000fb4#32
  have hcall : Steps (step P) ⟨regs₃, 0x10000fac#32, 0x10000fac#32 + 4#32, cleared saved, u₁⟩
      ⟨call, 0x10000608#32, 0x1000060c#32, cleared saved, u₁⟩ := by
    apply Steps.of_run (n := 2)
    simp [consoleEntry_listing K.start, call]
  have hstack : Stack P 0x01000fb0#32 112 :=
    K.room.callee (c := 0xffffffc0#32) (by decide) (by decide)
  obtain ⟨regs₄, mem₄, n, hmark, hsp₄, hframe₄⟩ :=
    mark_spec K call (cleared saved) u₁ (by simp [call, hkeeps₃.get, entry])
      (hstack.weaken (by omega))
  rw [show call.get .ra = 0x10000fb4#32 by simp [call]] at hmark
  have hstart := (hletter.trans hjump).trans hentry
  have hsent : u₁.tx = out := htx₁.trans htx
  refine ⟨_, ((hstart.trans hinit).trans hcall).trans hmark,
    ⟨rfl, rfl, hsp₄, hinput₁, by simp [hsent], Agree.refl _ _⟩, ?memory⟩
  case memory =>
    have hmenu : Agree (Scratch 0x01000fc8#32 136) m mem₁ :=
      (hmem.trans hagree₁).mono fun x hx => hx.weaken (by omega)
    have hsaved : Frame 0x01000fc8#32 136 mem₁ (mem₁.writeWord (0x01000fc8#32 + 0xfffffff8#32) _) :=
      Frame.write (Agree.refl _ mem₁) 0x100011a0#32 (by decide) (by decide)
    have hmark : Frame (0x01000fc8#32 + 0xffffffe8#32) 80 (cleared saved) mem₄ := hframe₄
    have hboth := hmenu.trans (hsaved.mono fun x hx => Or.inl hx)
    exact ((hboth.writeWord _ _).writeWord _ _).trans
      ((hmark.caller (k := 136) (by decide)).mono fun x hx => Or.inl hx)

end Console

section Menu

variable {hidden hidden' : Addr → Prop}

/-- Two sessions that an observer cannot tell apart. -/
structure Unnoticed (hidden : Addr → Prop) (c c' : Session) : Prop where
  input : c'.input = c.input
  output : c'.output = c.output
  mem : Agree hidden c.mem c'.mem

theorem reply_agree {cmd : MenuCommand} {m m' : Mem} (hwithin : cmd.Within P hidden)
    (hagree : Agree hidden m m') : cmd.reply m' = cmd.reply m := by
  cases cmd with
  | write a v | address a | unknown => rfl
  | read a =>
    have hspan : Span P hidden a 1 := hwithin Nat.one_pos
    have hword : m'.readWord a = m.readWord a := by simpa using hspan.readWord Nat.one_pos hagree
    rw [MenuCommand.reply, MenuCommand.reply, hword]
  | dump a n =>
    have hrows : rows m' a ((n.toNat + 3) / 4) = rows m a ((n.toNat + 3) / 4) :=
      rows_agree hwithin hagree
    rw [MenuCommand.reply, MenuCommand.reply, hrows]

theorem MenuAllowed.mono {c : Session} (h : MenuAllowed P hidden c)
    (hsub : ∀ x, hidden' x → hidden x) : MenuAllowed P hidden' c :=
  fun letter input cmd rest hinput hparse hcount =>
    (h letter input cmd rest hinput hparse hcount).mono hsub

theorem menuRound_unnoticed {c d c' : Session} (hround : menuRound c = some d)
    (hallowed : MenuAllowed P hidden c) (h : Unnoticed hidden c c') :
    ∃ d', menuRound c' = some d' ∧ MenuAllowed P hidden c' ∧ Unnoticed hidden d d' := by
  obtain ⟨input, m, out⟩ := c
  obtain ⟨input', m', out'⟩ := c'
  obtain rfl : input' = input := h.input
  obtain rfl : out' = out := h.output
  have hmem : Agree hidden m m' := h.mem
  cases input' with
  | nil => cases hround
  | cons letter input =>
    obtain ⟨⟨cmd, rest⟩, hparse, rfl⟩ := Option.map_eq_some_iff.mp hround
    have hwithin := hallowed letter input cmd rest rfl hparse
    have hstore : Agree hidden (cmd.store m) (cmd.store m') := by
      cases cmd with
      | write a v => exact hmem.writeWord a v
      | read a | dump a n | address a | unknown => exact hmem
    refine ⟨_, Option.map_eq_some_iff.mpr ⟨_, hparse, rfl⟩, hallowed, rfl, ?_, hstore⟩
    rw [reply_agree hwithin hmem]

theorem menuRounds_unnoticed {c d c' : Session}
    (hrun : Relation.ReflTransGen (fun a b => menuRound a = some b ∧ MenuAllowed P hidden a) c d)
    (h : Unnoticed hidden c c') :
    ∃ d', Relation.ReflTransGen (fun a b => menuRound a = some b ∧ MenuAllowed P hidden a) c' d' ∧
      Unnoticed hidden d d' := by
  induction hrun with
  | refl => exact ⟨c', .refl, h⟩
  | tail _ hlast ih =>
    obtain ⟨e', hrounds, he⟩ := ih
    obtain ⟨d', hround, hallowed, hd⟩ := menuRound_unnoticed hlast.1 hlast.2 he
    exact ⟨d', hrounds.tail ⟨hround, hallowed⟩, hd⟩

end Menu

section Session

theorem scratch_menu {x : Addr} (h : Scratch 0x01000fc8#32 136 x) :
    Scratch 0x01000ff0#32 176 x := by
  obtain hbelow | hbuffer := h
  · have hmenu : Below (0x01000ff0#32 + 0xffffffd8#32) 136 x := hbelow
    exact Or.inl (hmenu.mono (by decide))
  · exact Or.inr hbuffer

theorem scratch_console {x : Addr} (h : Scratch 0x01000fb0#32 112 x) :
    Scratch 0x01000ff0#32 176 x := by
  obtain hbelow | hbuffer := h
  · have hconsole : Below (0x01000ff0#32 + 0xffffffc0#32) 112 x := hbelow
    exact Or.inl (hconsole.mono (by decide))
  · exact Or.inr hbuffer

theorem StartBoard.console (K : StartBoard P) : ConsoleBoard P 0x01000fb0#32 where
  toBoard := K.toBoard
  stack := K.room.callee (c := 0xffffffc0#32) (by decide) (by decide)
  buffer := K.buffer
  apart a hbuffer hbelow := by
    unfold InHexBuffer at hbuffer
    unfold Below at hbelow
    bv_omega

/-- A board that is reset takes what is typed to its menu, enters the console with `a` and takes
the written commands that follow. It sends the banner, what the menu on byte lists sends, the mark
of the console and what the interpreter of the command language answers. -/
theorem powered_session (K : StartBoard P) (hstraps : MenuStraps P) (c : Cpu Uart)
    (hpc : c.core.pc = 0x10000000#32) (hnpc : c.core.npc = 0x10000004#32) (menu : Session)
    (script : List Item)
    (hmenu : Relation.ReflTransGen
      (fun a b => menuRound a = some b ∧ MenuAllowed P (Scratch 0x01000ff0#32 176) a)
      ⟨c.core.dev.input, cleared (c.core.mem.writeWord 0#32 0#32),
        c.core.dev.tx ++ bannerText ++ menuScreen⟩ menu)
    (hinput : menu.input = 97#8 :: scriptText script)
    (hsafe : AllSafe P (Scratch 0x01000ff0#32 176) (cleared menu.mem) (scriptCommands script)) :
    ∃ s, Steps (startStep P) c ⟨s, c.hi, c.lo, c.epc, c.status ||| 0xffff#32⟩ ∧
      s.pc = 0x10000fb4#32 ∧ s.npc = 0x10000fb8#32 ∧ s.dev.input = [] ∧
      s.dev.tx = menu.output ++ consoleMark ++
        (interpret (cleared menu.mem) (scriptCommands script)).2 ∧
      ∀ a, ¬ Scratch 0x01000ff0#32 176 a →
        s.mem a = (interpret (cleared menu.mem) (scriptCommands script)).1 a := by
  obtain ⟨s₁, hstart, hat₁, hmem₁⟩ := startup_menu K hstraps c hpc hnpc
  have hfirst : Unnoticed (Scratch 0x01000ff0#32 176)
      ⟨c.core.dev.input, cleared (c.core.mem.writeWord 0#32 0#32),
        c.core.dev.tx ++ bannerText ++ menuScreen⟩
      ⟨c.core.dev.input, s₁.mem, c.core.dev.tx ++ bannerText ++ menuScreen⟩ :=
    ⟨rfl, rfl, hmem₁.mono fun x hx => Or.inl (hx.weaken (by omega))⟩
  obtain ⟨menu', hrounds, halike⟩ := menuRounds_unnoticed hmenu hfirst
  have hround (a b : Session) (s : State Uart)
      (hab : menuRound a = some b ∧ MenuAllowed P (Scratch 0x01000ff0#32 176) a)
      (ha : AtMenu 0x01000fc8#32 a s) : ∃ t, Steps (step P) s t ∧ AtMenu 0x01000fc8#32 b t :=
    menu_refines K.toMenuBoard ha hab.1 (hab.2.mono fun x hx => scratch_menu (hx.weaken (by omega)))
  obtain ⟨s₂, hmenu, hat₂⟩ := Steps.simulate _ hround hrounds hat₁
  obtain ⟨input, m, out⟩ := menu'
  obtain rfl : input = 97#8 :: scriptText script := halike.input.trans hinput
  obtain rfl : out = menu.output := halike.output
  obtain ⟨s₃, hconsole, hat₃, hmem₃⟩ := console_entered K hat₂
  have hagree : Agree (Scratch 0x01000ff0#32 176) (cleared menu.mem) s₃.mem :=
    ((halike.mem.writeWord _ _).writeWord _ _).trans (hmem₃.mono fun x hx => scratch_menu hx)
  obtain ⟨hsafe', hanswer, hinterpret⟩ := interpret_agree hsafe hagree
  rw [show scriptText script = scriptText script ++ [] by simp] at hat₃
  obtain ⟨s₄, hscript, hat₄⟩ := console_refines K.console hat₃
    (script_rounds script s₃.mem _ [] (hsafe'.mono fun x hx => scratch_console hx))
  refine ⟨s₄, hstart.trans (cpuSteps_base ((hmenu.trans hconsole).trans hscript) _ _ _ _), hat₄.pc,
    hat₄.npc, hat₄.input, ?output, fun a ha => ?memory⟩
  case output => rw [hat₄.output, hanswer]
  case memory => exact (hat₄.mem a fun h => ha (scratch_console h)).trans (hinterpret a ha)

end Session

section Bench

def sessionPieces : List (ℕ × List Word) :=
  bootPieces ++ (dumpPieces ++ (menuPieces ++ startPieces))

/-- The bench with the whole image of this development and the register that erases the flash. Its
straps choose the menu, and a store to a device register other than the serial port's has no
effect. -/
def startBench : Platform Uart :=
  { benchWith sessionPieces with
    device := fun a =>
      decide ((0x1f800000 ≤ a.toNat ∧ a.toNat < 0x1f801000) ∨ a.toNat = 0x10300000)
    load := fun u a =>
      if a = 0x1f800706#32 then some (0x04000000#32, u)
      else if a = 0x1f800700#32 then some (0#32, u)
      else bench.load u a
    store := fun u a w => if a = 0x1f800002#32 then bench.store u a w else some u }

theorem sessionPieces_placed : Placed sessionPieces := by decide

theorem startBench_device {a : Addr} {w : Word} (h : startBench.code (alignAddr a) = some w) :
    startBench.device a = false := by
  have hrange := benchWith_range sessionPieces_placed h
  have halign := alignAddr_near a
  simp only [startBench, decide_eq_false_iff_not]
  omega

theorem startBench_pieces {pieces : List (ℕ × List Word)}
    (h : ∀ a w, codeOf pieces a = some w → codeOf sessionPieces a = some w) :
    Pieces startBench pieces := by
  have hpieces := benchWith_pieces sessionPieces_placed (by decide)
  exact ⟨fun a w hw => hpieces.code a w (h a w hw),
    fun a w hw => startBench_device (hpieces.code _ w (h _ w hw))⟩

theorem startBench_low : LowMemory startBench := by
  intro a ha
  refine ⟨⟨?_, (benchWith_ram sessionPieces_placed ha).2⟩, rfl⟩
  simp only [startBench, decide_eq_false_iff_not]
  omega

theorem startBench_span {a : Addr} {k : ℕ} (haligned : a.toNat % 4 = 0)
    (hfits : a.toNat + 4 * k ≤ 0x01000000) : Span startBench (Scratch 0x01000ff0#32 176) a k := by
  refine ⟨haligned, by omega, fun x hx => ?_⟩
  unfold InRange at hx
  obtain ⟨hram, hwrite⟩ := startBench_low x (by bv_omega)
  refine ⟨hram, hwrite, ?_⟩
  rintro (hbelow | hbuffer)
  · unfold Below at hbelow
    bv_omega
  · unfold InHexBuffer at hbuffer
    bv_omega

theorem startBench_board : StartBoard startBench where
  code a w h := by simp [startBench, benchWith, h]
  device a w h := startBench_device (w := w) (by simp [startBench, benchWith, h])
  dataReg := by decide
  busyReg := by decide
  sendReg := by decide
  readyReg := by decide
  loadReady u := bench_board.loadReady u
  loadData u b rest h := bench_board.loadData u b rest h
  loadBusy u := bench_board.loadBusy u
  storeSend u b h := ⟨u.busy, by simp [startBench, bench]⟩
  boot := startBench_pieces fun a w h => by simp [sessionPieces, codeOf_append, h]
  dump :=
    have hfree : Apart dumpPieces bootPieces := by decide
    startBench_pieces fun a w h => by simp [sessionPieces, codeOf_append, codeOf_apart hfree h, h]
  menu :=
    have hboot : Apart menuPieces bootPieces := by decide
    have hdump : Apart menuPieces dumpPieces := by decide
    startBench_pieces fun a w h => by
      simp [sessionPieces, codeOf_append, codeOf_apart hboot h, codeOf_apart hdump h, h]
  start :=
    have hboot : Apart startPieces bootPieces := by decide
    have hdump : Apart startPieces dumpPieces := by decide
    have hmenu : Apart startPieces menuPieces := by decide
    startBench_pieces fun a w h => by
      simp [sessionPieces, codeOf_append, codeOf_apart hboot h, codeOf_apart hdump h,
        codeOf_apart hmenu h, h]
  buffer := startBench_low.buffer
  selectReg := by decide
  storeSelect _ := rfl
  stack := ⟨by decide, fun a ha => startBench_low a (by unfold Below at ha; bv_omega)⟩
  apart a hbuffer hbelow := by
    unfold InHexBuffer at hbuffer
    unfold Below at hbelow
    bv_omega
  room := ⟨by decide, fun a ha => startBench_low a (by unfold Below at ha; bv_omega)⟩
  registers p hp := by
    simp only [startStores, List.mem_cons, List.not_mem_nil, or_false] at hp
    obtain rfl | rfl | rfl | rfl | rfl | rfl | rfl | rfl := hp <;> exact ⟨by decide, fun _ => rfl⟩
  words a ha := by
    simp only [List.mem_cons, List.not_mem_nil, or_false] at ha
    have hlow : a.toNat < 0x10000000 ∧ a.toNat % 4 = 0 := by
      obtain rfl | rfl | rfl := ha <;> decide
    exact ⟨⟨(startBench_low a hlow.1).1, hlow.2⟩, (startBench_low a hlow.1).2⟩
  straps a ha := by
    simp only [List.mem_cons, List.not_mem_nil, or_false] at ha
    obtain rfl | rfl := ha <;> decide

theorem startBench_straps : MenuStraps startBench :=
  ⟨fun _ => ⟨_, rfl, by decide⟩, fun _ => ⟨_, rfl, by decide⟩⟩

def startReset : Cpu Uart where
  core :=
    { regs := fun _ => 0#32, pc := 0x10000000#32, npc := 0x10000004#32, mem := fun _ => 0#8
      dev := ⟨(characters "1100 5 a" ++ scriptText benchScript).map (fun b => (0, b)), 0, []⟩ }
  hi := 0#32
  lo := 0#32
  epc := 0#32
  status := 0#32

def startMemory : Mem := cleared (Mem.writeWord (fun _ => 0#8) 0#32 0#32)

def startMenu : Session where
  input := 97#8 :: scriptText benchScript
  mem := startMemory.writeWord 0x100#32 5#32
  output := ([] ++ bannerText ++ menuScreen) ++
    MenuCommand.reply startMemory (.write 0x100#32 5#32) ++ menuScreen

theorem powered_session_bench :
    ∃ s, Steps (startStep startBench) startReset ⟨s, 0#32, 0#32, 0#32, 0#32 ||| 0xffff#32⟩ ∧
      s.pc = 0x10000fb4#32 ∧ s.npc = 0x10000fb8#32 ∧ s.dev.input = [] ∧
      s.dev.tx = startMenu.output ++ consoleMark ++
        (interpret (cleared startMenu.mem) (scriptCommands benchScript)).2 ∧
      ∀ a, ¬ Scratch 0x01000ff0#32 176 a →
        s.mem a = (interpret (cleared startMenu.mem) (scriptCommands benchScript)).1 a := by
  have hparse : parseMenu 49#8 (characters "100 5 a" ++ scriptText benchScript) =
      some (.write 0x100#32 5#32, 97#8 :: scriptText benchScript) := by decide
  have hspan : Span startBench (Scratch 0x01000ff0#32 176) 0x100#32 1 :=
    startBench_span (by decide) (by decide)
  have hround := parsed_round startMemory ([] ++ bannerText ++ menuScreen) hparse fun _ => hspan
  exact powered_session startBench_board startBench_straps startReset rfl rfl startMenu benchScript
    (.single hround) rfl
    ⟨.direct rfl hspan, .direct rfl (startBench_span (by decide) (by decide)), trivial⟩

end Bench

end W2
