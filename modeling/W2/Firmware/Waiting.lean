import W2.Firmware.Refinement

/-!
# The console waits for what is missing

When the bytes that arrive come to an end, the machine polls for the next one for ever. A number
that is not ended, a command some of whose numbers are missing and a prompt without a letter all
lead into the same loop of `getchar`, with nothing sent on the way. Of a store command those words
are stored that have arrived.
-/

namespace W2

open Mips Transition Miniboot Console

variable {P : Platform Uart} {base : Addr}

section Polling

inductive Starving (base : Addr) (mem : Mem) (u : Uart) : State Uart → Prop
  | call (regs : Regs) : Starving base mem u ⟨regs, base + 0x134#32, base + 0x138#32, mem, u⟩
  | delay (regs : Regs) (hra : regs.get .ra = base + 0x13c#32) :
      Starving base mem u ⟨regs, base + 0x138#32, base + 0x118#32, mem, u⟩
  | upper (regs : Regs) (hra : regs.get .ra = base + 0x13c#32) :
      Starving base mem u ⟨regs, base + 0x118#32, base + 0x11c#32, mem, u⟩
  | lower (regs : Regs) (hra : regs.get .ra = base + 0x13c#32)
      (hv0 : regs.get .v0 = 0x1f800000#32) :
      Starving base mem u ⟨regs, base + 0x11c#32, base + 0x120#32, mem, u⟩
  | load (regs : Regs) (hra : regs.get .ra = base + 0x13c#32)
      (hv0 : regs.get .v0 = 0x1f800005#32) :
      Starving base mem u ⟨regs, base + 0x120#32, base + 0x124#32, mem, u⟩
  | return (regs : Regs) (hra : regs.get .ra = base + 0x13c#32)
      (hv0 : regs.get .v0 &&& 1#32 = 0#32) :
      Starving base mem u ⟨regs, base + 0x124#32, base + 0x128#32, mem, u⟩
  | mask (regs : Regs) (hv0 : regs.get .v0 &&& 1#32 = 0#32) :
      Starving base mem u ⟨regs, base + 0x128#32, base + 0x13c#32, mem, u⟩
  | test (regs : Regs) (hv0 : regs.get .v0 = 0#32) :
      Starving base mem u ⟨regs, base + 0x13c#32, base + 0x140#32, mem, u⟩
  | back (regs : Regs) : Starving base mem u ⟨regs, base + 0x140#32, base + 0x134#32, mem, u⟩

theorem Starving.next (S : Serial P base) {mem : Mem} {u : Uart} (hu : u.rx = []) {x : State Uart}
    (h : Starving base mem u x) : ∃ y, step P x = some y ∧ Starving base mem u y := by
  have hready : u.ready = false := by simp [Uart.ready, hu]
  have hpoll : u.poll = u := by simp [Uart.poll, hu]
  cases h with
  | call regs =>
    refine ⟨_, ?_, .delay (regs.set .ra (base + 0x13c#32)) (by simp)⟩
    simp [S.pollReady.run, BitVec.add_assoc]
  | delay regs hra =>
    refine ⟨_, ?_, .upper regs hra⟩
    simp [S.getchar, BitVec.add_assoc]
  | upper regs hra =>
    refine ⟨_, ?_, .lower (regs.set .v0 0x1f800000#32) (by simpa using hra) (by simp)⟩
    simp [S.rxReady, BitVec.add_assoc]
  | lower regs hra hv0 =>
    refine ⟨_, ?_, .load (regs.set .v0 0x1f800005#32) (by simpa using hra) (by simp)⟩
    simp [S.rxReady, BitVec.add_assoc, hv0]
  | load regs hra hv0 =>
    obtain ⟨w, hload, hbit⟩ := S.loadReady u
    rw [hready, hpoll] at *
    refine ⟨_, ?_, .return (regs.set .v0 w) (by simpa using hra) (by simpa using hbit)⟩
    simp [S.rxReady, BitVec.add_assoc, hv0, S.readyReg, hload]
  | «return» regs hra hv0 =>
    refine ⟨_, ?_, .mask regs hv0⟩
    simp [S.rxReady, hra]
  | mask regs hv0 =>
    refine ⟨_, ?_, .test (regs.set .v0 0#32) (by simp)⟩
    simp [S.rxReady, BitVec.add_assoc, hv0]
  | test regs hv0 =>
    refine ⟨_, ?_, .back regs⟩
    simp [S.getchar, BitVec.add_assoc, hv0]
  | back regs =>
    refine ⟨_, ?_, .call regs⟩
    simp [S.getchar, BitVec.add_assoc]

/-- From `s` on the machine comes to wait for ever, with nothing sent since, and memory that agrees
with `m`. -/
def Waits (P : Platform Uart) (base : Addr) (hidden : Addr → Prop) (m : Mem) (s : State Uart) :
    Prop :=
  ∃ mem u t, Steps (step P) s t ∧ Starving base mem u t ∧ u.rx = [] ∧ u.tx = s.dev.tx ∧
    Agree hidden m mem

theorem Waits.head {hidden : Addr → Prop} {m : Mem} {s t : State Uart}
    (hsteps : Steps (step P) s t) (htx : t.dev.tx = s.dev.tx) (h : Waits P base hidden m t) :
    Waits P base hidden m s := by
  obtain ⟨mem, u, v, hv, hstarving, hrx, hsent, hmem⟩ := h
  exact ⟨mem, u, v, hsteps.trans hv, hstarving, hrx, hsent.trans htx, hmem⟩

theorem Waits.mono {hidden hidden' : Addr → Prop} {m m' : Mem} {s : State Uart}
    (h : Waits P base hidden m s) (hsub : ∀ a, hidden a → hidden' a) (hm : Agree hidden' m' m) :
    Waits P base hidden' m' s := by
  obtain ⟨mem, u, v, hv, hstarving, hrx, hsent, hmem⟩ := h
  exact ⟨mem, u, v, hv, hstarving, hrx, hsent, hm.trans (hmem.mono hsub)⟩

theorem Waits.forever (S : Serial P base) (C : Cumulative P) {hidden : Addr → Prop} {m : Mem}
    {s : State Uart} (h : Waits P base hidden m s) :
    Diverges (step P) s ∧ (∀ t, Steps (step P) s t → t.dev.tx = s.dev.tx) ∧
      ∃ t, Steps (step P) s t ∧ ∀ v, Steps (step P) t v →
        Starving base v.mem v.dev v ∧ v.dev.input = [] ∧ Agree hidden m v.mem := by
  obtain ⟨mem, u, t, ht, hstarving, hrx, htx, hmem⟩ := h
  obtain ⟨hends, hstays⟩ := Diverges.closed (fun _ => Starving.next S hrx) hstarving
  have hdev {v : State Uart} (hv : Starving base mem u v) : v.mem = mem ∧ v.dev = u := by
    cases hv <;> exact ⟨rfl, rfl⟩
  refine ⟨hends.of_steps ht, fun v hv => ?_, t, ht, fun v hv => ?_⟩
  · rcases ht.total hv with htv | hvt
    · rw [(hdev (hstays v htv)).2, htx]
    · exact C.silent hv hvt (by rw [(hdev hstarving).2, htx])
  · obtain ⟨rfl, rfl⟩ := hdev (hstays v hv)
    exact ⟨hstays v hv, by simp [Uart.input, hrx], hmem⟩

end Polling

section Reader

theorem Serial.getchar_waits (S : Serial P base) (regs : Regs) (mem : Mem) (busy : ℕ)
    (tx : List Byte) (hsp : Stack P (regs.get .sp) 24) :
    Waits P base (Below (regs.get .sp) 24) mem
      ⟨regs, base + 0x12c#32, base + 0x130#32, mem, ⟨[], busy, tx⟩⟩ := by
  let mem' := mem.writeWord (regs.get .sp + 0xfffffff8#32) (regs.get .ra)
  refine ⟨mem', ⟨[], busy, tx⟩, _, Steps.of_run (n := 2) ?_,
    .call (regs.set .sp (regs.get .sp + 0xffffffe8#32)), rfl, rfl,
    Frame.write (Agree.refl _ mem) _ (by decide) (by decide)⟩
  simp [S.getchar, BitVec.add_assoc, hsp.plain, mem']

theorem Serial.getword_next (S : Serial P base) (regs : Regs) (mem : Mem) (u : Uart) :
    Steps (step P) ⟨regs, base + 0x194#32, base + 0x198#32, mem, u⟩
      ⟨regs.set .ra (base + 0x19c#32), base + 0x12c#32, base + 0x130#32, mem, u⟩ := by
  apply Steps.of_run (n := 2)
  simp [S.getword, BitVec.add_assoc, S.nextChar.run]

/-- The reader's loop waits where the bytes end before the number does. The induction is on the
bytes, each of which takes one round. -/
theorem getword_loop_waits (S : Serial P base) {caller : Regs} (busy : ℕ) (tx : List Byte)
    (hsp : Stack P (caller.get .sp + 0xffffffd0#32) 24) (rx : List (ℕ × Byte)) (count : ℕ)
    (acc : Word) (regs : Regs) (mem : Mem) (hcount : count < 16)
    (hr : ReaderRegs caller regs count acc)
    (hread : getwordFrom count acc (rx.map Prod.snd) = none) :
    Waits P base (Below (caller.get .sp + 0xffffffd0#32) 24) mem
      ⟨regs, base + 0x194#32, base + 0x198#32, mem, ⟨rx, busy, tx⟩⟩ := by
  induction rx generalizing count acc regs mem with
  | nil =>
    have hwaits := S.getchar_waits (regs.set .ra (base + 0x19c#32)) mem busy tx
      (by simpa [hr.sp] using hsp)
    rw [show (regs.set .ra (base + 0x19c#32)).get .sp = caller.get .sp + 0xffffffd0#32 by
      simp [hr.sp]] at hwaits
    exact hwaits.head (S.getword_next regs mem _) rfl
  | cons head rx ih =>
    obtain ⟨d, c⟩ := head
    obtain ⟨regs₁, mem₁, hget, hv0, hkeeps, hframe⟩ :=
      S.getchar_spec (regs.set .ra (base + 0x19c#32)) mem d c rx busy tx
        (by simpa [hr.sp] using hsp)
    have hr₁ : ReaderRegs caller regs₁ count acc := by
      constructor <;> simp [hkeeps.get, hr.s0, hr.s1, hr.s2, hr.s3, hr.s4, hr.s5, hr.s6, hr.s7,
        hr.s8, hr.gp, hr.sp]
    have hframe₁ : Frame (caller.get .sp + 0xffffffd0#32) 24 mem mem₁ := by
      simpa [hr.sp] using hframe
    have hstart := (S.getword_next regs mem _).trans hget
    simp [BitVec.add_assoc] at hstart
    simp only [List.map_cons, getwordFrom] at hread
    split_ifs at hread with hc hmore
    obtain ⟨regs₂, hbyte, hr₂⟩ := getword_byte S mem₁ ⟨rx, busy, tx⟩ hr₁ hcount hv0 hc
    have hslt := count_slt (readDigit_count_le c acc hcount)
    have hback : Steps (step P) ⟨regs₂, base + 0x224#32, base + 0x228#32, mem₁, ⟨rx, busy, tx⟩⟩
        ⟨regs₂.set .v0 1#32, base + 0x194#32, base + 0x198#32, mem₁, ⟨rx, busy, tx⟩⟩ := by
      apply Steps.of_run (n := 3)
      simp [S.getword, BitVec.add_assoc, hr₂.s0, hslt, hmore]
    have hrest := ih _ _ (regs₂.set .v0 1#32) mem₁ hmore (hr₂.keeps (by simp [Regs.keeps_iff]))
      hread
    exact (hrest.mono (fun _ => id) hframe₁).head (hstart.trans (hbyte.trans hback)) rfl

def readerSlots : Slots :=
  [(0xfffffff8#32, .ra), (0xfffffff4#32, .s5), (0xfffffff0#32, .s4), (0xffffffec#32, .s3),
   (0xffffffe8#32, .s2), (0xffffffe4#32, .s1), (0xffffffe0#32, .s0)]

theorem Serial.getword_waits (S : Serial P base) (regs : Regs) (mem : Mem) (u : Uart)
    (hsp : Stack P (regs.get .sp) 72) (hread : Console.getword u.input = none) :
    Waits P base (Below (regs.get .sp) 72) mem
      ⟨regs, base + 0x15c#32, base + 0x160#32, mem, u⟩ := by
  obtain ⟨rx, busy, tx⟩ := u
  generalize hsp₀ : regs.get .sp = sp at *
  have hentry : ∃ regs₁, Steps (step P)
      ⟨regs, base + 0x15c#32, base + 0x160#32, mem, ⟨rx, busy, tx⟩⟩
      ⟨regs₁, base + 0x194#32, base + 0x198#32, save mem sp regs readerSlots, ⟨rx, busy, tx⟩⟩ ∧
      ReaderRegs regs regs₁ 0 0#32 := by
    refine ⟨?entry, Steps.of_run (n := 14) ?run, ?post⟩
    case run =>
      simp [S.getword, BitVec.add_assoc, hsp.plain, hsp₀, save, readerSlots]
      rfl
    case post => constructor <;> simp [hsp₀]
  obtain ⟨regs₁, hentry, hr₁⟩ := hentry
  have hwaits := getword_loop_waits S busy tx
    (by rw [hsp₀]; exact hsp.callee (by decide) (by decide)) rx 0 0#32 regs₁
    (save mem sp regs readerSlots) (by decide) hr₁ hread
  rw [hsp₀] at hwaits
  have hsaved : Frame sp 72 mem (save mem sp regs readerSlots) :=
    save_frame (by decide) mem sp regs
  exact (hwaits.mono (fun _ ha => ha.mono (by decide)) hsaved).head hentry rfl

end Reader

section Numbers

def arrived : ℕ → List Byte → List Word
  | 0, _ => []
  | n + 1, input =>
    match getword input with
    | none => []
    | some (w, rest) => w :: arrived n rest

theorem arrived_none {input : List Byte} (h : getword input = none) (n : ℕ) :
    arrived n input = [] := by
  cases n <;> simp [arrived, h]

theorem arrived_cons {input rest : List Byte} {w : Word} (h : getword input = some (w, rest))
    (n : ℕ) : arrived (n + 1) input = w :: arrived n rest := by
  simp [arrived, h]

theorem getwords_none {n : ℕ} {input : List Byte} :
    getwords (n + 1) input = none ↔ getword input = none ∨
      ∃ w rest, getword input = some (w, rest) ∧ getwords n rest = none := by
  rw [getwords]
  cases getword input with
  | none => simp
  | some p =>
    obtain ⟨w, rest⟩ := p
    cases hn : getwords n rest <;> simp [hn]

theorem getwords_two (input : List Byte) : getwords 2 input = none ∨
    ∃ a b input₁ rest, getword input = some (a, input₁) ∧ getword input₁ = some (b, rest) := by
  cases ha : getword input with
  | none => exact Or.inl (getwords_none.mpr (Or.inl ha))
  | some p =>
    cases hb : getword p.2 with
    | none => exact Or.inl (getwords_none.mpr (Or.inr ⟨_, _, ha, getwords_none.mpr (Or.inl hb)⟩))
    | some q => exact Or.inr ⟨p.1, q.1, p.2, q.2, rfl, hb⟩

theorem getwords_three (input : List Byte) : getwords 3 input = none ∨
    ∃ a b c input₁ input₂ rest, getword input = some (a, input₁) ∧
      getword input₁ = some (b, input₂) ∧ getword input₂ = some (c, rest) := by
  cases ha : getword input with
  | none => exact Or.inl (getwords_none.mpr (Or.inl ha))
  | some p =>
    rcases getwords_two p.2 with hnone | ⟨b, c, input₂, rest, hb, hc⟩
    · exact Or.inl (getwords_none.mpr (Or.inr ⟨_, _, ha, hnone⟩))
    · exact Or.inr ⟨p.1, b, c, p.2, input₂, rest, rfl, hb, hc⟩

/-- After the return of a call at `pc` a handler goes on to read a number for each of the return
addresses, with the stack as it is. -/
def Asks (P : Platform Uart) (sp : Addr) : Addr → List Addr → Prop
  | _, [] => True
  | pc, next :: more =>
    (∀ regs mem u, regs.get .sp = sp → ∃ regs', Steps (step P) ⟨regs, pc, pc + 4#32, mem, u⟩
        ⟨regs', 0x1000048c#32, 0x10000490#32, mem, u⟩ ∧
      regs'.get .ra = next ∧ regs'.get .sp = sp) ∧ Asks P sp next more

theorem asks_waits (B : Board P) {sp : Addr} (hsp : Stack P sp 72) (returns : List Addr)
    {pc : Addr} (h : Asks P sp pc returns) (regs : Regs) (mem : Mem) (u : Uart)
    (hra : regs.get .ra = pc) (hregs : regs.get .sp = sp)
    (hread : getwords (returns.length + 1) u.input = none) :
    Waits P 0x10000330#32 (Below sp 72) mem ⟨regs, 0x1000048c#32, 0x10000490#32, mem, u⟩ := by
  induction returns generalizing pc regs mem u with
  | nil =>
    rcases getwords_none.mp hread with hnone | ⟨w, rest, -, hnil⟩
    · exact hregs ▸ B.serial.getword_waits regs mem u (by rwa [hregs]) hnone
    · simp [getwords] at hnil
  | cons next more ih =>
    rcases getwords_none.mp hread with hnone | ⟨w, rest, hw, hrest⟩
    · exact hregs ▸ B.serial.getword_waits regs mem u (by rwa [hregs]) hnone
    · obtain ⟨regs₁, mem₁, u₁, hget, -, hkeeps, hinput, htx, hframe⟩ :=
        getword_spec B regs mem u (by rwa [hregs]) hw
      rw [hra] at hget
      rw [hregs] at hframe
      obtain ⟨regs₂, hcall, hra₂, hsp₂⟩ :=
        h.1 regs₁ mem₁ u₁ (by rw [hkeeps.get (by simp), hregs])
      have hwaits := ih h.2 regs₂ mem₁ u₁ hra₂ hsp₂ (hinput ▸ hrest)
      exact (hwaits.mono (fun _ => id) hframe).head (hget.trans hcall) htx

theorem storeLoop_starves (B : Board P) {pc : Addr} (L : StoreLoop P pc) (regs : Regs) (mem : Mem)
    (u : Uart) {sp : Addr} (hregs : regs.get .sp = sp) (hsp : Stack P sp 72)
    (hnone : getword u.input = none) :
    Waits P 0x10000330#32 (Below sp 72) mem ⟨regs, pc, pc + 4#32, mem, u⟩ := by
  have hsegment := L.segment
  simp only [jumpTarget, BitVec.ofNat_eq_ofNat] at hsegment
  have hcall : Steps (step P) ⟨regs, pc, pc + 4#32, mem, u⟩
      ⟨regs.set .ra (pc + 8#32), 0x1000048c#32, 0x10000490#32, mem, u⟩ := by
    apply Steps.of_run (n := 2)
    simp [L.call, L.delay, hsegment]
  have hsp₁ : (regs.set .ra (pc + 8#32)).get .sp = sp := by simp [hregs]
  have hwaits := B.serial.getword_waits (regs.set .ra (pc + 8#32)) mem u (hsp₁ ▸ hsp) hnone
  exact (hsp₁ ▸ hwaits).head hcall rfl

/-- The store loop waits for the next word, with those stored that have arrived. The induction is
on the rounds still to come. -/
theorem storeLoop_waits (B : Board P) {pc : Addr} (L : StoreLoop P pc) (k : ℕ) (regs : Regs)
    (mem : Mem) (u : Uart) (hk : k < 4294967296) (hread : getwords k u.input = none)
    (hcount : regs.get .s2 = regs.get .s1 + BitVec.ofNat 32 k) {sp : Addr}
    (hregs : regs.get .sp = sp) (hsp : Stack P sp 72)
    (hput : ∀ j < (arrived k u.input).length, P.Plain (regs.get .s0 + BitVec.ofNat 32 (4 * j))) :
    Waits P 0x10000330#32 (Below sp 72) (mem.writeWords (regs.get .s0) (arrived k u.input))
      ⟨regs, pc, pc + 4#32, mem, u⟩ := by
  induction k generalizing regs mem u with
  | zero => simp [getwords] at hread
  | succ k ih =>
    rcases getwords_none.mp hread with hnone | ⟨w, rest, hw, hrest⟩
    · rw [arrived_none hnone]
      exact storeLoop_starves B L regs mem u hregs hsp hnone
    · rw [arrived_cons hw] at hput ⊢
      have hpos : k ≠ 0 := by
        rintro rfl
        simp [getwords] at hrest
      have hmore : regs.get .s2 ≠ regs.get .s1 + 1#32 := by
        rw [hcount]
        bv_omega
      obtain ⟨regs₁, mem₁, u₁, hround, hs0, hs1, hkeeps, hinput, htx, hframe⟩ :=
        storeLoop_round B L regs mem u hw (hregs ▸ hsp) (by simpa using hput 0 (by simp))
          (if_neg hmore).symm
      have hsp₁ : regs₁.get .sp = sp := by rw [hkeeps.get (by simp) (by simp), hregs]
      have hs2 : regs₁.get .s2 = regs.get .s2 := hkeeps.get (by simp) (by simp)
      have hwaits := ih regs₁ mem₁ u₁ (by omega) (hinput ▸ hrest)
        (by rw [hs2, hs1, hcount]; bv_omega) hsp₁ (by
          rw [hinput]
          intro j hj
          have := hput (j + 1) (by simpa using hj)
          rwa [hs0, show regs.get .s0 + 4#32 + BitVec.ofNat 32 (4 * j) =
            regs.get .s0 + BitVec.ofNat 32 (4 * (j + 1)) by bv_omega])
      rw [hs0, hinput] at hwaits
      rw [hregs] at hframe
      exact (hwaits.mono (fun _ => id) (Agree.writeWords hframe _ _)).head hround htx

end Numbers

section Commands

variable {sp : Addr} {hidden : Addr → Prop}

structure Handler (P : Platform Uart) (sp entry : Addr) (frame : Word) (slots : Slots)
    (first : Addr) (returns : List Addr) : Prop where
  enter : ∀ regs mem u, regs.get .sp = sp → ∃ regs', Steps (step P)
      ⟨regs, entry, entry + 4#32, mem, u⟩
      ⟨regs', 0x1000048c#32, 0x10000490#32, save mem sp regs slots, u⟩ ∧
    regs'.get .ra = first ∧ regs'.get .sp = sp + frame
  asks : Asks P (sp + frame) first returns

theorem handler_w (B : Board P) (hsp : Stack P sp 104) :
    Handler P sp 0x100006d4#32 0xffffffe0#32 storeSlots 0x100006ec#32 [0x100006f4#32] where
  enter regs mem u hregs := by
    refine ⟨(regs.set .sp (sp + 0xffffffe0#32)).set .ra 0x100006ec#32, Steps.of_run (n := 6) ?_,
      by simp, by simp⟩
    simp [commandW_listing B.toHolds, BitVec.add_assoc, hregs, hsp.plain, save]
  asks := by
    refine ⟨fun regs mem u hregs => ⟨(regs.set .ra 0x100006f4#32).set .s0 (regs.get .v0),
      Steps.of_run (n := 2) ?_, by simp, by simp [hregs]⟩, trivial⟩
    simp [commandW_listing B.toHolds]

theorem handler_s (B : Board P) (hsp : Stack P sp 104) :
    Handler P sp 0x10000660#32 0xffffffe0#32 storeSlots 0x10000678#32
      [0x10000680#32, 0x10000688#32] where
  enter regs mem u hregs := by
    refine ⟨(regs.set .sp (sp + 0xffffffe0#32)).set .ra 0x10000678#32, Steps.of_run (n := 6) ?_,
      by simp, by simp⟩
    simp [commandS_listing B.toHolds, BitVec.add_assoc, hregs, hsp.plain, save]
  asks := by
    refine ⟨fun regs mem u hregs => ⟨(regs.set .ra 0x10000680#32).set .s0 (regs.get .v0),
      Steps.of_run (n := 2) ?_, by simp, by simp [hregs]⟩,
      fun regs mem u hregs => ⟨(regs.set .ra 0x10000688#32).set .s1 (regs.get .v0),
        Steps.of_run (n := 2) ?_, by simp, by simp [hregs]⟩, trivial⟩ <;>
      simp [commandS_listing B.toHolds]

theorem handler_r (B : Board P) (hsp : Stack P sp 112) :
    Handler P sp 0x10000884#32 0xffffffd8#32 printSlots 0x100008a0#32 [0x100008a8#32] where
  enter regs mem u hregs := by
    refine ⟨(regs.set .sp (sp + 0xffffffd8#32)).set .ra 0x100008a0#32, Steps.of_run (n := 7) ?_,
      by simp, by simp⟩
    simp [commandR_listing B.toHolds, BitVec.add_assoc, hregs, hsp.plain, save]
  asks := by
    refine ⟨fun regs mem u hregs => ⟨(regs.set .ra 0x100008a8#32).set .s0 (regs.get .v0),
      Steps.of_run (n := 2) ?_, by simp, by simp [hregs]⟩, trivial⟩
    simp [commandR_listing B.toHolds]

theorem handler_l (B : Board P) (hsp : Stack P sp 112) :
    Handler P sp 0x10000738#32 0xffffffd8#32 printSlots 0x10000754#32
      [0x1000075c#32, 0x10000764#32] where
  enter regs mem u hregs := by
    refine ⟨(regs.set .sp (sp + 0xffffffd8#32)).set .ra 0x10000754#32, Steps.of_run (n := 7) ?_,
      by simp, by simp⟩
    simp [commandL_listing B.toHolds, BitVec.add_assoc, hregs, hsp.plain, save]
  asks := by
    refine ⟨fun regs mem u hregs => ⟨(regs.set .ra 0x1000075c#32).set .s0 (regs.get .v0),
      Steps.of_run (n := 2) ?_, by simp, by simp [hregs]⟩,
      fun regs mem u hregs => ⟨(regs.set .ra 0x10000764#32).set .s1 (regs.get .v0),
        Steps.of_run (n := 2) ?_, by simp, by simp [hregs]⟩, trivial⟩ <;>
      simp [commandL_listing B.toHolds]

theorem Handler.waits (B : Board P) {entry first : Addr} {frame : Word} {slots : Slots}
    {returns : List Addr} {n : ℕ} (H : Handler P sp entry frame slots first returns)
    (hsp : Stack P sp n) (hframe : frame.toNat % 4 = 0) (hn : (-frame).toNat + 72 ≤ n)
    (hslots : slots.Within n) (hhide : ∀ x, Below sp n x → hidden x) (regs : Regs) (mem : Mem)
    (u : Uart) (hregs : regs.get .sp = sp)
    (hread : getwords (returns.length + 1) u.input = none) :
    Waits P 0x10000330#32 hidden mem ⟨regs, entry, entry + 4#32, mem, u⟩ := by
  obtain ⟨regs₁, henter, hra, hsp₁⟩ := H.enter regs mem u hregs
  have hwaits := asks_waits B (hsp.callee hframe hn) returns H.asks regs₁
    (save mem sp regs slots) u hra hsp₁ hread
  have hsaved : Frame sp n mem (save mem sp regs slots) := save_frame hslots mem sp regs
  exact (hwaits.mono (fun x hx => hhide x (hx.mono hn)) (hsaved.mono hhide)).head henter rfl

/-- The store command that the bytes after its letter begin, with the words that have arrived, once
all numbers before the words have. -/
def begun (letter : Byte) (input : List Byte) : Option Command :=
  if letter = 119#8 then
    match getwords 2 input with
    | some ([addr, n], rest) => some (.w addr (arrived n.toNat rest))
    | _ => none
  else if letter = 115#8 then
    match getwords 3 input with
    | some ([ptr, off, n], rest) => some (.s ptr off (arrived n.toNat rest))
    | _ => none
  else none

def begunMem (letter : Byte) (input : List Byte) (m : Mem) : Mem :=
  (begun letter input).elim m (Command.store m)

theorem commandW_waits (B : Board P) (hsp : Stack P sp 104) (hhide : ∀ x, Below sp 104 x → hidden x)
    (regs : Regs) (mem : Mem) (u : Uart) (hregs : regs.get .sp = sp)
    (hread : Console.commandW u.input = none)
    (hspan : ∀ addr words, begun 119#8 u.input = some (.w addr words) →
      Span P hidden addr words.length) :
    Waits P 0x10000330#32 hidden (begunMem 119#8 u.input mem)
      ⟨regs, 0x100006d4#32, 0x100006d8#32, mem, u⟩ := by
  rcases getwords_two u.input with hnone | ⟨addr, n, input₁, rest, haddr, hn⟩
  · simp only [begunMem, begun, hnone, if_true, Option.elim]
    exact (handler_w B hsp).waits B hsp (by decide) (by decide) (by decide) hhide regs mem u hregs
      hnone
  · have htwo : getwords 2 u.input = some ([addr, n], rest) := by simp [getwords, haddr, hn]
    have hwords : getwords n.toNat rest = none := by
      cases hall : getwords n.toNat rest with
      | none => rfl
      | some p => simp [Console.commandW, haddr, hn, hall] at hread
    have hbegun : begun 119#8 u.input = some (.w addr (arrived n.toNat rest)) := by
      simp [begun, htwo]
    have hpos : n ≠ 0#32 := by
      rintro rfl
      simp [getwords] at hwords
    obtain ⟨third, mem₂, u₂, hhead, hs0, hs1, hs2, hsp₃, -, hinput₂, htx₂, hframe₂⟩ :=
      commandW_numbers B regs mem u haddr hn hregs hsp
    have hplain := hspan addr _ hbegun
    simp only [hpos, if_false] at hhead
    have hwaits := storeLoop_waits B (storeLoop_w B.toHolds) n.toNat third mem₂ u₂ (by omega)
      (hinput₂ ▸ hwords) (by rw [hs2, hs1 hpos]; simp) hsp₃ (hsp.callee (by decide) (by decide))
      (by rw [hinput₂, hs0]; exact fun j hj => hplain.word hj)
    rw [hinput₂, hs0] at hwaits
    simp only [begunMem, hbegun, Option.elim]
    refine (hwaits.mono (fun x hx => hhide x (hx.mono (by decide))) ?_).head hhead htx₂
    exact ((store_entry_frame hframe₂).mono hhide).writeWords addr _

theorem commandS_waits (B : Board P) (hsp : Stack P sp 104) (hhide : ∀ x, Below sp 104 x → hidden x)
    (regs : Regs) (mem : Mem) (u : Uart) (hregs : regs.get .sp = sp)
    (hread : Console.commandS u.input = none)
    (hspan : ∀ ptr off words, begun 115#8 u.input = some (.s ptr off words) →
      Span P hidden ptr 1 ∧ Span P hidden (off + mem.readWord ptr) words.length) :
    Waits P 0x10000330#32 hidden (begunMem 115#8 u.input mem)
      ⟨regs, 0x10000660#32, 0x10000664#32, mem, u⟩ := by
  have hletter : (115#8 : Byte) ≠ 119#8 := by decide
  rcases getwords_three u.input with hnone |
    ⟨ptr, off, n, input₁, input₂, rest, hptr, hoff, hn⟩
  · simp only [begunMem, begun, hnone, hletter, if_true, if_false, Option.elim]
    exact (handler_s B hsp).waits B hsp (by decide) (by decide) (by decide) hhide regs mem u hregs
      hnone
  · have hthree : getwords 3 u.input = some ([ptr, off, n], rest) := by
      simp [getwords, hptr, hoff, hn]
    have hwords : getwords n.toNat rest = none := by
      cases hall : getwords n.toNat rest with
      | none => rfl
      | some p => simp [Console.commandS, hptr, hoff, hn, hall] at hread
    have hbegun : begun 115#8 u.input = some (.s ptr off (arrived n.toNat rest)) := by
      simp [begun, hthree]
    have hpos : n ≠ 0#32 := by
      rintro rfl
      simp [getwords] at hwords
    obtain ⟨hpointer, hplain⟩ := hspan ptr off _ hbegun
    obtain ⟨fourth, mem₃, u₃, hhead, hs0, hs1, hs2, hsp₄, -, hinput₃, htx₃, hframe₃⟩ :=
      commandS_numbers B regs mem u hptr hoff hn hregs hsp hpointer hhide
    simp only [hpos, if_false] at hhead
    have hwaits := storeLoop_waits B (storeLoop_s B.toHolds) n.toNat fourth mem₃ u₃ (by omega)
      (hinput₃ ▸ hwords) (by rw [hs2, hs1 hpos]; simp) hsp₄ (hsp.callee (by decide) (by decide))
      (by rw [hinput₃, hs0]; exact fun j hj => hplain.word hj)
    rw [hinput₃, hs0] at hwaits
    simp only [begunMem, hbegun, Option.elim]
    refine (hwaits.mono (fun x hx => hhide x (hx.mono (by decide))) ?_).head hhead htx₃
    exact ((store_entry_frame hframe₃).mono hhide).writeWords _ _

end Commands

section Console

variable {sp : Addr} {hidden : Addr → Prop} {c c' : Session} {s : State Uart}

def begunCommand (c : Session) : Option Command :=
  match c.input with
  | [] => none
  | letter :: input => begun letter input

def waitMem (c : Session) : Mem := (begunCommand c).elim c.mem (Command.store c.mem)

theorem begun_store {letter : Byte} {input : List Byte} {cmd : Command}
    (h : begun letter input = some cmd) :
    (∃ addr words, letter = 119#8 ∧ cmd = .w addr words) ∨
      ∃ ptr off words, letter = 115#8 ∧ cmd = .s ptr off words := by
  unfold begun at h
  split_ifs at h with hw hs
  · split at h
    next => exact Or.inl ⟨_, _, hw, (Option.some.inj h).symm⟩
    next => cases h
  · split at h
    next => exact Or.inr ⟨_, _, _, hs, (Option.some.inj h).symm⟩
    next => cases h

theorem Safe.load {m m' : Mem} {ptr off : Addr} {words : List Word}
    (h : Safe P hidden m (.s ptr off words)) (hm : Agree hidden m m') :
    m'.readWord ptr = m.readWord ptr :=
  hm.readWord fun i hi => ((h.pointer ptr rfl).plain _ (by unfold InRange; bv_omega)).2.2

theorem begunMem_agree {letter : Byte} {input : List Byte} {m m' : Mem} (hm : Agree hidden m m')
    (hsafe : ∀ cmd, begun letter input = some cmd → Safe P hidden m cmd) :
    Agree hidden (begunMem letter input m) (begunMem letter input m') := by
  unfold begunMem
  cases hcmd : begun letter input with
  | none => exact hm
  | some cmd =>
    rcases begun_store hcmd with ⟨addr, words, -, rfl⟩ | ⟨ptr, off, words, -, rfl⟩
    · exact hm.writeWords addr words
    · have hload := (hsafe _ hcmd).load hm
      simp only [Option.elim, Command.store, Command.target, hload]
      exact hm.writeWords _ words

theorem prompt_empty {hidden : Addr → Prop} (B : Board P) (hs : AtPrompt hidden sp c s)
    (hstack : Stack P sp 24) (hhidden : ∀ x, Below sp 24 x → hidden x) (hinput : c.input = []) :
    Waits P 0x10000330#32 hidden c.mem s := by
  obtain ⟨regs, pc, npc, mem, rx, busy, tx⟩ := s
  obtain ⟨rfl, rfl, rfl, hrx, -, hmem⟩ := hs
  obtain rfl : rx = [] := by simpa [Uart.input, hinput] using hrx
  have hcall : Steps (step P) ⟨regs, 0x10000fb4#32, 0x10000fb8#32, mem, ⟨[], busy, tx⟩⟩
      ⟨regs.set .ra 0x10000fbc#32, 0x1000045c#32, 0x10000460#32, mem, ⟨[], busy, tx⟩⟩ := by
    apply Steps.of_run (n := 2)
    simp [console_listing B.toHolds]
  have hwaits := B.serial.getchar_waits (regs.set .ra 0x10000fbc#32) mem busy tx
    (by simpa using hstack)
  have hsp : (regs.set .ra 0x10000fbc#32).get .sp = regs.get .sp := by simp
  rw [hsp] at hwaits
  exact (hwaits.mono hhidden hmem).head hcall rfl

theorem commandR_none {input : List Byte} (h : Console.commandR input = none) :
    getwords 2 input = none := by
  rcases getwords_two input with hnone | ⟨addr, n, input₁, rest, haddr, hn⟩
  · exact hnone
  · simp [Console.commandR, haddr, hn] at h

theorem commandL_none {input : List Byte} (h : Console.commandL input = none) :
    getwords 3 input = none := by
  rcases getwords_three input with hnone |
    ⟨ptr, off, n, input₁, input₂, rest, hptr, hoff, hn⟩
  · exact hnone
  · simp [Console.commandL, hptr, hoff, hn] at h

theorem prompt_waits (K : ConsoleBoard P sp) (hs : AtPrompt (Scratch sp 112) sp c s)
    (hstuck : dispatch c = none) (hletter : ∀ b ∈ c.input.head?, ¬ Other b)
    (hsafe : ∀ cmd, begunCommand c = some cmd → Safe P (Scratch sp 112) c.mem cmd) :
    Waits P 0x10000330#32 (Scratch sp 112) (waitMem c) s := by
  have hhide (n : ℕ) (hn : n ≤ 112) (x : Addr) (hx : Below sp n x) : Scratch sp 112 x :=
    Or.inl (hx.weaken (by omega))
  cases hinput : c.input with
  | nil =>
    simpa [waitMem, begunCommand, hinput] using
      prompt_empty K.toBoard hs (K.stack.weaken (by omega)) (hhide 24 (by omega)) hinput
  | cons letter input =>
    have hparse : parse letter input = none := by simpa [dispatch, hinput] using hstuck
    have hother : ¬ Other letter := hletter letter (by simp [hinput])
    have hmemory : waitMem c = begunMem letter input c.mem := by
      simp [waitMem, begunMem, begunCommand, hinput]
    have hcmd (cmd : Command) (h : begun letter input = some cmd) :
        Safe P (Scratch sp 112) c.mem cmd := hsafe cmd (by simpa [begunCommand, hinput] using h)
    obtain ⟨regs₁, mem₁, u₁, hprompt, hsp₁, hin₁, htx₁, hmem₁⟩ :=
      prompt_spec K.toBoard hs (K.stack.weaken (by omega)) (hhide 24 (by omega)) hinput
    have hagree := begunMem_agree hmem₁ hcmd
    rw [hmemory]
    suffices hwaits : Waits P 0x10000330#32 (Scratch sp 112) (begunMem letter input mem₁)
        ⟨regs₁, handler letter, handler letter + 4#32, mem₁, u₁⟩ from
      (hwaits.mono (fun _ => id) hagree).head hprompt (htx₁.trans hs.output.symm)
    unfold parse at hparse
    split_ifs at hparse with hw hs' hr hl
    · have hread : Console.commandW u₁.input = none := by simpa [hin₁] using hparse
      have hwaits := commandW_waits K.toBoard (K.stack.weaken (by omega)) (hhide 104 (by omega))
        (regs₁.set .ra 0x10000ff4#32) mem₁ u₁ (by simpa using hsp₁) hread
        fun addr words h => (hcmd (.w addr words) (by rw [hw, ← hin₁]; exact h)).span
      rw [hin₁] at hwaits
      exact hw ▸ hwaits.head ((call_w K.toHolds).enter regs₁ mem₁ u₁) rfl
    · have hread : Console.commandS u₁.input = none := by simpa [hin₁] using hparse
      have hwaits := commandS_waits K.toBoard (K.stack.weaken (by omega)) (hhide 104 (by omega))
        (regs₁.set .ra 0x10001024#32) mem₁ u₁ (by simpa using hsp₁) hread
        fun ptr off words h => by
          have hs := hcmd (.s ptr off words) (by rw [hs', ← hin₁]; exact h)
          exact ⟨hs.pointer ptr rfl, hs.load hmem₁ ▸ hs.span⟩
      rw [hin₁] at hwaits
      exact hs' ▸ hwaits.head ((call_s K.toHolds).enter regs₁ mem₁ u₁) rfl
    · have hread : Console.commandR u₁.input = none := by simpa [hin₁] using hparse
      have hwaits := (handler_r K.toBoard K.stack).waits K.toBoard K.stack (by decide) (by decide)
        (by decide) (hhide 112 (by omega)) (regs₁.set .ra 0x10001004#32) mem₁ u₁
        (by simpa using hsp₁) (commandR_none hread)
      have hbegun : begunMem letter input mem₁ = mem₁ := by simp [begunMem, begun, hw, hs']
      exact hbegun ▸ hr ▸ hwaits.head ((call_r K.toHolds).enter regs₁ mem₁ u₁) rfl
    · have hread : Console.commandL u₁.input = none := by simpa [hin₁] using hparse
      have hwaits := (handler_l K.toBoard K.stack).waits K.toBoard K.stack (by decide) (by decide)
        (by decide) (hhide 112 (by omega)) (regs₁.set .ra 0x10001034#32) mem₁ u₁
        (by simpa using hsp₁) (commandL_none hread)
      have hbegun : begunMem letter input mem₁ = mem₁ := by simp [begunMem, begun, hw, hs']
      exact hbegun ▸ hl ▸ hwaits.head ((call_l K.toHolds).enter regs₁ mem₁ u₁) rfl

/-- After the rounds that the bytes that arrived make up, the machine is in the polling loop of
`getchar` for ever. It has sent no more than the answers of these rounds, and stored the words that
arrived of a command still unfinished. -/
theorem console_waits (K : ConsoleBoard P sp) (C : Cumulative P)
    (hs : AtPrompt (Scratch sp 112) sp c s)
    (hrun : Relation.ReflTransGen
      (fun a b => dispatch a = some b ∧ Allowed P (Scratch sp 112) a) c c')
    (hstuck : dispatch c' = none) (hletter : ∀ b ∈ c'.input.head?, ¬ Other b)
    (hsafe : ∀ cmd, begunCommand c' = some cmd → Safe P (Scratch sp 112) c'.mem cmd) :
    Diverges (step P) s ∧ (∀ t, Steps (step P) s t → t.dev.tx <+: c'.output) ∧
      ∃ t, Steps (step P) s t ∧ ∀ v, Steps (step P) t v →
        Starving 0x10000330#32 v.mem v.dev v ∧ v.dev.input = [] ∧ v.dev.tx = c'.output ∧
        Agree (Scratch sp 112) (waitMem c') v.mem := by
  obtain ⟨s', hsteps, hs'⟩ := console_refines K hs hrun
  obtain ⟨hends, hsilent, t, ht, hstays⟩ :=
    (prompt_waits K hs' hstuck hletter hsafe).forever K.serial C
  refine ⟨hends.of_steps hsteps, fun v hv => ?_, t, hsteps.trans ht, fun v hv => ?_⟩
  · rcases hsteps.total hv with hafter | hbefore
    · exact (hsilent v hafter).trans hs'.output ▸ List.prefix_rfl
    · exact hs'.output ▸ C.steps hbefore
  · obtain ⟨hpolls, hinput, hmem⟩ := hstays v hv
    exact ⟨hpolls, hinput, (hsilent v (ht.trans hv)).trans hs'.output, hmem⟩

def lateWord : List Byte := [119, 49, 48, 48, 32, 50, 32, 49, 49, 32]

def benchLate : Session :=
  ⟨lateWord, (interpret (fun _ => 0#8) (scriptCommands benchScript)).1,
    [] ++ (interpret (fun _ => 0#8) (scriptCommands benchScript)).2⟩

theorem console_waits_bench :
    Diverges (step bench) (benchPrompt (fun _ => 0#8) (scriptText benchScript ++ lateWord)) ∧
      (∀ t, Steps (step bench) (benchPrompt (fun _ => 0#8) (scriptText benchScript ++ lateWord)) t →
        t.dev.tx <+: benchLate.output) ∧
      ∃ t, Steps (step bench) (benchPrompt (fun _ => 0#8) (scriptText benchScript ++ lateWord)) t ∧
        ∀ v, Steps (step bench) t v →
          Starving 0x10000330#32 v.mem v.dev v ∧ v.dev.input = [] ∧ v.dev.tx = benchLate.output ∧
          Agree (Scratch 0x01000f00#32 112) (waitMem benchLate) v.mem :=
  console_waits bench_console bench_cumulative
    (c := ⟨scriptText benchScript ++ lateWord, fun _ => 0#8, []⟩)
    ⟨rfl, rfl, rfl, benchPrompt_input _ _, rfl, Agree.refl _ _⟩
    (script_rounds benchScript (fun _ => 0#8) [] lateWord
      ⟨.direct rfl (bench_span (by decide) (by decide)),
        .direct rfl (bench_span (by decide) (by decide)), trivial⟩) rfl (by decide)
    fun cmd hcmd => by
      obtain rfl : Command.w 0x100#32 [0x11#32] = cmd := Option.some.inj (hcmd.symm ▸ rfl)
      exact .direct rfl (bench_span (by decide) (by decide))

end Console

section Unfinished

variable {sp : Addr} {xs ys : List Byte} {m : Mem}

def firstWords (k : ℕ) : Command → Command
  | .w addr words => .w addr (words.take k)
  | .s ptr off words => .s ptr off (words.take k)
  | cmd => cmd

def storeCount : Command → ℕ
  | .w _ words => words.length
  | .s _ _ words => words.length
  | _ => 0

theorem firstWords_safe {hidden : Addr → Prop} {cmd : Command} (h : Safe P hidden m cmd) (k : ℕ) :
    Safe P hidden m (firstWords k cmd) := by
  have hspan := h.span
  cases cmd with
  | w addr words => exact .direct rfl (hspan.first (by simp [firstWords, Command.count]))
  | s ptr off words =>
    exact ⟨h.pointer, hspan.first (by simp [firstWords, Command.count])⟩
  | r addr n => exact h
  | l ptr off n => exact h

theorem arrived_take {n : ℕ} {words : List Word} (hys : ys ≠ [])
    (h : getwords n (xs ++ ys) = some (words, [])) : ∃ k < n, arrived n xs = words.take k := by
  induction n generalizing xs words with
  | zero => simp [getwords, hys] at h
  | succ n ih =>
    obtain ⟨w, input, ws, hw, hws, rfl⟩ := getwords_succ.mp h
    cases hx : getword xs with
    | none => exact ⟨0, by omega, by simp [arrived, hx]⟩
    | some p =>
      have hmore := getword_append hx ys
      obtain ⟨rfl, rfl⟩ : w = p.1 ∧ input = p.2 ++ ys := by simpa [hw] using hmore
      obtain ⟨k, hk, harrived⟩ := ih hws
      exact ⟨k + 1, by omega, by rw [arrived_cons hx, harrived, List.take_succ_cons]⟩

theorem begun_unfinished {letter : Byte} {cmd cmd' : Command} (hys : ys ≠ [])
    (hparse : parse letter (xs ++ ys) = some (some cmd, []))
    (hbegun : begun letter xs = some cmd') :
    ∃ k < storeCount cmd, cmd' = firstWords k cmd := by
  rcases begun_store hbegun with ⟨addr', words', rfl, -⟩ | ⟨ptr', off', words', rfl, -⟩
  · have hread : Console.commandW (xs ++ ys) = some (cmd, []) := by simpa [parse] using hparse
    obtain ⟨addr, input₁, n, input₂, words, haddr, hn, hwords, rfl⟩ := commandW_eq hread
    rcases getwords_two xs with hnone | ⟨addr'', n', input₁', rest, haddr', hn'⟩
    · simp [begun, hnone] at hbegun
    · have htwo : getwords 2 xs = some ([addr'', n'], rest) := by simp [getwords, haddr', hn']
      obtain ⟨rfl, rfl⟩ : addr = addr'' ∧ input₁ = input₁' ++ ys := by
        simpa [haddr] using getword_append haddr' ys
      obtain ⟨rfl, rfl⟩ : n = n' ∧ input₂ = rest ++ ys := by
        simpa [hn] using getword_append hn' ys
      obtain ⟨k, hk, harrived⟩ := arrived_take hys hwords
      refine ⟨k, by simpa [storeCount, getwords_length hwords] using hk, ?_⟩
      simpa [begun, htwo, firstWords, harrived] using hbegun.symm
  · have hread : Console.commandS (xs ++ ys) = some (cmd, []) := by simpa [parse] using hparse
    obtain ⟨ptr, input₁, off, input₂, n, input₃, words, hptr, hoff, hn, hwords, rfl⟩ :=
      commandS_eq hread
    rcases getwords_three xs with hnone |
      ⟨ptr'', off'', n', input₁', input₂', rest, hptr', hoff', hn'⟩
    · simp [begun, hnone] at hbegun
    · have hthree : getwords 3 xs = some ([ptr'', off'', n'], rest) := by
        simp [getwords, hptr', hoff', hn']
      obtain ⟨rfl, rfl⟩ : ptr = ptr'' ∧ input₁ = input₁' ++ ys := by
        simpa [hptr] using getword_append hptr' ys
      obtain ⟨rfl, rfl⟩ : off = off'' ∧ input₂ = input₂' ++ ys := by
        simpa [hoff] using getword_append hoff' ys
      obtain ⟨rfl, rfl⟩ : n = n' ∧ input₃ = rest ++ ys := by
        simpa [hn] using getword_append hn' ys
      obtain ⟨k, hk, harrived⟩ := arrived_take hys hwords
      refine ⟨k, by simpa [storeCount, getwords_length hwords] using hk, ?_⟩
      simpa [begun, hthree, firstWords, harrived] using hbegun.symm

theorem parse_other {letter : Byte} {input : List Byte} {p : Option Command × List Byte}
    (h : parse letter input = some p) : ¬ Other letter := by
  rintro (rfl | rfl | rfl | rfl) <;> simp [parse, Other] at h

theorem waitMem_unfinished {letter : Byte} {cmd : Command} {out : List Byte} (hys : ys ≠ [])
    (hparse : parse letter (xs ++ ys) = some (some cmd, [])) :
    (begunCommand ⟨letter :: xs, m, out⟩ = none ∧ waitMem ⟨letter :: xs, m, out⟩ = m) ∨
      ∃ k < storeCount cmd, begunCommand ⟨letter :: xs, m, out⟩ = some (firstWords k cmd) ∧
        waitMem ⟨letter :: xs, m, out⟩ = (firstWords k cmd).store m := by
  cases hbegun : begun letter xs with
  | none => exact Or.inl (by simp [waitMem, begunCommand, hbegun])
  | some cmd' =>
    obtain ⟨k, hk, rfl⟩ := begun_unfinished hys hparse hbegun
    exact Or.inr ⟨k, hk, by simp [waitMem, begunCommand, hbegun]⟩

/-- A command some of whose bytes are missing is never answered: the machine comes to poll for ever,
has sent nothing, and of the words to store it has stored the first ones, not all. -/
theorem unfinished_waits (K : ConsoleBoard P sp) (C : Cumulative P) (c : Spelled)
    (htext : c.text = xs ++ ys) (hys : ys ≠ []) (s : State Uart) (hpc : s.pc = 0x10000fb4#32)
    (hnpc : s.npc = 0x10000fb8#32) (hsp : s.regs.get .sp = sp) (hinput : s.dev.input = xs)
    (hsafe : Safe P (Scratch sp 112) s.mem c.command) :
    Diverges (step P) s ∧ (∀ t, Steps (step P) s t → t.dev.tx = s.dev.tx) ∧
      ∃ m, (m = s.mem ∨ ∃ k < storeCount c.command, m = (firstWords k c.command).store s.mem) ∧
        ∃ t, Steps (step P) s t ∧ ∀ v, Steps (step P) t v →
          Starving 0x10000330#32 v.mem v.dev v ∧ v.dev.input = [] ∧
          ∀ a, ¬ Scratch sp 112 a → v.mem a = m a := by
  have hs : AtPrompt (Scratch sp 112) sp ⟨xs, s.mem, s.dev.tx⟩ s :=
    ⟨hpc, hnpc, hsp, hinput, rfl, Agree.refl _ _⟩
  obtain ⟨letter, input, hsplit, hparse⟩ := parse_spelled c []
  rw [List.append_nil] at hsplit
  have hstuck : dispatch ⟨xs, s.mem, s.dev.tx⟩ = none :=
    dispatch_waits hparse (hsplit.symm.trans htext) hys _ _
  have hmine : ∀ b ∈ xs.head?, ¬ Other b := by
    intro b hb
    obtain ⟨tail, rfl⟩ : ∃ tail, xs = b :: tail := by
      cases xs with
      | nil => simp at hb
      | cons x tail => exact ⟨tail, by simpa using hb⟩
    obtain ⟨rfl, -⟩ : letter = b ∧ input = tail ++ ys := by simpa [htext] using hsplit.symm
    exact parse_other hparse
  have hbegun : (begunCommand ⟨xs, s.mem, s.dev.tx⟩ = none ∧
      waitMem ⟨xs, s.mem, s.dev.tx⟩ = s.mem) ∨ ∃ k < storeCount c.command,
        begunCommand ⟨xs, s.mem, s.dev.tx⟩ = some (firstWords k c.command) ∧
          waitMem ⟨xs, s.mem, s.dev.tx⟩ = (firstWords k c.command).store s.mem := by
    cases xs with
    | nil => exact Or.inl ⟨rfl, rfl⟩
    | cons b tail =>
      obtain ⟨rfl, rfl⟩ : letter = b ∧ input = tail ++ ys := by simpa [htext] using hsplit.symm
      exact waitMem_unfinished hys hparse
  have hallowed : ∀ cmd, begunCommand ⟨xs, s.mem, s.dev.tx⟩ = some cmd →
      Safe P (Scratch sp 112) s.mem cmd := by
    intro cmd hcmd
    rcases hbegun with ⟨hnone, -⟩ | ⟨k, -, hsome, -⟩
    · rw [hnone] at hcmd
      cases hcmd
    · obtain rfl : firstWords k c.command = cmd := Option.some.inj (hsome.symm.trans hcmd)
      exact firstWords_safe hsafe k
  obtain ⟨hends, hsent, t, ht, hstays⟩ :=
    (prompt_waits K hs hstuck hmine hallowed).forever K.serial C
  refine ⟨hends, hsent, waitMem ⟨xs, s.mem, s.dev.tx⟩, ?_, t, ht, hstays⟩
  rcases hbegun with ⟨-, hmem⟩ | ⟨k, hk, -, hmem⟩
  · exact Or.inl hmem
  · exact Or.inr ⟨k, hk, hmem⟩

def twoWords : Spelled :=
  .w ⟨[2, 0, 0].map (digit false), 32#8, by decide, blank_ends⟩
    ⟨[2].map (digit false), 32#8, by decide, blank_ends⟩
    [⟨[1, 1].map (digit false), 32#8, by decide, blank_ends⟩,
      ⟨[2, 2].map (digit false), 32#8, by decide, blank_ends⟩] (by decide)

theorem unfinished_waits_bench :
    Diverges (step bench) (benchPrompt (fun _ => 0#8) (twoWords.text.take 12)) ∧
      (∀ t, Steps (step bench) (benchPrompt (fun _ => 0#8) (twoWords.text.take 12)) t →
        t.dev.tx = []) ∧
      ∃ m, (m = (fun _ => 0#8) ∨ ∃ k < storeCount twoWords.command,
          m = (firstWords k twoWords.command).store fun _ => 0#8) ∧
        ∃ t, Steps (step bench) (benchPrompt (fun _ => 0#8) (twoWords.text.take 12)) t ∧
          ∀ v, Steps (step bench) t v →
            Starving 0x10000330#32 v.mem v.dev v ∧ v.dev.input = [] ∧
            ∀ a, ¬ Scratch 0x01000f00#32 112 a → v.mem a = m a :=
  unfinished_waits bench_console bench_cumulative twoWords (List.take_append_drop 12 _).symm
    (by decide) (benchPrompt (fun _ => 0#8) (twoWords.text.take 12)) rfl rfl rfl
    (benchPrompt_input _ _) (.direct rfl (bench_span (by decide) (by decide)))

end Unfinished

end W2
