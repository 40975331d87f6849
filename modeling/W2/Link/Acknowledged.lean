import W2.Link.Decoding
import W2.Firmware.Register
import W2.Host.Upload

/-!
# What an acknowledgement proves

The requests of a session, fed to the machine code one after the other with any timing: words for
device registers, and the words of the image. Whatever the machine is doing, it has sent one 0x06
for each of the first requests, and what these put into memory is there: it stores only where the
request it executes puts its words and on the stack, and it acknowledges a request when nothing of
it is left to store.
-/

namespace W2

open Mips Transition Miniboot Console Host

variable {P : Platform Uart} {sp : Addr} {base : ℕ} {buffer : ℕ → Byte} {rest : List Byte}
  {s : State Uart}

def RequestArea (sp : Addr) (r : Request) (a : Addr) : Prop :=
  InRange (BitVec.ofNat 32 r.address) (4 * r.words) a ∨ Below sp 104 a

instance (sp : Addr) (r : Request) (a : Addr) : Decidable (RequestArea sp r a) :=
  inferInstanceAs (Decidable (_ ∨ _))

def InMemory (base : ℕ) (buffer : ℕ → Byte) (rs : List Request) (m : Mem) : Prop :=
  ∀ r ∈ rs, ∀ i, r.Covers i → m (BitVec.ofNat 32 (base + i)) = buffer i

structure Storable (P : Platform Uart) (sp : Addr) (base : ℕ) (r : Request) : Prop where
  copies : r.Copies base
  words : 0 < r.words
  span : Span P (Below sp 104) (BitVec.ofNat 32 r.address) r.words

theorem below_words (hsp : sp.toNat % 4 = 0) : WholeWords (Below sp 104) := by
  intro a hbelow ha i hi
  unfold Below at *
  bv_omega

theorem requestArea_words {r : Request} (h : Storable P sp base r) (hsp : sp.toNat % 4 = 0) :
    WholeWords (RequestArea sp r) := by
  have haligned := h.span.aligned
  rintro a (hin | hbelow) ha i hi
  · left
    unfold InRange at *
    bv_omega
  · exact Or.inr (below_words hsp a hbelow ha i hi)

theorem Storable.address_lt {r : Request} (h : Storable P sp base r) :
    r.address < 4294967296 ∧ r.words < 4294967296 := by
  have := h.copies.fits
  have := h.words
  omega

theorem Storable.inRange {r : Request} (h : Storable P sp base r) {i : ℕ} (hi : r.Covers i) :
    InRange (BitVec.ofNat 32 r.address) (4 * r.words) (BitVec.ofNat 32 (base + i)) := by
  obtain ⟨haddr, hfits⟩ := h.copies
  obtain ⟨hlo, hhi⟩ := hi
  unfold InRange
  bv_omega

theorem Storable.apart {q r : Request} (hq : Storable P sp base q) (hr : Storable P sp base r)
    (hle : q.bytes + 4 * q.words ≤ r.bytes) {i : ℕ} (hi : q.Covers i) :
    ¬ RequestArea sp r (BitVec.ofNat 32 (base + i)) := by
  have hstack := (hq.span.plain _ (hq.inRange hi)).2.2
  obtain ⟨hqaddr, hqfits⟩ := hq.copies
  obtain ⟨hraddr, hrfits⟩ := hr.copies
  obtain ⟨hlo, hhi⟩ := hi
  rintro (hin | hbelow)
  · unfold InRange at hin
    bv_omega
  · exact hstack hbelow

theorem request_run (B : Board P) (hstack : Stack P sp 104) {r : Request}
    (h : Storable P sp base r)
    (hs : AtPrompt (Below sp 104) sp ⟨r.text buffer ++ rest, s.mem, s.dev.tx⟩ s) :
    ∃ v s', Steps (step (P.confine (RequestArea sp r))) s v ∧ v.dev.tx = s.dev.tx ∧
      InMemory base buffer [r] v.mem ∧ Steps (step P.protect) v s' ∧
      AtPrompt (Below sp 104) sp ⟨rest, s'.mem, s.dev.tx ++ [6#8]⟩ s' := by
  obtain ⟨ha, hw⟩ := h.address_lt
  obtain ⟨input, htext, hread⟩ :=
    commandW_request r.address r.words (fun i => buffer (r.bytes + i)) ha hw rest
  have hprompt : AtPrompt (Below sp 104) sp ⟨119#8 :: input, s.mem, s.dev.tx⟩ s :=
    ⟨hs.pc, hs.npc, hs.sp, hs.input.trans htext, rfl, Agree.refl _ _⟩
  have hspan : Span (P.confine (RequestArea sp r)) (Below sp 104) (BitVec.ofNat 32 r.address)
      ((List.range r.words).map
        fun k => wordAt (fun i => buffer (r.bytes + i)) (4 * k)).length := by
    rw [List.length_map, List.length_range]
    exact h.span.confine fun x hx => Or.inl hx
  obtain ⟨v, s', hstore, htx, -, hmem, hack, hend⟩ :=
    prompt_w (B.confine _) hprompt (hstack.confine fun x hx => Or.inr hx) (fun _ hx => hx) rfl
      hread hspan
  refine ⟨v, s', hstore, htx, ?_, hack, hend.pc, hend.npc, hend.sp, hend.input, hend.output,
    Agree.refl _ _⟩
  intro q hq i hi
  obtain rfl : q = r := by simpa using hq
  rw [hmem _ (h.span.plain _ (h.inRange hi)).2.2]
  exact Request.apply_covered h.copies buffer s.mem hi

inductive Job
  | register (text : List Byte)
  | words (r : Request)

namespace Job

def text (buffer : ℕ → Byte) : Job → List Byte
  | .register text => text
  | .words r => r.text buffer

def requests : Job → List Request
  | .register _ => []
  | .words r => [r]

def Area (sp : Addr) : Job → Addr → Prop
  | .register _ => Below sp 104
  | .words r => RequestArea sp r

instance (sp : Addr) (j : Job) : DecidablePred (j.Area sp) := fun a =>
  match j with
  | .register _ => inferInstanceAs (Decidable (Below sp 104 a))
  | .words r => inferInstanceAs (Decidable (RequestArea sp r a))

def Ready (P : Platform Uart) (sp : Addr) (base : ℕ) : Job → Prop
  | .register text => ∃ input a v, text = 119#8 :: input ∧
      getwords 3 input = some ([a, 1#32, v], []) ∧ Takes P a v
  | .words r => Storable P sp base r

def Clear (sp : Addr) (base : ℕ) (q : Request) (j : Job) : Prop :=
  ∀ i, q.Covers i → ¬ j.Area sp (BitVec.ofNat 32 (base + i))

theorem area_words {j : Job} (h : j.Ready P sp base) (hsp : sp.toNat % 4 = 0) :
    WholeWords (j.Area sp) := by
  cases j with
  | register text => exact below_words hsp
  | words r => exact requestArea_words h hsp

theorem covers_above {j : Job} (h : j.Ready P sp base) {q : Request} (hq : q ∈ j.requests) {i : ℕ}
    (hi : q.Covers i) : ¬ Below sp 104 (BitVec.ofNat 32 (base + i)) := by
  cases j with
  | register text => simp [requests] at hq
  | words r =>
    obtain rfl := List.mem_singleton.mp hq
    exact (h.span.plain _ (h.inRange hi)).2.2

end Job

theorem register_run (B : Board P) (hstack : Stack P sp 104) {text : List Byte}
    (h : (Job.register text).Ready P sp base)
    (hs : AtPrompt (Below sp 104) sp ⟨text ++ rest, s.mem, s.dev.tx⟩ s) :
    ∃ v s', Steps (step (P.confine (Below sp 104))) s v ∧ v.dev.tx = s.dev.tx ∧
      Steps (step P.protect) v s' ∧
      AtPrompt (Below sp 104) sp ⟨rest, s'.mem, s.dev.tx ++ [6#8]⟩ s' := by
  obtain ⟨input, a, w, rfl, hread, htakes⟩ := h
  obtain ⟨v, s', hstore, htx, -, hack, hend⟩ :=
    prompt_register (B.confine (Below sp 104)) hs (hstack.confine fun _ => id) (fun _ => id) rfl
      (getwords_append hread rest) ⟨htakes.device, htakes.store⟩
  exact ⟨v, s', hstore, htx, hack, hend.pc, hend.npc, hend.sp, hend.input, hend.output,
    Agree.refl _ _⟩

theorem job_run (B : Board P) (hstack : Stack P sp 104) {j : Job} (h : j.Ready P sp base)
    (hs : AtPrompt (Below sp 104) sp ⟨j.text buffer ++ rest, s.mem, s.dev.tx⟩ s) :
    ∃ v s', Steps (step (P.confine (j.Area sp))) s v ∧ v.dev.tx = s.dev.tx ∧
      InMemory base buffer j.requests v.mem ∧ Steps (step P.protect) v s' ∧
      AtPrompt (Below sp 104) sp ⟨rest, s'.mem, s.dev.tx ++ [6#8]⟩ s' := by
  cases j with
  | register text =>
    obtain ⟨v, s', hstore, htx, hack, hend⟩ := register_run B hstack h hs
    exact ⟨v, s', hstore, htx, fun q hq => by simp [Job.requests] at hq, hack, hend⟩
  | words r => exact request_run B hstack h hs

/-- What has been sent and stored on the way: `k` acknowledgements, and what the first `k` requests
put into memory. -/
def Acknowledged (base : ℕ) (buffer : ℕ → Byte) (finished : List Request) (jobs : List Job)
    (tx : List Byte) (t : State Uart) : Prop :=
  ∃ k ≤ jobs.length, t.dev.tx = tx ++ List.replicate k 6#8 ∧
    InMemory base buffer (finished ++ (jobs.take k).flatMap Job.requests) t.mem

theorem InMemory.frame {finished : List Request} {m m' : Mem}
    (h : InMemory base buffer finished m)
    (hsame : ∀ q ∈ finished, ∀ i, q.Covers i →
      m' (BitVec.ofNat 32 (base + i)) = m (BitVec.ofNat 32 (base + i))) :
    InMemory base buffer finished m' :=
  fun q hq i hi => (hsame q hq i hi).trans (h q hq i hi)

theorem InMemory.append {finished more : List Request} {m : Mem}
    (h : InMemory base buffer finished m) (h' : InMemory base buffer more m) :
    InMemory base buffer (finished ++ more) m :=
  fun q hq => (List.mem_append.mp hq).elim (h q) (h' q)

theorem acknowledged_prefix {tx sent : List Byte} (hlo : tx <+: sent)
    (hhi : sent <+: tx ++ [6#8]) : sent = tx ∨ sent = tx ++ [6#8] := by
  obtain ⟨more, rfl⟩ := hlo
  have hmore : more <+: [6#8] := (List.prefix_append_right_inj tx).mp hhi
  cases more with
  | nil => exact Or.inl (List.append_nil tx)
  | cons b more =>
    obtain ⟨rfl, hnil⟩ := List.cons_prefix_cons.mp hmore
    obtain rfl := List.prefix_nil.mp hnil
    exact Or.inr rfl

theorem round_acknowledged (C : Cumulative P) (hsp : sp.toNat % 4 = 0) {j : Job}
    {jobs : List Job} {finished : List Request} (h : j.Ready P sp base)
    (hfinished : ∀ q ∈ finished, j.Clear sp base q)
    (hmem : InMemory base buffer finished s.mem) {v s' t : State Uart}
    (hstore : Steps (step (P.confine (j.Area sp))) s v) (htx : v.dev.tx = s.dev.tx)
    (hj : InMemory base buffer j.requests v.mem) (hack : Steps (step P.protect) v s')
    (htx' : s'.dev.tx = s.dev.tx ++ [6#8]) (ht : Steps (step P) s t) :
    Steps (step P) s' t ∨ Acknowledged base buffer finished (j :: jobs) s.dev.tx t := by
  have hkept {u : State Uart} (hu : Steps (step (P.confine (j.Area sp))) s u) :
      InMemory base buffer finished u.mem :=
    hmem.frame fun q hq i hi =>
      steps_confine_outside (Job.area_words h hsp) hu (hfinished q hq i hi)
  rcases hstore.split (fun _ _ => step_confine) ht with ⟨hst, htv⟩ | hvt
  · have hsilent := C.silent (steps_confine hst) (steps_confine htv) htx
    exact Or.inr ⟨0, by omega, by simpa using hsilent, by simpa using hkept hst⟩
  · rcases hack.split (fun _ _ hstep => (step_protect hstep).1) hvt with ⟨hvt', hts'⟩ | hafter
    · have hsame : t.mem = v.mem := (steps_protect hvt').2
      rcases acknowledged_prefix (htx ▸ C.steps (steps_protect hvt').1)
        (htx' ▸ C.steps (steps_protect hts').1) with hnone | hone
      · exact Or.inr ⟨0, by omega, by simpa using hnone, by simpa [hsame] using hkept hstore⟩
      · exact Or.inr ⟨1, by simp, by simpa using hone,
          by simpa [hsame] using (hkept hstore).append hj⟩
    · exact Or.inl hafter

/-- The induction is on the requests still to come; what those executed have put into memory stays
there. -/
theorem jobs_run (B : Board P) (C : Cumulative P) (hstack : Stack P sp 104)
    {finished : List Request} {jobs : List Job} (hready : ∀ j ∈ jobs, j.Ready P sp base)
    (hfinished : ∀ q ∈ finished, ∀ j ∈ jobs, j.Clear sp base q)
    (hclear : jobs.Pairwise fun i j => ∀ q ∈ i.requests, j.Clear sp base q)
    (hs : AtPrompt (Below sp 104) sp
      ⟨(jobs.map (Job.text buffer)).flatten ++ rest, s.mem, s.dev.tx⟩ s)
    (hmem : InMemory base buffer finished s.mem) :
    ∃ s', Steps (step P) s s' ∧
      AtPrompt (Below sp 104) sp ⟨rest, s'.mem, s.dev.tx ++ List.replicate jobs.length 6#8⟩ s' ∧
      InMemory base buffer (finished ++ jobs.flatMap Job.requests) s'.mem ∧
      ∀ t, Steps (step P) s t →
        Steps (step P) s' t ∨ Acknowledged base buffer finished jobs s.dev.tx t := by
  induction jobs generalizing finished s with
  | nil => exact ⟨s, .refl s, by simpa using hs, by simpa using hmem, fun t ht => Or.inl ht⟩
  | cons j jobs ih =>
    have hj : j.Ready P sp base := hready j (by simp)
    have htext : ((j :: jobs).map (Job.text buffer)).flatten ++ rest =
        j.text buffer ++ ((jobs.map (Job.text buffer)).flatten ++ rest) := by simp
    rw [htext] at hs
    obtain ⟨v, s₁, hstore, htx, hin, hack, hprompt⟩ := job_run B hstack hj hs
    have hbefore : ∀ q ∈ finished, j.Clear sp base q := fun q hq => hfinished q hq j (by simp)
    have hkept : InMemory base buffer (finished ++ j.requests) s₁.mem := by
      rw [(steps_protect hack).2]
      refine InMemory.append (hmem.frame fun q hq i hi => ?_) hin
      exact steps_confine_outside (Job.area_words hj hstack.aligned) hstore (hbefore q hq i hi)
    obtain ⟨hfirst, hrest⟩ := List.pairwise_cons.mp hclear
    have hlater : ∀ q ∈ finished ++ j.requests, ∀ i ∈ jobs, i.Clear sp base q := by
      intro q hq i hi
      exact (List.mem_append.mp hq).elim (fun hq => hfinished q hq i (by simp [hi])) (hfirst i hi q)
    obtain ⟨s', hsteps, hend, hmem', hway⟩ :=
      ih (fun i hi => hready i (by simp [hi])) hlater hrest
      ⟨hprompt.pc, hprompt.npc, hprompt.sp, hprompt.input, rfl, Agree.refl _ _⟩ hkept
    have hs₁ : Steps (step P) s s₁ := (steps_confine hstore).trans (steps_protect hack).1
    refine ⟨s', hs₁.trans hsteps, ?_, by simpa [← List.append_assoc] using hmem', fun t ht => ?_⟩
    · have houtput := hend.output
      rw [hprompt.output] at houtput
      refine ⟨hend.pc, hend.npc, hend.sp, hend.input, houtput.trans ?_, Agree.refl _ _⟩
      simp [List.replicate_succ]
    · rcases round_acknowledged C hstack.aligned hj hbefore hmem hstore htx hin hack
        hprompt.output ht with hafter | hround
      · rcases hway t hafter with hlast | ⟨k, hk, htx', hmemory⟩
        · exact Or.inl hlast
        · refine Or.inr ⟨k + 1, by simpa using hk, ?_, by simpa [← List.append_assoc] using hmemory⟩
          rw [htx', hprompt.output]
          simp [List.replicate_succ]
      · exact Or.inr hround

theorem chain_aligned {start stop : ℕ} {rs : List Request} (h : Chain base start stop rs)
    (hstart : start % 4 = 0) : ∀ r ∈ rs, r.bytes % 4 = 0 := by
  induction rs generalizing start with
  | nil => simp
  | cons r rs ih =>
    obtain ⟨-, rfl, -, hrest⟩ := h
    intro q hq
    obtain rfl | hq := List.mem_cons.mp hq
    · exact hstart
    · exact ih hrest (by omega) q hq

theorem chain_storable {stop : ℕ} {rs : List Request} (h : Chain base 0 stop rs)
    (haligned : base % 4 = 0) (hfits : base + stop ≤ 4294967296)
    (hplain : ∀ r ∈ rs, ∀ x, InRange (BitVec.ofNat 32 r.address) (4 * r.words) x →
      P.Ram x ∧ P.writable x = true ∧ ¬ Below sp 104 x) :
    ∀ r ∈ rs, Storable P sp base r := by
  intro r hr
  have hcopies := h.copies hfits r hr
  have hbytes := chain_aligned h (by omega) r hr
  have hpos := h.words_pos r hr
  obtain ⟨haddr, hend⟩ := hcopies
  refine ⟨⟨haddr, hend⟩, hpos, ?_, ?_, hplain r hr⟩ <;> simp only [BitVec.toNat_ofNat] <;> omega

theorem words_ready {rs : List Request} (hall : ∀ r ∈ rs, Storable P sp base r) :
    ∀ j ∈ rs.map Job.words, j.Ready P sp base := by
  intro j hj
  obtain ⟨r, hr, rfl⟩ := List.mem_map.mp hj
  exact hall r hr

theorem words_clear {rs : List Request} (hall : ∀ r ∈ rs, Storable P sp base r)
    (hordered : rs.Pairwise fun q r => q.bytes + 4 * q.words ≤ r.bytes) :
    (rs.map Job.words).Pairwise fun i j => ∀ q ∈ i.requests, j.Clear sp base q := by
  refine List.pairwise_map.mpr (hordered.imp_of_mem fun hq hr hle p hp i hi => ?_)
  obtain rfl := List.mem_singleton.mp hp
  exact (hall _ hq).apart (hall _ hr) hle hi

theorem upload_chain {address size : ℕ} {rs : List Request}
    (hrs : rs = uploadBinMac address size ∨ rs = uploadBinWindows address size) :
    ∃ stop, size ≤ stop ∧ stop ≤ size + 768 ∧ Chain address 0 stop rs := by
  have h16 := span16_le size
  have h256 := span256_le size
  have hmac := writeBytes16_chain address 0 size
  have hwindows := writeBytes256_chain address 0 size
  rw [Nat.zero_add] at hmac hwindows
  obtain rfl | rfl := hrs
  · exact ⟨span16 size, h16.1, by omega, hmac⟩
  · exact ⟨span256 size, h256.1, h256.2, hwindows⟩

/-- The machine executes the upload of either program. Until it is back at its prompt with all of it
consumed, as many acknowledgements as it has sent, so many of the first requests are in its memory
with every byte. -/
theorem upload_acknowledged (B : Board P) (C : Cumulative P) (hstack : Stack P sp 104)
    (address size : ℕ) (buffer : ℕ → Byte) (haligned : address % 4 = 0)
    (hfits : address + size + 768 ≤ 4294967296) (rs : List Request)
    (hrs : rs = uploadBinMac address size ∨ rs = uploadBinWindows address size)
    (hplain : ∀ r ∈ rs, ∀ x, InRange (BitVec.ofNat 32 r.address) (4 * r.words) x →
      P.Ram x ∧ P.writable x = true ∧ ¬ Below sp 104 x)
    (s : State Uart) (hpc : s.pc = 0x10000fb4#32) (hnpc : s.npc = 0x10000fb8#32)
    (hsp : s.regs.get .sp = sp) (rest : List Byte)
    (hinput : s.dev.input = (rs.map (Request.text buffer)).flatten ++ rest) :
    ∃ s', Steps (step P) s s' ∧ s'.pc = 0x10000fb4#32 ∧ s'.npc = 0x10000fb8#32 ∧
      s'.regs.get .sp = sp ∧ s'.dev.input = rest ∧
      s'.dev.tx = s.dev.tx ++ List.replicate rs.length 6#8 ∧
      (∀ i < size, s'.mem (BitVec.ofNat 32 (address + i)) = buffer i) ∧
      ∀ t, Steps (step P) s t → Steps (step P) s' t ∨
        ∃ k ≤ rs.length, t.dev.tx = s.dev.tx ++ List.replicate k 6#8 ∧
          ∀ r ∈ rs.take k, ∀ i, r.Covers i → t.mem (BitVec.ofNat 32 (address + i)) = buffer i := by
  obtain ⟨stop, hsize, hstop, hchain⟩ := upload_chain hrs
  have hall := chain_storable hchain haligned (by omega) hplain
  have htext : (rs.map Job.words).map (Job.text buffer) = rs.map (Request.text buffer) := by
    simp [Job.text, Function.comp_def]
  have hrequests (l : List Request) : (l.map Job.words).flatMap Job.requests = l := by
    simp [List.flatMap_map, Job.requests]
  have hnone : InMemory address buffer [] s.mem := fun r hr => by simp at hr
  obtain ⟨s', hsteps, hend, hmem, hway⟩ :=
    jobs_run B C hstack (words_ready hall) (by simp) (words_clear hall hchain.ordered)
      ⟨hpc, hnpc, hsp, by rw [htext]; exact hinput, rfl, Agree.refl _ _⟩ hnone
  rw [List.length_map] at hend
  refine ⟨s', hsteps, hend.pc, hend.npc, hend.sp, hend.input, hend.output, fun i hi => ?_,
    fun t ht => (hway t ht).imp_right ?_⟩
  · obtain ⟨r, hr, hcover⟩ := (hchain.covered i).mpr ⟨by omega, by omega⟩
    exact hmem r (by simpa [hrequests] using hr) i hcover
  · rintro ⟨k, hk, htx, hin⟩
    rw [← List.map_take, hrequests] at hin
    exact ⟨k, by simpa using hk, htx, hin⟩

theorem lowUpload_low : ∀ r ∈ uploadBinMac 0x200 20, ∀ x,
    InRange (BitVec.ofNat 32 r.address) (4 * r.words) x → x.toNat < 0x01000000 := by
  intro r hr x hx
  obtain ⟨stop, -, hstop, hchain⟩ := upload_chain (.inl (rfl : uploadBinMac 0x200 20 = _))
  obtain ⟨haddr, hwithin⟩ := hchain.within r hr
  unfold InRange at hx
  bv_omega

theorem benchUpload_plain : ∀ r ∈ uploadBinMac 0x200 20, ∀ x,
    InRange (BitVec.ofNat 32 r.address) (4 * r.words) x →
      bench.Ram x ∧ bench.writable x = true ∧ ¬ Below 0x01000f00#32 104 x := by
  intro r hr x hx
  have hlow := lowUpload_low r hr x hx
  refine ⟨bench_ram (by omega), rfl, fun hbelow => ?_⟩
  unfold Below at hbelow
  bv_omega

theorem upload_acknowledged_bench :
    ∃ s', Steps (step bench) (benchPrompt (fun _ => 0#8)
          (((uploadBinMac 0x200 20).map (Request.text fun i => BitVec.ofNat 8 i)).flatten ++
            [114#8])) s' ∧
      s'.pc = 0x10000fb4#32 ∧ s'.npc = 0x10000fb8#32 ∧ s'.regs.get .sp = 0x01000f00#32 ∧
      s'.dev.input = [114#8] ∧
      s'.dev.tx = [] ++ List.replicate (uploadBinMac 0x200 20).length 6#8 ∧
      (∀ i < 20, s'.mem (BitVec.ofNat 32 (0x200 + i)) = BitVec.ofNat 8 i) ∧
      ∀ t, Steps (step bench) (benchPrompt (fun _ => 0#8)
            (((uploadBinMac 0x200 20).map (Request.text fun i => BitVec.ofNat 8 i)).flatten ++
              [114#8])) t →
        Steps (step bench) s' t ∨ ∃ k ≤ (uploadBinMac 0x200 20).length,
          t.dev.tx = [] ++ List.replicate k 6#8 ∧
          ∀ r ∈ (uploadBinMac 0x200 20).take k, ∀ i, r.Covers i →
            t.mem (BitVec.ofNat 32 (0x200 + i)) = BitVec.ofNat 8 i :=
  upload_acknowledged bench_board bench_cumulative (bench_console.stack.weaken (by omega)) 0x200 20
    (fun i => BitVec.ofNat 8 i) (by decide) (by decide) _ (.inl rfl)
    benchUpload_plain (benchPrompt (fun _ => 0#8) _) rfl rfl rfl [114#8]
    (benchPrompt_input _ _)

end W2
