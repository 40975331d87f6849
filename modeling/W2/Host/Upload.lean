import W2.Host.SerialPort

/-!
# What the upload loops deliver

Each loop sends consecutive requests from the start of the buffer, so what an upload leaves in
memory is decided by where its last request stops. The plain loop stops at the length rounded
up to a word. The faster loops may overshoot: a remainder that is shorter than the larger
request in words but not in bytes is sent as a whole larger request.
-/

namespace W2.Host

open Mips Console

def span16 (n : ℕ) : ℕ := n / 64 * 64 + if n % 64 < 16 then (n % 64 + 3) / 4 * 4 else 64

def span256 (n : ℕ) : ℕ := n / 1024 * 1024 + if n % 1024 < 256 then span16 (n % 1024) else 1024

theorem span16_big {n : ℕ} (h : 16 ≤ n) : span16 n = 64 + span16 (n - 64) := by
  unfold span16
  split_ifs <;> omega

theorem span16_small {n : ℕ} (h : 0 < n) (h' : n < 16) : span16 n = 4 + span16 (n - 4) := by
  unfold span16
  split_ifs <;> omega

theorem span16_le (n : ℕ) : n ≤ span16 n ∧ span16 n ≤ n + 48 := by
  unfold span16
  split_ifs <;> omega

theorem span256_big {n : ℕ} (h : 256 ≤ n) : span256 n = 1024 + span256 (n - 1024) := by
  unfold span256
  by_cases hn : n < 1024
  · rw [Nat.sub_eq_zero_of_le (by omega), Nat.div_eq_of_lt hn, Nat.mod_eq_of_lt hn,
      if_neg (by omega)]
    rfl
  · rw [show (n - 1024) % 1024 = n % 1024 by omega, show (n - 1024) / 1024 = n / 1024 - 1 by omega]
    omega

theorem span256_small {n : ℕ} (h : n < 256) : span256 n = span16 n := by
  rw [span256, Nat.div_eq_of_lt (by omega), Nat.mod_eq_of_lt (by omega), if_pos h]
  omega

theorem span256_le (n : ℕ) : n ≤ span256 n ∧ span256 n ≤ n + 768 := by
  have := span16_le (n % 1024)
  unfold span256
  split_ifs <;> omega

theorem writeBytesLoop_chain (base buffer bytes address offset : ℕ)
    (haddr : address = base + (buffer + offset)) :
    Chain base (buffer + offset) (buffer + offset + (bytes - offset + 3) / 4 * 4)
      (writeBytesLoop buffer bytes address offset) := by
  fun_induction writeBytesLoop buffer bytes address offset with
  | case1 address offset h ih =>
    exact Chain.request haddr rfl (by omega) (by omega) (by omega) (ih (by omega))
  | case2 address offset h =>
    simp only [Chain]
    omega

theorem writeBytes_chain (base buffer bytes : ℕ) :
    Chain base buffer (buffer + (bytes + 3) / 4 * 4) (writeBytes (base + buffer) buffer bytes) :=
  writeBytesLoop_chain base buffer bytes (base + buffer) 0 (by omega)

theorem writeBytes16Loop_chain (base buffer bytes offset : ℕ) :
    Chain base (buffer + offset) (buffer + offset + span16 (bytes - offset))
      (writeBytes16Loop (base + buffer) buffer bytes offset) := by
  fun_induction writeBytes16Loop (base + buffer) buffer bytes offset with
  | case1 offset h hbig ih =>
    have hspan := span16_big hbig
    refine Chain.request (by omega) rfl (by omega) (by omega) ?_ ih
    rw [show bytes - (offset + 16 * 4) = bytes - offset - 64 by omega]
    omega
  | case2 offset h hsmall ih =>
    have hspan := span16_small (n := bytes - offset) (by omega) (by omega)
    refine Chain.request (by omega) rfl (by omega) (by omega) ?_ ih
    rw [show bytes - (offset + 4) = bytes - offset - 4 by omega]
    omega
  | case3 offset h =>
    rw [show bytes - offset = 0 by omega]
    rfl

theorem writeBytes16_chain (base buffer bytes : ℕ) :
    Chain base buffer (buffer + span16 bytes) (writeBytes16 (base + buffer) buffer bytes) :=
  writeBytes16Loop_chain base buffer bytes 0

theorem writeBytes256Loop_chain (base buffer bytes offset : ℕ) :
    Chain base (buffer + offset) (buffer + offset + span256 (bytes - offset))
      (writeBytes256Loop (base + buffer) buffer bytes offset) := by
  fun_induction writeBytes256Loop (base + buffer) buffer bytes offset with
  | case1 offset h hbig ih =>
    have hspan := span256_big hbig
    refine Chain.request (by omega) rfl (by omega) (by omega) ?_ ih
    rw [show bytes - (offset + 256 * 4) = bytes - offset - 1024 by omega]
    omega
  | case2 offset h hsmall =>
    rw [span256_small (by omega), Nat.add_assoc base]
    exact writeBytes16_chain base (buffer + offset) (bytes - offset)
  | case3 offset h =>
    rw [show bytes - offset = 0 by omega]
    rfl

theorem writeBytes256_chain (base buffer bytes : ℕ) :
    Chain base buffer (buffer + span256 bytes) (writeBytes256 (base + buffer) buffer bytes) :=
  writeBytes256Loop_chain base buffer bytes 0

theorem writeBytes16Loop_words (address buffer bytes offset : ℕ) :
    ∀ r ∈ writeBytes16Loop address buffer bytes offset, r.words ≤ 16 := by
  fun_induction writeBytes16Loop address buffer bytes offset with
  | case1 offset h hbig ih => simpa using ih
  | case2 offset h hsmall ih => simpa using ih
  | case3 offset h => simp

theorem writeBytes256Loop_words (address buffer bytes offset : ℕ) :
    ∀ r ∈ writeBytes256Loop address buffer bytes offset, r.words ≤ 256 := by
  fun_induction writeBytes256Loop address buffer bytes offset with
  | case1 offset h hbig ih => simpa using ih
  | case2 offset h hsmall =>
    intro r hr
    have := writeBytes16Loop_words _ _ _ _ r hr
    omega
  | case3 offset h => simp

section Delivery

variable {address L stop : ℕ} {buffer : ℕ → Byte} {m : Mem} {rs : List Request}

/-- The requests, executed in order, deliver the first `L` bytes of the buffer: in the end, after
every prefix as far as it reaches, and without a request that reaches a byte again. -/
structure Delivers (buffer : ℕ → Byte) (address L : ℕ) (m : Mem) (rs : List Request) : Prop where
  all : ∃ m', execRequests m (rs.map (Request.text buffer)) = some m' ∧
    ∀ i < L, m' (BitVec.ofNat 32 (address + i)) = buffer i
  partly : ∀ n, ∃ m', execRequests m ((rs.take n).map (Request.text buffer)) = some m' ∧
    ∀ i < L, Covered (rs.take n) i → m' (BitVec.ofNat 32 (address + i)) = buffer i
  once : rs.Pairwise fun r s => ∀ i, r.Covers i → ¬ s.Covers i

theorem Chain.exec (h : Chain address 0 stop rs) (hfits : address + stop ≤ 4294967296) :
    execRequests m (rs.map (Request.text buffer)) = some (applyAll buffer m rs) := by
  refine execRequests_text (fun r hr => ?_) buffer m
  obtain ⟨haddr, hr'⟩ := h.copies hfits r hr
  have := h.words_pos r hr
  omega

theorem Chain.delivers (h : Chain address 0 stop rs) (hfits : address + stop ≤ 4294967296)
    (hL : L ≤ stop) : Delivers buffer address L m rs where
  all := ⟨_, h.exec hfits, fun i hi =>
    applyAll_covered (h.copies hfits) ((h.covered i).mpr ⟨by omega, by omega⟩)⟩
  partly n := by
    obtain ⟨stop', htake⟩ := h.take n
    have hcopies : ∀ r ∈ rs.take n, r.Copies address :=
      fun r hr => h.copies hfits r (List.mem_of_mem_take hr)
    refine ⟨applyAll buffer m (rs.take n), execRequests_text (fun r hr => ?_) buffer m,
      fun i _ hi => applyAll_covered hcopies hi⟩
    obtain ⟨haddr, hr'⟩ := hcopies r hr
    have := htake.words_pos r hr
    omega
  once := h.ordered.imp fun {r s} hle i hr hs => by
    obtain ⟨-, hr⟩ := hr
    obtain ⟨hs, -⟩ := hs
    omega

theorem uploadBin_delivers (address L : ℕ) (buffer : ℕ → Byte) (m : Mem)
    (hfits : address + L + 1024 ≤ 4294967296) :
    Delivers buffer address L m (uploadBinMac address L) ∧
      Delivers buffer address L m (uploadBinWindows address L) := by
  have h16 := span16_le L
  have h256 := span256_le L
  have hmac := writeBytes16_chain address 0 L
  have hwindows := writeBytes256_chain address 0 L
  rw [Nat.zero_add] at hmac hwindows
  exact ⟨hmac.delivers (by omega) h16.1, hwindows.delivers (by omega) h256.1⟩

theorem uploadBin_delivers_seven :
    Delivers (fun i => BitVec.ofNat 8 i) 0x10000000 7 (fun _ => 0#8) (uploadBinMac 0x10000000 7) ∧
      Delivers (fun i => BitVec.ofNat 8 i) 0x10000000 7 (fun _ => 0#8)
        (uploadBinWindows 0x10000000 7) :=
  uploadBin_delivers 0x10000000 7 (fun i => BitVec.ofNat 8 i) (fun _ => 0#8) (by decide)

end Delivery

section Plain

/-- The requests read inside the buffer alone, leave what the requests of `write_bytes` leave, and
change nothing outside the image. -/
structure AsPlain (buffer : ℕ → Byte) (address L : ℕ) (m : Mem) (rs : List Request) : Prop where
  reads : ∀ r ∈ rs, ∀ i ∈ r.reads, i < L
  memory : execRequests m (rs.map (Request.text buffer)) =
    execRequests m ((writeBytes address 0 L).map (Request.text buffer))
  outside : ∀ m', execRequests m (rs.map (Request.text buffer)) = some m' →
    ∀ x, ¬ InRange (BitVec.ofNat 32 address) L x → m' x = m x

variable {address L stop : ℕ} {buffer : ℕ → Byte} {m : Mem} {rs : List Request}

theorem Chain.asPlain_iff (h : Chain address 0 stop rs) (hL : L % 4 = 0) (hstop : L ≤ stop)
    (hfits : address + L ≤ 4294967296) : AsPlain buffer address L m rs ↔ stop = L := by
  have hplain : Chain address 0 L (writeBytes address 0 L) := by
    have h := writeBytes_chain address 0 L
    rwa [Nat.zero_add, show (L + 3) / 4 * 4 = L by omega] at h
  constructor
  · intro hsame
    by_contra hne
    obtain ⟨r, hr, hcover⟩ := (h.covered L).mpr ⟨by omega, by omega⟩
    exact absurd (hsame.reads r hr L (Request.mem_reads.mpr hcover)) (by omega)
  · rintro rfl
    refine ⟨fun r hr i hi => ?_, ?_, fun m' hexec x hx => ?_⟩
    · exact ((h.covered i).mp ⟨r, hr, Request.mem_reads.mp hi⟩).2
    · rw [h.exec hfits, hplain.exec hfits]
      exact congrArg some (applyAll_congr (h.copies hfits) (hplain.copies hfits)
        fun i => (h.covered i).trans (hplain.covered i).symm)
    · rw [h.exec hfits, Option.some.injEq] at hexec
      rw [← hexec]
      refine applyAll_outside (h.copies hfits) fun i hi heq => hx ?_
      have hi := (h.covered i).mp hi
      unfold InRange
      rw [heq]
      bv_omega

theorem span16_exact {n : ℕ} (h : n % 4 = 0) : span16 n = n ↔ n % 64 < 16 := by
  unfold span16
  split_ifs <;> omega

theorem span256_exact {n : ℕ} (h : n % 4 = 0) : span256 n = n ↔ n % 1024 < 256 ∧ n % 64 < 16 := by
  have hmod : n % 1024 % 64 = n % 64 := by omega
  have hspan := span16_exact (n := n % 1024) (by omega)
  unfold span256
  split_ifs <;> omega

/-- The Mac program's fast loop is the plain one exactly for the lengths whose last, partial block
of 64 bytes has fewer than 16 bytes. -/
theorem writeBytesFast_asPlain (address L : ℕ) (buffer : ℕ → Byte) (m : Mem) (hL : L % 4 = 0)
    (hfits : address + L ≤ 4294967296) :
    AsPlain buffer address L m (writeBytesFast address 0 L) ↔ L % 64 < 16 := by
  have hchain := writeBytes16_chain address 0 L
  rw [Nat.zero_add] at hchain
  exact (Chain.asPlain_iff hchain hL (span16_le L).1 hfits).trans (span16_exact hL)

theorem writeBytesFast_asPlain_seventytwo :
    AsPlain (fun i => BitVec.ofNat 8 i) 0x10000000 72 (fun _ => 0#8)
      (writeBytesFast 0x10000000 0 72) ↔ 72 % 64 < 16 :=
  writeBytesFast_asPlain 0x10000000 72 (fun i => BitVec.ofNat 8 i) (fun _ => 0#8) rfl (by decide)

theorem writeBytesFast_sixteen :
    ¬ AsPlain (fun _ => 0#8) 0x10000000 16 (fun _ => 0#8) (writeBytesFast 0x10000000 0 16) := by
  intro h
  have hrequest : (⟨0x10000000, 0, 16⟩ : Request) ∈ writeBytesFast 0x10000000 0 16 := by
    rw [writeBytesFast, writeBytes16Loop]
    simp
  exact absurd (h.reads _ hrequest 63 (by decide)) (by decide)

/-- The Windows program's two loops are the plain one exactly when neither leaves a remainder that
it takes for a whole request. -/
theorem writeBytes256_asPlain (address L : ℕ) (buffer : ℕ → Byte) (m : Mem) (hL : L % 4 = 0)
    (hfits : address + L ≤ 4294967296) :
    AsPlain buffer address L m (writeBytes256 address 0 L) ↔ L % 1024 < 256 ∧ L % 64 < 16 := by
  have hchain := writeBytes256_chain address 0 L
  rw [Nat.zero_add] at hchain
  exact (Chain.asPlain_iff hchain hL (span256_le L).1 hfits).trans (span256_exact hL)

theorem writeBytes256_asPlain_large :
    AsPlain (fun i => BitVec.ofNat 8 i) 0x10000000 1160 (fun _ => 0#8)
      (writeBytes256 0x10000000 0 1160) ↔ 1160 % 1024 < 256 ∧ 1160 % 64 < 16 :=
  writeBytes256_asPlain 0x10000000 1160 (fun i => BitVec.ofNat 8 i) (fun _ => 0#8) rfl (by decide)

theorem writeBytes256_one_block :
    ¬ AsPlain (fun _ => 0#8) 0x10000000 256 (fun _ => 0#8) (writeBytes256 0x10000000 0 256) := by
  intro h
  have hrequest : (⟨0x10000000, 0, 256⟩ : Request) ∈ writeBytes256 0x10000000 0 256 := by
    rw [writeBytes256, writeBytes256Loop]
    simp
  have hread : 256 ∈ Request.reads ⟨0x10000000, 0, 256⟩ :=
    Request.mem_reads.mpr (by simp [Request.Covers])
  exact absurd (h.reads _ hrequest 256 hread) (by decide)

end Plain

end W2.Host
