import W2.Host.Text

/-!
# Requests that copy a buffer

A request stores consecutive words of the host's buffer at an address. Requests that put byte
`i` of the buffer at the same distance from one base, in whatever order and overlap, leave
buffer bytes where one of them reaches and the old memory elsewhere; so the memory after an
upload is known from the set of indices its requests cover.
-/

namespace W2.Host

open Mips Console

structure Request where
  address : ℕ
  bytes : ℕ
  words : ℕ
  deriving DecidableEq, Repr

def wordAt (buffer : ℕ → Byte) (i : ℕ) : Word :=
  buffer (i + 3) ++ buffer (i + 2) ++ buffer (i + 1) ++ buffer i

theorem byteOf_wordAt (buffer : ℕ → Byte) (i : ℕ) {k : ℕ} (hk : k < 4) :
    byteOf (wordAt buffer i) k = buffer (i + k) := by
  unfold byteOf wordAt
  ext j hj
  simp only [BitVec.getElem_extractLsb', BitVec.getLsbD_append]
  interval_cases k
  · simp [hj]
  · simp [hj, show ¬ 8 + j < 8 by omega, show 8 + j - 8 = j by omega]
  · simp [hj, show ¬ 16 + j < 8 by omega, show ¬ 16 + j - 8 < 8 by omega,
      show 16 + j - 8 - 8 = j by omega]
  · simp [hj, show ¬ 24 + j < 8 by omega, show ¬ 24 + j - 8 < 8 by omega,
      show ¬ 24 + j - 8 - 8 < 8 by omega, show 24 + j - 8 - 8 - 8 = j by omega]

namespace Request

def image (buffer : ℕ → Byte) (r : Request) : List Word :=
  (List.range r.words).map fun k => wordAt buffer (r.bytes + 4 * k)

def apply (buffer : ℕ → Byte) (m : Mem) (r : Request) : Mem :=
  m.writeWords (BitVec.ofNat 32 r.address) (r.image buffer)

def Covers (r : Request) (i : ℕ) : Prop := r.bytes ≤ i ∧ i < r.bytes + 4 * r.words

structure Copies (base : ℕ) (r : Request) : Prop where
  address : r.address = base + r.bytes
  fits : r.address + 4 * r.words ≤ 4294967296

theorem Copies.index_lt {base : ℕ} {r : Request} (h : r.Copies base) {i : ℕ} (hi : r.Covers i) :
    base + i < 4294967296 := by
  obtain ⟨haddr, hfits⟩ := h
  obtain ⟨hlo, hhi⟩ := hi
  omega

theorem apply_covered {base : ℕ} {r : Request} (h : r.Copies base) (buffer : ℕ → Byte) (m : Mem)
    {i : ℕ} (hi : r.Covers i) : r.apply buffer m (BitVec.ofNat 32 (base + i)) = buffer i := by
  obtain ⟨haddr, hfits⟩ := h
  obtain ⟨hlo, hhi⟩ := hi
  obtain ⟨k, j, hj, rfl⟩ : ∃ k j, j < 4 ∧ i = r.bytes + (4 * k + j) :=
    ⟨(i - r.bytes) / 4, (i - r.bytes) % 4, Nat.mod_lt _ (by omega), by omega⟩
  have hk : k < r.words := by omega
  have hlen : (r.image buffer).length = r.words := by simp [image]
  have hbyte := m.writeWords_at (BitVec.ofNat 32 r.address) (r.image buffer) (k := k) (by omega) hj
    (by omega)
  have haddr' : BitVec.ofNat 32 (base + (r.bytes + (4 * k + j))) =
      BitVec.ofNat 32 r.address + BitVec.ofNat 32 (4 * k + j) := by
    rw [haddr, ← Nat.add_assoc]
    exact BitVec.ofNat_add _ _
  rw [apply, haddr', hbyte]
  simp only [image, List.getElem_map, List.getElem_range, byteOf_wordAt _ _ hj, Nat.add_assoc]

theorem apply_outside {base : ℕ} {r : Request} (h : r.Copies base) (buffer : ℕ → Byte) (m : Mem)
    {x : Addr} (hx : ∀ i, r.Covers i → x ≠ BitVec.ofNat 32 (base + i)) :
    r.apply buffer m x = m x := by
  obtain ⟨haddr, hfits⟩ := h
  apply Mem.writeWords_outside
  intro hin
  have hlen : (r.image buffer).length = r.words := by simp [image]
  unfold InRange at hin
  have hle : r.address ≤ x.toNat ∧ x.toNat < r.address + 4 * r.words := by
    rw [hlen] at hin
    have haddr' : (BitVec.ofNat 32 r.address).toNat = r.address := by
      rw [BitVec.toNat_ofNat]
      exact Nat.mod_eq_of_lt (by omega)
    rw [BitVec.toNat_sub, haddr'] at hin
    omega
  refine hx (x.toNat - base) ⟨by omega, by omega⟩ ?_
  rw [show base + (x.toNat - base) = x.toNat by omega]
  simp

end Request

def Covered (rs : List Request) (i : ℕ) : Prop := ∃ r ∈ rs, r.Covers i

@[simp] theorem covered_nil (i : ℕ) : ¬ Covered [] i := by simp [Covered]

@[simp] theorem covered_cons (r : Request) (rs : List Request) (i : ℕ) :
    Covered (r :: rs) i ↔ r.Covers i ∨ Covered rs i := by simp [Covered]

def applyAll (buffer : ℕ → Byte) (m : Mem) : List Request → Mem
  | [] => m
  | r :: rs => applyAll buffer (r.apply buffer m) rs

variable {base : ℕ} {rs : List Request} {buffer : ℕ → Byte} {m : Mem}

theorem applyAll_outside (h : ∀ r ∈ rs, r.Copies base) {x : Addr}
    (hx : ∀ i, Covered rs i → x ≠ BitVec.ofNat 32 (base + i)) : applyAll buffer m rs x = m x := by
  induction rs generalizing m with
  | nil => rfl
  | cons r rs ih =>
    rw [applyAll, ih (fun s hs => h s (by simp [hs])) fun i hi => hx i (by simp [hi])]
    exact Request.apply_outside (h r (by simp)) buffer m fun i hi => hx i (by simp [hi])

/-- A covered index holds its buffer byte, whichever request wrote it last. The induction is on
the requests: a later one either reaches the index again, with the same byte, or leaves it. -/
theorem applyAll_covered (h : ∀ r ∈ rs, r.Copies base) {i : ℕ} (hi : Covered rs i) :
    applyAll buffer m rs (BitVec.ofNat 32 (base + i)) = buffer i := by
  induction rs generalizing m with
  | nil => exact absurd hi (covered_nil i)
  | cons r rs ih =>
    have hrs : ∀ s ∈ rs, s.Copies base := fun s hs => h s (by simp [hs])
    by_cases hlater : Covered rs i
    · exact ih hrs hlater
    · have hr : r.Covers i := by simpa [hlater] using hi
      rw [applyAll, applyAll_outside hrs, Request.apply_covered (h r (by simp)) buffer m hr]
      rintro j ⟨s, hs, hj⟩ heq
      have hi' := (h r (by simp)).index_lt hr
      have hj' := (hrs s hs).index_lt hj
      have hij : base + i = base + j := by
        simpa [Nat.mod_eq_of_lt hi', Nat.mod_eq_of_lt hj'] using congrArg BitVec.toNat heq
      obtain rfl : i = j := by omega
      exact hlater ⟨s, hs, hj⟩

theorem applyAll_congr {rs' : List Request} (h : ∀ r ∈ rs, r.Copies base)
    (h' : ∀ r ∈ rs', r.Copies base) (hcover : ∀ i, Covered rs i ↔ Covered rs' i) :
    applyAll buffer m rs = applyAll buffer m rs' := by
  funext x
  by_cases hx : ∃ i, Covered rs i ∧ x = BitVec.ofNat 32 (base + i)
  · obtain ⟨i, hi, rfl⟩ := hx
    rw [applyAll_covered h hi, applyAll_covered h' ((hcover i).mp hi)]
  · rw [applyAll_outside h fun i hi heq => hx ⟨i, hi, heq⟩,
      applyAll_outside h' fun i hi heq => hx ⟨i, (hcover i).mpr hi, heq⟩]

theorem applyAll_apart {x : Addr}
    (h : ∀ r ∈ rs, ¬ InRange (BitVec.ofNat 32 r.address) (4 * r.words) x) :
    applyAll buffer m rs x = m x := by
  induction rs generalizing m with
  | nil => rfl
  | cons r rs ih =>
    rw [applyAll, ih fun s hs => h s (by simp [hs])]
    apply Mem.writeWords_outside
    simpa [Request.image] using h r (by simp)

/-- Consecutive requests that copy the indices from `start` up to `stop` to the same distance
from `base`. -/
def Chain (base start stop : ℕ) : List Request → Prop
  | [] => start = stop
  | r :: rs => r.address = base + start ∧ r.bytes = start ∧ 0 < r.words ∧
      Chain base (start + 4 * r.words) stop rs

namespace Chain

variable {start stop : ℕ}

theorem request {address bytes words next stop' : ℕ} (haddr : address = base + start)
    (hbytes : bytes = start) (hwords : 0 < words) (hnext : next = start + 4 * words)
    (hstop : stop' = stop) (h : Chain base next stop' rs) :
    Chain base start stop (⟨address, bytes, words⟩ :: rs) :=
  ⟨haddr, hbytes, hwords, by subst hnext hstop; exact h⟩

theorem le (h : Chain base start stop rs) : start ≤ stop := by
  induction rs generalizing start with
  | nil => exact Nat.le_of_eq h
  | cons r rs ih =>
    have := ih h.2.2.2
    omega

theorem within (h : Chain base start stop rs) :
    ∀ r ∈ rs, r.address = base + r.bytes ∧ r.bytes + 4 * r.words ≤ stop := by
  induction rs generalizing start with
  | nil => simp
  | cons r rs ih =>
    obtain ⟨haddr, rfl, hwords, hrest⟩ := h
    intro s hs
    obtain rfl | hs := List.mem_cons.mp hs
    · exact ⟨haddr, hrest.le⟩
    · exact ih hrest s hs

theorem copies (h : Chain base start stop rs) (hfits : base + stop ≤ 4294967296) :
    ∀ r ∈ rs, r.Copies base := by
  intro r hr
  obtain ⟨haddr, hstop⟩ := h.within r hr
  exact ⟨haddr, by omega⟩

theorem covered (h : Chain base start stop rs) (i : ℕ) :
    Covered rs i ↔ start ≤ i ∧ i < stop := by
  induction rs generalizing start with
  | nil =>
    obtain rfl : start = stop := h
    simp
  | cons r rs ih =>
    obtain ⟨haddr, rfl, hwords, hrest⟩ := h
    have hle := hrest.le
    rw [covered_cons, ih hrest, Request.Covers]
    omega

theorem words_pos (h : Chain base start stop rs) : ∀ r ∈ rs, 0 < r.words := by
  induction rs generalizing start with
  | nil => simp
  | cons r rs ih =>
    intro s hs
    obtain rfl | hs := List.mem_cons.mp hs
    · exact h.2.2.1
    · exact ih h.2.2.2 s hs

theorem ordered (h : Chain base start stop rs) :
    rs.Pairwise fun r s => r.bytes + 4 * r.words ≤ s.bytes := by
  induction rs generalizing start with
  | nil => exact List.Pairwise.nil
  | cons r rs ih =>
    obtain ⟨haddr, rfl, hwords, hrest⟩ := h
    refine List.Pairwise.cons (fun s hs => ?_) (ih hrest)
    have hpos := hrest.words_pos s hs
    have hcov : Covered rs s.bytes := ⟨s, hs, le_rfl, by omega⟩
    exact ((hrest.covered _).mp hcov).1

theorem take (h : Chain base start stop rs) (n : ℕ) :
    ∃ stop', Chain base start stop' (rs.take n) := by
  induction rs generalizing start n with
  | nil => exact ⟨start, by simp [Chain]⟩
  | cons r rs ih =>
    cases n with
    | zero => exact ⟨start, rfl⟩
    | succ n =>
      obtain ⟨haddr, hbytes, hwords, hrest⟩ := h
      obtain ⟨stop', hstop⟩ := ih hrest n
      exact ⟨stop', haddr, hbytes, hwords, hstop⟩

end Chain

end W2.Host
