import W2.Host.Uploader

/-!
# The buffer of an upload

`readBinaryFile` obtains one block and fills it, the chunk loop of `upload` hands parts of it to
the encoder. Every access is an index into the block; the indices of the encoder are those its
result depends on.
-/

namespace W2.Host

open Mips Console

/-- The length of the block of `new char(fileSize)`: the parentheses initialise one `char`. -/
def allocated (_fileSize : ℕ) : ℕ := 1

def filled (fileSize : ℕ) : List ℕ := List.range fileSize

def encoderReads (size : ℕ) : List ℕ :=
  if size % 4 ≠ 0 then []
  else (List.range (size / 4)).flatMap fun k => [3, 2, 1, 0].map fun j => 4 * k + j

def uploadReads (size offset : ℕ) : List ℕ :=
  if offset < size then
    (encoderReads (writeSize (size - offset))).map (offset + ·) ++
      uploadReads size (offset + writeSize (size - offset))
  else []
termination_by size - offset
decreasing_by unfold writeSize; split <;> omega

def accesses (fileSize : ℕ) : List ℕ :=
  filled fileSize ++ if fileSize % 4 = 0 then uploadReads fileSize 0 else []

theorem mem_encoderReads {size i : ℕ} (h : size % 4 = 0) : i ∈ encoderReads size ↔ i < size := by
  simp only [encoderReads, h, ne_eq, not_true_eq_false, if_false, List.mem_flatMap, List.mem_range,
    List.mem_map, List.mem_cons, List.not_mem_nil, or_false]
  constructor
  · rintro ⟨k, hk, j, hj, rfl⟩
    omega
  · intro hi
    exact ⟨i / 4, by omega, i % 4, by omega, by omega⟩

theorem mem_uploadReads {size offset i : ℕ} (hsize : size % 4 = 0) (hoffset : offset % 4 = 0) :
    i ∈ uploadReads size offset ↔ offset ≤ i ∧ i < size := by
  fun_induction uploadReads size offset with
  | case1 offset h ih =>
    have haligned := writeSize_aligned (n := size - offset) (by omega)
    have hle := (writeSize_le (size - offset)).1
    simp only [List.mem_append, List.mem_map, mem_encoderReads haligned, ih (by omega)]
    constructor
    · rintro (⟨j, hj, rfl⟩ | hi) <;> omega
    · intro hi
      by_cases hchunk : i < offset + writeSize (size - offset)
      · exact .inl ⟨i - offset, by omega, by omega⟩
      · exact .inr (by omega)
  | case2 offset h => simp; omega

theorem bytesToLittleEndianHexString_congr {buffer buffer' : ℕ → Byte} {size : ℕ}
    (h : ∀ i ∈ encoderReads size, buffer i = buffer' i) :
    bytesToLittleEndianHexString buffer size = bytesToLittleEndianHexString buffer' size := by
  unfold bytesToLittleEndianHexString
  split
  next => rfl
  next haligned =>
    simp only [encoderReads, haligned, if_false] at h
    have hgroup (k : ℕ) (hk : k ∈ List.range (size / 4)) (j : ℕ) (hj : j ∈ [3, 2, 1, 0]) :
        buffer (4 * k + j) = buffer' (4 * k + j) :=
      h _ (List.mem_flatMap.mpr ⟨k, hk, List.mem_map.mpr ⟨j, hj, rfl⟩⟩)
    simp only [List.flatMap]
    congr 4
    refine List.map_congr_left fun k hk => ?_
    congr 2
    exact List.map_congr_left fun j hj => by rw [hgroup k hk j hj]

theorem uploadLoop_congr {buffer buffer' : ℕ → Byte} {size offset : ℕ} (c : Client)
    (h : ∀ i ∈ uploadReads size offset, buffer i = buffer' i) :
    uploadLoop ⟨buffer, size⟩ offset c = uploadLoop ⟨buffer', size⟩ offset c := by
  fun_induction uploadReads size offset generalizing c with
  | case1 offset hlt ih =>
    have htext : bytesToLittleEndianHexString (fun i => buffer (offset + i))
        (writeSize (size - offset)) =
        bytesToLittleEndianHexString (fun i => buffer' (offset + i)) (writeSize (size - offset)) :=
      bytesToLittleEndianHexString_congr fun i hi =>
        h _ (List.mem_append_left _ (List.mem_map.mpr ⟨i, hi, rfl⟩))
    rw [uploadLoop, uploadLoop]
    simp only [hlt, if_true, htext]
    split
    next => rfl
    next => exact ih _ fun i hi => h i (List.mem_append_right _ hi)
  | case2 offset hge =>
    rw [uploadLoop, uploadLoop]
    simp only [hge, if_false]

/-- Every access of an upload is inside the block exactly when the file has at most one byte. -/
theorem accesses_allocated (file : List Byte) :
    (∀ i ∈ accesses file.length, i < allocated file.length) ↔ file.length ≤ 1 := by
  constructor
  · intro h
    by_contra hlarge
    have hfill : 1 ∈ accesses file.length :=
      List.mem_append_left _ (List.mem_range.mpr (by omega))
    exact absurd (h 1 hfill) (by simp [allocated])
  · intro hsmall i hi
    rcases List.mem_append.mp hi with hi | hi
    · have := List.mem_range.mp hi
      unfold allocated
      omega
    · split at hi
      next haligned =>
        have := (mem_uploadReads haligned rfl).mp hi
        unfold allocated
        omega
      next => cases hi

theorem accesses_four_bytes :
    ¬ ∀ i ∈ accesses [1#8, 2#8, 3#8, 4#8].length, i < allocated [1#8, 2#8, 3#8, 4#8].length := by
  intro h
  exact absurd (h 3 (List.mem_append_left _ (by decide))) (by decide)

end W2.Host
