import W2.Host.Uploader

/-!
# The chunks of W2Uploader, read back

A reader of chunk requests that knows nothing of the encoder: it takes a request apart at its
blanks, reads the declared count and the groups of eight digits, and asks for one carriage
return, at the end. What it reads back from the requests of an upload is the buffer.
-/

namespace W2.Host

open Mips Console

section Reader

def digitValue? (c : Byte) : Option ℕ :=
  if 48 ≤ c.toNat ∧ c.toNat ≤ 57 then some (c.toNat - 48)
  else if 65 ≤ c.toNat ∧ c.toNat ≤ 70 then some (c.toNat - 55)
  else if 97 ≤ c.toNat ∧ c.toNat ≤ 102 then some (c.toNat - 87)
  else none

def numberFrom (acc : ℕ) : List Byte → Option ℕ
  | [] => some acc
  | c :: text => (digitValue? c).bind fun d => numberFrom (16 * acc + d) text

def group? (text : List Byte) : Option Word :=
  if text.length = 8 then (numberFrom 0 text).map (BitVec.ofNat 32) else none

structure Chunk where
  count : ℕ
  words : List Word

def chunk? (request : List Byte) : Option Chunk :=
  match request.dropLast.splitOn 32#8 with
  | header :: count :: groups =>
    if header = ascii "w10000000" ∧ request.getLast? = some 13#8 ∧
        ∀ c ∈ request.dropLast, c ≠ 13#8 then
      (numberFrom 0 count).bind fun n => (groups.mapM group?).map fun words => ⟨n, words⟩
    else none
  | _ => none

def littleEndian (w : Word) : List Byte := (List.range 4).map (byteOf w)

theorem digitValue?_hexDigit (upper : Bool) {d : ℕ} (hd : d < 16) :
    digitValue? (hexDigit upper d) = some d := by
  cases upper <;> interval_cases d <;> rfl

theorem numberFrom_digitsText (ds : List (Bool × Fin 16)) (acc : ℕ) :
    numberFrom acc (digitsText ds) = some (16 ^ ds.length * acc + digitsValue ds) := by
  induction ds generalizing acc with
  | nil => simp [digitsText, numberFrom, digitsValue]
  | cons d ds ih =>
    have htail : List.map (fun d : Bool × Fin 16 => hexDigit d.1 d.2) ds = digitsText ds := rfl
    rw [digitsText, List.map_cons, numberFrom, digitValue?_hexDigit d.1 d.2.isLt, Option.bind_some,
      htail, ih, digitsValue_cons, List.length_cons]
    congr 1
    ring

theorem digitsText_plain (ds : List (Bool × Fin 16)) : ∀ c ∈ digitsText ds, ¬ Ends c := by
  intro c hc
  obtain ⟨d, -, rfl⟩ := List.mem_map.mp hc
  exact (hexDigit_reads d.1 d.2.isLt).1

theorem mapM_map_some {α β γ : Type} {f : β → Option γ} {g : α → β} {h : α → γ} {xs : List α}
    (hfg : ∀ x ∈ xs, f (g x) = some (h x)) : (xs.map g).mapM f = some (xs.map h) := by
  induction xs with
  | nil => rfl
  | cons x xs ih => simp [hfg x (by simp), ih fun y hy => hfg y (by simp [hy])]

end Reader

section Texts

theorem flatMap_intercalate (f : ℕ → List Byte) (sep stop : Byte) (n : ℕ) :
    (List.range (n + 1)).flatMap (fun k => f k ++ [if k < n then sep else stop]) =
      [sep].intercalate ((List.range (n + 1)).map f) ++ [stop] := by
  induction n generalizing f with
  | zero => simp
  | succ n ih =>
    have hrest := ih fun k => f (k + 1)
    have hne : (List.range (n + 1)).map (fun k => f (k + 1)) ≠ [] := by simp
    rw [List.range_succ_eq_map, List.flatMap_cons, List.flatMap_map, List.map_cons, List.map_map]
    simp only [Nat.succ_eq_add_one, Nat.add_lt_add_iff_right, Function.comp_def]
    rw [hrest, List.intercalate_cons_of_ne_nil hne]
    simp

theorem not_mem_intercalate {x : Byte} {sep : List Byte} {fields : List (List Byte)}
    (hsep : x ∉ sep) (hfields : ∀ field ∈ fields, x ∉ field) : x ∉ sep.intercalate fields := by
  induction fields with
  | nil => simp
  | cons field fields ih =>
    cases fields with
    | nil => simpa using hfields
    | cons next fields =>
      have htail := ih fun f hf => hfields f (by simp [hf])
      simp [List.intercalate_cons_cons, hsep, htail, hfields field (by simp)]

def groupText (bytes : ℕ → Byte) (words k : ℕ) : List Byte :=
  digitsText (requestWord bytes words k).digits

theorem group?_groupText (bytes : ℕ → Byte) (words k : ℕ) :
    group? (groupText bytes words k) = some (wordAt bytes (4 * k)) := by
  have hlength : (groupText bytes words k).length = 8 := rfl
  rw [group?, if_pos hlength, groupText, numberFrom_digitsText, ← requestWord_value bytes words k]
  simp [Numeral.value]

def requestFields (bytes : ℕ → Byte) (words : ℕ) : List (List Byte) :=
  ascii "w10000000" :: hexText words :: (List.range words).map (groupText bytes words)

theorem requestFields_plain (bytes : ℕ → Byte) (words : ℕ) :
    ∀ field ∈ requestFields bytes words, ∀ c ∈ field, ¬ Ends c := by
  intro field hfield
  rcases List.mem_cons.mp hfield with rfl | hfield
  · decide
  rcases List.mem_cons.mp hfield with rfl | hfield
  · exact digitsText_plain _
  · obtain ⟨k, -, rfl⟩ := List.mem_map.mp hfield
    exact digitsText_plain _

theorem writeWords_fields (bytes : ℕ → Byte) {words : ℕ} (hwords : 0 < words) :
    writeWords 0x10000000 bytes words =
        [32#8].intercalate (requestFields bytes words) ++ [13#8] ∧
      13#8 ∉ [32#8].intercalate (requestFields bytes words) := by
  constructor
  · obtain ⟨n, rfl⟩ : ∃ n, words = n + 1 := ⟨words - 1, by omega⟩
    have hheader : ascii "w10000000" = 119#8 :: hexText 0x10000000 := by decide
    have hne : (List.range (n + 1)).map (groupText bytes (n + 1)) ≠ [] := by simp
    have hgroup (k : ℕ) :
        [3, 2, 1, 0].flatMap (fun offset => byteToAsciiString (bytes (offset + k * 4))) ++
          [if k < n + 1 - 1 then 32#8 else 13#8] =
        groupText bytes (n + 1) k ++ [if k < n then 32#8 else 13#8] :=
      (requestWord_text bytes (n + 1) k).symm
    rw [writeWords, funext hgroup, flatMap_intercalate, requestFields,
      List.intercalate_cons_of_ne_nil (by simp), List.intercalate_cons_of_ne_nil hne, hheader]
    simp
  · refine not_mem_intercalate (by decide) fun field hfield h => ?_
    exact requestFields_plain bytes words field hfield _ h return_ends

theorem chunk?_writeWords (bytes : ℕ → Byte) {words : ℕ} (hwords : 0 < words) :
    chunk? (writeWords 0x10000000 bytes words) =
      some ⟨words, (List.range words).map fun k => wordAt bytes (4 * k)⟩ := by
  obtain ⟨htext, hreturn⟩ := writeWords_fields bytes hwords
  have hblank := List.splitOn_intercalate 32#8 (fun field hfield h =>
    requestFields_plain bytes words field hfield _ h blank_ends) (List.cons_ne_nil _ _)
  have hcount : numberFrom 0 (hexText words) = some words := by
    rw [hexText, numberFrom_digitsText, hexDigits_value]
    simp
  have hgroups := mapM_map_some fun k (_ : k ∈ List.range words) => group?_groupText bytes words k
  have hplain (c : Byte) (hc : c ∈ [32#8].intercalate (requestFields bytes words)) : c ≠ 13#8 :=
    fun h => hreturn (h ▸ hc)
  rw [htext, chunk?, List.dropLast_concat, hblank]
  simp only [List.getLast?_concat, requestFields, true_and] at hplain ⊢
  rw [if_pos hplain]
  simp only [hcount, hgroups, Option.bind_some, Option.map_some]

end Texts

section Sessions

def Request.bytesOf (buffer : ℕ → Byte) (r : Request) : List Byte :=
  (List.range (4 * r.words)).map fun i => buffer (r.bytes + i)

theorem littleEndian_words (bytes : ℕ → Byte) (n : ℕ) :
    ((List.range n).map fun k => wordAt bytes (4 * k)).flatMap littleEndian =
      (List.range (4 * n)).map bytes := by
  induction n with
  | zero => rfl
  | succ n ih =>
    have hword : littleEndian (wordAt bytes (4 * n)) =
        [bytes (4 * n), bytes (4 * n + 1), bytes (4 * n + 2), bytes (4 * n + 3)] := by
      simp [littleEndian, List.range_succ, byteOf_wordAt]
    rw [List.range_succ, List.map_append, List.flatMap_append, ih, Nat.mul_succ,
      List.range_add, List.map_append]
    simp [hword, List.range_succ]

theorem uploadChunks_bytes (buffer : ℕ → Byte) (size offset : ℕ) (hsize : size % 4 = 0)
    (hoffset : offset % 4 = 0) :
    (uploadChunks size offset).flatMap (Request.bytesOf buffer) =
      (List.range (size - offset)).map fun i => buffer (offset + i) := by
  fun_induction uploadChunks size offset with
  | case1 offset h ih =>
    have haligned := writeSize_aligned (n := size - offset) (by omega)
    have hle := (writeSize_le (size - offset)).1
    have hrest : size - offset =
        writeSize (size - offset) + (size - (offset + writeSize (size - offset))) := by omega
    rw [List.flatMap_cons, ih (by omega), hrest, List.range_add, List.map_append, ← hrest,
      Request.bytesOf]
    congr 1
    · rw [show 4 * (writeSize (size - offset) / 4) = writeSize (size - offset) by omega]
    · simp [Nat.add_assoc]
  | case2 offset h =>
    rw [show size - offset = 0 by omega]
    rfl

theorem uploadChunks_pos (size offset : ℕ) (hsize : size % 4 = 0) (hoffset : offset % 4 = 0) :
    ∀ r ∈ uploadChunks size offset, 0 < r.words := by
  fun_induction uploadChunks size offset with
  | case1 offset h ih =>
    have hpos := writeSize_pos (n := size - offset) (by omega)
    have haligned := writeSize_aligned (n := size - offset) (by omega)
    intro r hr
    rcases List.mem_cons.mp hr with rfl | hr
    · show 0 < _ / 4
      omega
    · exact ih (by omega) r hr
  | case2 offset h => simp

/-- What the requests of an upload say of it: each of them declares its words, at most 256 of
them, and all of them together spell the buffer. -/
theorem uploadLoop_lossless (image : Image) (c : Client) (hsize : image.size % 4 = 0) :
    ∃ requests chunks,
      uploadLoop image 0 c = (.ok (), ⟨c.fate, c.sent ++ requests⟩) ∧
      requests.mapM chunk? = some chunks ∧
      (∀ k ∈ chunks, 1 ≤ k.count ∧ k.count ≤ 256 ∧ k.count = k.words.length) ∧
      (∀ r ∈ requests, ∃ body, r = body ++ [13#8] ∧ 13#8 ∉ body) ∧
      (chunks.flatMap fun k => k.words.flatMap littleEndian) =
        (List.range image.size).map image.buffer ∧
      (image.size = 0 → requests = []) := by
  have hshape := uploadChunks_shape image.size 0
  have hpos := uploadChunks_pos image.size 0 hsize rfl
  have htext (r : Request) (hr : r ∈ uploadChunks image.size 0) : r.text image.buffer =
      writeWords 0x10000000 (fun i => image.buffer (r.bytes + i)) r.words := by
    rw [Request.text, (hshape r hr).1]
  refine ⟨(uploadChunks image.size 0).map (Request.text image.buffer),
    (uploadChunks image.size 0).map fun r => ⟨r.words, r.image image.buffer⟩,
    uploadLoop_eq image 0 c hsize rfl, ?_, ?_, ?_, ?_, ?_⟩
  · refine mapM_map_some fun r hr => ?_
    rw [htext r hr]
    exact chunk?_writeWords _ (hpos r hr)
  · intro k hk
    obtain ⟨r, hr, rfl⟩ := List.mem_map.mp hk
    exact ⟨hpos r hr, (hshape r hr).2, by simp [Request.image]⟩
  · intro request hrequest
    obtain ⟨r, hr, rfl⟩ := List.mem_map.mp hrequest
    exact ⟨_, htext r hr ▸ writeWords_fields _ (hpos r hr)⟩
  · have hbytes := uploadChunks_bytes image.buffer image.size 0 hsize rfl
    have hwords (r : Request) : (r.image image.buffer).flatMap littleEndian =
        r.bytesOf image.buffer := littleEndian_words (fun i => image.buffer (r.bytes + i)) r.words
    rw [List.flatMap_map, funext hwords, hbytes]
    simp
  · intro hempty
    rw [hempty, uploadChunks]
    rfl

def counted : Image := ⟨fun i => BitVec.ofNat 8 i, 1544⟩

theorem uploadLoop_lossless_six :
    ∃ requests chunks,
      uploadLoop counted 0 ⟨ideal (session counted), startRequests⟩ =
        (.ok (), ⟨ideal (session counted), startRequests ++ requests⟩) ∧
      requests.mapM chunk? = some chunks ∧
      (∀ k ∈ chunks, 1 ≤ k.count ∧ k.count ≤ 256 ∧ k.count = k.words.length) ∧
      (∀ r ∈ requests, ∃ body, r = body ++ [13#8] ∧ 13#8 ∉ body) ∧
      (chunks.flatMap fun k => k.words.flatMap littleEndian) =
        (List.range 1544).map (fun i => BitVec.ofNat 8 i) ∧
      (1544 = 0 → requests = []) :=
  uploadLoop_lossless counted ⟨ideal (session counted), startRequests⟩ rfl

/-- Two encoders, one text: what a chunk of `n` words looks like does not depend on which of the
programs writes it. -/
theorem encoders_agree (buffer : ℕ → Byte) (n : ℕ) (hn : 1 ≤ n) :
    bytesToLittleEndianHexString buffer (4 * n) = .ok (writeWords 0x10000000 buffer n) := by
  obtain ⟨k, rfl⟩ : ∃ k, n = k + 1 := ⟨n - 1, by omega⟩
  exact bytesToLittleEndianHexString_eq buffer k

theorem encoders_agree_two :
    bytesToLittleEndianHexString (fun i => BitVec.ofNat 8 (255 - i)) (4 * 2) =
      .ok (writeWords 0x10000000 (fun i => BitVec.ofNat 8 (255 - i)) 2) :=
  encoders_agree (fun i => BitVec.ofNat 8 (255 - i)) 2 (by decide)

end Sessions

end W2.Host
