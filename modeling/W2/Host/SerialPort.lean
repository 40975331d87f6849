import W2.Host.Requests

/-!
# The upload functions of SerialPort

`utils.cpp` of the Mac and of the Windows program: the encoder of one `w` request, and the
loops that cut a buffer into requests of 256, 16 or 1 words. A pointer into the buffer is an
index; a loop yields the requests it sends, in order. Reads past the end of the buffer are
listed with the others, and the encoder takes whatever values they give.
-/

namespace W2.Host

open Mips Console

def byteToAsciiString (c : Byte) : List Byte :=
  (if c.toNat ≤ 0xf then [48#8] else []) ++ hexText c.toNat

/-- The request `write_words` sends: `w`, address, count, and each word with its most significant
byte first, a blank after each but the last, a carriage return after that. -/
def writeWords (address : ℕ) (bytes : ℕ → Byte) (words : ℕ) : List Byte :=
  119#8 :: (hexText address ++ [32#8] ++ hexText words ++ [32#8] ++
    (List.range words).flatMap fun word =>
      [3, 2, 1, 0].flatMap (fun offset => byteToAsciiString (bytes (offset + word * 4))) ++
        [if word < words - 1 then 32#8 else 13#8])

theorem byteToAsciiString_eq (c : Byte) : byteToAsciiString c = digitsText (byteDigits c) := by
  have hc := c.isLt
  unfold byteToAsciiString hexText hexDigits byteDigits
  by_cases h0 : c.toNat = 0
  · simp [h0, digitsText, hexDigit]
  by_cases hsmall : c.toNat ≤ 0xf
  · rw [if_pos hsmall, if_neg h0, Nat.digits_of_lt 16 _ h0 (by omega)]
    simp [digitsText, hexDigit, show c.toNat / 16 = 0 by omega]
  · rw [if_neg hsmall, if_neg h0, Nat.digits_def' (by omega) (by omega),
      Nat.digits_of_lt 16 _ (by omega) (by omega)]
    simp [digitsText]

def requestWord (bytes : ℕ → Byte) (words word : ℕ) : Numeral :=
  wordNumeral (bytes (3 + word * 4)) (bytes (2 + word * 4)) (bytes (1 + word * 4))
    (bytes (0 + word * 4)) (if word < words - 1 then 32#8 else 13#8) (by split <;> decide)

theorem requestWord_text (bytes : ℕ → Byte) (words word : ℕ) :
    (requestWord bytes words word).text =
      [3, 2, 1, 0].flatMap (fun offset => byteToAsciiString (bytes (offset + word * 4))) ++
        [if word < words - 1 then 32#8 else 13#8] := by
  simp [requestWord, wordNumeral, Numeral.text, digitsText, byteToAsciiString_eq]

theorem requestWord_value (bytes : ℕ → Byte) (words word : ℕ) :
    (requestWord bytes words word).value = wordAt bytes (4 * word) := by
  rw [requestWord, wordNumeral_value, wordAt, Nat.mul_comm word 4, Nat.add_comm 3, Nat.add_comm 2,
    Nat.add_comm 1, Nat.zero_add]

def spelledWrite (address : ℕ) (bytes : ℕ → Byte) (words : ℕ) (ha : address < 4294967296)
    (hw : words < 4294967296) : Spelled :=
  .w (hexNumeral address ha 32#8 blank_ends) (hexNumeral words hw 32#8 blank_ends)
    ((List.range words).map (requestWord bytes words)) (by
      rw [hexNumeral_value, BitVec.toNat_ofNat, Nat.mod_eq_of_lt hw]
      simp)

theorem spelledWrite_text {address : ℕ} (bytes : ℕ → Byte) {words : ℕ} (ha : address < 4294967296)
    (hw : words < 4294967296) :
    (spelledWrite address bytes words ha hw).text = writeWords address bytes words := by
  simp only [spelledWrite, Spelled.text, hexNumeral_text, writeWords, List.flatMap_map,
    requestWord_text, List.append_assoc]

theorem spelledWrite_command {address : ℕ} (bytes : ℕ → Byte) {words : ℕ}
    (ha : address < 4294967296) (hw : words < 4294967296) :
    (spelledWrite address bytes words ha hw).command =
      .w (BitVec.ofNat 32 address) ((List.range words).map fun k => wordAt bytes (4 * k)) := by
  simp only [spelledWrite, Spelled.command, hexNumeral_value, List.map_map, Function.comp_def,
    requestWord_value]

namespace Request

def text (buffer : ℕ → Byte) (r : Request) : List Byte :=
  writeWords r.address (fun i => buffer (r.bytes + i)) r.words

def reads (r : Request) : List ℕ :=
  (List.range r.words).flatMap fun word =>
    [3, 2, 1, 0].map fun offset => r.bytes + (offset + word * 4)

theorem mem_reads {r : Request} {i : ℕ} : i ∈ r.reads ↔ r.Covers i := by
  simp only [reads, List.mem_flatMap, List.mem_range, List.mem_map, List.mem_cons,
    List.not_mem_nil, or_false, Covers]
  constructor
  · rintro ⟨word, hword, offset, hoffset, rfl⟩
    omega
  · rintro ⟨hlo, hhi⟩
    exact ⟨(i - r.bytes) / 4, by omega, (i - r.bytes) % 4, by omega, by omega⟩

theorem execRequest_text {r : Request} (ha : r.address < 4294967296) (hw : r.words < 4294967296)
    (buffer : ℕ → Byte) (m : Mem) : execRequest m (r.text buffer) = some (r.apply buffer m) := by
  rw [text, ← spelledWrite_text _ ha hw, execRequest_spelled, spelledWrite_command]
  rfl

end Request

theorem execRequests_text {rs : List Request}
    (h : ∀ r ∈ rs, r.address < 4294967296 ∧ r.words < 4294967296) (buffer : ℕ → Byte) (m : Mem) :
    execRequests m (rs.map (Request.text buffer)) = some (applyAll buffer m rs) := by
  induction rs generalizing m with
  | nil => rfl
  | cons r rs ih =>
    obtain ⟨ha, hw⟩ := h r (by simp)
    rw [List.map_cons, execRequests, Request.execRequest_text ha hw]
    exact ih (fun s hs => h s (by simp [hs])) _

section Loops

def writeBytesLoop (buffer bytes address offset : ℕ) : List Request :=
  if offset < bytes then
    ⟨address, buffer + offset, 1⟩ :: writeBytesLoop buffer bytes (address + 4) (offset + 4)
  else []
termination_by bytes - offset

def writeBytes (address buffer bytes : ℕ) : List Request := writeBytesLoop buffer bytes address 0

/-- The loop of `write_bytes_16` and `write_bytes_fast`. The remaining bytes are compared with
the number of words of the larger request. -/
def writeBytes16Loop (address buffer bytes offset : ℕ) : List Request :=
  if offset < bytes then
    if bytes - offset ≥ 16 then
      ⟨address + offset, buffer + offset, 16⟩ ::
        writeBytes16Loop address buffer bytes (offset + 16 * 4)
    else
      ⟨address + offset, buffer + offset, 1⟩ :: writeBytes16Loop address buffer bytes (offset + 4)
  else []
termination_by bytes - offset

def writeBytesFast (address buffer bytes : ℕ) : List Request :=
  writeBytes16Loop address buffer bytes 0

def writeBytes16 (address buffer bytes : ℕ) : List Request :=
  writeBytes16Loop address buffer bytes 0

/-- The loop of the Windows program's `write_bytes_256`: what the larger requests leave goes to
`write_bytes_16` as a buffer of its own. -/
def writeBytes256Loop (address buffer bytes offset : ℕ) : List Request :=
  if offset < bytes then
    if bytes - offset ≥ 256 then
      ⟨address + offset, buffer + offset, 256⟩ ::
        writeBytes256Loop address buffer bytes (offset + 256 * 4)
    else
      writeBytes16 (address + offset) (buffer + offset) (bytes - offset)
  else []
termination_by bytes - offset
decreasing_by omega

def writeBytes256 (address buffer bytes : ℕ) : List Request :=
  writeBytes256Loop address buffer bytes 0

def uploadBinMac (address size : ℕ) : List Request := writeBytesFast address 0 size

def uploadBinWindows (address size : ℕ) : List Request := writeBytes256 address 0 size

end Loops

end W2.Host
