import W2.Host.Upload

/-!
# W2Uploader

`W2Uploader::upload` against a port that decides the fate of every request: how many bytes
`::write` accepts or with what error it refuses, and whether an acknowledgement ends the wait.
The client records the requests handed to the port, in order, so that it shows after the
upload what has been sent, whether the upload returned or threw.
-/

namespace W2.Host

open Mips Console

def ascii (text : String) : List Byte := text.toList.map fun c => BitVec.ofNat 8 c.toNat

inductive WriteResult
  | accepted (bytes : ℕ)
  | refused (errno : String)
  deriving DecidableEq, Repr

structure Outcome where
  write : WriteResult
  ack : Bool
  deriving DecidableEq, Repr

structure Client where
  fate : ℕ → Outcome
  sent : List (List Byte)

/-- What a member function leaves: nothing or the text of an exception, and the client. -/
abbrev Result := Except String Unit × Client

def Result.andThen (r : Result) (rest : Client → Result) : Result :=
  match r.1 with
  | .ok _ => rest r.2
  | .error e => (.error e, r.2)

/-- `SerialPortClient::write`. A short count is not looked at, and a wait that times out is
reported on `cerr` alone. -/
def Client.write (c : Client) (request : List Byte) : Result :=
  let c' := { c with sent := c.sent ++ [request] }
  match (c.fate c.sent.length).write with
  | .accepted _ => (.ok (), c')
  | .refused errno => (.error ("Write failed: " ++ errno), c')

def sendStart (c : Client) : Result := c.write (ascii "\n")

def disableSpecialSeqInstr : List Byte := ascii "w1f800004 1 40\r"
def unlockFlashInstr : List Byte := ascii "w1f800b07 1 a5\r"
def eraseFlashInstr : List Byte := ascii "w10300000 1 00\r"

def setUpFlash (c : Client) : Result :=
  (c.write (ascii "a")).andThen fun c =>
    (c.write disableSpecialSeqInstr).andThen fun c =>
      (c.write unlockFlashInstr).andThen fun c => c.write eraseFlashInstr

def charToHexString (c : Byte) : List Byte :=
  List.replicate (2 - (hexText c.toNat).length) 48#8 ++ hexText c.toNat

/-- The address is part of the format. -/
def bytesToLittleEndianHexString (buffer : ℕ → Byte) (size : ℕ) : Except String (List Byte) :=
  if size % 4 ≠ 0 then .error "Buffer size must be word-aligned"
  else
    let numWords := size / 4
    .ok (ascii "w10000000 " ++ hexText numWords ++ ascii " " ++
      (List.range numWords).flatMap (fun k =>
        [3, 2, 1, 0].flatMap (fun j => charToHexString (buffer (4 * k + j))) ++
          if 4 * k + 4 < size then ascii " " else []) ++ ascii "\r")

structure Image where
  buffer : ℕ → Byte
  size : ℕ

def writeSize (remainingSize : ℕ) : ℕ := if remainingSize > 1024 then 1024 else remainingSize

/-- The loop over the chunks. An exception of `client_.write` is caught and reported on `cerr`
alone. -/
def uploadLoop (image : Image) (offset : ℕ) (c : Client) : Result :=
  if offset < image.size then
    match bytesToLittleEndianHexString (fun i => image.buffer (offset + i))
        (writeSize (image.size - offset)) with
    | .error e => (.error e, c)
    | .ok fmtBuffer =>
      uploadLoop image (offset + writeSize (image.size - offset)) (c.write fmtBuffer).2
  else (.ok (), c)
termination_by image.size - offset
decreasing_by unfold writeSize; split <;> omega

def upload (file : Except String Image) (flushErr : Option String) (c : Client) : Result :=
  match file with
  | .error e => (.error e, c)
  | .ok image =>
    if image.size % 4 ≠ 0 then (.error "binary size must be word-aligned", c)
    else
      match flushErr with
      | some errno =>
        (.error ("Failed to flush serial port, not uploading. Terminating: " ++ errno), c)
      | none => (sendStart c).andThen fun c => (setUpFlash c).andThen (uploadLoop image 0)

section Texts

theorem charToHexString_eq (c : Byte) : charToHexString c = digitsText (byteDigits c) := by
  rw [← byteToAsciiString_eq]
  have hc := c.isLt
  unfold charToHexString byteToAsciiString
  congr 1
  by_cases h0 : c.toNat = 0
  · simp [h0, hexText, hexDigits, digitsText]
  unfold hexText hexDigits
  rw [if_neg h0]
  by_cases hsmall : c.toNat ≤ 0xf
  · rw [if_pos hsmall, Nat.digits_of_lt 16 _ h0 (by omega)]
    rfl
  · rw [if_neg hsmall, Nat.digits_def' (by omega) (by omega),
      Nat.digits_of_lt 16 _ (by omega) (by omega)]
    rfl

theorem flatMap_separated (f : ℕ → List Byte) (sep stop : Byte) (n : ℕ) :
    (List.range (n + 1)).flatMap (fun k => f k ++ if k < n then [sep] else []) ++ [stop] =
      (List.range (n + 1)).flatMap fun k => f k ++ [if k < n then sep else stop] := by
  have hinit : (List.range n).flatMap (fun k => f k ++ if k < n then [sep] else []) =
      (List.range n).flatMap fun k => f k ++ [if k < n then sep else stop] := by
    simp only [List.flatMap]
    congr 1
    exact List.map_congr_left fun k hk => by simp [List.mem_range.mp hk]
  simp only [List.range_succ, List.flatMap_append, List.flatMap_singleton, lt_irrefl, if_false]
  rw [hinit]
  simp

theorem bytesToLittleEndianHexString_eq (buffer : ℕ → Byte) (n : ℕ) :
    bytesToLittleEndianHexString buffer (4 * (n + 1)) =
      .ok (writeWords 0x10000000 buffer (n + 1)) := by
  have hdiv : 4 * (n + 1) / 4 = n + 1 := by omega
  have hhead : ascii "w10000000 " = 119#8 :: (hexText 0x10000000 ++ [32#8]) := by decide
  have hblank : ascii " " = [32#8] := by decide
  have hreturn : ascii "\r" = [13#8] := by decide
  have hlast (k : ℕ) : 4 * k + 4 < 4 * (n + 1) ↔ k < n := by omega
  have hwords := flatMap_separated (fun k =>
    [3, 2, 1, 0].flatMap fun j => charToHexString (buffer (4 * k + j))) 32#8 13#8 n
  rw [bytesToLittleEndianHexString, if_neg (by omega)]
  simp only [hdiv, hhead, hblank, hreturn, hlast, List.append_assoc] at hwords ⊢
  rw [hwords]
  simp [writeWords, charToHexString_eq, byteToAsciiString_eq, Nat.mul_comm, Nat.add_comm]

end Texts

section Sessions

def uploadChunks (size offset : ℕ) : List Request :=
  if offset < size then
    ⟨0x10000000, offset, writeSize (size - offset) / 4⟩ ::
      uploadChunks size (offset + writeSize (size - offset))
  else []
termination_by size - offset
decreasing_by unfold writeSize; split <;> omega

def startRequests : List (List Byte) :=
  [ascii "\n", ascii "a", disableSpecialSeqInstr, unlockFlashInstr, eraseFlashInstr]

def session (image : Image) : List (List Byte) :=
  startRequests ++ (uploadChunks image.size 0).map (Request.text image.buffer)

theorem writeSize_pos {n : ℕ} (h : 0 < n) : 0 < writeSize n := by
  unfold writeSize
  split <;> omega

theorem writeSize_le (n : ℕ) : writeSize n ≤ n ∧ writeSize n ≤ 1024 := by
  unfold writeSize
  split <;> omega

theorem writeSize_aligned {n : ℕ} (h : n % 4 = 0) : writeSize n % 4 = 0 := by
  unfold writeSize
  split <;> omega

@[simp] theorem Client.write_client (c : Client) (request : List Byte) :
    (c.write request).2 = ⟨c.fate, c.sent ++ [request]⟩ := by
  unfold Client.write
  split <;> rfl

theorem uploadLoop_eq (image : Image) (offset : ℕ) (c : Client) (hsize : image.size % 4 = 0)
    (hoffset : offset % 4 = 0) :
    uploadLoop image offset c =
      (.ok (), ⟨c.fate,
        c.sent ++ (uploadChunks image.size offset).map (Request.text image.buffer)⟩) := by
  fun_induction uploadChunks image.size offset generalizing c with
  | case1 offset h ih =>
    have hrem : (image.size - offset) % 4 = 0 := by omega
    have haligned := writeSize_aligned hrem
    have hpos := writeSize_pos (n := image.size - offset) (by omega)
    obtain ⟨n, hn⟩ : ∃ n, writeSize (image.size - offset) = 4 * (n + 1) :=
      ⟨writeSize (image.size - offset) / 4 - 1, by omega⟩
    have htext : bytesToLittleEndianHexString (fun i => image.buffer (offset + i))
        (writeSize (image.size - offset)) =
        .ok (Request.text image.buffer
          ⟨0x10000000, offset, writeSize (image.size - offset) / 4⟩) := by
      rw [hn, bytesToLittleEndianHexString_eq, show 4 * (n + 1) / 4 = n + 1 by omega]
      rfl
    rw [uploadLoop, if_pos h, htext]
    simp only [Client.write_client]
    rw [ih _ (by omega)]
    simp
  | case2 offset h =>
    rw [uploadLoop, if_neg h]
    simp

def Client.writeAll (c : Client) : List (List Byte) → Result
  | [] => (.ok (), c)
  | request :: requests => (c.write request).andThen fun c => c.writeAll requests

def Accepts (o : Outcome) : Prop := ∃ n, o.write = .accepted n

theorem Client.write_accepted {c : Client} {request : List Byte}
    (h : Accepts (c.fate c.sent.length)) : (c.write request).1 = .ok () := by
  obtain ⟨n, hn⟩ := h
  simp [Client.write, hn]

theorem Client.write_refused {c : Client} (request : List Byte)
    (h : ¬ Accepts (c.fate c.sent.length)) : ∃ e, (c.write request).1 = .error e := by
  cases hw : (c.fate c.sent.length).write with
  | accepted n => exact absurd ⟨n, hw⟩ h
  | refused errno => exact ⟨_, by simp [Client.write, hw]; rfl⟩

theorem Client.writeAll_accepted {c : Client} (requests : List (List Byte))
    (h : ∀ k < requests.length, Accepts (c.fate (c.sent.length + k))) :
    c.writeAll requests = (.ok (), ⟨c.fate, c.sent ++ requests⟩) := by
  induction requests generalizing c with
  | nil => simp [Client.writeAll]
  | cons request requests ih =>
    have hfirst : Accepts (c.fate c.sent.length) := h 0 (by simp)
    rw [Client.writeAll, Result.andThen, Client.write_accepted hfirst, Client.write_client]
    show Client.writeAll _ requests = _
    rw [ih fun k hk => ?_]
    · simp
    · have := h (k + 1) (by simpa using hk)
      simpa [Nat.add_assoc, Nat.add_comm 1] using this

theorem Client.writeAll_refused {c : Client} (requests : List (List Byte))
    (h : ∃ k < requests.length, ¬ Accepts (c.fate (c.sent.length + k))) :
    ∃ e, ∃ n ≤ requests.length,
      c.writeAll requests = (.error e, ⟨c.fate, c.sent ++ requests.take n⟩) := by
  induction requests generalizing c with
  | nil => simp at h
  | cons request requests ih =>
    by_cases hfirst : Accepts (c.fate c.sent.length)
    · obtain ⟨k, hk, hrefused⟩ := h
      cases k with
      | zero => exact absurd hfirst hrefused
      | succ k =>
        obtain ⟨e, n, hn, hrest⟩ := ih (c := ⟨c.fate, c.sent ++ [request]⟩)
          ⟨k, by simpa using hk, by simpa [Nat.add_assoc, Nat.add_comm 1] using hrefused⟩
        refine ⟨e, n + 1, by simpa using hn, ?_⟩
        rw [Client.writeAll, Result.andThen, Client.write_accepted hfirst, Client.write_client]
        simpa using hrest
    · obtain ⟨e, he⟩ := Client.write_refused request hfirst
      refine ⟨e, 1, by simp, ?_⟩
      rw [Client.writeAll, Result.andThen, he, Client.write_client]
      simp

theorem Result.andThen_assoc (r : Result) (f g : Client → Result) :
    (r.andThen f).andThen g = r.andThen fun c => (f c).andThen g := by
  obtain ⟨e | u, c⟩ := r <;> rfl

theorem upload_start (image : Image) (c : Client) (hsize : image.size % 4 = 0) :
    upload (.ok image) none c = (c.writeAll startRequests).andThen (uploadLoop image 0) := by
  have hend (r : Result) : r.andThen (fun c => (.ok (), c)) = r := by
    obtain ⟨e | u, c⟩ := r <;> rfl
  simp only [upload, hsize, ne_eq, not_true_eq_false, if_false, sendStart, setUpFlash,
    startRequests, Client.writeAll, Result.andThen_assoc, hend]

theorem upload_accepted {image : Image} {fate : ℕ → Outcome} (hsize : image.size % 4 = 0)
    (h : ∀ k < 5, Accepts (fate k)) :
    upload (.ok image) none ⟨fate, []⟩ = (.ok (), ⟨fate, session image⟩) := by
  have hstart : Client.writeAll ⟨fate, []⟩ startRequests = (.ok (), ⟨fate, startRequests⟩) := by
    simpa using Client.writeAll_accepted startRequests (c := ⟨fate, []⟩)
      (by simpa [startRequests] using h)
  rw [upload_start image _ hsize, hstart]
  exact uploadLoop_eq image 0 _ hsize (by omega)

theorem upload_refused {image : Image} {fate : ℕ → Outcome} (hsize : image.size % 4 = 0)
    (h : ∃ k < 5, ¬ Accepts (fate k)) :
    ∃ e, (upload (.ok image) none ⟨fate, []⟩).1 = .error e ∧
      (upload (.ok image) none ⟨fate, []⟩).2.sent.length ≤ 5 := by
  obtain ⟨e, n, hn, hstart⟩ := Client.writeAll_refused startRequests (c := ⟨fate, []⟩)
    (by simpa [startRequests] using h)
  rw [upload_start image _ hsize, hstart]
  refine ⟨e, rfl, ?_⟩
  simp only [Result.andThen, List.nil_append, List.length_take]
  exact (Nat.min_le_right _ _).trans (by simp [startRequests])

end Sessions

section Placement

def PlacesImage (image : Image) (m : Mem) (requests : List (List Byte)) : Prop :=
  ∃ m', execRequests m requests = some m' ∧
    (∀ i < image.size, m' (BitVec.ofNat 32 (0x10000000 + i)) = image.buffer i) ∧
    ∀ x, ¬ InRange 0x10000000#32 image.size x → m' x = m x

def chunkRequests (r : Result) : List (List Byte) := r.2.sent.drop 5

theorem uploadChunks_shape (size offset : ℕ) :
    ∀ r ∈ uploadChunks size offset, r.address = 0x10000000 ∧ r.words ≤ 256 := by
  fun_induction uploadChunks size offset with
  | case1 offset h ih =>
    intro r hr
    obtain rfl | hr := List.mem_cons.mp hr
    · have := (writeSize_le (size - offset)).2
      exact ⟨rfl, by show _ / 4 ≤ 256; omega⟩
    · exact ih r hr
  | case2 offset h => simp

theorem session_chunks (image : Image) (m : Mem) :
    execRequests m ((session image).drop 5) =
      some (applyAll image.buffer m (uploadChunks image.size 0)) := by
  have hdrop : (session image).drop 5 =
      (uploadChunks image.size 0).map (Request.text image.buffer) := by
    rw [session, List.drop_append_of_le_length (by simp [startRequests])]
    simp [startRequests]
  rw [hdrop]
  refine execRequests_text (fun r hr => ?_) image.buffer m
  obtain ⟨haddr, hwords⟩ := uploadChunks_shape image.size 0 r hr
  omega

theorem uploadChunks_beyond (image : Image) (m : Mem) :
    applyAll image.buffer m (uploadChunks image.size 0) 0x10000400#32 = m 0x10000400#32 := by
  refine applyAll_apart fun r hr => ?_
  obtain ⟨haddr, hwords⟩ := uploadChunks_shape image.size 0 r hr
  unfold InRange
  rw [haddr]
  simp
  omega

theorem uploadChunks_single {size : ℕ} (h : size ≤ 1024) (haligned : size % 4 = 0) :
    Chain 0x10000000 0 size (uploadChunks size 0) := by
  have hwrite : writeSize (size - 0) = size := by
    unfold writeSize
    split <;> omega
  rw [uploadChunks, hwrite, uploadChunks, if_neg (show ¬ 0 + size < size by omega)]
  split
  next hpos => exact Chain.request rfl rfl (by omega) (by omega) rfl rfl
  next hpos =>
    show 0 = size
    omega

theorem upload_chunks {image : Image} {fate : ℕ → Outcome} (hsize : image.size % 4 = 0)
    (hwhole : ∀ k, Accepts (fate k)) (m : Mem) :
    execRequests m (chunkRequests (upload (.ok image) none ⟨fate, []⟩)) =
      some (applyAll image.buffer m (uploadChunks image.size 0)) := by
  rw [chunkRequests, upload_accepted hsize fun k _ => hwhole k]
  exact session_chunks image m

/-- The chunks of `upload` place the image, in every memory, exactly when the image fits into
one chunk: every chunk is sent for the address 0x10000000. -/
theorem upload_places_image (image : Image) (fate : ℕ → Outcome) (hsize : image.size % 4 = 0)
    (hfits : image.size ≤ 4294967296 - 0x10000000) (hwhole : ∀ k, Accepts (fate k)) :
    (∀ m, PlacesImage image m (chunkRequests (upload (.ok image) none ⟨fate, []⟩))) ↔
      image.size ≤ 1024 := by
  have hchunks := upload_chunks hsize hwhole
  constructor
  · intro hplaces
    by_contra hlarge
    obtain ⟨m', hexec, himage, -⟩ := hplaces fun _ => image.buffer 1024 + 1#8
    rw [hchunks, Option.some.injEq] at hexec
    have hbyte := himage 1024 (by omega)
    rw [← hexec] at hbyte
    have hkept := uploadChunks_beyond image fun _ => image.buffer 1024 + 1#8
    have : image.buffer 1024 + 1#8 = image.buffer 1024 := hkept.symm.trans hbyte
    bv_omega
  · intro hsmall m
    have hchain := uploadChunks_single hsmall hsize
    have hcopies := hchain.copies (by omega)
    refine ⟨_, hchunks m, fun i hi => ?_, fun x hx => ?_⟩
    · exact applyAll_covered hcopies ((hchain.covered i).mpr ⟨by omega, hi⟩)
    · refine applyAll_outside hcopies fun i hi heq => hx ?_
      have hi := (hchain.covered i).mp hi
      unfold InRange
      rw [heq]
      bv_omega

/-- A port that takes every request of a session whole, and acknowledges it. -/
def ideal (requests : List (List Byte)) (k : ℕ) : Outcome :=
  ⟨.accepted (requests.getD k []).length, true⟩

theorem ideal_accepts (requests : List (List Byte)) (k : ℕ) : Accepts (ideal requests k) :=
  ⟨_, rfl⟩

theorem upload_places_image_ideal :
    (∀ m, PlacesImage ⟨fun _ => 1#8, 1024⟩ m
      (chunkRequests (upload (.ok ⟨fun _ => 1#8, 1024⟩) none
        ⟨ideal (session ⟨fun _ => 1#8, 1024⟩), []⟩))) ↔ 1024 ≤ 1024 :=
  upload_places_image ⟨fun _ => 1#8, 1024⟩ _ rfl (by decide) (ideal_accepts _)

def twoChunks : Image := ⟨fun i => if i < 1024 then 1#8 else 2#8, 1028⟩

/-- The second chunk lands on the first, and the bytes of 2 never reach 0x10000400. -/
theorem upload_two_chunks :
    ¬ PlacesImage twoChunks (fun _ => 0#8)
      (chunkRequests (upload (.ok twoChunks) none ⟨ideal (session twoChunks), []⟩)) := by
  rintro ⟨m', hexec, himage, -⟩
  rw [upload_chunks rfl (ideal_accepts _), Option.some.injEq] at hexec
  have hbyte := himage 1024 (by decide)
  rw [← hexec] at hbyte
  have hkept := uploadChunks_beyond twoChunks fun _ => 0#8
  exact absurd (hkept.symm.trans hbyte) (by decide)

end Placement

section Failures

def Client.Acked (c : Client) (k : ℕ) : Prop :=
  ∃ request, c.sent[k]? = some request ∧ (c.fate k).write = .accepted request.length ∧
    (c.fate k).ack = true

/-- What an upload owes its caller. The set-up commands are requests 2, 3 and 4, the chunks
follow; a normal return says that all of them have been taken in full and acknowledged, and no
chunk is sent after one that has not. -/
structure Honest (image : Image) (r : Result) : Prop where
  success : r.1 = .ok () → ∀ k, 2 ≤ k → k < 5 + (image.size + 1023) / 1024 → r.2.Acked k
  stops : ∀ k j, 2 ≤ k → k < j → 5 ≤ j → j < r.2.sent.length → r.2.Acked k

def Delivered (image : Image) (fate : ℕ → Outcome) (k : ℕ) : Prop :=
  ∃ request, (session image)[k]? = some request ∧ (fate k).write = .accepted request.length ∧
    (fate k).ack = true

theorem uploadChunks_length (size offset : ℕ) :
    (uploadChunks size offset).length = (size - offset + 1023) / 1024 := by
  fun_induction uploadChunks size offset with
  | case1 offset h ih =>
    rw [List.length_cons, ih]
    unfold writeSize
    split <;> omega
  | case2 offset h =>
    rw [show size - offset = 0 by omega]
    rfl

theorem session_length (image : Image) :
    (session image).length = 5 + (image.size + 1023) / 1024 := by
  simp [session, startRequests, uploadChunks_length]
  omega

/-- An upload is honest exactly when it is rejected before the first chunk, or when nothing goes
wrong: a request that is taken in part, left without an answer, or refused as a chunk, is
forgotten. -/
theorem upload_honest (image : Image) (flushErr : Option String) (fate : ℕ → Outcome) :
    Honest image (upload (.ok image) flushErr ⟨fate, []⟩) ↔
      image.size % 4 ≠ 0 ∨ flushErr ≠ none ∨ (∃ k < 5, ¬ Accepts (fate k)) ∨
        ∀ k, 2 ≤ k → k < 5 + (image.size + 1023) / 1024 → Delivered image fate k := by
  by_cases hsize : image.size % 4 = 0
  case neg =>
    refine iff_of_true ⟨?_, ?_⟩ (.inl hsize)
    · simp [upload, hsize]
    · simp [upload, hsize]
  cases flushErr with
  | some errno =>
    refine iff_of_true ⟨?_, ?_⟩ (.inr (.inl (by simp)))
    · simp [upload, hsize]
    · simp [upload, hsize]
  | none =>
    by_cases hstart : ∀ k < 5, Accepts (fate k)
    · have hrefused : ¬ ∃ k < 5, ¬ Accepts (fate k) := by
        push Not
        exact hstart
      rw [upload_accepted hsize hstart]
      simp only [hsize, ne_eq, not_true_eq_false, hrefused, false_or]
      constructor
      · intro hhonest k hk hlt
        exact hhonest.success rfl k hk hlt
      · intro hall
        refine ⟨fun _ k hk hlt => hall k hk hlt, fun k j hk hkj _ hj => hall k hk ?_⟩
        have := session_length image
        simp only at hj
        omega
    · push Not at hstart
      obtain ⟨e, herror, hlen⟩ := upload_refused hsize hstart
      refine iff_of_true ⟨?_, ?_⟩ (.inr (.inr (.inl hstart)))
      · simp [herror]
      · intro k j hk hkj hj hlt
        omega

theorem upload_unanswered_chunk :
    ¬ Honest ⟨fun _ => 0#8, 4⟩ (upload (.ok ⟨fun _ => 0#8, 4⟩) none
      ⟨fun k => ⟨.accepted ((session ⟨fun _ => 0#8, 4⟩).getD k []).length, decide (k < 5)⟩,
        []⟩) := by
  intro hhonest
  rw [upload_accepted rfl fun k _ => ⟨_, rfl⟩] at hhonest
  obtain ⟨request, -, -, hack⟩ := hhonest.success rfl 5 (by decide) (by decide)
  exact absurd hack (by decide)

end Failures

end W2.Host
