import Mathlib.Algebra.Ring.Nat
import OpenBrf.Crypto.SecretStream

/-!
# Crypto.StoredFileCipher — files sealed at rest (`stored-file-cipher.ts`)

The secret stream of libsodium is a parameter, and so is the header that it draws.  A stream of
bytes arrives in pieces of any length.
-/

namespace OpenBrf.Crypto

open Lang

/-- Plaintext bytes in every chunk but the last. -/
def STORED_FILE_CHUNK_BYTES : ℕ := 64 * 1024

def KEY_BYTES : ℕ := 32
def HEADER_BYTES : ℕ := 24
def TAG_BYTES : ℕ := 17
def TAG_MESSAGE : UInt8 := 0
def TAG_FINAL : UInt8 := 3

/-- A chunk as stored: its plaintext and the tag libsodium appends. -/
def SEALED_CHUNK_BYTES : ℕ := STORED_FILE_CHUNK_BYTES + TAG_BYTES

def MAX_SAFE_INTEGER : ℕ := 2 ^ 53 - 1

inductive SealedFileCode where
  | shortHeader
  | shortChunk
  | unverifiedChunk
  | unexpectedChunk
  | afterLastChunk
  | noLastChunk
  | tooLong
  | tooShort
  deriving DecidableEq, Repr

structure SealedFileError where
  message : String
  code : SealedFileCode
  deriving DecidableEq, Repr

/-! ### Buffers -/

/-- A buffer keeps its length when it is written to. -/
def writeAt (buffer : Bytes) (start : ℕ) (bytes : Bytes) : Bytes :=
  (buffer.take start ++ bytes ++ buffer.drop (start + bytes.length)).take buffer.length

/-- Buffers put together, cut or filled to a length. -/
def bufferConcat (buffers : List Bytes) (length : ℕ) : Bytes :=
  buffers.flatten.take length ++ List.replicate (length - buffers.flatten.length) 0

/-! ### Sealing -/

/-- A range error, by its message. -/
def assertKey (key : Bytes) : Except String Unit :=
  if key.length ≠ KEY_BYTES then .error ("A file key is " ++ toString KEY_BYTES ++ " bytes.")
  else .ok ()

/-- The length of a sealed file, from the length of the file. -/
def sealedLength (plaintextBytes : ℕ) : Except String ℕ :=
  if MAX_SAFE_INTEGER < plaintextBytes ∨ plaintextBytes < 1 then
    .error "A sealed file holds at least one byte."
  else
    let chunks := (plaintextBytes + (STORED_FILE_CHUNK_BYTES - 1)) / STORED_FILE_CHUNK_BYTES
    .ok (HEADER_BYTES + plaintextBytes + chunks * TAG_BYTES)

section Sealing

variable (stream : SecretStream)

theorem read_lt_end {plaintext : Bytes} {read : ℕ} (h : read < plaintext.length) :
    read < min (read + STORED_FILE_CHUNK_BYTES) plaintext.length := by
  have hpos : 0 < STORED_FILE_CHUNK_BYTES := by decide
  omega

/-- The loop over the chunks of a plaintext. -/
def sealLoop (plaintext : Bytes) (state : stream.State) (read written : ℕ) (sealed : Bytes) :
    Bytes :=
  if h : read < plaintext.length then
    let stop := min (read + STORED_FILE_CHUNK_BYTES) plaintext.length
    let message := subarray plaintext read stop
    let chunk := subarray sealed written (written + message.length + TAG_BYTES)
    let pushed := stream.push state message
      (if stop = plaintext.length then TAG_FINAL else TAG_MESSAGE)
    have : plaintext.length - stop < plaintext.length - read :=
      Nat.sub_lt_sub_left h (read_lt_end h)
    sealLoop plaintext pushed.1 stop (written + chunk.length)
      (writeAt sealed written (pushed.2.take chunk.length))
  else sealed
termination_by plaintext.length - read

/-- Seals a whole file, under a header that is drawn for it. -/
def sealFile (header plaintext key : Bytes) : Except String Bytes := do
  assertKey key
  let length ← sealedLength plaintext.length
  let sealed := writeAt (List.replicate length 0) 0 header
  return sealLoop stream plaintext (stream.initPush header key) 0 HEADER_BYTES sealed

end Sealing

/-! ### Opening -/

/-- Bytes that arrived and are not yet a whole header or chunk. -/
structure Pending where
  buffers : List Bytes := []
  bytes : ℕ := 0
  counted : bytes = buffers.flatten.length := by rfl

def Pending.push (pending : Pending) (chunk : Bytes) : Pending where
  buffers := pending.buffers ++ [chunk]
  bytes := pending.bytes + chunk.length
  counted := by simp [pending.counted]

/-- What is pending, as one buffer. -/
def Pending.whole (pending : Pending) : Bytes :=
  match pending.buffers with
  | [buffer] => buffer
  | buffers => bufferConcat buffers pending.bytes

/-- The next bytes, which the caller has checked are here. -/
def Pending.takePending (self : Pending) (length : ℕ) : Bytes × Pending :=
  let rest := self.whole.drop length
  (self.whole.take length,
    { buffers := if 0 < rest.length then [rest] else []
      bytes := rest.length
      counted := by
        split_ifs with h
        · simp
        · simpa using h })

theorem Pending.whole_eq (pending : Pending) : pending.whole = pending.buffers.flatten := by
  unfold whole
  split
  next buffer hbuffers => simp [hbuffers]
  next =>
    rw [bufferConcat, pending.counted, List.take_length, Nat.sub_self, List.replicate_zero,
      List.append_nil]

theorem Pending.bytes_eq (pending : Pending) : pending.bytes = pending.whole.length := by
  rw [whole_eq, pending.counted]

@[simp] theorem Pending.whole_push (pending : Pending) (chunk : Bytes) :
    (pending.push chunk).whole = pending.whole ++ chunk := by
  rw [whole_eq, whole_eq]
  simp [push]

@[simp] theorem Pending.takePending_fst (pending : Pending) (length : ℕ) :
    (pending.takePending length).1 = pending.whole.take length := rfl

@[simp] theorem Pending.takePending_snd (pending : Pending) (length : ℕ) :
    (pending.takePending length).2.whole = pending.whole.drop length := by
  rw [whole_eq]
  show (if 0 < (pending.whole.drop length).length then [_] else []).flatten = _
  split_ifs with h
  · simp
  · exact (List.length_eq_zero_iff.mp (by omega)).symm

section Opening

variable (stream : SecretStream)

/-- A file being opened, with what it has emitted. -/
structure SealedFileOpener where
  key : Bytes
  plaintextBytes : ℕ
  state : stream.State := stream.blank
  pending : Pending := {}
  headerRead : Bool := false
  finalOpened : Bool := false
  openedBytes : ℕ := 0
  emitted : Bytes := []

/-- A failure keeps what was emitted before it. -/
abbrev Opening := Except (SealedFileError × SealedFileOpener stream)

variable {stream}

namespace SealedFileOpener

def openChunk (self : SealedFileOpener stream) (sealed : Bytes) :
    Opening stream (SealedFileOpener stream) :=
  if sealed.length ≤ TAG_BYTES then
    .error (⟨"A chunk of the sealed file is truncated.", .shortChunk⟩, self)
  else
    match stream.pull self.state sealed with
    | none => .error (⟨"A chunk of the sealed file does not verify under its key.",
        .unverifiedChunk⟩, self)
    | some (message, tag, state) =>
      let self := { self with state, finalOpened := tag = TAG_FINAL ∨ self.finalOpened }
      -- a chunk before the last is of full length, and no other tag is ever pushed
      if tag ≠ TAG_FINAL ∧ (tag ≠ TAG_MESSAGE ∨ sealed.length ≠ SEALED_CHUNK_BYTES) then
        .error (⟨"A chunk of the sealed file is not one this format writes.",
          .unexpectedChunk⟩, self)
      else if self.plaintextBytes < self.openedBytes + message.length then
        .error (⟨"The sealed file holds more bytes than its row records.", .tooLong⟩, self)
      else .ok { self with
        openedBytes := self.openedBytes + message.length
        emitted := self.emitted ++ message }

theorem openChunk_pending {self self' : SealedFileOpener stream} {sealed : Bytes}
    (h : self.openChunk sealed = .ok self') : self'.pending = self.pending := by
  unfold openChunk at h
  split_ifs at h
  split at h
  · cases h
  · dsimp only at h
    split_ifs at h
    cases h
    rfl

theorem sealedChunk_pos : 0 < SEALED_CHUNK_BYTES := by decide

/-- The loop over the chunks that have arrived. -/
def openChunks (ended : Bool) (self : SealedFileOpener stream) :
    Opening stream (SealedFileOpener stream) :=
  if _h : SEALED_CHUNK_BYTES ≤ self.pending.bytes ∨ (ended ∧ 0 < self.pending.bytes) then
    if self.finalOpened then
      .error (⟨"The sealed file continues after its last chunk.", .afterLastChunk⟩, self)
    else
      let taken := self.pending.takePending (min self.pending.bytes SEALED_CHUNK_BYTES)
      match h' : openChunk { self with pending := taken.2 } taken.1 with
      | .error failure => .error failure
      | .ok self' =>
        have : self'.pending.bytes < self.pending.bytes := by
          have hpos := sealedChunk_pos
          rw [openChunk_pending h', Pending.bytes_eq, Pending.takePending_snd, List.length_drop,
            ← Pending.bytes_eq]
          omega
        openChunks ended self'
  else .ok self
termination_by self.pending.bytes

/-- Opens every whole chunk that has arrived. -/
def openAvailable (ended : Bool) (self : SealedFileOpener stream) :
    Opening stream (SealedFileOpener stream) :=
  if self.headerRead then openChunks ended self
  else if self.pending.bytes < HEADER_BYTES then
    if ended then .error (⟨"The sealed file is shorter than its header.", .shortHeader⟩, self)
    else .ok self
  else
    let taken := self.pending.takePending HEADER_BYTES
    openChunks ended { self with
      state := stream.initPull taken.1 self.key
      pending := taken.2
      headerRead := true }

def transform (self : SealedFileOpener stream) (chunk : Bytes) :
    Opening stream (SealedFileOpener stream) :=
  openAvailable false { self with pending := self.pending.push chunk }

def flush (self : SealedFileOpener stream) : Opening stream (SealedFileOpener stream) := do
  let self ← openAvailable true self
  if self.finalOpened = false then
    .error (⟨"The sealed file ends before its last chunk.", .noLastChunk⟩, self)
  else if self.openedBytes ≠ self.plaintextBytes then
    .error (⟨"The sealed file holds fewer bytes than its row records.", .tooShort⟩, self)
  else .ok self

/-- A stream that arrives in pieces, and ends. -/
def readStream (self : SealedFileOpener stream) (pieces : List Bytes) :
    Opening stream (SealedFileOpener stream) :=
  pieces.foldlM transform self >>= flush

end SealedFileOpener

variable (stream) in
/-- Opens a sealed file as it streams. -/
def openSealedFile (key : Bytes) (plaintextBytes : ℕ) : Except String (SealedFileOpener stream) := do
  assertKey key
  return { key, plaintextBytes }

end Opening

end OpenBrf.Crypto
