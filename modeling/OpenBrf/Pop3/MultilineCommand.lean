import OpenBrf.Lang.Buffers
import OpenBrf.Lang.CodeUnits
import OpenBrf.Search.Words

/-!
# Pop3.MultilineCommand — reading a response off the socket (`pop3.ts`)

A connection is what has been received and not yet read, and what the socket is still to hand over,
cut as it cuts it.  The deadlines are left out: every chunk comes in time.
-/

namespace OpenBrf.Pop3

open Lang Search

def CRLF : Bytes := [0x0D, 0x0A]

def DOT : UInt8 := 0x2E

def MAX_STATUS_LINE_BYTES : ℕ := 8 * 1024

def INITIAL_BODY_BYTES : ℕ := 64 * 1024

/-- `+OK` -/
def OK : Bytes := [0x2B, 0x4F, 0x4B]

structure Connection where
  buffered : Bytes
  arriving : List Bytes
  deriving DecidableEq, Repr

inductive Reason where
  | protocolError
  | tooLarge
  deriving DecidableEq, Repr

inductive Answer (α : Type) where
  | given (value : α) (left : Connection)
  | refused (reason : Reason)
  /-- More bytes are waited for than the socket has to give. -/
  | waiting
  deriving DecidableEq, Repr

/-- `buffered.indexOf("\r\n")` -/
def indexOfCRLF (buffered : Bytes) : Option ℕ := scan (fun _ => true) CRLF none buffered

/-! ### The status line -/

def readLine : Bytes → List Bytes → Answer Bytes
  | buffered, arriving =>
    match indexOfCRLF buffered with
    | some stop => .given (buffered.take stop) ⟨buffered.drop (stop + 2), arriving⟩
    | none =>
      if MAX_STATUS_LINE_BYTES < buffered.length then .refused .protocolError
      else
        match arriving with
        | [] => .waiting
        | chunk :: rest => readLine (buffered ++ chunk) rest

def readStatusLine (connection : Connection) : Answer (List ℕ) :=
  match readLine connection.buffered connection.arriving with
  | .given line left =>
    if OK.isPrefixOf line then .given (trimmed (latin1Text (line.drop 3))) left
    else .refused .protocolError
  | .refused reason => .refused reason
  | .waiting => .waiting

/-! ### The body -/

/-- `source.copy(target, start)`: what there is room for, and how much that is. -/
def copyInto (target : Bytes) (start : ℕ) (source : Bytes) : Bytes × ℕ :=
  let copied := source.take (target.length - start)
  (target.take start ++ (copied ++ target.drop (start + copied.length)), copied.length)

/-- A buffer, and how much of it has been written. -/
structure Body where
  bytes : Bytes
  total : ℕ

/-- A line of so many bytes is written behind the others, with its line break. -/
def Body.write (maxBytes : ℕ) (body : Body) (line : Bytes) : Body :=
  let size := body.total + line.length + CRLF.length
  let bytes :=
    if body.bytes.length < size then
      (copyInto (List.replicate (min (max (body.bytes.length * 2) size) maxBytes) 0) 0
        (body.bytes.take body.total)).1
    else body.bytes
  let (bytes, copied) := copyInto bytes body.total line
  let (bytes, copied') := copyInto bytes (body.total + copied) CRLF
  ⟨bytes, body.total + copied + copied'⟩

inductive Lines where
  /-- The terminator was read. -/
  | finished (body : Body) (left : Bytes)
  | tooLarge
  /-- What is left is part of a line. -/
  | part (buffered : Bytes) (body : Body)

/-- The lines that are whole in what has been received; no more of them than it has bytes. -/
def readLines (maxBytes : ℕ) : ℕ → Bytes → Body → Lines
  | 0, buffered, body => .part buffered body
  | lines + 1, buffered, body =>
    match indexOfCRLF buffered with
    | none => .part buffered body
    | some stop =>
      if stop = 1 ∧ buffered.head? = some DOT then .finished body (buffered.drop (stop + 2))
      else
        let line := (buffered.take stop).drop (if buffered.head? = some DOT then 1 else 0)
        if maxBytes < body.total + line.length + CRLF.length then .tooLarge
        else readLines maxBytes lines (buffered.drop (stop + 2)) (body.write maxBytes line)

def readResponse (maxBytes : ℕ) : Bytes → Body → List Bytes → Answer Bytes
  | buffered, body, arriving =>
    match readLines maxBytes buffered.length buffered body with
    | .finished body left => .given (body.bytes.take body.total) ⟨left, arriving⟩
    | .tooLarge => .refused .tooLarge
    | .part buffered body =>
      if maxBytes < body.total + buffered.length then .refused .tooLarge
      else
        match arriving with
        | [] => .waiting
        | chunk :: rest => readResponse maxBytes (buffered ++ chunk) body rest

def multilineCommand (maxBytes : ℕ) (connection : Connection) : Answer Bytes :=
  match readStatusLine connection with
  | .given _ left =>
    readResponse maxBytes left.buffered ⟨List.replicate (min maxBytes INITIAL_BODY_BYTES) 0, 0⟩
      left.arriving
  | .refused reason => .refused reason
  | .waiting => .waiting

/-! ### What is written of the body -/

/-- What has been written, at the beginning of the buffer. -/
structure Body.Holds (body : Body) (written : Bytes) : Prop where
  total : body.total = written.length
  fits : written.length ≤ body.bytes.length
  written : body.bytes.take written.length = written

theorem length_copyInto (target : Bytes) {start : ℕ} (h : start ≤ target.length) (source : Bytes) :
    (copyInto target start source).1.length = target.length := by
  unfold copyInto
  simp only [List.length_append, List.length_take, List.length_drop]
  omega

theorem copyInto_fits {target source : Bytes} {start : ℕ} (h : start + source.length ≤ target.length) :
    copyInto target start source =
      (target.take start ++ (source ++ target.drop (start + source.length)), source.length) := by
  unfold copyInto
  rw [List.take_of_length_le (by omega)]

/-- Copying behind what has been written writes it behind. -/
theorem take_copyInto {target source written : Bytes}
    (hwritten : target.take written.length = written)
    (h : written.length + source.length ≤ target.length) :
    (copyInto target written.length source).1.take (written ++ source).length = written ++ source := by
  rw [copyInto_fits h, hwritten, ← List.append_assoc, List.take_left' rfl]

theorem Body.holds_empty (bytes : Bytes) : (⟨bytes, 0⟩ : Body).Holds [] :=
  ⟨rfl, Nat.zero_le _, rfl⟩

/-- **A line** that is not too large is written behind the others. -/
theorem Body.Holds.write {maxBytes : ℕ} {body : Body} {written : Bytes} (h : body.Holds written)
    {line : Bytes} (hsize : written.length + line.length + CRLF.length ≤ maxBytes) :
    (body.write maxBytes line).Holds (written ++ (line ++ CRLF)) := by
  obtain ⟨bytes, total⟩ := body
  obtain ⟨rfl, hfits, hwritten⟩ := h
  dsimp only at hfits hwritten
  -- the buffer is grown to hold the line, and keeps what was written
  obtain ⟨grown, hgrown, hgrownFits, hgrownWritten⟩ : ∃ grown,
      (if bytes.length < written.length + line.length + CRLF.length then
        (copyInto (List.replicate (min (max (bytes.length * 2)
          (written.length + line.length + CRLF.length)) maxBytes) 0) 0 (bytes.take written.length)).1
        else bytes) = grown ∧ written.length + line.length + CRLF.length ≤ grown.length ∧
      grown.take written.length = written := by
    split_ifs with hgrows
    · refine ⟨_, rfl, ?_, ?_⟩
      · rw [length_copyInto _ (Nat.zero_le _), List.length_replicate]
        omega
      · have hroom : ([] : Bytes).length + written.length ≤ (List.replicate (min (max
            (bytes.length * 2) (written.length + line.length + CRLF.length)) maxBytes)
              (0 : UInt8)).length := by
          rw [List.length_replicate, List.length_nil]
          omega
        rw [hwritten]
        exact take_copyInto rfl hroom
    · exact ⟨bytes, rfl, Nat.le_of_not_lt hgrows, hwritten⟩
  have hline : written.length + line.length ≤ grown.length := by omega
  have hcopied : (copyInto grown written.length line).2 = line.length := by
    rw [copyInto_fits hline]
  have hlength : (copyInto grown written.length line).1.length = grown.length :=
    length_copyInto grown (by omega) line
  have hbehind : (written ++ line).length + CRLF.length ≤
      (copyInto grown written.length line).1.length := by
    rw [hlength, List.length_append]
    exact hgrownFits
  have hcopied' : (copyInto (copyInto grown written.length line).1 (written ++ line).length CRLF).2 =
      CRLF.length := by
    rw [copyInto_fits hbehind]
  have hwrite : Body.write maxBytes ⟨bytes, written.length⟩ line =
      ⟨(copyInto (copyInto grown written.length line).1 (written ++ line).length CRLF).1,
        (written ++ (line ++ CRLF)).length⟩ := by
    unfold Body.write
    dsimp only
    rw [hgrown, hcopied, ← List.length_append, hcopied', ← List.length_append, List.append_assoc]
  rw [hwrite]
  refine ⟨rfl, ?_, ?_⟩
  · rw [length_copyInto _ (by omega), ← List.append_assoc, List.length_append]
    exact hbehind
  · rw [← List.append_assoc]
    exact take_copyInto (take_copyInto hgrownWritten hline) hbehind

end OpenBrf.Pop3
