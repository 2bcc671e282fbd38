import OpenBrf.Lang.Buffers

/-!
# Crypto.SecretStream — an authenticated stream of chunks

The primitive is a parameter.  What it is ideal for is said of one sealing at a time: each chunk
opens where it was sealed, and nothing else opens there.
-/

namespace OpenBrf.Crypto

open Lang

/-- A frame: what is sealed as one chunk, and the tag it is sealed with. -/
abbrev Frame := Bytes × UInt8

structure SecretStream where
  State : Type
  /-- A state before it is set up. -/
  blank : State
  initPush : (header key : Bytes) → State
  push : State → Bytes → UInt8 → State × Bytes
  initPull : (header key : Bytes) → State
  pull : State → Bytes → Option (Bytes × UInt8 × State)

namespace SecretStream

variable (stream : SecretStream)

/-- The chunks a state seals frames into. -/
def chunks : stream.State → List Frame → List Bytes
  | _, [] => []
  | s, frame :: rest =>
    let pushed := stream.push s frame.1 frame.2
    pushed.2 :: chunks pushed.1 rest

/-- **An ideal stream**: what was sealed from `s` is opened from `r`, each chunk at its own position
with its own tag, and nothing else opens at that position. -/
def Authentic (overhead : ℕ) : stream.State → stream.State → List Frame → Prop
  | _, _, [] => True
  | s, r, (message, tag) :: rest =>
    (stream.push s message tag).2.length = message.length + overhead ∧
    ∃ r', (∀ chunk, stream.pull r chunk =
        if chunk = (stream.push s message tag).2 then some (message, tag, r') else none) ∧
      Authentic overhead (stream.push s message tag).1 r' rest

variable {stream} {overhead : ℕ} {s r : stream.State}

theorem chunks_cons (message : Bytes) (tag : UInt8) (rest : List Frame) :
    stream.chunks s ((message, tag) :: rest) = (stream.push s message tag).2 ::
      stream.chunks (stream.push s message tag).1 rest := rfl

/-- The chunks are longer than their frames by one overhead each. -/
theorem length_flatten_chunks : ∀ {frames : List Frame} {s r : stream.State},
    stream.Authentic overhead s r frames →
      (stream.chunks s frames).flatten.length =
        (frames.map (·.1)).flatten.length + frames.length * overhead
  | [], _, _, _ => by simp [chunks]
  | (message, tag) :: rest, s, r, ⟨hlength, r', _, hrest⟩ => by
    have ih := length_flatten_chunks hrest
    rw [chunks_cons, List.flatten_cons, List.length_append, hlength, ih, List.map_cons,
      List.flatten_cons, List.length_append, List.length_cons, Nat.succ_mul]
    show message.length + overhead + _ = message.length + _ + _
    omega

end SecretStream

/-! ### A stream of one sealing -/

/-- A stream that knows what is sealed: it opens the chunks of those frames and no others. -/
def tableStream (overhead : ℕ) (frames : List Frame) : SecretStream where
  State := List Frame
  blank := []
  initPush _ _ := frames
  push rest message tag := (rest.tail, message ++ List.replicate overhead tag)
  initPull _ _ := frames
  pull rest chunk := match rest with
    | [] => none
    | (message, tag) :: rest =>
      if chunk = message ++ List.replicate overhead tag then some (message, tag, rest) else none

theorem authentic_tableStream (overhead : ℕ) (frames : List Frame) : ∀ rest : List Frame,
    (tableStream overhead frames).Authentic overhead rest rest rest
  | [] => trivial
  | (message, tag) :: rest => by
    refine ⟨?_, rest, fun _ => rfl, authentic_tableStream overhead frames rest⟩
    show (message ++ List.replicate overhead tag).length = _
    rw [List.length_append, List.length_replicate]

end OpenBrf.Crypto
