import OpenBrf.Crypto.StoredFileCipher

/-!
# Crypto.SealedFile — a sealed file opens to what was sealed

A file is sealed as frames, and opened frame by frame wherever the pieces that arrive are cut.
Under an ideal stream what is opened is always a beginning of the file, and the end is reached only
by the sealed bytes under their own length.
-/

namespace OpenBrf.Crypto

open Lang SecretStream

/-! ### Frames of a file -/

theorem chunkBytes_pos : 0 < STORED_FILE_CHUNK_BYTES := by decide

/-- The frames a file is sealed as. -/
def framesOf (plaintext : Bytes) : List Frame :=
  if _h : plaintext = [] then []
  else
    have : plaintext.length - STORED_FILE_CHUNK_BYTES < plaintext.length := by
      have hpos := chunkBytes_pos
      have hlength := List.length_pos_iff.mpr _h
      omega
    (plaintext.take STORED_FILE_CHUNK_BYTES,
      if plaintext.length ≤ STORED_FILE_CHUNK_BYTES then TAG_FINAL else TAG_MESSAGE) ::
        framesOf (plaintext.drop STORED_FILE_CHUNK_BYTES)
termination_by plaintext.length

@[simp] theorem framesOf_nil : framesOf [] = [] := by
  rw [framesOf, dif_pos rfl]

theorem framesOf_ne_nil {plaintext : Bytes} (h : plaintext ≠ []) : framesOf plaintext =
    (plaintext.take STORED_FILE_CHUNK_BYTES,
      if plaintext.length ≤ STORED_FILE_CHUNK_BYTES then TAG_FINAL else TAG_MESSAGE) ::
        framesOf (plaintext.drop STORED_FILE_CHUNK_BYTES) := by
  rw [framesOf, dif_neg h]

/-- Induction along the frames of a file. -/
theorem frames_induction {motive : Bytes → Prop} (nil : motive [])
    (cons : ∀ plaintext, plaintext ≠ [] → motive (plaintext.drop STORED_FILE_CHUNK_BYTES) →
      motive plaintext) (plaintext : Bytes) : motive plaintext := by
  induction plaintext using framesOf.induct with
  | case1 => exact nil
  | case2 plaintext h _ ih => exact cons plaintext h ih

theorem flatten_framesOf (plaintext : Bytes) :
    ((framesOf plaintext).map (·.1)).flatten = plaintext := by
  induction plaintext using frames_induction with
  | nil => simp
  | cons plaintext h ih =>
    rw [framesOf_ne_nil h, List.map_cons, List.flatten_cons, ih]
    exact List.take_append_drop _ _

theorem length_framesOf (plaintext : Bytes) : (framesOf plaintext).length =
    (plaintext.length + (STORED_FILE_CHUNK_BYTES - 1)) / STORED_FILE_CHUNK_BYTES := by
  have hpos := chunkBytes_pos
  induction plaintext using frames_induction with
  | nil =>
    have hzero : (0 + (STORED_FILE_CHUNK_BYTES - 1)) / STORED_FILE_CHUNK_BYTES = 0 :=
      Nat.div_eq_of_lt (by omega)
    rw [framesOf_nil]
    exact hzero.symm
  | cons plaintext h ih =>
    have hlength := List.length_pos_iff.mpr h
    rw [framesOf_ne_nil h, List.length_cons, ih, List.length_drop]
    rcases Nat.le_total STORED_FILE_CHUNK_BYTES plaintext.length with hle | hle
    · rw [← Nat.add_div_right _ hpos]
      congr 1
      omega
    · rw [Nat.sub_eq_zero_of_le hle, Nat.zero_add, Nat.div_eq_of_lt (by omega), Nat.zero_add]
      symm
      rw [Nat.div_eq_iff hpos]
      omega

/-- A chunk before the last is of full length, and only the last is tagged final. -/
def Framed : List Frame → Prop
  | [] => True
  | (message, tag) :: rest => 0 < message.length ∧ Framed rest ∧
    (tag = TAG_FINAL ∧ message.length ≤ STORED_FILE_CHUNK_BYTES ∧ rest = [] ∨
      tag = TAG_MESSAGE ∧ message.length = STORED_FILE_CHUNK_BYTES ∧ rest ≠ [])

theorem framed_framesOf (plaintext : Bytes) : Framed (framesOf plaintext) := by
  have hpos := chunkBytes_pos
  induction plaintext using frames_induction with
  | nil =>
    rw [framesOf_nil]
    trivial
  | cons plaintext h ih =>
    have hlength := List.length_pos_iff.mpr h
    rw [framesOf_ne_nil h]
    refine ⟨?_, ih, ?_⟩
    · rw [List.length_take]
      omega
    · by_cases hle : plaintext.length ≤ STORED_FILE_CHUNK_BYTES
      · refine .inl ⟨if_pos hle, List.length_take_le _ _, ?_⟩
        rw [List.drop_eq_nil_of_le hle, framesOf_nil]
      · have hrest : plaintext.drop STORED_FILE_CHUNK_BYTES ≠ [] := by
          rw [Ne, List.drop_eq_nil_iff]
          exact hle
        refine .inr ⟨if_neg hle, ?_, ?_⟩
        · rw [List.length_take]
          omega
        · rw [framesOf_ne_nil hrest]
          exact List.cons_ne_nil _ _

/-! ### Sealing -/

theorem subarray_middle {front middle back : Bytes} {start stop : ℕ}
    (hstart : start = front.length) (hstop : stop = front.length + middle.length) :
    subarray (front ++ (middle ++ back)) start stop = middle := by
  subst hstart hstop
  unfold subarray
  rw [← List.append_assoc, ← List.length_append, List.take_left, List.drop_left]

theorem writeAt_middle {front middle back bytes : Bytes} {start : ℕ}
    (hstart : start = front.length) (hlength : bytes.length = middle.length) :
    writeAt (front ++ (middle ++ back)) start bytes = front ++ (bytes ++ back) := by
  subst hstart
  unfold writeAt
  rw [List.take_left, ← List.append_assoc front middle, hlength, ← List.length_append,
    List.drop_left, List.append_assoc, List.append_assoc]
  have hle : (front ++ (bytes ++ back)).length ≤ (front ++ (middle ++ back)).length := by
    simp [hlength]
  exact List.take_of_length_le hle

section Sealing

variable {stream : SecretStream}

/-- **The loop writes the chunks** of what is left of the plaintext, where room is left for them. -/
theorem sealLoop_eq (rest : Bytes) : ∀ {plaintext done front room : Bytes} {read written : ℕ}
    {state r : stream.State}, plaintext = done ++ rest → read = done.length →
    written = front.length → stream.Authentic TAG_BYTES state r (framesOf rest) →
    room.length = (stream.chunks state (framesOf rest)).flatten.length →
    sealLoop stream plaintext state read written (front ++ room) =
      front ++ (stream.chunks state (framesOf rest)).flatten := by
  have hpos := chunkBytes_pos
  induction rest using frames_induction with
  | nil =>
    intro plaintext done front room read written state r hplain hread hwritten _ hroom
    rw [framesOf_nil] at hroom ⊢
    rw [sealLoop, dif_neg (by simp [hplain, hread])]
    obtain rfl := List.length_eq_zero_iff.mp hroom
    rfl
  | cons rest hrest ih =>
    intro plaintext done front room read written state r hplain hread hwritten hauthentic hroom
    have hlength := List.length_pos_iff.mpr hrest
    have hlt : read < plaintext.length := by
      rw [hplain, hread, List.length_append]
      omega
    -- what the turn reads
    have hsplit : plaintext = done ++ (rest.take STORED_FILE_CHUNK_BYTES ++
        rest.drop STORED_FILE_CHUNK_BYTES) := by
      rw [List.take_append_drop, hplain]
    have hstop : min (read + STORED_FILE_CHUNK_BYTES) plaintext.length =
        (done ++ rest.take STORED_FILE_CHUNK_BYTES).length := by
      rw [hplain, hread, List.length_append, List.length_append, List.length_take]
      omega
    have hmessage : subarray plaintext read (done ++ rest.take STORED_FILE_CHUNK_BYTES).length =
        rest.take STORED_FILE_CHUNK_BYTES := by
      rw [hsplit]
      exact subarray_middle hread (List.length_append ..)
    have hlast : ((done ++ rest.take STORED_FILE_CHUNK_BYTES).length = plaintext.length) =
        (rest.length ≤ STORED_FILE_CHUNK_BYTES) := by
      rw [hplain, List.length_append, List.length_append, List.length_take, eq_iff_iff]
      omega
    rw [framesOf_ne_nil hrest] at hauthentic hroom ⊢
    obtain ⟨hpushed, r', -, hauthentic⟩ := hauthentic
    rw [chunks_cons, List.flatten_cons] at hroom ⊢
    rw [sealLoop, dif_pos hlt]
    simp only [hstop, hmessage, hlast]
    generalize stream.push state (rest.take STORED_FILE_CHUNK_BYTES)
      (if rest.length ≤ STORED_FILE_CHUNK_BYTES then TAG_FINAL else TAG_MESSAGE) = pushed at *
    rw [List.length_append] at hroom
    -- the room it writes to
    obtain ⟨middle, back, rfl, hmiddle⟩ : ∃ middle back, room = middle ++ back ∧
        middle.length = pushed.2.length :=
      ⟨room.take pushed.2.length, room.drop pushed.2.length, (List.take_append_drop _ _).symm, by
        rw [List.length_take]
        omega⟩
    have hchunk : subarray (front ++ (middle ++ back)) written
        (written + (rest.take STORED_FILE_CHUNK_BYTES).length + TAG_BYTES) = middle :=
      subarray_middle hwritten (by omega)
    have hwrite : writeAt (front ++ (middle ++ back)) written pushed.2 =
        front ++ (pushed.2 ++ back) := writeAt_middle hwritten hmiddle.symm
    rw [hchunk, hmiddle, List.take_length, hwrite, ← List.append_assoc]
    rw [ih (by rw [hsplit, List.append_assoc]) rfl (by rw [List.length_append, hwritten])
      hauthentic (by rw [List.length_append] at hroom; omega), List.append_assoc]

theorem sealFile_eq {header plaintext key : Bytes} {r : stream.State}
    (hkey : key.length = KEY_BYTES) (hheader : header.length = HEADER_BYTES)
    (hpos : 0 < plaintext.length) (hsafe : plaintext.length ≤ MAX_SAFE_INTEGER)
    (hauthentic : stream.Authentic TAG_BYTES (stream.initPush header key) r (framesOf plaintext)) :
    let sealed := header ++ (stream.chunks (stream.initPush header key) (framesOf plaintext)).flatten
    sealFile stream header plaintext key = .ok sealed ∧
      sealedLength plaintext.length = .ok sealed.length := by
  have hroom := length_flatten_chunks hauthentic
  rw [flatten_framesOf, length_framesOf] at hroom
  intro sealed
  have hlength : sealedLength plaintext.length = .ok sealed.length := by
    unfold sealedLength
    rw [if_neg (by omega)]
    simp only [sealed, List.length_append, hheader, hroom, Nat.add_assoc]
  refine ⟨?_, hlength⟩
  unfold sealFile assertKey
  rw [if_neg (not_not_intro hkey), hlength]
  show Except.ok (sealLoop stream plaintext _ 0 HEADER_BYTES
    (writeAt (List.replicate sealed.length 0) 0 header)) = _
  have hfront : writeAt (List.replicate sealed.length 0) 0 header =
      header ++ List.replicate (sealed.length - header.length) 0 := by
    have hsplit : List.replicate sealed.length (0 : UInt8) =
        [] ++ (List.replicate header.length 0 ++
          List.replicate (sealed.length - header.length) 0) := by
      rw [List.nil_append, List.replicate_append_replicate]
      congr 1
      simp [sealed]
    rw [hsplit]
    exact writeAt_middle List.length_nil.symm (by simp)
  rw [hfront, sealLoop_eq plaintext (List.nil_append _).symm List.length_nil.symm hheader.symm
    hauthentic (by simp [sealed])]

end Sealing

/-! ### Opening -/

section Opening

variable {stream : SecretStream} {plaintext total arrived : Bytes} {recorded : ℕ}

/-- **What a reader has read**: the emitted bytes begin the file, and the chunks of the frames that
are left are the sealed bytes that are left. -/
structure Reading (plaintext total arrived : Bytes) (recorded : ℕ) (opener : SealedFileOpener stream)
    (s : stream.State) (rest : List Frame) : Prop where
  recorded : opener.plaintextBytes = recorded
  headerRead : opener.headerRead = true
  authentic : stream.Authentic TAG_BYTES s opener.state rest
  framed : Framed rest
  final : opener.finalOpened = true ↔ rest = []
  opened : opener.openedBytes = opener.emitted.length
  plain : plaintext = opener.emitted ++ (rest.map (·.1)).flatten
  bytes : ∃ consumed, arrived = consumed ++ opener.pending.whole ∧
    total = consumed ++ (stream.chunks s rest).flatten

/-- Nothing was done to what arrives. -/
structure Honest (plaintext total arrived : Bytes) (recorded : ℕ) (ended : Bool) : Prop where
  recorded : recorded = plaintext.length
  before : arrived <+: total
  whole : ended = true → arrived = total

/-- A call opens what has arrived, or fails on bytes that are not the sealed ones. -/
def Outcome (plaintext total arrived : Bytes) (recorded : ℕ) (ended : Bool) :
    Opening stream (SealedFileOpener stream) → Prop
  | .ok self => ∃ s rest, Reading plaintext total arrived recorded self s rest ∧
      (ended = true → self.pending.bytes = 0)
  | .error (_, self) => self.emitted <+: plaintext ∧
      ¬Honest plaintext total arrived recorded ended

/-- A stream ends where the file does and nowhere else. -/
def Ends (plaintext total arrived : Bytes) (recorded : ℕ) :
    Opening stream (SealedFileOpener stream) → Prop
  | .ok self => self.emitted = plaintext ∧ recorded = plaintext.length ∧ arrived = total
  | .error (_, self) => self.emitted <+: plaintext ∧
      ¬(recorded = plaintext.length ∧ arrived = total)

namespace SealedFileOpener

theorem openChunk_own {self : SealedFileOpener stream} {message sealed : Bytes} {tag : UInt8}
    {state : stream.State} (hpull : stream.pull self.state sealed = some (message, tag, state))
    (hlength : sealed.length = message.length + TAG_BYTES) (hpos : 0 < message.length)
    (htag : tag = TAG_FINAL ∨ tag = TAG_MESSAGE ∧ message.length = STORED_FILE_CHUNK_BYTES)
    (hroom : self.openedBytes + message.length ≤ self.plaintextBytes) :
    self.openChunk sealed = .ok { self with
      state
      finalOpened := tag = TAG_FINAL ∨ self.finalOpened
      openedBytes := self.openedBytes + message.length
      emitted := self.emitted ++ message } := by
  have hmember : ¬(tag ≠ TAG_FINAL ∧ (tag ≠ TAG_MESSAGE ∨ sealed.length ≠ SEALED_CHUNK_BYTES)) := by
    rintro ⟨hfinal, hbad⟩
    obtain hf | ⟨hm, hfull⟩ := htag
    · exact hfinal hf
    · rw [hlength, hfull] at hbad
      exact hbad.elim (fun h => h hm) fun h => h rfl
  unfold openChunk
  rw [if_neg (by omega), hpull]
  dsimp only
  rw [if_neg hmember, if_neg (by omega)]

theorem openChunk_ok {self self' : SealedFileOpener stream} {sealed : Bytes}
    (h : self.openChunk sealed = .ok self') : ∃ message tag state,
      stream.pull self.state sealed = some (message, tag, state) ∧
      self' = { self with
        state
        finalOpened := tag = TAG_FINAL ∨ self.finalOpened
        openedBytes := self.openedBytes + message.length
        emitted := self.emitted ++ message } := by
  unfold openChunk at h
  split_ifs at h
  split at h
  next => cases h
  next message tag state hpull =>
    dsimp only at h
    split_ifs at h
    cases h
    exact ⟨message, tag, state, hpull, rfl⟩

/-- A chunk that is not opened emits nothing. -/
theorem openChunk_error {self self' : SealedFileOpener stream} {sealed : Bytes}
    {failure : SealedFileError} (h : self.openChunk sealed = .error (failure, self')) :
    self'.emitted = self.emitted := by
  unfold openChunk at h
  split_ifs at h
  · cases h
    rfl
  · split at h
    · cases h
      rfl
    · dsimp only at h
      split_ifs at h <;> (cases h; rfl)

/-- The bytes a turn of the loop takes are the next chunk, where they are those of the file. -/
theorem take_chunk {whole chunk others : Bytes} {ended : Bool} (hbefore : whole <+: chunk ++ others)
    (hwhole : ended = true → whole = chunk ++ others)
    (hchunk : chunk.length = SEALED_CHUNK_BYTES ∨
      chunk.length ≤ SEALED_CHUNK_BYTES ∧ others = [])
    (harrived : SEALED_CHUNK_BYTES ≤ whole.length ∨ ended = true ∧ 0 < whole.length) :
    whole.take (min whole.length SEALED_CHUNK_BYTES) = chunk := by
  obtain hfull | ⟨hlast, rfl⟩ := hchunk
  · have hle : chunk.length ≤ whole.length := by
      obtain hle | ⟨hended, -⟩ := harrived
      · omega
      · rw [hwhole hended, List.length_append]
        omega
    obtain ⟨tail, rfl⟩ := List.prefix_of_prefix_length_le (List.prefix_append ..) hbefore hle
    rw [← hfull, Nat.min_eq_right hle, List.take_left]
  · rw [List.append_nil] at hbefore hwhole
    have hsame : whole = chunk := by
      obtain hle | ⟨hended, -⟩ := harrived
      · exact hbefore.eq_of_length_le (by omega)
      · exact hwhole hended
    rw [hsame, Nat.min_eq_left hlast, List.take_length]

theorem openChunks_eq (ended : Bool) (self : SealedFileOpener stream) : openChunks ended self =
    if SEALED_CHUNK_BYTES ≤ self.pending.bytes ∨ (ended ∧ 0 < self.pending.bytes) then
      if self.finalOpened then
        .error (⟨"The sealed file continues after its last chunk.", .afterLastChunk⟩, self)
      else
        let taken := self.pending.takePending (min self.pending.bytes SEALED_CHUNK_BYTES)
        openChunk { self with pending := taken.2 } taken.1 >>= openChunks ended
    else .ok self := by
  rw [openChunks]
  split_ifs
  · rfl
  · dsimp only
    split
    next hopen =>
      rw [hopen]
      rfl
    next hopen =>
      rw [hopen]
      rfl
  · rfl

end SealedFileOpener

open SealedFileOpener

theorem Reading.before {self : SealedFileOpener stream} {s : stream.State} {rest : List Frame}
    (h : Reading plaintext total arrived recorded self s rest) {ended : Bool}
    (honest : Honest plaintext total arrived recorded ended) :
    self.pending.whole <+: (stream.chunks s rest).flatten ∧
      (ended = true → self.pending.whole = (stream.chunks s rest).flatten) := by
  obtain ⟨consumed, harrived, htotal⟩ := h.bytes
  refine ⟨?_, fun hended => ?_⟩
  · have hbefore := honest.before
    rwa [harrived, htotal, List.prefix_append_right_inj] at hbefore
  · have hwhole := honest.whole hended
    rwa [harrived, htotal, List.append_cancel_left_eq] at hwhole

theorem Reading.emitted_prefix {self : SealedFileOpener stream} {s : stream.State}
    {rest : List Frame} (h : Reading plaintext total arrived recorded self s rest) :
    self.emitted <+: plaintext := ⟨_, h.plain.symm⟩

/-- **The loop opens the file's own chunks** and stops at what is not one of them. -/
theorem openChunks_outcome (ended : Bool) (rest : List Frame) :
    ∀ {self : SealedFileOpener stream} {s : stream.State},
      Reading plaintext total arrived recorded self s rest →
      Outcome plaintext total arrived recorded ended (openChunks ended self) := by
  induction rest with
  | nil =>
    intro self s h
    rw [openChunks_eq, if_pos (h.final.mpr rfl)]
    split_ifs with harrived
    · refine ⟨h.emitted_prefix, fun honest => ?_⟩
      have hnone := List.prefix_nil.mp (h.before honest).1
      rw [Pending.bytes_eq, hnone] at harrived
      have hpos := sealedChunk_pos
      simp at harrived
      omega
    · refine ⟨s, [], h, fun hended => ?_⟩
      subst hended
      simp at harrived
      omega
  | cons frame rest ih =>
    intro self s h
    obtain ⟨message, tag⟩ := frame
    obtain ⟨hlength, r', hpull, hauthentic⟩ := h.authentic
    obtain ⟨hpos, hframed, hshape⟩ := h.framed
    have hfinal : ¬self.finalOpened = true := fun hself => List.cons_ne_nil _ _ (h.final.mp hself)
    by_cases harrived : SEALED_CHUNK_BYTES ≤ self.pending.bytes ∨ (ended ∧ 0 < self.pending.bytes)
    · rw [openChunks_eq, if_pos harrived, if_neg hfinal]
      let taken := self.pending.takePending (min self.pending.bytes SEALED_CHUNK_BYTES)
      let self₁ : SealedFileOpener stream := { self with pending := taken.2 }
      show Outcome _ _ _ _ _ (self₁.openChunk taken.1 >>= openChunks ended)
      cases hopen : self₁.openChunk taken.1 with
      | error failure =>
        obtain ⟨failure, self'⟩ := failure
        show self'.emitted <+: plaintext ∧ _
        rw [openChunk_error hopen]
        refine ⟨h.emitted_prefix, fun honest => ?_⟩
        obtain ⟨hbefore, hwhole⟩ := h.before honest
        rw [chunks_cons, List.flatten_cons] at hbefore hwhole
        rw [Pending.bytes_eq] at harrived
        have htaken : taken.1 = (stream.push s message tag).2 := by
          show self.pending.whole.take (min self.pending.bytes SEALED_CHUNK_BYTES) = _
          rw [Pending.bytes_eq]
          refine take_chunk hbefore hwhole ?_ harrived
          obtain ⟨-, hle, rfl⟩ | ⟨-, hfull, -⟩ := hshape
          · refine .inr ⟨?_, rfl⟩
            rw [hlength]
            exact Nat.add_le_add_right hle _
          · refine .inl ?_
            rw [hlength, hfull]
            rfl
        have hroom : self.openedBytes + message.length ≤ self.plaintextBytes := by
          rw [h.recorded, honest.recorded, h.opened, h.plain, List.map_cons, List.flatten_cons,
            List.length_append, List.length_append]
          show _ + message.length ≤ _ + (message.length + _)
          omega
        have hopens := @openChunk_own _ self₁ _ _ _ _ ((hpull taken.1).trans (if_pos htaken))
          (htaken ▸ hlength) hpos (hshape.imp (·.1) fun hmessage => ⟨hmessage.1, hmessage.2.1⟩) hroom
        rw [hopen] at hopens
        cases hopens
      | ok self' =>
        show Outcome _ _ _ _ _ (openChunks ended self')
        obtain ⟨message', tag', state, hpulled, rfl⟩ := openChunk_ok hopen
        rw [show self₁.state = self.state from rfl, hpull] at hpulled
        split_ifs at hpulled with htaken
        obtain ⟨rfl, rfl, rfl⟩ : message = message' ∧ tag = tag' ∧ r' = state := by
          simpa using hpulled
        refine ih ⟨h.recorded, h.headerRead, hauthentic, hframed, ?_, ?_, ?_, ?_⟩
        · have hnone : rest = [] ↔ tag = TAG_FINAL := by
            obtain ⟨htag, -, hrest⟩ | ⟨htag, -, hrest⟩ := hshape
            · simp [htag, hrest]
            · rw [htag]
              exact iff_of_false hrest (by decide)
          simp [self₁, hfinal, hnone]
        · show self.openedBytes + message.length = (self.emitted ++ message).length
          rw [h.opened, List.length_append]
        · rw [h.plain, List.map_cons, List.flatten_cons, ← List.append_assoc]
        · obtain ⟨consumed, hbytes, htotal⟩ := h.bytes
          refine ⟨consumed ++ taken.1, ?_, ?_⟩
          · show arrived = consumed ++ taken.1 ++ taken.2.whole
            rw [hbytes, Pending.takePending_fst, Pending.takePending_snd, List.append_assoc,
              List.take_append_drop]
          · rw [htotal, chunks_cons, List.flatten_cons, htaken, List.append_assoc]
    · rw [openChunks_eq, if_neg harrived]
      refine ⟨s, (message, tag) :: rest, h, fun hended => ?_⟩
      subst hended
      simp at harrived
      omega

/-- A reader that has not read the header. -/
structure Fresh (key arrived : Bytes) (recorded : ℕ) (opener : SealedFileOpener stream) : Prop where
  key : opener.key = key
  recorded : opener.plaintextBytes = recorded
  headerRead : opener.headerRead = false
  finalOpened : opener.finalOpened = false
  openedBytes : opener.openedBytes = 0
  emitted : opener.emitted = []
  arrived : opener.pending.whole = arrived

/-- How far a reader has come. -/
def Progress (key plaintext total arrived : Bytes) (recorded : ℕ) (opener : SealedFileOpener stream) :
    Prop :=
  Fresh key arrived recorded opener ∨
    ∃ s rest, Reading plaintext total arrived recorded opener s rest

/-- A file, sealed under a key and a header by an ideal stream. -/
structure Sealed (stream : SecretStream) (key header plaintext total : Bytes) : Prop where
  length : header.length = HEADER_BYTES
  nonempty : plaintext ≠ []
  authentic : stream.Authentic TAG_BYTES (stream.initPush header key) (stream.initPull header key)
    (framesOf plaintext)
  total : total =
    header ++ (stream.chunks (stream.initPush header key) (framesOf plaintext)).flatten

section Sealed

variable {key header : Bytes}

/-- With its header read, a fresh reader has the whole file left. -/
theorem Fresh.reading {self : SealedFileOpener stream} (h : Fresh key arrived recorded self)
    (hsealed : Sealed stream key header plaintext total)
    (hheader : arrived.take HEADER_BYTES = header) :
    Reading plaintext total arrived recorded
      { self with
        state := stream.initPull (self.pending.takePending HEADER_BYTES).1 self.key
        pending := (self.pending.takePending HEADER_BYTES).2
        headerRead := true } (stream.initPush header key) (framesOf plaintext) := by
  have htaken : (self.pending.takePending HEADER_BYTES).1 = header := by
    rw [Pending.takePending_fst, h.arrived, hheader]
  refine ⟨h.recorded, rfl, ?_, framed_framesOf plaintext, ?_, ?_, ?_, header, ?_, hsealed.total⟩
  · rw [htaken, h.key]
    exact hsealed.authentic
  · show self.finalOpened = true ↔ _
    rw [h.finalOpened, framesOf_ne_nil hsealed.nonempty]
    simp
  · show self.openedBytes = self.emitted.length
    rw [h.openedBytes, h.emitted, List.length_nil]
  · show plaintext = self.emitted ++ _
    rw [h.emitted, List.nil_append, flatten_framesOf]
  · show arrived = header ++ (self.pending.takePending HEADER_BYTES).2.whole
    rw [Pending.takePending_snd, h.arrived, ← hheader, List.take_append_drop]

/-- A call opens what has arrived, where its header is not another's. -/
theorem openAvailable_outcome (ended : Bool) {self : SealedFileOpener stream}
    (hsealed : Sealed stream key header plaintext total)
    (hheader : arrived.take HEADER_BYTES <+: header)
    (h : Progress key plaintext total arrived recorded self) :
    Outcome plaintext total arrived recorded ended (openAvailable ended self) ∨
      ended = false ∧ openAvailable ended self = .ok self ∧ Fresh key arrived recorded self := by
  unfold openAvailable
  obtain hfresh | ⟨s, rest, hreading⟩ := h
  · rw [hfresh.headerRead, if_neg Bool.false_ne_true]
    by_cases hshort : self.pending.bytes < HEADER_BYTES
    · rw [if_pos hshort]
      cases ended with
      | false => exact .inr ⟨rfl, rfl, hfresh⟩
      | true =>
        refine .inl ⟨?_, fun honest => ?_⟩
        · show self.emitted <+: plaintext
          rw [hfresh.emitted]
          exact List.nil_prefix
        · rw [Pending.bytes_eq, hfresh.arrived, honest.whole rfl, hsealed.total,
            List.length_append, hsealed.length] at hshort
          omega
    · rw [if_neg hshort]
      have hwhole : arrived.take HEADER_BYTES = header := by
        rw [Pending.bytes_eq, hfresh.arrived] at hshort
        apply hheader.eq_of_length
        rw [List.length_take, hsealed.length]
        omega
      exact .inl (openChunks_outcome ended _ (hfresh.reading hsealed hwhole))
  · rw [hreading.headerRead, if_pos rfl]
    exact .inl (openChunks_outcome ended rest hreading)

/-- A piece that arrives is pending. -/
theorem Progress.push {self : SealedFileOpener stream}
    (h : Progress key plaintext total arrived recorded self) (piece : Bytes) :
    Progress key plaintext total (arrived ++ piece) recorded
      { self with pending := self.pending.push piece } := by
  obtain hfresh | ⟨s, rest, hreading⟩ := h
  · refine .inl { hfresh with arrived := ?_ }
    rw [Pending.whole_push, hfresh.arrived]
  · refine .inr ⟨s, rest, { hreading with bytes := ?_ }⟩
    obtain ⟨consumed, hbytes, htotal⟩ := hreading.bytes
    refine ⟨consumed, ?_, htotal⟩
    rw [Pending.whole_push, hbytes, List.append_assoc]

theorem transform_outcome {self : SealedFileOpener stream} (piece : Bytes)
    (hsealed : Sealed stream key header plaintext total)
    (hheader : (arrived ++ piece).take HEADER_BYTES <+: header)
    (h : Progress key plaintext total arrived recorded self) :
    match transform self piece with
    | .ok self' => Progress key plaintext total (arrived ++ piece) recorded self'
    | .error (_, self') => self'.emitted <+: plaintext ∧
        ¬Honest plaintext total (arrived ++ piece) recorded false := by
  unfold transform
  obtain houtcome | ⟨-, hok, hfresh⟩ := openAvailable_outcome false hsealed hheader (h.push piece)
  · cases hresult : openAvailable false { self with pending := self.pending.push piece } with
    | ok self' =>
      rw [hresult] at houtcome
      obtain ⟨s, rest, hreading, -⟩ := houtcome
      exact .inr ⟨s, rest, hreading⟩
    | error failure =>
      rw [hresult] at houtcome
      exact houtcome
  · rw [hok]
    exact .inl hfresh

theorem chunks_eq_nil {s r : stream.State} : ∀ {rest : List Frame},
    stream.Authentic TAG_BYTES s r rest → (stream.chunks s rest).flatten = [] → rest = []
  | [], _, _ => rfl
  | (message, tag) :: rest, ⟨hlength, _⟩, hnil => by
    rw [chunks_cons, List.flatten_cons, List.append_eq_nil_iff] at hnil
    rw [hnil.1] at hlength
    cases hlength

/-- **The end** of what arrived is the end of the file. -/
theorem flush_outcome {self : SealedFileOpener stream}
    (hsealed : Sealed stream key header plaintext total)
    (hheader : arrived.take HEADER_BYTES <+: header)
    (h : Progress key plaintext total arrived recorded self) :
    Ends plaintext total arrived recorded (flush self) := by
  unfold flush
  obtain houtcome | ⟨hended, -⟩ := openAvailable_outcome true hsealed hheader h
  · cases hresult : openAvailable true self with
    | error failure =>
      rw [hresult] at houtcome
      exact ⟨houtcome.1, fun hsame =>
        houtcome.2 ⟨hsame.1, hsame.2 ▸ List.prefix_rfl, fun _ => hsame.2⟩⟩
    | ok self' =>
      rw [hresult] at houtcome
      obtain ⟨s, rest, hreading, hdrained⟩ := houtcome
      have hpending : self'.pending.whole = [] := by
        rw [← List.length_eq_zero_iff, ← Pending.bytes_eq, hdrained rfl]
      obtain ⟨consumed, hbytes, htotal⟩ := hreading.bytes
      rw [hpending, List.append_nil] at hbytes
      show Ends _ _ _ _ (if self'.finalOpened = false then _ else _)
      by_cases hfinal : self'.finalOpened = false
      · rw [if_pos hfinal]
        refine ⟨hreading.emitted_prefix, fun ⟨_, hwhole⟩ => ?_⟩
        rw [hwhole, htotal] at hbytes
        have hnil := List.append_right_eq_self.mp hbytes
        rw [hreading.final.mpr (chunks_eq_nil hreading.authentic hnil)] at hfinal
        cases hfinal
      · obtain rfl := hreading.final.mp (by simpa using hfinal)
        have hplain : plaintext = self'.emitted := by
          rw [hreading.plain, List.map_nil, List.flatten_nil, List.append_nil]
        have hopened : self'.openedBytes = plaintext.length := by
          rw [hreading.opened, hplain]
        rw [if_neg hfinal, hreading.recorded, hopened]
        split_ifs with hlength
        · exact ⟨hreading.emitted_prefix, fun ⟨h, _⟩ => hlength h.symm⟩
        · refine ⟨hplain.symm, (not_not.mp hlength).symm, ?_⟩
          rw [hbytes, htotal, chunks, List.flatten_nil, List.append_nil]
  · cases hended

/-- **A stream in pieces** is read to the end exactly when it is the sealed file, wherever the
pieces are cut. -/
theorem readStream_outcome (hsealed : Sealed stream key header plaintext total) :
    ∀ (pieces : List Bytes) {arrived : Bytes} {self : SealedFileOpener stream},
      (arrived ++ pieces.flatten).take HEADER_BYTES <+: header →
      Progress key plaintext total arrived recorded self →
      Ends plaintext total (arrived ++ pieces.flatten) recorded (readStream self pieces)
  | [], arrived, self, hheader, h => by
    rw [List.flatten_nil, List.append_nil] at hheader ⊢
    exact flush_outcome hsealed hheader h
  | piece :: pieces, arrived, self, hheader, h => by
    rw [List.flatten_cons, ← List.append_assoc] at hheader ⊢
    have hbefore : (arrived ++ piece).take HEADER_BYTES <+: header := by
      rw [List.take_append] at hheader
      exact (List.prefix_append _ _).trans hheader
    have hturn := transform_outcome piece hsealed hbefore h
    unfold readStream
    rw [List.foldlM_cons, bind_assoc]
    cases hresult : transform self piece with
    | error failure =>
      rw [hresult] at hturn
      refine ⟨hturn.1, fun ⟨hrecorded, hwhole⟩ => hturn.2 ⟨hrecorded, ?_, fun h => nomatch h⟩⟩
      rw [← hwhole]
      exact List.prefix_append _ _
    | ok self' =>
      rw [hresult] at hturn
      exact readStream_outcome hsealed pieces hheader hturn

end Sealed

end Opening

/-- **A sealed file** has its length and opens to what was sealed, however the stream of it is cut
into pieces; any other bytes behind its header, cut within the header or not, and any other length
on record, make the opening fail, and what is emitted before that begins the file. -/
theorem openSealedFile_sealFile (stream : SecretStream) (header plaintext key : Bytes)
    (hkey : key.length = KEY_BYTES) (hheader : header.length = HEADER_BYTES)
    (hplaintext : 1 ≤ plaintext.length ∧ plaintext.length ≤ MAX_SAFE_INTEGER)
    (hauthentic : stream.Authentic TAG_BYTES (stream.initPush header key)
      (stream.initPull header key) (framesOf plaintext)) :
    ∃ sealed, sealFile stream header plaintext key = .ok sealed ∧
      sealedLength plaintext.length = .ok sealed.length ∧ sealed.take HEADER_BYTES = header ∧
      ∀ recorded, ∃ opener, openSealedFile stream key recorded = .ok opener ∧
        (∀ pieces : List Bytes, recorded = plaintext.length → pieces.flatten = sealed →
          ∃ self, opener.readStream pieces = .ok self ∧ self.emitted = plaintext) ∧
        ∀ pieces : List Bytes, pieces.flatten.take HEADER_BYTES <+: header →
          recorded ≠ plaintext.length ∨ pieces.flatten ≠ sealed →
          ∃ failure self, opener.readStream pieces = .error (failure, self) ∧
            self.emitted <+: plaintext := by
  obtain ⟨hseal, hlength⟩ := sealFile_eq hkey hheader hplaintext.1 hplaintext.2 hauthentic
  refine ⟨_, hseal, hlength, ?_, fun recorded => ?_⟩
  · rw [← hheader, List.take_left]
  let opener : SealedFileOpener stream := { key, plaintextBytes := recorded }
  have hends : ∀ pieces : List Bytes, pieces.flatten.take HEADER_BYTES <+: header →
      Ends plaintext (header ++ (stream.chunks (stream.initPush header key)
        (framesOf plaintext)).flatten) pieces.flatten recorded (opener.readStream pieces) := by
    intro pieces hpieces
    have hnonempty : plaintext ≠ [] := List.length_pos_iff.mp hplaintext.1
    have hfresh : Fresh key [] recorded opener := ⟨rfl, rfl, rfl, rfl, rfl, rfl, rfl⟩
    exact readStream_outcome ⟨hheader, hnonempty, hauthentic, rfl⟩ pieces hpieces (.inl hfresh)
  refine ⟨opener, ?_, fun pieces hrecorded hsame => ?_, fun pieces hpieces hother => ?_⟩
  · unfold openSealedFile assertKey
    rw [if_neg (not_not_intro hkey)]
    rfl
  · have hheaded : pieces.flatten.take HEADER_BYTES = header := by
      rw [hsame, ← hheader, List.take_left]
    have hend := hends pieces (hheaded ▸ List.prefix_rfl)
    cases hread : opener.readStream pieces with
    | ok self =>
      rw [hread] at hend
      exact ⟨self, rfl, hend.1⟩
    | error failure =>
      rw [hread] at hend
      exact absurd ⟨hrecorded, hsame⟩ hend.2
  · have hend := hends pieces hpieces
    cases hread : opener.readStream pieces with
    | ok self =>
      rw [hread] at hend
      exact (hother.elim (· hend.2.1) (· hend.2.2)).elim
    | error failure =>
      rw [hread] at hend
      exact ⟨failure.1, failure.2, rfl, hend.1⟩

/-- A file of two chunks, one byte in the second. -/
theorem openSealedFile_sealFile_two :
    let plaintext : Bytes := List.replicate 65537 7
    let header : Bytes := List.replicate 24 1
    let key : Bytes := List.replicate 32 2
    let stream := tableStream TAG_BYTES (framesOf plaintext)
    (key.length = KEY_BYTES ∧ header.length = HEADER_BYTES ∧
      (1 ≤ plaintext.length ∧ plaintext.length ≤ MAX_SAFE_INTEGER) ∧
      stream.Authentic TAG_BYTES (stream.initPush header key) (stream.initPull header key)
        (framesOf plaintext)) ∧
    ∃ sealed, sealFile stream header plaintext key = .ok sealed ∧
      sealedLength plaintext.length = .ok sealed.length ∧
      ∃ opener, openSealedFile stream key plaintext.length = .ok opener ∧
        (∃ self, opener.readStream (sealed.map ([·])) = .ok self ∧ self.emitted = plaintext) ∧
        ∃ failure self, opener.readStream [sealed.dropLast] = .error (failure, self) ∧
          self.emitted <+: plaintext := by
  intro plaintext header key stream
  have hkey : key.length = KEY_BYTES := List.length_replicate
  have hheader : header.length = HEADER_BYTES := List.length_replicate
  have hplaintext : 1 ≤ plaintext.length ∧ plaintext.length ≤ MAX_SAFE_INTEGER := by
    rw [show plaintext.length = 65537 from List.length_replicate]
    decide
  have hauthentic : stream.Authentic TAG_BYTES (stream.initPush header key)
      (stream.initPull header key) (framesOf plaintext) := authentic_tableStream _ _ _
  refine ⟨⟨hkey, hheader, hplaintext, hauthentic⟩, ?_⟩
  obtain ⟨sealed, hseal, hlength, hheaded, hopens⟩ :=
    openSealedFile_sealFile stream header plaintext key hkey hheader hplaintext hauthentic
  obtain ⟨opener, hopener, hwhole, hother⟩ := hopens plaintext.length
  have hlong : HEADER_BYTES < sealed.length := by
    unfold sealedLength at hlength
    rw [if_neg (by omega)] at hlength
    have hsum := Except.ok.inj hlength
    omega
  refine ⟨sealed, hseal, hlength, opener, hopener, hwhole _ rfl ?_, hother _ ?_ (.inr ?_)⟩
  · rw [← List.flatMap_def, List.flatMap_singleton']
  · have hcut : [sealed.dropLast].flatten.take HEADER_BYTES = header := by
      rw [List.flatten_singleton, List.dropLast_eq_take, List.take_take,
        Nat.min_eq_left (by omega), hheaded]
    exact hcut ▸ List.prefix_rfl
  · intro hsame
    have hless := congrArg List.length hsame
    rw [List.flatten_singleton, List.length_dropLast] at hless
    omega

end OpenBrf.Crypto
