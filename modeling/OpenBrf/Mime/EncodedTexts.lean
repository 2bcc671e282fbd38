import OpenBrf.Mime.Encodings
import OpenBrf.Search.Words

/-!
# Mime.EncodedTexts — encoded words are decoded to what was encoded
-/

namespace OpenBrf.Mime

open Lang Octets Regex Regex.Pattern Charsets

/-! ### Legal encoded words -/

/-- A payload of the Q encoding, and the bytes it stands for. -/
inductive QPayload : List ℕ → Bytes → Prop where
  | nil : QPayload [] []
  | literal {byte : UInt8} {payload : List ℕ} {bytes : Bytes} : 0x20 < byte.toNat →
      byte.toNat < 0x7F → byte.toNat ≠ 0x3D → byte.toNat ≠ QUESTION → byte.toNat ≠ UNDERSCORE →
      QPayload payload bytes → QPayload (byte.toNat :: payload) (byte :: bytes)
  | space {payload : List ℕ} {bytes : Bytes} : QPayload payload bytes →
      QPayload (UNDERSCORE :: payload) (0x20 :: bytes)
  | escaped {byte : UInt8} {high low : ℕ} {payload : List ℕ} {bytes : Bytes} :
      HexOf byte high low → QPayload payload bytes →
      QPayload (0x3D :: high :: low :: payload) (byte :: bytes)

structure EncodedWord where
  charset : List ℕ
  encoding : ℕ
  payload : List ℕ
  text : List ℕ

/-- The word as it is written. -/
def EncodedWord.written (word : EncodedWord) : List ℕ :=
  0x3D :: QUESTION :: (word.charset ++ QUESTION :: word.encoding :: QUESTION ::
    (word.payload ++ [QUESTION, 0x3D]))

/-- A word in a character set the decoders know, which says its text. -/
structure EncodedWord.Legal (charsets : Charsets) (word : EncodedWord) : Prop where
  named : word.charset ≠ []
  /-- A label is a token: no blank, no quote and no question mark. -/
  token : ∀ c ∈ word.charset, isSpace c = false ∧ c ≠ QUESTION ∧ c ≠ 0x22 ∧ c ≠ 0x27
  reads : ∃ bytes, charsets.decode word.charset bytes = some word.text ∧
    (((word.encoding = 0x42 ∨ word.encoding = 0x62) ∧ word.payload = encodeBase64 bytes) ∨
      ((word.encoding = 0x51 ∨ word.encoding = 0x71) ∧ QPayload word.payload bytes))

/-- Words behind blanks of their own. -/
def following (words : List (List ℕ × EncodedWord)) : List ℕ :=
  words.flatMap fun behind => behind.1 ++ behind.2.written

/-! ### Decoding a word -/

variable {charsets : Charsets}

theorem withoutQuotes_eq_self {text : List ℕ} (h : ∀ c ∈ text, c ≠ 0x22 ∧ c ≠ 0x27) :
    withoutQuotes text = text := by
  have hkept : ∀ c ∈ text, (decide (c = Rfc5322.QUOTE) || decide (c = 0x27)) = false := by
    intro c hc
    have hquote : c ≠ Rfc5322.QUOTE := (h c hc).1
    simp [hquote, (h c hc).2]
  have hhead : (text.head?.any fun u => decide (u = Rfc5322.QUOTE) || decide (u = 0x27)) = false := by
    cases hfirst : text.head? with
    | none => rfl
    | some c => exact hkept c (List.mem_of_mem_head? hfirst)
  have hlast : (text.getLast?.any fun u => decide (u = Rfc5322.QUOTE) || decide (u = 0x27)) = false := by
    cases hend : text.getLast? with
    | none => rfl
    | some c => exact hkept c (List.mem_of_mem_getLast? hend)
  unfold withoutQuotes
  dsimp only
  rw [hhead, if_neg Bool.false_ne_true, hlast, if_neg Bool.false_ne_true]

/-- A label the decoders know is the one they are asked for. -/
theorem decodeBytes_eq {charset text : List ℕ} {bytes : Bytes} (hnamed : charset ≠ [])
    (htoken : ∀ c ∈ charset, isSpace c = false ∧ c ≠ 0x22 ∧ c ≠ 0x27)
    (hdecode : charsets.decode charset bytes = some text) :
    charsets.decodeBytes bytes charset = text := by
  have htrimmed : trimmed charset = charset :=
    trimmed_eq_self (fun c hc => (htoken c (List.mem_of_mem_head? hc)).1)
      fun c hc => (htoken c (List.mem_of_mem_getLast? hc)).1
  have hlabel : withoutQuotes charset = charset :=
    withoutQuotes_eq_self fun c hc => (htoken c hc).2
  unfold decodeBytes
  rw [htrimmed, hlabel]
  dsimp only
  rw [if_neg hnamed, hdecode]

/-- **A quoted-printable body** says the text its bytes are in its character set. -/
theorem decodeBytes_quotedPrintable {charset text : List ℕ} {bytes encoded : Bytes}
    (hnamed : charset ≠ []) (htoken : ∀ c ∈ charset, isSpace c = false ∧ c ≠ 0x22 ∧ c ≠ 0x27)
    (hdecode : charsets.decode charset bytes = some text) (hencoded : QuotedPrintable encoded bytes) :
    charsets.decodeBytes (decodeQuotedPrintable encoded) charset = text := by
  rw [decodeQuotedPrintable_eq hencoded]
  exact decodeBytes_eq hnamed htoken hdecode

theorem quotedPrintable_of_qPayload {payload : List ℕ} {bytes : Bytes} (h : QPayload payload bytes) :
    QuotedPrintable (latin1Bytes (payload.map fun c => if c = UNDERSCORE then 0x20 else c)) bytes := by
  have hdigit : ∀ {c n : ℕ}, hexValue c = some n → (if c = UNDERSCORE then 0x20 else c) = c ∧
      (UInt8.ofNat c).toNat = c := by
    intro c n hvalue
    obtain ⟨-, hle, -, -, hne, -⟩ := hexValue_bounds hvalue
    refine ⟨if_neg hne, ?_⟩
    rw [UInt8.toNat_ofNat']
    exact Nat.mod_eq_of_lt (by omega)
  induction h with
  | nil => exact .nil
  | @literal byte payload bytes _ _ hequals _ hunderscore _ ih =>
    have hbyte : byte ≠ EQUALS := by
      rintro rfl
      exact hequals rfl
    show QuotedPrintable (UInt8.ofNat (if byte.toNat = UNDERSCORE then 0x20 else byte.toNat) :: _) _
    rw [if_neg hunderscore, UInt8.ofNat_toNat]
    exact .literal hbyte ih
  | space _ ih => exact .literal (by decide) ih
  | @escaped byte high low payload bytes hhex _ ih =>
    obtain ⟨hhigh, hhighByte⟩ := hdigit hhex.high
    obtain ⟨hlow, hlowByte⟩ := hdigit hhex.low
    show QuotedPrintable (EQUALS :: UInt8.ofNat (if high = UNDERSCORE then 0x20 else high) ::
      UInt8.ofNat (if low = UNDERSCORE then 0x20 else low) :: _) _
    rw [hhigh, hlow]
    refine .escaped ?_ ih
    rw [hhighByte, hlowByte]
    exact hhex

theorem qPayload_question {payload : List ℕ} {bytes : Bytes} (h : QPayload payload bytes) :
    QUESTION ∉ payload := by
  have hdigit : ∀ {c n : ℕ}, hexValue c = some n → QUESTION ≠ c := by
    intro c n hvalue heq
    exact (hexValue_bounds hvalue).2.2.2.1 heq.symm
  induction h with
  | nil => exact List.not_mem_nil
  | literal _ _ _ hquestion _ _ ih =>
    rw [List.mem_cons, not_or]
    exact ⟨Ne.symm hquestion, ih⟩
  | space _ ih =>
    rw [List.mem_cons, not_or]
    exact ⟨by decide, ih⟩
  | escaped hhex _ ih =>
    rw [List.mem_cons, List.mem_cons, List.mem_cons, not_or, not_or, not_or]
    exact ⟨by decide, hdigit hhex.high, hdigit hhex.low, ih⟩

namespace EncodedWord.Legal

variable {word : EncodedWord} (h : word.Legal charsets)

include h

theorem payload_question : QUESTION ∉ word.payload := by
  obtain ⟨bytes, -, ⟨-, hpayload⟩ | ⟨-, hpayload⟩⟩ := h.reads
  · rw [hpayload]
    intro hmem
    exact (mem_encodeBase64 _ hmem).2.2 rfl
  · exact qPayload_question hpayload

theorem charset_question : QUESTION ∉ word.charset := fun hmem => (h.token _ hmem).2.1 rfl

/-- **An encoded word** is decoded to its text. -/
theorem textOfMatch_eq : charsets.textOfMatch word.written = word.text := by
  have hencoding : QUESTION ∉ [word.encoding] := by
    obtain ⟨bytes, -, ⟨hencoding | hencoding, -⟩ | ⟨hencoding | hencoding, -⟩⟩ := h.reads <;>
      · rw [hencoding]
        decide
  have hsplit : split QUESTION word.written =
      [[0x3D], word.charset, [word.encoding], word.payload, [0x3D]] := by
    have hwritten : word.written = [0x3D] ++ QUESTION :: (word.charset ++ QUESTION ::
        ([word.encoding] ++ QUESTION :: (word.payload ++ QUESTION :: [0x3D]))) := rfl
    rw [hwritten, split_append (by decide), split_append h.charset_question, split_append hencoding,
      split_append h.payload_question, split_none (by decide)]
  unfold textOfMatch
  rw [hsplit]
  show charsets.decodeWord word.charset [word.encoding] word.payload = word.text
  have htoken : ∀ c ∈ word.charset, isSpace c = false ∧ c ≠ 0x22 ∧ c ≠ 0x27 := fun c hc =>
    ⟨(h.token c hc).1, (h.token c hc).2.2⟩
  unfold decodeWord
  dsimp only
  obtain ⟨bytes, hdecode, ⟨hencoding, hpayload⟩ | ⟨hencoding, hpayload⟩⟩ := h.reads
  · have hkept : (encodeBase64 bytes).filter (fun c => !isSpace c) = encodeBase64 bytes := by
      refine List.filter_eq_self.mpr fun c hc => ?_
      obtain ⟨hlow, hhigh, -⟩ := mem_encodeBase64 c hc
      unfold isSpace
      simp
      omega
    rw [if_pos (by rcases hencoding with hencoding | hencoding <;> simp [hencoding]), hpayload, hkept,
      decodeBase64_encodeBase64]
    exact decodeBytes_eq h.named htoken hdecode
  · rw [if_neg (by rcases hencoding with hencoding | hencoding <;> simp [hencoding])]
    exact decodeBytes_quotedPrintable h.named htoken hdecode (quotedPrintable_of_qPayload hpayload)

theorem encoding_mem : word.encoding ∈ [0x42, 0x62, 0x51, 0x71] := by
  obtain ⟨bytes, -, ⟨hencoding | hencoding, -⟩ | ⟨hencoding | hencoding, -⟩⟩ := h.reads <;>
    · rw [hencoding]
      decide

end EncodedWord.Legal

/-! ### Finding the words -/

theorem spells_ENCODED_WORD {prev : Option ℕ} {word after : List ℕ} :
    Spells ENCODED_WORD prev word after ↔ ∃ found : EncodedWord, word = found.written ∧
      found.charset ≠ [] ∧ QUESTION ∉ found.charset ∧ found.encoding ∈ [0x42, 0x62, 0x51, 0x71] ∧
        QUESTION ∉ found.payload := by
  have hnot : ∀ {text : List ℕ}, (∀ c ∈ text, decide (c ≠ QUESTION) = true) ↔ QUESTION ∉ text := by
    intro text
    constructor
    · intro h hmem
      exact of_decide_eq_true (h _ hmem) rfl
    · intro h c hc
      refine decide_eq_true ?_
      rintro rfl
      exact h hc
  have hopen : ∀ {opening : List ℕ}, List.Forall₂ (fun x xs => x ∈ xs) opening
      [[EQUALS.toNat], [QUESTION]] ↔ opening = [0x3D, QUESTION] := by
    intro opening
    simp only [List.forall₂_cons_right_iff, List.forall₂_nil_right_iff, List.mem_singleton]
    constructor
    · rintro ⟨_, _, rfl, ⟨_, _, rfl, rfl, rfl⟩, rfl⟩
      rfl
    · rintro rfl
      exact ⟨_, _, rfl, ⟨_, _, rfl, rfl, rfl⟩, rfl⟩
  unfold ENCODED_WORD
  constructor
  · rintro ⟨opening, _, rfl, hopening, _, _, rfl, ⟨c, hc, rfl⟩, charset, _, rfl, hcharset, middle, _,
      rfl, hmiddle, payload, closing, rfl, hpayload, hclosing⟩
    obtain rfl := hopen.mp (spells_classes.mp hopening)
    have hmiddle' := spells_classes.mp hmiddle
    have hclosing' := spells_classes.mp hclosing
    simp only [List.forall₂_cons_right_iff, List.forall₂_nil_right_iff, List.mem_singleton]
      at hmiddle' hclosing'
    obtain ⟨_, _, rfl, ⟨encoding, _, hencoding, ⟨_, _, rfl, rfl, rfl⟩, rfl⟩, rfl⟩ := hmiddle'
    obtain ⟨_, _, rfl, ⟨_, _, rfl, rfl, rfl⟩, rfl⟩ := hclosing'
    refine ⟨⟨c :: charset, encoding, payload, []⟩, ?_, List.cons_ne_nil _ _, ?_, hencoding,
      hnot.mp hpayload⟩
    · simp [EncodedWord.written, EQUALS]
    · exact hnot.mp (List.forall_mem_cons.mpr ⟨hc, hcharset⟩)
  · rintro ⟨⟨charset, encoding, payload, text⟩, rfl, hne, hcharset, hencoding, hpayload⟩
    obtain ⟨c, charset, rfl⟩ := List.exists_cons_of_ne_nil hne
    obtain ⟨hc, hcharset⟩ := List.forall_mem_cons.mp (hnot.mpr hcharset)
    refine ⟨[0x3D, QUESTION], c :: charset ++ QUESTION :: encoding :: QUESTION ::
      (payload ++ [QUESTION, 0x3D]), rfl, spells_classes.mpr (hopen.mpr rfl), [c], _, rfl, ⟨c, hc, rfl⟩,
      charset, _, rfl, hcharset, [QUESTION, encoding, QUESTION], _, rfl, spells_classes.mpr ?_, payload, _,
      rfl, hnot.mpr hpayload, spells_classes.mpr ?_⟩
    · exact .cons List.mem_cons_self (.cons hencoding (.cons List.mem_cons_self .nil))
    · exact .cons List.mem_cons_self (.cons List.mem_cons_self .nil)

theorem written_inj {word word' : EncodedWord} {rest rest' : List ℕ} (hcharset : QUESTION ∉ word.charset)
    (hcharset' : QUESTION ∉ word'.charset) (hpayload : QUESTION ∉ word.payload)
    (hpayload' : QUESTION ∉ word'.payload)
    (h : word.written ++ rest = word'.written ++ rest') : word'.written = word.written := by
  obtain ⟨charset, encoding, payload, text⟩ := word
  obtain ⟨charset', encoding', payload', text'⟩ := word'
  simp only [EncodedWord.written, List.cons_append, List.append_assoc, List.nil_append] at h ⊢
  obtain ⟨-, h1⟩ := List.cons.inj h
  obtain ⟨-, h2⟩ := List.cons.inj h1
  obtain ⟨rfl, h3⟩ := Search.first_inj hcharset hcharset' h2
  obtain ⟨rfl, h4⟩ := List.cons.inj h3
  obtain ⟨-, h5⟩ := List.cons.inj h4
  obtain ⟨rfl, -⟩ := Search.first_inj hpayload hpayload' h5
  rfl

/-- A legal word is found where it stands, and the search goes on behind it. -/
theorem findFrom_written {word : EncodedWord} (h : word.Legal charsets) (before rest : List ℕ) :
    findFrom ENCODED_WORD 0 before (word.written ++ rest) =
      (before, word.written) :: findFrom ENCODED_WORD 0 (before ++ word.written) rest := by
  refine findFrom_word (List.cons_ne_nil _ _) ⟨rest, (List.append_assoc _ _ _).symm, ?_⟩ ?_
  · exact spells_ENCODED_WORD.mpr ⟨word, rfl, h.named, h.charset_question, h.encoding_mem,
      h.payload_question⟩
  · rintro _ ⟨after, htext, hspells⟩
    obtain ⟨found, rfl, -, hcharset, -, hpayload⟩ := spells_ENCODED_WORD.mp hspells
    rw [List.append_assoc] at htext
    exact written_inj h.charset_question hcharset h.payload_question hpayload
      (List.append_cancel_left htext)

/-- No word begins at a blank. -/
theorem findFrom_blanks : ∀ {blanks before rest : List ℕ}, (∀ c ∈ blanks, isSpace c = true) →
    findFrom ENCODED_WORD 0 before (blanks ++ rest) = findFrom ENCODED_WORD 0 (before ++ blanks) rest
  | [], before, rest, _ => by rw [List.append_nil, List.nil_append]
  | c :: blanks, before, rest, h => by
    have hnone : ∀ word, ¬ Occurs ENCODED_WORD (before ++ c :: (blanks ++ rest)) before word := by
      rintro _ ⟨after, htext, hspells⟩
      obtain ⟨found, rfl, -⟩ := spells_ENCODED_WORD.mp hspells
      rw [List.append_assoc] at htext
      obtain ⟨rfl, -⟩ := List.cons.inj (List.append_cancel_left htext)
      exact absurd (h _ List.mem_cons_self) (by decide)
    rw [List.cons_append, findFrom_none hnone,
      findFrom_blanks fun d hd => h d (List.mem_cons_of_mem _ hd), List.append_assoc,
      List.singleton_append]

theorem decodeFrom_following : ∀ {words : List (List ℕ × EncodedWord)} (_ : ∀ behind ∈ words,
      (∀ c ∈ behind.1, isSpace c = true) ∧ behind.2.Legal charsets) (before : List ℕ),
    charsets.decodeFrom (before ++ following words) before.length true
        (findFrom ENCODED_WORD 0 before (following words)) =
      words.flatMap fun behind => behind.2.text
  | [], _, before => by
    show (before ++ []).drop before.length = []
    rw [List.append_nil, List.drop_length]
  | (blanks, word) :: words, hwords, before => by
    obtain ⟨⟨hblanks, hlegal⟩, hrest⟩ := List.forall_mem_cons.mp hwords
    have hfollowing : following ((blanks, word) :: words) =
        blanks ++ (word.written ++ following words) := by
      show (blanks ++ word.written) ++ following words = _
      rw [List.append_assoc]
    have ih := decodeFrom_following hrest (before ++ blanks ++ word.written)
    rw [hfollowing, findFrom_blanks hblanks, findFrom_written hlegal, decodeFrom, List.drop_left']
    · rw [if_pos ⟨rfl, trimmed_eq_nil.mpr hblanks⟩, hlegal.textOfMatch_eq, List.nil_append,
        ← List.length_append, ← List.append_assoc before, ← List.append_assoc (before ++ blanks), ih]
      rfl
    · rfl

/-- **Adjacent encoded words**, with whatever blanks between them, say their texts. -/
theorem decodeEncodedWords_eq {word : EncodedWord} {words : List (List ℕ × EncodedWord)}
    (hword : word.Legal charsets)
    (hwords : ∀ behind ∈ words, (∀ c ∈ behind.1, isSpace c = true) ∧ behind.2.Legal charsets) :
    charsets.decodeEncodedWords (word.written ++ following words) =
      word.text ++ words.flatMap fun behind => behind.2.text := by
  unfold decodeEncodedWords findAll
  rw [findFrom_written hword, decodeFrom, hword.textOfMatch_eq, List.nil_append, List.length_nil,
    Nat.zero_add, decodeFrom_following hwords]
  simp

end OpenBrf.Mime
