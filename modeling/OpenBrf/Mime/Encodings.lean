import OpenBrf.Lang.Buffers
import OpenBrf.Lang.CodeUnits
import OpenBrf.Mime.FromHeader
import OpenBrf.Octets.Base64
import OpenBrf.Octets.Hex
import OpenBrf.Regex.Pattern

/-!
# Mime.Encodings — transfer encodings, character sets and encoded words (`mime.ts`)

What bytes say in a character set is told by the decoders the platform has, by label.
-/

namespace OpenBrf.Mime

open Lang Octets Regex Regex.Pattern

def EQUALS : UInt8 := 0x3D

/-! ### Quoted-printable -/

/-- A byte of two digits, `/^[0-9a-fA-F]{2}$/`. -/
def hexByte (high low : UInt8) : Option UInt8 :=
  (hexValue high.toNat).bind fun a => (hexValue low.toNat).map fun b => UInt8.ofNat (16 * a + b)

def decodeQuotedPrintable : Bytes → Bytes
  | [] => []
  | character :: rest =>
    if character ≠ EQUALS then character :: decodeQuotedPrintable rest
    else
      match rest with
      | next :: other :: more =>
        -- a soft line break, in either line ending
        if next = 0x0D ∧ other = 0x0A then decodeQuotedPrintable more
        else if next = 0x0A then decodeQuotedPrintable (other :: more)
        else
          match hexByte next other with
          | some code => code :: decodeQuotedPrintable more
          | none => EQUALS :: decodeQuotedPrintable (next :: other :: more)
      | [next] => if next = 0x0A then [] else EQUALS :: decodeQuotedPrintable [next]
      | [] => [EQUALS]

/-! ### Character sets -/

/-- What the platform's decoders read bytes as, or none for a label they do not know. -/
structure Charsets where
  decode : List ℕ → Bytes → Option (List ℕ)

def UTF_8 : List ℕ := [0x75, 0x74, 0x66, 0x2D, 0x38]

namespace Charsets

variable (charsets : Charsets)

def decodeBytes (bytes : Bytes) (charset : List ℕ) : List ℕ :=
  let label := withoutQuotes (trimmed charset)
  match charsets.decode (if label = [] then UTF_8 else label) bytes with
  | some text => text
  | none => (charsets.decode UTF_8 bytes).getD []

/-! ### Encoded words -/

def QUESTION : ℕ := 0x3F

def UNDERSCORE : ℕ := 0x5F

/-- `/=\?([^?]+)\?([BbQq])\?([^?]*)\?=/` -/
def ENCODED_WORD : Pattern ℕ :=
  seq (classes [[EQUALS.toNat], [QUESTION]]) <| seq (one fun c => c ≠ QUESTION) <|
    seq (many fun c => c ≠ QUESTION) <|
    seq (classes [[QUESTION], [0x42, 0x62, 0x51, 0x71], [QUESTION]]) <|
    seq (many fun c => c ≠ QUESTION) <| classes [[QUESTION], [EQUALS.toNat]]

/-- The text of an encoded word with its character set, its encoding and its payload. -/
def decodeWord (charset encoding payload : List ℕ) : List ℕ :=
  let bytes :=
    if encoding = [0x42] ∨ encoding = [0x62] then decodeBase64 (payload.filter fun c => !isSpace c)
    else decodeQuotedPrintable (latin1Bytes (payload.map fun c => if c = UNDERSCORE then 0x20 else c))
  charsets.decodeBytes bytes charset

/-- The groups of a match are what its question marks separate. -/
def textOfMatch (word : List ℕ) : List ℕ :=
  match split QUESTION word with
  | [_, charset, encoding, payload, _] => charsets.decodeWord charset encoding payload
  | _ => []

/-- The loop of `decodeEncodedWords`, over the matches that are left. -/
def decodeFrom (raw : List ℕ) : ℕ → Bool → List (List ℕ × List ℕ) → List ℕ
  | cursor, _, [] => raw.drop cursor
  | cursor, afterWord, (before, word) :: rest =>
    let between := before.drop cursor
    (if afterWord ∧ trimmed between = [] then [] else between) ++
      (charsets.textOfMatch word ++ decodeFrom raw (before.length + word.length) true rest)

def decodeEncodedWords (raw : List ℕ) : List ℕ :=
  charsets.decodeFrom raw 0 false (findAll ENCODED_WORD raw)

end Charsets

/-! ### What is legal -/

/-- Bytes in quoted-printable, with soft line breaks wherever they are put. -/
inductive QuotedPrintable : Bytes → Bytes → Prop where
  | nil : QuotedPrintable [] []
  | literal {byte : UInt8} {encoded bytes : Bytes} : byte ≠ EQUALS → QuotedPrintable encoded bytes →
      QuotedPrintable (byte :: encoded) (byte :: bytes)
  | escaped {byte high low : UInt8} {encoded bytes : Bytes} : HexOf byte high.toNat low.toNat →
      QuotedPrintable encoded bytes →
      QuotedPrintable (EQUALS :: high :: low :: encoded) (byte :: bytes)
  | softCRLF {encoded bytes : Bytes} : QuotedPrintable encoded bytes →
      QuotedPrintable (EQUALS :: 0x0D :: 0x0A :: encoded) bytes
  | softLF {encoded bytes : Bytes} : QuotedPrintable encoded bytes →
      QuotedPrintable (EQUALS :: 0x0A :: encoded) bytes

theorem hexByte_of_hexOf {byte high low : UInt8} (h : HexOf byte high.toNat low.toNat) :
    hexByte high low = some byte := by
  obtain ⟨a, b, ha, hb, rfl⟩ := h.byte
  unfold hexByte
  rw [ha, hb]
  rfl

/-- **Quoted-printable** is decoded to the bytes it stands for. -/
theorem decodeQuotedPrintable_eq {encoded bytes : Bytes} (h : QuotedPrintable encoded bytes) :
    decodeQuotedPrintable encoded = bytes := by
  induction h with
  | nil => rfl
  | literal hbyte _ ih =>
    unfold decodeQuotedPrintable
    rw [if_pos hbyte, ih]
  | @escaped byte high low encoded bytes hhex _ ih =>
    have hhigh := (hexValue_bounds hhex.high).1
    have hne : ∀ c : UInt8, c.toNat < 0x30 → high ≠ c := by
      rintro c hc rfl
      omega
    unfold decodeQuotedPrintable
    rw [if_neg (fun hneq => hneq rfl)]
    dsimp only
    rw [if_neg fun hsoft => hne 0x0D (by decide) hsoft.1, if_neg (hne 0x0A (by decide)),
      hexByte_of_hexOf hhex]
    dsimp only
    rw [ih]
  | softCRLF _ ih =>
    unfold decodeQuotedPrintable
    rw [if_neg (fun hneq => hneq rfl)]
    exact ih
  | @softLF encoded bytes _ ih =>
    unfold decodeQuotedPrintable
    rw [if_neg (fun hneq => hneq rfl)]
    cases encoded with
    | nil => exact ih
    | cons c encoded => exact ih

end OpenBrf.Mime
