import OpenBrf.Lang.CodeUnits

/-!
# Lang.Buffers — bytes, and strings of them

A string is the list of its code units.
-/

namespace OpenBrf.Lang

abbrev Bytes := List UInt8

/-- `Buffer.subarray` -/
def subarray (buffer : Bytes) (start stop : ℕ) : Bytes := (buffer.take stop).drop start

/-- `Buffer.from(text, "latin1")` -/
def latin1Bytes (text : List ℕ) : Bytes := text.map UInt8.ofNat

/-- `buffer.toString("latin1")` -/
def latin1Text (buffer : Bytes) : List ℕ := buffer.map UInt8.toNat

/-- The bytes of a code point; half of a surrogate pair is replaced. -/
def utf8Of (c : ℕ) : Bytes :=
  if c < 0x80 then [UInt8.ofNat c]
  else if c < 0x800 then [UInt8.ofNat (0xC0 + c / 0x40), UInt8.ofNat (0x80 + c % 0x40)]
  else if 0xD800 ≤ c ∧ c ≤ 0xDFFF then [0xEF, 0xBF, 0xBD]
  else if c < 0x10000 then
    [UInt8.ofNat (0xE0 + c / 0x1000), UInt8.ofNat (0x80 + c / 0x40 % 0x40), UInt8.ofNat (0x80 + c % 0x40)]
  else
    [UInt8.ofNat (0xF0 + c / 0x40000), UInt8.ofNat (0x80 + c / 0x1000 % 0x40),
      UInt8.ofNat (0x80 + c / 0x40 % 0x40), UInt8.ofNat (0x80 + c % 0x40)]

/-- `Buffer.from(text, "utf8")` -/
def utf8Bytes (text : List ℕ) : Bytes := (codePoints text).flatMap utf8Of

/-- What stands in a buffer behind its beginning. -/
theorem subarray_append (lead middle tail : Bytes) :
    subarray (lead ++ (middle ++ tail)) lead.length (lead.length + middle.length) = middle := by
  unfold subarray
  rw [← List.append_assoc, ← List.length_append, List.take_left' rfl, List.drop_left' rfl]

end OpenBrf.Lang
