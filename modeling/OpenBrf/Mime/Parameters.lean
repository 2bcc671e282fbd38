import OpenBrf.Lang
import OpenBrf.Mime.Encodings

/-!
# Mime.Parameters — the parameters on a header (`mime.ts`)
-/

namespace OpenBrf.Mime

open Lang Octets Regex Regex.Pattern Rfc5322

def SEMICOLON : ℕ := 0x3B

def STAR : ℕ := 0x2A

def APOSTROPHE : ℕ := 0x27

def PERCENT : ℕ := 0x25

def EQUALS_SIGN : ℕ := 0x3D

/-! ### The parts between semicolons -/

/-- The loop of `splitParameters`, behind a character. -/
def splitLoop : (prev : Option ℕ) → (quoted : Bool) → (current : List ℕ) → List ℕ → List (List ℕ)
  | _, _, current, [] => [current]
  | prev, quoted, current, c :: rest =>
    let quoted := if c = QUOTE ∧ prev ≠ some BACKSLASH then !quoted else quoted
    if c = SEMICOLON ∧ quoted = false then current :: splitLoop (some c) quoted [] rest
    else splitLoop (some c) quoted (current ++ [c]) rest

def splitParameters (raw : List ℕ) : List (List ℕ) := splitLoop none false [] raw

/-! ### Percent encoding -/

/-- `Number.parseInt` in base 16. -/
def parseInt16 (text : List ℕ) : Option ℤ :=
  let text := text.dropWhile isSpace
  let negative := text.head? = some 0x2D
  let text := if negative ∨ text.head? = some 0x2B then text.tail else text
  let text := if text.take 2 = [0x30, 0x78] ∨ text.take 2 = [0x30, 0x58] then text.drop 2 else text
  let digits := (text.map hexValue).takeWhile Option.isSome
  if digits = [] then none
  else
    let value : ℕ := digits.reduceOption.foldl (fun n d => 16 * n + d) 0
    some (if negative then -(value : ℤ) else value)

def percentBytes : List ℕ → Bytes
  | [] => []
  | c :: rest =>
    if c ≠ PERCENT then UInt8.ofNat c :: percentBytes rest
    else
      match rest with
      | a :: b :: more =>
        match parseInt16 [a, b] with
        | some code => UInt8.ofInt code :: percentBytes more
        | none => UInt8.ofNat c :: percentBytes (a :: b :: more)
      | [a] => UInt8.ofNat c :: percentBytes [a]
      | [] => [UInt8.ofNat c]

/-! ### A value -/

def isLineTerminator (c : ℕ) : Bool := c ∈ [0xA, 0xD, 0x2028, 0x2029]

/-- `replaceAll(/\\(.)/g, "$1")` -/
def unescaped : List ℕ → List ℕ
  | [] => []
  | c :: rest =>
    if c = BACKSLASH then
      match rest with
      | d :: more => if isLineTerminator d then c :: unescaped (d :: more) else d :: unescaped more
      | [] => [c]
    else c :: unescaped rest

def unquoted (value : List ℕ) : List ℕ :=
  if value.head? = some QUOTE then
    unescaped (if value.getLast? = some QUOTE then value.tail.dropLast else value.tail)
  else value

/-! ### A numbered name -/

/-- `/^(.+)\*(\d{1,3})(\*?)$/` -/
def NUMBERED : Pattern ℕ :=
  let line (c : ℕ) : Bool := !isLineTerminator c
  let digit (c : ℕ) : Bool := 0x30 ≤ c && c ≤ 0x39
  seq start <| seq (one line) <| seq (many line) <| seq (one fun c => c = STAR) <| seq (one digit) <|
    seq (optional (one digit)) <| seq (optional (one digit)) <|
    seq (optional (one fun c => c = STAR)) <| notBefore fun _ => true

/-- The groups of a match: the star that is not the last character stands in front of the digits. -/
def numbered (name : List ℕ) : Option (List ℕ × ℕ × Bool) :=
  if test NUMBERED name then
    let star : Bool := name.getLast? = some STAR
    let backwards := (if star then name.dropLast else name).reverse
    let digits := (backwards.takeWhile fun c => c ≠ STAR).reverse
    some ((backwards.dropWhile fun c => c ≠ STAR).tail.reverse, numberOfDigits digits, star)
  else none

/-! ### The parameters -/

structure Segment where
  value : List ℕ
  extended : Bool
  deriving DecidableEq, Repr

structure Parameters where
  parameters : List (List ℕ × List ℕ)
  /-- Numbered segments by parameter name, by number. -/
  continued : List (List ℕ × List (ℕ × Segment))

/-- `charset'language'value`: what is in front of the first apostrophe and behind the second. -/
def extendedParts (value : List ℕ) : Option (List ℕ × List ℕ) :=
  match split APOSTROPHE value with
  | charset :: _ :: rest =>
    if rest = [] then none else some (charset, [APOSTROPHE].intercalate rest)
  | _ => none

namespace Charsets

variable (charsets : Charsets)

/-- The loop of `joinSegments` from a position, with how many are left to find. -/
def joinFrom (segments : List (ℕ × Segment)) : (room position : ℕ) → (charset : List ℕ) →
    (bytes : Bytes) → List ℕ
  | 0, _, charset, bytes => charsets.decodeBytes bytes charset
  | room + 1, position, charset, bytes =>
    match getKey position segments with
    | none => charsets.decodeBytes bytes charset
    | some segment =>
      let parts := if segment.extended ∧ position = 0 then extendedParts segment.value else none
      let label := (parts.map (·.1)).getD []
      let value := (parts.map (·.2)).getD segment.value
      joinFrom segments room (position + 1) (if label = [] then charset else label)
        (bytes ++ if segment.extended then percentBytes value else utf8Bytes value)

def joinSegments (segments : List (ℕ × Segment)) : List ℕ :=
  charsets.joinFrom segments segments.length 0 UTF_8 []

/-- The body of the loop of `parseParameters`. -/
def readParameter (tables : TextTables) (state : Parameters) (segment : List ℕ) : Parameters :=
  if EQUALS_SIGN ∉ segment then state
  else
    let name := tables.toLowerCase (trimmed (segment.takeWhile fun c => c ≠ EQUALS_SIGN))
    let value := unquoted (trimmed (segment.dropWhile fun c => c ≠ EQUALS_SIGN).tail)
    match numbered name with
    | some (base, position, star) =>
      let segments := (getKey base state.continued).getD []
      let segments :=
        if (getKey position segments).isSome then segments
        else setKey position ⟨value, star⟩ segments
      { state with continued := setKey base segments state.continued }
    | none =>
      if name.getLast? = some STAR then
        let parts := (extendedParts value).getD (UTF_8, value)
        { state with
          parameters := setKey name.dropLast (charsets.decodeBytes (percentBytes parts.2) parts.1)
            state.parameters }
      else if (getKey name state.parameters).isSome then state
      else { state with parameters := setKey name value state.parameters }

def parseParameters (tables : TextTables) (raw : List ℕ) : List (List ℕ × List ℕ) :=
  let read := (splitParameters raw).tail.foldl (charsets.readParameter tables) ⟨[], []⟩
  read.continued.foldl (fun parameters entry =>
    -- segments with no first one join to nothing
    if (getKey 0 entry.2).isSome then setKey entry.1 (charsets.joinSegments entry.2) parameters
    else parameters) read.parameters

end Charsets

end OpenBrf.Mime
