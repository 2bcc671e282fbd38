import OpenBrf.Lang.CodeUnits
import OpenBrf.Regex.Pattern
import OpenBrf.Shared.PersonalIdentityNumber

/-!
# Shared.IdentityNumberScan — identity numbers in free text (`personal-identity-number.ts`)

A text is what iterating over it gives: its code points, and a half of a surrogate pair where one
stands alone.  The categories of a code point and its compatibility form are those of the Unicode
tables the language carries.
-/

namespace OpenBrf.Shared

open Lang Regex

abbrev CodePoint := ℕ

/-- `String.prototype.slice` of what starts at an offset, cut where code points begin. -/
def sliceFrom (offset start stop : ℕ) : List CodePoint → List CodePoint
  | [] => []
  | c :: rest =>
    if start ≤ offset ∧ offset < stop then c :: sliceFrom (offset + unitsOf c) start stop rest
    else sliceFrom (offset + unitsOf c) start stop rest

def slice (text : List CodePoint) (start stop : ℕ) : List CodePoint := sliceFrom 0 start stop text

/-- What the tables say of a code point. -/
structure UnicodeTables where
  /-- `\p{C}` -/
  other : CodePoint → Bool
  /-- `\p{Default_Ignorable_Code_Point}` -/
  defaultIgnorable : CodePoint → Bool
  /-- `\p{Z}` -/
  separator : CodePoint → Bool
  /-- `\p{Pd}` -/
  dashPunctuation : CodePoint → Bool
  /-- `normalize("NFKC")` of the code point alone. -/
  nfkc : CodePoint → List CodePoint

def HYPHEN_MINUS : CodePoint := 0x2D

def PLUS : CodePoint := 0x2B

namespace UnicodeTables

variable (tables : UnicodeTables)

/-- `INVISIBLE` -/
def invisible (c : CodePoint) : Bool := tables.other c || tables.defaultIgnorable c

/-- `SEPARATOR` -/
def isSeparator (c : CodePoint) : Bool :=
  c ∈ [0x9, 0xA, 0xB, 0xC, 0xD, 0x85] || tables.separator c

/-- `DASH` -/
def isDash (c : CodePoint) : Bool :=
  tables.dashPunctuation c || c ∈ [0x2D7, 0x2043, 0x2212, 0x2500, 0x2501, 0x23AF, 0x2796]

/-- `SIGN` -/
def isSign (c : CodePoint) : Bool := c = PLUS || tables.isDash c

def isDropped (c : CodePoint) : Bool := tables.invisible c && !tables.isSeparator c

/-! ### Folding -/

/-- A character of the folded text, and the span of the original it stands for. -/
structure FoldedCharacter where
  character : CodePoint
  start : ℕ
  stop : ℕ
  deriving DecidableEq, Repr

/-- What one code point is folded to. -/
def folded (c : CodePoint) : List CodePoint := if tables.isDropped c then [] else tables.nfkc c

def foldFrom (offset : ℕ) : List CodePoint → List FoldedCharacter
  | [] => []
  | c :: rest =>
    (tables.folded c).map (fun form => ⟨form, offset, offset + unitsOf c⟩) ++
      foldFrom (offset + unitsOf c) rest

def foldForScan (text : List CodePoint) : List FoldedCharacter := tables.foldFrom 0 text

/-- The folded text alone. -/
def foldedText (text : List CodePoint) : List CodePoint :=
  (tables.foldForScan text).map (·.character)

/-! ### The candidates -/

open Pattern in
def CANDIDATE_PATTERN : Pattern CodePoint :=
  seq (notAfter isDigit) <| seq (optional (times isDigit 2)) <| seq (times isDigit 6) <|
    seq (many tables.isSeparator) <|
    seq (optional (seq (one tables.isSign) (many tables.isSeparator))) <|
    seq (times isDigit 4) (notBefore isDigit)

/-- The candidate without its separators, its dash the one the parser knows. -/
def compact (candidate : List CodePoint) : List CodePoint :=
  (candidate.filter fun c => !tables.isSeparator c).map fun c =>
    if tables.isDash c then HYPHEN_MINUS else c

end UnicodeTables

/-! ### Valid numbers -/

/-- Whether a number written with its century names the birth of somebody who can be alive. -/
def isBornBy (zone : Zone) (input : String) (parts : PersonalIdentityNumberParts)
    (referenceDate : Int) : Bool :=
  match (shapeOf input).bind (·.century) with
  | none => true
  | some century =>
    if String.ofList century ∈ ["18", "19", "20"] then
      let birth : LocalDay :=
        ⟨parts.year, parts.month, if parts.isCoordinationNumber then parts.day - 60 else parts.day⟩
      compareLocalDays birth (dateOf zone referenceDate) ≤ 0
    else false

/-- The weighted digit at a position. -/
def weightedDigit (position digit : ℕ) : ℕ :=
  let weighted := if position % 2 = 0 then digit * 2 else digit
  if 9 < weighted then weighted - 9 else weighted

/-- The Luhn check over `YYMMDDNNNC`. -/
def luhnHolds (tenDigits : List Char) : Bool :=
  let digits := (tenDigits.take 10).map fun c => c.toNat - 48
  if digits.length = 10 ∧ (tenDigits.take 10).all Char.isDigit then
    let sum := ((List.range 9).map fun position => weightedDigit position (digits.getD position 0)).sum
    (10 - sum % 10) % 10 = digits.getD 9 0
  else false

def isValidPersonalIdentityNumber (zone : Zone) (input : String) (referenceDate : Int) : Bool :=
  match parsePersonalIdentityNumber zone input referenceDate with
  | none => false
  | some parts =>
    if isBornBy zone input parts referenceDate then
      match normalizePersonalIdentityNumber zone input referenceDate with
      | none => false
      | some normalized => luhnHolds (normalized.toList.drop 2)
    else false

/-! ### The scan -/

structure PersonalIdentityNumberMatch where
  value : List CodePoint
  index : ℕ
  deriving DecidableEq, Repr

/-- The text a parser is given. -/
def stringOf (text : List CodePoint) : String := String.ofList (text.map Char.ofNat)

namespace UnicodeTables

variable (tables : UnicodeTables) (zone : Zone)

/-- The candidates that are numbers, each with what stands before it in the folded text. -/
def numbersIn (text : List CodePoint) (referenceDate : Int) :
    List (List CodePoint × List CodePoint) :=
  (tables.CANDIDATE_PATTERN.findAll (tables.foldedText text)).filter fun found =>
    isValidPersonalIdentityNumber zone (stringOf (tables.compact found.2)) referenceDate

/-- A candidate as the original text has it. -/
def reportOf (text before candidate : List CodePoint) : PersonalIdentityNumberMatch :=
  let spans := tables.foldForScan text
  let start := ((spans[before.length]?).map (·.start)).getD 0
  let stop := ((spans[before.length + candidate.length - 1]?).map (·.stop)).getD start
  ⟨slice text start stop, start⟩

def scanForPersonalIdentityNumbers (text : List CodePoint) (referenceDate : Int) :
    List PersonalIdentityNumberMatch :=
  (tables.numbersIn zone text referenceDate).map fun found => tables.reportOf text found.1 found.2

end UnicodeTables

end OpenBrf.Shared
