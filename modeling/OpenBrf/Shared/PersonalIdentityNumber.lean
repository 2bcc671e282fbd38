import Mathlib
import OpenBrf.Shared.StockholmCalendar

/-!
# Shared.PersonalIdentityNumber — a personal identity number and its century
(`personal-identity-number.ts`)

A text is read as its characters.  The scans of free text and the check digit are left out: they
play no part in how a number is read.
-/

namespace OpenBrf.Shared

open Lang

/-! ### The pattern -/

/-- The pattern's groups for a single typed value. -/
structure Groups where
  century : Option (List Char)
  year : List Char
  month : List Char
  day : List Char
  separator : Option Char
  suffix : List Char
  deriving DecidableEq, Repr

/-- `\d{2}`, and what is left. -/
def twoDigits : List Char → Option (List Char × List Char)
  | a :: b :: rest => if a.isDigit && b.isDigit then some ([a, b], rest) else none
  | _ => none

/-- `[-+]?\d{4}` to the end. -/
def separatorAndSuffix : List Char → Option (Option Char × List Char)
  | [a, b, c, d] => if [a, b, c, d].all Char.isDigit then some (none, [a, b, c, d]) else none
  | [sign, a, b, c, d] =>
    if (sign = '-' ∨ sign = '+') ∧ [a, b, c, d].all Char.isDigit then some (some sign, [a, b, c, d])
    else none
  | _ => none

/-- What follows the century. -/
def afterCentury (century : Option (List Char)) (text : List Char) : Option Groups := do
  let (year, rest) ← twoDigits text
  let (month, rest) ← twoDigits rest
  let (day, rest) ← twoDigits rest
  let (separator, suffix) ← separatorAndSuffix rest
  return ⟨century, year, month, day, separator, suffix⟩

/-- The pattern: the century is taken where the rest still matches. -/
def matchPattern (text : List Char) : Option Groups :=
  match twoDigits text with
  | some (century, rest) => (afterCentury (some century) rest).or (afterCentury none text)
  | none => none

def compactOf (input : String) : List Char := (trim input).toList.filter fun c => !isWhiteSpace c

def shapeOf (input : String) : Option Groups := matchPattern (compactOf input)

/-! ### Reading -/

structure PersonalIdentityNumberParts where
  year : Int
  month : ℕ
  day : ℕ
  suffix : List Char
  isCoordinationNumber : Bool
  deriving DecidableEq, Repr

namespace Groups

variable (groups : Groups)

def dayNumber : ℕ := numberOf groups.day

def isCoordinationNumber : Bool := 60 < groups.dayNumber

/-- The day without the offset of a coordination number. -/
def actualDay : ℕ :=
  if groups.isCoordinationNumber then groups.dayNumber - 60 else groups.dayNumber

/-- The year a number is read with on a day. -/
def fullYear (referenceDay : LocalDay) : Int :=
  let twoDigitYear : Int := numberOf groups.year
  match groups.century with
  | some century => numberOf century * 100 + twoDigitYear
  | none =>
    let fullYear := referenceDay.year / 100 * 100 + twoDigitYear
    if groups.separator = some '+' then
      (if referenceDay.year < fullYear then fullYear - 100 else fullYear) - 100
    else if referenceDay.fieldKey < (⟨fullYear, numberOf groups.month, groups.actualDay⟩ :
        LocalDay).fieldKey then
      fullYear - 100
    else fullYear

/-- What is read, given the year, where that is a date. -/
def parts (fullYear : Int) : Option PersonalIdentityNumberParts :=
  let monthNumber := numberOf groups.month
  if monthNumber < 1 ∨ 12 < monthNumber ∨ groups.actualDay < 1 then none
  else if (utcDaysInMonth fullYear monthNumber).any fun days : Int => days < groups.actualDay then none
  else some ⟨fullYear, monthNumber, groups.dayNumber, groups.suffix, groups.isCoordinationNumber⟩

end Groups

section Reading

variable (zone : Zone)

def parsePersonalIdentityNumber (input : String) (referenceDate : Int) :
    Option PersonalIdentityNumberParts :=
  (shapeOf input).bind fun groups => groups.parts (groups.fullYear (dateOf zone referenceDate))

/-- Twelve digits, no separator. -/
def PersonalIdentityNumberParts.normalized (parts : PersonalIdentityNumberParts) : String :=
  String.ofList (parts.year.repr.toList ++
    (padStart 2 parts.month ++ padStart 2 parts.day ++ parts.suffix))

def normalizePersonalIdentityNumber (input : String) (referenceDate : Int) : Option String :=
  (parsePersonalIdentityNumber zone input referenceDate).map (·.normalized)

/-- The input with the century it is read with written in front of it. -/
def withPersonalIdentityNumberCentury (input : String) (referenceDate : Int) : String :=
  match shapeOf input with
  | none => input
  | some groups =>
    if groups.century.isSome then input
    else
      match parsePersonalIdentityNumber zone input referenceDate with
      | none => input
      | some parts => (parts.year / 100).repr ++ trim input

/-- The instant of a wall clock, the earlier where it shows a time twice, and by the offset before
where it skips one. -/
def Zone.utcOf (wall : Int) : Int :=
  let offset := zone.offset (wall - MILLISECONDS_PER_DAY)
  let before := wall - offset * MILLISECONDS_PER_MINUTE
  let offset' := zone.offset (wall + MILLISECONDS_PER_DAY)
  let after := wall - offset' * MILLISECONDS_PER_MINUTE
  if zone.offset before = offset then before
  else if zone.offset after = offset' then after
  else before

/-- The same moment a number of years away, on the clock of the process (`setFullYear`). -/
def yearsFrom (date years : Int) : Int :=
  let wall := zone.wall date
  let day := LocalDay.ofNumber (wall / MILLISECONDS_PER_DAY)
  let moved : LocalDay := ⟨day.year + years, day.month, day.day⟩
  zone.utcOf (moved.number * MILLISECONDS_PER_DAY + wall % MILLISECONDS_PER_DAY)

/-- Whether a number written without its century has to be given one. -/
def personalIdentityNumberNeedsCentury (processZone : Zone) (input : String) (referenceDate : Int) :
    Bool :=
  match shapeOf input with
  | none => false
  | some groups =>
    if groups.century.isSome then false
    else
      match normalizePersonalIdentityNumber zone input referenceDate with
      | none => false
      | some reading => [-1, 1].any fun years =>
          normalizePersonalIdentityNumber zone input (yearsFrom processZone referenceDate years) ≠
            some reading

end Reading

example : normalizePersonalIdentityNumber utc " 811228-9874" 1700000000000 =
    some "198112289874" := by decide +kernel

end OpenBrf.Shared
