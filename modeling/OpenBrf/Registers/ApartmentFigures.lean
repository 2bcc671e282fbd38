import OpenBrf.Decimals.Positional
import OpenBrf.Shared.StockholmCalendar

/-!
# Registers.ApartmentFigures — what a save states of an apartment (`apartment-register.service.ts`)

The figures a row states, read as the columns hold them; the columns, as they are written out; and
the comparison of the two, which is by value.
-/

namespace OpenBrf.Registers.Apartments

open Lang Shared Decimals

inductive Reason where
  | apartmentListedTwice
  | apartmentNotFound
  | apartmentSharesChanged
  | apartmentParticularsChanged
  | participationShareNotANumber
  | initialShareCapitalNotASum
  | roomCountNotACount
  | livingAreaNotAnArea
  | dateNotACalendarDate
  | dateInTheFuture
  deriving DecidableEq, Repr

structure ApartmentRegisterError where
  message : String
  reason : Reason
  deriving DecidableEq, Repr

/-- The columns two forms write. -/
inductive Field where
  | participationShare
  | initialShareCapital
  | roomCount
  | otherSpaces
  | livingArea
  | economicPlanRegisteredOn
  deriving DecidableEq, Repr

/-! ### The columns -/

/-- A value of a `DECIMAL` column, in units of its last place. -/
structure Decimal (scale : ℕ) where
  units : Int
  deriving DecidableEq, Repr

namespace Decimal

variable {scale : ℕ} (d : Decimal scale)

def value : ℚ := d.units / 10 ^ scale

/-- The digits before the point. -/
def whole : List Char := Nat.toDigits 10 (d.units.natAbs / 10 ^ scale)

/-- The digits behind it, as many as the column has. -/
def fraction : List Char := padStart scale (d.units.natAbs % 10 ^ scale)

/-- Written out with so many digits behind the point. -/
def write (fraction : List Char) : String :=
  String.ofList ((if d.units < 0 then ['-'] else []) ++ numeral d.whole fraction)

/-- `toFixed` to as many places as the column has. -/
def toFixed : String := d.write d.fraction

/-- `toFixed()`, to as many places as it needs. -/
def toPlain : String := d.write (trimZeros d.fraction)

end Decimal

/-- An apartment's row, without what neither form reads. -/
structure Apartment where
  participationShare : Option (Decimal 8)
  initialShareCapital : Option (Decimal 2)
  roomCount : Option Int
  otherSpaces : Option String
  livingArea : Option (Decimal 1)
  economicPlanRegisteredOn : Option LocalDay
  deriving DecidableEq, Repr

/-! ### Decimal strings -/

/-- `const [whole = "", fraction = ""] = value.split(".")` -/
def splitPoint (value : String) : List Char × List Char :=
  match value.toList.splitOn '.' with
  | whole :: fraction :: _ => (whole, fraction)
  | [whole] => (whole, [])
  | [] => ([], [])

/-- A decimal string with no leading or trailing zeros that change nothing. -/
def normaliseDecimal (value : String) : String :=
  String.ofList (numeral (dropZeros (splitPoint value).1) (trimZeros (splitPoint value).2))

/-- Whether two decimal strings state the same figure. -/
def sameDecimal : Option String → Option String → Bool
  | some was, some becomes => normaliseDecimal was = normaliseDecimal becomes
  | was, becomes => was = becomes

/-- From one digit to so many. -/
def isDigits (most : ℕ) (text : List Char) : Bool :=
  1 ≤ text.length && text.length ≤ most && text.all Char.isDigit

/-- `/^\d{1,whole}(\.\d{1,fraction})?$/` -/
def isDecimal (whole fraction : ℕ) (text : String) : Bool :=
  match text.toList.splitOn '.' with
  | [front] => isDigits whole front
  | [front, back] => isDigits whole front && isDigits fraction back
  | _ => false

/-- A decimal figure as its column holds it, or the refusal: blank for none, else in the column's
pattern and with what more it needs. -/
def readDecimal (whole fraction : ℕ) (needs : String → Bool) (error : ApartmentRegisterError)
    (value : Option String) : Except ApartmentRegisterError (Option String) :=
  let trimmed := trim (value.getD "")
  if trimmed = "" then .ok none
  else if !isDecimal whole fraction trimmed || !needs trimmed then .error error
  else .ok (some trimmed)

/-- A participation share as the column holds it, or the refusal. -/
def readParticipationShare : Option String → Except ApartmentRegisterError (Option String) :=
  readDecimal 4 8 (fun _ => true)
    ⟨"That is not a participation share.", .participationShareNotANumber⟩

/-- An initial share capital as the column holds it, or the refusal. -/
def readInitialShareCapital : Option String → Except ApartmentRegisterError (Option String) :=
  readDecimal 12 2 (fun _ => true)
    ⟨"That is not a sum of kronor and ore.", .initialShareCapitalNotASum⟩

/-- A living area as the column holds it, or the refusal: more than nothing. -/
def readLivingArea : Option String → Except ApartmentRegisterError (Option String) :=
  readDecimal 5 1 (fun text => text.toList.any fun c => '1' ≤ c ∧ c ≤ '9')
    ⟨"That is not an area in square metres.", .livingAreaNotAnArea⟩

/-! ### What a row states -/

/-- An apartment's two figures as a save states them, and as they are compared. -/
structure ApartmentShares where
  participationShare : Option String
  initialShareCapital : Option String
  deriving DecidableEq, Repr

/-- A row's figures read as the columns hold them, or the refusal. -/
def readShares (values : ApartmentShares) : Except ApartmentRegisterError ApartmentShares := do
  let participationShare ← readParticipationShare values.participationShare
  let initialShareCapital ← readInitialShareCapital values.initialShareCapital
  return ⟨participationShare, initialShareCapital⟩

/-- The fields of which the values are not the same. -/
def movedOf (fields : List (Field × Bool)) : List Field :=
  (fields.filter fun field => !field.2).map (·.1)

/-- The figures that differ between two readings, in the form's order. -/
def movedShares (was becomes : ApartmentShares) : List Field :=
  movedOf [
    (.participationShare, sameDecimal was.participationShare becomes.participationShare),
    (.initialShareCapital, sameDecimal was.initialShareCapital becomes.initialShareCapital)]

/-- An apartment's particulars as a save states them, and as they are compared. -/
structure ApartmentParticulars where
  roomCount : Option ℚ
  otherSpaces : Option String
  livingArea : Option String
  economicPlanRegisteredOn : Option String
  deriving DecidableEq, Repr

/-- A room count as the column holds it, or the refusal. -/
def readRoomCount : Option ℚ → Except ApartmentRegisterError (Option ℚ)
  | none => .ok none
  | some value =>
    if value.den ≠ 1 ∨ value < 0 ∨ 99 < value then
      .error ⟨"That is not a number of rooms.", .roomCountNotACount⟩
    else .ok (some value)

/-- A text, or none where it is blank. -/
def readText (value : Option String) : Option String :=
  let text := trim (value.getD "")
  if text = "" then none else some text

/-- A row's particulars read as the columns hold them, or the refusal. -/
def readParticulars (values : ApartmentParticulars) :
    Except ApartmentRegisterError ApartmentParticulars := do
  let roomCount ← readRoomCount values.roomCount
  let livingArea ← readLivingArea values.livingArea
  return ⟨roomCount, readText values.otherSpaces, livingArea,
    readText values.economicPlanRegisteredOn⟩

/-- The particulars that differ between two readings, in the form's order. -/
def movedParticulars (was becomes : ApartmentParticulars) : List Field :=
  movedOf [
    (.roomCount, was.roomCount = becomes.roomCount),
    (.otherSpaces, was.otherSpaces = becomes.otherSpaces),
    (.livingArea, sameDecimal was.livingArea becomes.livingArea),
    (.economicPlanRegisteredOn,
      was.economicPlanRegisteredOn = becomes.economicPlanRegisteredOn)]

/-! ### Dates -/

/-- `String(n).padStart(k, "0")` -/
def padded (k : ℕ) (n : Int) : List Char := (toString n).toList.leftpad k '0'

/-- "YYYY-MM-DD" -/
def formatLocalDay (day : LocalDay) : String :=
  String.ofList (padded 4 day.year ++ '-' :: padded 2 day.month ++ '-' :: padded 2 day.day)

/-- The value a statutory date column takes, or the refusal. -/
def statutoryDateColumn (zone : Zone) (now : Int) (text : String) :
    Except ApartmentRegisterError LocalDay :=
  match parseLocalDay text with
  | none => .error ⟨"That is not a calendar date.", .dateNotACalendarDate⟩
  | some day =>
    if 0 < compareLocalDays day (dateOf zone now) then
      .error ⟨"That date has not arrived yet.", .dateInTheFuture⟩
    else .ok day

/-! ### The columns as they are compared -/

/-- The shares that are recorded, written out. -/
def storedShares (before : Apartment) : ApartmentShares where
  participationShare := before.participationShare.map Decimal.toPlain
  initialShareCapital := before.initialShareCapital.map Decimal.toFixed

/-- The particulars that are recorded, written out. -/
def storedParticulars (before : Apartment) : ApartmentParticulars where
  roomCount := before.roomCount.map Int.cast
  otherSpaces := before.otherSpaces
  livingArea := before.livingArea.map Decimal.toFixed
  economicPlanRegisteredOn := before.economicPlanRegisteredOn.map formatLocalDay

/-- A decimal string as a column of so many places takes it. -/
def Decimal.ofText (scale : ℕ) (text : String) : Decimal scale :=
  let (whole, fraction) := splitPoint text
  ⟨natOf whole * 10 ^ scale + natOf fraction * 10 ^ (scale - fraction.length)⟩

/-- The columns the shares' form writes. -/
def writeShares (submitted : ApartmentShares) (a : Apartment) : Apartment :=
  { a with
    participationShare := submitted.participationShare.map (Decimal.ofText 8)
    initialShareCapital := submitted.initialShareCapital.map (Decimal.ofText 2) }

/-- The columns the particulars' form writes. -/
def writeParticulars (submitted : ApartmentParticulars) (registeredOn : Option LocalDay)
    (a : Apartment) : Apartment :=
  { a with
    roomCount := submitted.roomCount.map fun n => n.num
    otherSpaces := submitted.otherSpaces
    livingArea := submitted.livingArea.map (Decimal.ofText 1)
    economicPlanRegisteredOn := registeredOn }

end OpenBrf.Registers.Apartments
