import OpenBrf.Fees.FeePeriod
import OpenBrf.Fees.PaymentReference
import OpenBrf.Lang
import OpenBrf.Txn.Program

/-!
# Fees.Service — rates, notification runs and their purge (`fee.service.ts`,
`fee-notification.service.ts`, `fee-lock.ts`, `fee-purge.service.ts`)

Audit entries, the finance event, the counts the purge reports and the person who recorded a row
are left out: they follow from what is written here.  A date column holds a date, compared by its
day.
-/

namespace OpenBrf.Fees

open Txn Lang Shared

inductive FeeKind where
  | ANNUAL_FEE
  | PARKING_SPACE
  | STORAGE_SPACE
  deriving DecidableEq, Repr

inductive FeeVatTreatment where
  | EXEMPT
  | RATE
  deriving DecidableEq, Repr

structure Fee where
  id : String
  apartmentId : String
  kind : FeeKind
  appliesFrom : LocalDay
  appliesUntil : Option LocalDay
  financialYearStartMonth : StartMonth
  monthlyAmount : ℕ
  vatTreatment : FeeVatTreatment
  vatRatePercent : Option Int
  createdAt : Int
  deriving DecidableEq

structure FeeNotification where
  id : String
  periodFrom : LocalDay
  periodTo : LocalDay
  dueOn : LocalDay
  financialYearStartMonth : StartMonth
  issuedAt : Int
  deriving DecidableEq

structure FeeNotice where
  notificationId : String
  apartmentId : String
  amount : ℕ
  paymentReference : String
  deriving DecidableEq

structure FeeStore where
  apartmentIds : List String := []
  /-- The financial year of the association, where there is one. -/
  association : Option StartMonth := none
  fees : List Fee := []
  notifications : List FeeNotification := []
  notices : List FeeNotice := []
  /-- Apartment and person of every residency there has been. -/
  residencies : List (String × String) := []
  /-- The persons under a legal hold or a restriction of processing. -/
  withheldPersonIds : List String := []
  deriving DecidableEq

/-- The advisory keys, and rows of the tables. -/
inductive FeeLock where
  /-- `fee-notifications` -/
  | notifications
  /-- `fee-rates:{apartmentId}:{kind}` -/
  | rates (apartmentId : String) (kind : FeeKind)
  | apartmentResidencies (apartmentId : String)
  | legalHold (personId : String)
  | feeRow (id : String)
  | notificationRow (id : String)
  | associationRow
  deriving DecidableEq, Repr

inductive FeeReason where
  | notFound
  | apartmentNotFound
  | dateNotACalendarDate
  | amountNotASum
  | amountNotPositive
  | vatRateNotApplicable
  | vatRateRequired
  | vatRateOutOfRange
  | periodAlreadyNotified
  | feeAlreadyRecordedLater
  | feeAlreadyInForce
  | feeNotified
  | periodNotWholeMonths
  | dueBeforePeriod
  | periodTooLong
  | periodPastRetention
  | periodAlreadyIssued
  | periodOverlapsARun
  | paymentReferenceReused
  | nothingToBill
  | tooManyNotices
  | amountTooLarge
  deriving DecidableEq, Repr

inductive FeeFailure where
  | feeError (message : String) (reason : FeeReason)
  | settingsError (message : String)
  /-- An update or a delete of a row that is gone. -/
  | notFound
  | uniqueKey
  deriving DecidableEq, Repr

abbrev FeeTx (α : Type) := Prog FeeStore FeeLock String FeeFailure α

def refuse {α : Type} (message : String) (reason : FeeReason) : FeeTx α :=
  fail (.feeError message reason)

/-! ### What is stated -/

/-- A date the board stated, read as a calendar day. -/
def readDate (text : String) : FeeTx LocalDay :=
  match parseLocalDay text with
  | none => refuse "That is not a calendar date." .dateNotACalendarDate
  | some day => pure day

/-- Up to twelve digits, and up to two more behind a point, as whole ore. -/
def oreOfStated (amount : String) : Option ℕ :=
  let whole := amount.toList.takeWhile (· ≠ '.')
  let fraction := (amount.toList.dropWhile (· ≠ '.')).drop 1
  if whole ≠ [] ∧ whole.length ≤ 12 ∧ whole.all Char.isDigit ∧ fraction.length ≤ 2 ∧
      fraction.all Char.isDigit ∧ (fraction = [] → '.' ∉ amount.toList) then
    some (numberOf (whole ++ (fraction ++ ['0', '0']).take 2))
  else none

/-- An amount the board stated, as the column holds it. -/
def readAmount (amount : String) : FeeTx ℕ :=
  match oreOfStated amount with
  | none => refuse "That is not a sum of kronor and ore." .amountNotASum
  | some 0 => refuse "A fee is a positive amount." .amountNotPositive
  | some ore => pure ore

/-- The rate belongs to the treatment that has one. -/
def readVatRate (treatment : FeeVatTreatment) (vatRatePercent : Option Int) :
    FeeTx (Option Int) :=
  match treatment, vatRatePercent with
  | .EXEMPT, some _ => refuse "An exempt fee carries no rate." .vatRateNotApplicable
  | .EXEMPT, none => pure none
  | .RATE, none => refuse "A fee carrying value added tax states its rate." .vatRateRequired
  | .RATE, some percent =>
    if percent < 1 ∨ 100 < percent then
      refuse "That is not a whole percentage." .vatRateOutOfRange
    else pure (some percent)

/-! ### Locks -/

def lockFeeRates (apartmentId : String) (kind : FeeKind) : FeeTx Unit :=
  acquire (.rates apartmentId kind) .exclusive

def lockFeeNotifications : FeeTx Unit := acquire .notifications .exclusive

/-- The clock, read by somebody who holds `lockFeeNotifications`. -/
def lockedNow : FeeTx Int := readClock

/-- The month the association's financial year begins in now. -/
def financialYearStartMonthInForce : FeeTx StartMonth := do
  let s ← snapshot
  return s.association.getD CALENDAR_YEAR_START_MONTH

/-! ### Rates -/

structure RecordFeeInput where
  apartmentId : String
  kind : FeeKind
  appliesFrom : String
  monthlyAmount : String
  vatTreatment : FeeVatTreatment
  vatRatePercent : Option Int
  deriving DecidableEq, Repr

/-- The rates of an apartment and a kind. -/
def ratesOf (s : FeeStore) (apartmentId : String) (kind : FeeKind) : List Fee :=
  s.fees.filter fun fee => fee.apartmentId = apartmentId ∧ fee.kind = kind

/-- Whether a run billed an apartment. -/
def bills (s : FeeStore) (run : FeeNotification) (apartmentId : String) : Bool :=
  s.notices.any fun notice => notice.notificationId = run.id && notice.apartmentId = apartmentId

/-- A rate that ends the day before the next one begins. -/
def Fee.endedBefore (appliesFrom : LocalDay) (startMonth : StartMonth) (fee : Fee) : Fee :=
  { fee with
    appliesUntil := some (addLocalDays appliesFrom (-1))
    financialYearStartMonth := startMonth }

def closeFee (id : String) (appliesFrom : LocalDay) (startMonth : StartMonth) (s : FeeStore) :
    FeeStore :=
  { s with fees := s.fees.map fun fee =>
      if fee.id = id then fee.endedBefore appliesFrom startMonth else fee }

/-- The open rate of an apartment and a kind. -/
def standingRate (s : FeeStore) (apartmentId : String) (kind : FeeKind) : Option Fee :=
  (ratesOf s apartmentId kind).find? fun fee => fee.appliesUntil = none

/-- Closes the rate that stands, where one does. -/
def closeStanding (apartmentId : String) (kind : FeeKind) (appliesFrom : LocalDay)
    (startMonth : StartMonth) : FeeTx Unit := do
  let s ← snapshot
  match standingRate s apartmentId kind with
  | none => pure ()
  | some standing =>
    let updated ← updateRow (.feeRow standing.id) (fun s => s.fees.any (·.id = standing.id))
      (closeFee standing.id appliesFrom startMonth)
    refuseIf (updated = false) .notFound

/-- Records a rate, closing the one it replaces. -/
def record (input : RecordFeeInput) : FeeTx Fee := do
  let appliesFrom ← readDate input.appliesFrom
  let monthlyAmount ← readAmount input.monthlyAmount
  let vatRatePercent ← readVatRate input.vatTreatment input.vatRatePercent
  let s ← snapshot
  refuseIf (input.apartmentId ∉ s.apartmentIds) (.feeError "No such apartment." .apartmentNotFound)
  transaction do
    lockFeeNotifications
    lockFeeRates input.apartmentId input.kind
    let s ← snapshot
    refuseIf (∃ run ∈ s.notifications,
        (firstMonthBilled appliesFrom).number ≤ run.periodTo.number ∧
          bills s run input.apartmentId)
      (.feeError "A notification run has already billed that apartment from that day."
        .periodAlreadyNotified)
    let s ← snapshot
    refuseIf (∃ fee ∈ ratesOf s input.apartmentId input.kind,
        appliesFrom.number ≤ fee.appliesFrom.number)
      (.feeError "A later fee of this kind is already recorded for that apartment."
        .feeAlreadyRecordedLater)
    let s ← snapshot
    refuseIf (∃ fee ∈ ratesOf s input.apartmentId input.kind,
        ∃ ended ∈ fee.appliesUntil, appliesFrom.number ≤ ended.number)
      (.feeError "A fee of this kind already applies to that apartment on that day."
        .feeAlreadyInForce)
    let financialYearStartMonth ← financialYearStartMonthInForce
    closeStanding input.apartmentId input.kind appliesFrom financialYearStartMonth
    let createdAt ← lockedNow
    let id ← fresh
    acquire (.feeRow id) .exclusive
    let s ← snapshot
    refuseIf (∃ fee ∈ s.fees, fee.id = id) .uniqueKey
    let created : Fee := ⟨id, input.apartmentId, input.kind, appliesFrom, none,
      financialYearStartMonth, monthlyAmount, input.vatTreatment, vatRatePercent, createdAt⟩
    update fun s => { s with fees := s.fees ++ [created] }
    return created

/-- Whether a run on file billed from a rate, as the removal asks it. -/
def billedFrom (s : FeeStore) (fee : Fee) : Bool :=
  let billedFrom := (firstMonthBilled fee.appliesFrom).number
  let billsAMonth := fee.appliesUntil.all fun ended => billedFrom ≤ ended.number
  billsAMonth && s.notifications.any fun run =>
    billedFrom ≤ run.periodTo.number &&
    (fee.appliesUntil.all fun ended => run.periodFrom.number ≤ ended.number) &&
    fee.createdAt ≤ run.issuedAt && bills s run fee.apartmentId

def findFee (s : FeeStore) (id : String) : Option Fee := s.fees.find? fun fee => fee.id = id

/-- A rate by its identifier, or a refusal. -/
def requireFee (id : String) : FeeTx Fee := do
  let s ← snapshot
  match findFee s id with
  | none => refuse "No such fee." .notFound
  | some fee => return fee

/-- Removes a rate recorded in error. -/
def remove (feeId : String) : FeeTx Unit :=
  transaction do
    lockFeeNotifications
    let fee ← requireFee feeId
    let s ← snapshot
    refuseIf (billedFrom s fee)
      (.feeError "That fee has already been billed and cannot be removed." .feeNotified)
    let deleted ← updateRow (.feeRow feeId) (fun s => s.fees.any (·.id = feeId))
      (fun s => { s with fees := s.fees.filter (·.id ≠ feeId) })
    refuseIf (deleted = false) .notFound

/-! ### Notification runs -/

/-- Whether a rate is in force on a day. -/
def inForceOn (day : LocalDay) (fee : Fee) : Bool :=
  fee.appliesFrom.number ≤ day.number &&
    fee.appliesUntil.all fun ended => day.number ≤ ended.number

section Runs

-- the order of the register: the house, the number of the apartment, the kind, the first day
variable (registerOrder : FeeStore → Fee → Fee → Bool)

/-- The rates that touch a period, in the order of the register. -/
def ratesTouching (s : FeeStore) (first last : LocalDay) : List Fee :=
  (s.fees.filter fun fee => fee.appliesFrom.number ≤ last.number &&
    fee.appliesUntil.all fun ended => first.number ≤ ended.number).mergeSort (registerOrder s)

/-- What a rate bills for a period, where it bills a month of it. -/
def billedFor (months : List LocalDay) (rate : Fee) : Option (String × ℕ) :=
  let billableMonths := (months.filter fun month => inForceOn month rate).length
  if billableMonths = 0 then none
  else some (rate.apartmentId, amountForMonths rate.monthlyAmount billableMonths)

/-- What each apartment owes for the period, in the order the run numbers them. -/
def amountPerApartment (s : FeeStore) (months : List LocalDay) : List (String × ℕ) :=
  match months.head?, months.getLast? with
  | some first, some last =>
    let perApartment := ((ratesTouching registerOrder s first last).filterMap
      (billedFor months)).foldl (fun entries pair => pushKey pair.1 pair.2 entries) []
    perApartment.map fun entry => (entry.1, sumAmounts entry.2)
  | _, _ => []

/-- Whether an amount fits the notice's `DECIMAL(14, 2)`: twelve whole digits. -/
def fitsAmountColumn (amount : ℕ) : Bool := amount < 10 ^ 14

structure IssueNotificationInput where
  periodFrom : String
  periodTo : String
  dueOn : String
  deriving DecidableEq, Repr

structure FeeNotificationSummary where
  notificationId : String
  periodFrom : LocalDay
  periodTo : LocalDay
  dueOn : LocalDay
  issuedOn : LocalDay
  issuedAt : Int
  notices : ℕ
  total : ℕ
  deriving DecidableEq, Repr

/-- A period the board stated, bounded to whole calendar months. -/
def readPeriod (periodFrom periodTo : String) : FeeTx (LocalDay × LocalDay) := do
  let start ← readDate periodFrom
  let last ← readDate periodTo
  refuseIf (isWholeMonths start last = false) (.feeError
    "A period runs from the first of a month to the last of one." .periodNotWholeMonths)
  return (start, last)

/-- Refuses a period that is issued already, in whole or in part. -/
def refuseClash (first last : LocalDay) : FeeTx Unit := do
  let s ← snapshot
  match s.notifications.find? fun run =>
      run.periodFrom.number ≤ last.number ∧ first.number ≤ run.periodTo.number with
  | none => pure ()
  | some clash =>
    if clash.periodFrom = first ∧ clash.periodTo = last then
      refuse "That period has already been issued." .periodAlreadyIssued
    else refuse "That period overlaps one already issued." .periodOverlapsARun

/-- The notices of a run, numbered in the order of the amounts. -/
def noticesOf (notificationId : String) (periodFrom : LocalDay) (amounts : List (String × ℕ)) :
    List FeeNotice :=
  amounts.zipIdx.map fun billed =>
    ⟨notificationId, billed.1.1, billed.1.2, paymentReferenceFor periodFrom (billed.2 + 1)⟩

/-- The run and its notices. -/
def insertRun (run : FeeNotification) (notices : List FeeNotice) : FeeTx Unit := do
  acquire (.notificationRow run.id) .exclusive
  let s ← snapshot
  refuseIf (∃ other ∈ s.notifications, other.id = run.id) .uniqueKey
  let s ← snapshot
  refuseIf (∃ notice ∈ notices, ∃ other ∈ s.notices,
    other.paymentReference = notice.paymentReference) .uniqueKey
  update fun s => { s with
    notifications := s.notifications ++ [run]
    notices := s.notices ++ notices }

/-- Issues the period's notices, in one transaction. -/
def issue (zone : Zone) (input : IssueNotificationInput) : FeeTx FeeNotificationSummary := do
  let period ← readPeriod input.periodFrom input.periodTo
  let dueOn ← readDate input.dueOn
  refuseIf (compareLocalDays dueOn period.1 < 0) (.feeError
    "The due date cannot fall before the period it bills." .dueBeforePeriod)
  let months := monthsIn period.1 period.2
  refuseIf (MAX_MONTHS_PER_PERIOD < months.length) (.feeError
    "A period bills at most 18 months." .periodTooLong)
  transaction do
    lockFeeNotifications
    let financialYearStartMonth ← financialYearStartMonthInForce
    let now ← readClock
    refuseIf (period.2.number < (feePurgeCutoff zone now financialYearStartMonth).number) (.feeError
      "That period is older than the association keeps fee notices for." .periodPastRetention)
    refuseClash period.1 period.2
    let s ← snapshot
    refuseIf (∃ notice ∈ s.notices, openingOf period.1 <+: notice.paymentReference.toList)
      (.feeError ("A run opening in the same month of another century already holds these " ++
        "payment references.") .paymentReferenceReused)
    let s ← snapshot
    let amounts := amountPerApartment registerOrder s months
    refuseIf (amounts = []) (.feeError "No apartment has a fee in force for that period."
      .nothingToBill)
    refuseIf (MAX_NOTICES_PER_RUN < amounts.length) (.feeError
      "A run carries at most 9999 notices." .tooManyNotices)
    refuseIf (∃ billed ∈ amounts, fitsAmountColumn billed.2 = false) (.feeError
      "A notice would bill more than an amount can hold." .amountTooLarge)
    let issuedAt ← lockedNow
    let id ← fresh
    let run : FeeNotification :=
      ⟨id, period.1, period.2, dueOn, financialYearStartMonth, issuedAt⟩
    insertRun run (noticesOf id period.1 amounts)
    return ⟨id, period.1, period.2, dueOn, dateOf zone issuedAt, issuedAt, amounts.length,
      sumAmounts (amounts.map (·.2))⟩

end Runs

/-! ### The purge -/

section Purge

variable (zone : Zone)

/-- Whether a row stamped with a month and dated on a day has outlived its preservation. -/
def fallenOut (now : Int) (startMonth : StartMonth) (day : LocalDay) : Bool :=
  day.number < (feePurgeCutoff zone now startMonth).number

def rateFallenOut (now : Int) (fee : Fee) : Bool :=
  fee.appliesUntil.any (fallenOut zone now fee.financialYearStartMonth)

def runFallenOut (now : Int) (run : FeeNotification) : Bool :=
  fallenOut zone now run.financialYearStartMonth run.periodTo

/-- A notice is judged by its run. -/
def noticeFallenOut (now : Int) (s : FeeStore) (notice : FeeNotice) : Bool :=
  s.notifications.any fun run => run.id = notice.notificationId && runFallenOut zone now run

def residentsOf (s : FeeStore) (apartmentId : String) : List String :=
  ((s.residencies.filter fun residency => residency.1 = apartmentId).map (·.2)).dedup

def heldApartmentIds (s : FeeStore) : List String :=
  (s.residencies.filter fun residency => residency.2 ∈ s.withheldPersonIds).map (·.1)

def MAX_APARTMENTS_PER_RUN : ℕ := 500

/-- The first of the apartments a scan finds rows of, a held one left out. -/
def scanned (s : FeeStore) (apartmentIds : List String) : List String :=
  ((apartmentIds.filter (· ∉ heldApartmentIds s)).dedup.mergeSort
    fun a b => decide (a ≤ b)).take MAX_APARTMENTS_PER_RUN

/-- The apartments holding at least one row whose retention has run out. -/
def eligible (now : Int) (s : FeeStore) : List String :=
  (scanned s ((s.fees.filter (rateFallenOut zone now)).map (·.apartmentId)) ++
    scanned s ((s.notices.filter (noticeFallenOut zone now s)).map (·.apartmentId))).dedup.mergeSort
      fun a b => decide (a ≤ b)

/-- Erases the notices of an apartment whose retention has run out. -/
def eraseNotices (apartmentId : String) (now : Int) (s : FeeStore) : FeeStore :=
  { s with notices := s.notices.filter fun notice =>
      ¬ (notice.apartmentId = apartmentId ∧ noticeFallenOut zone now s notice) }

def eraseRates (apartmentId : String) (now : Int) (s : FeeStore) : FeeStore :=
  { s with fees := s.fees.filter fun fee =>
      ¬ (fee.apartmentId = apartmentId ∧ rateFallenOut zone now fee) }

/-- Erases one apartment's expired rows. -/
def purgeApartment (apartmentId : String) (now : Int) : FeeTx Unit :=
  transaction do
    acquire (.apartmentResidencies apartmentId) .exclusive
    let s ← snapshot
    let holdOn := residentsOf s apartmentId
    (holdOn.mergeSort fun a b => decide (a ≤ b)).forM fun personId =>
      acquire (.legalHold personId) .exclusive
    let s ← snapshot
    onlyIf (∀ personId ∈ holdOn, personId ∉ s.withheldPersonIds) do
      update (eraseNotices zone apartmentId now)
      update (eraseRates zone apartmentId now)

/-- Erases the runs nothing is left of. -/
def eraseEmptyRuns (now : Int) (s : FeeStore) : FeeStore :=
  { s with notifications := s.notifications.filter fun run =>
      ¬ (runFallenOut zone now run ∧ ∀ notice ∈ s.notices, notice.notificationId ≠ run.id) }

def purgeEmptyRuns (now : Int) : FeeTx Unit := transaction (update (eraseEmptyRuns zone now))

/-- Erases every fee and notice past its purge date, apartment by apartment, then the runs nothing
is left of (`run`). -/
def purge : FeeTx Unit := do
  let now ← readClock
  let s ← snapshot
  (eligible zone now s).forM fun apartmentId => purgeApartment zone apartmentId now
  purgeEmptyRuns zone now

end Purge

/-- Records the association's financial year (`updateFinances`).  The giro numbers are left out. -/
def updateFinances (financialYearStartMonth : Int) : FeeTx Unit := do
  let s ← snapshot
  refuseIf (s.association = none) .notFound
  if h : 1 ≤ financialYearStartMonth ∧ financialYearStartMonth ≤ 12 then
    transaction do
      acquire .associationRow .exclusive
      update fun s => { s with association := s.association.map fun _ =>
        ⟨financialYearStartMonth, h⟩ }
  else fail (.settingsError "A financial year begins in a month of the year.")

end OpenBrf.Fees
