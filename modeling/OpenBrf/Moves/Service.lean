import OpenBrf.Lang
import OpenBrf.Registers.Store

/-!
# Moves.Service — moving in and moving out (`move.service.ts`)
-/

namespace OpenBrf.Moves

open Txn Registers Shared

structure EnterResidencyInput where
  actorPersonId : String
  personId : String
  apartmentId : String
  role : ResidencyRole
  movedInOn : Int
  /-- Other persons whose residencies the caller reads in this transaction. -/
  alsoLockPersonIds : List String := []
  deriving DecidableEq, Repr

structure EnterResidencyResult where
  residencyId : String
  memberRegisterEntryRecorded : Bool
  deriving DecidableEq, Repr

/-- A granted erasure request nothing has answered yet. -/
def isStanding (personId : String) (r : DataSubjectRequest) : Bool :=
  r.personId = personId && r.kind = .ERASURE && r.decision = some .GRANTED &&
    r.executedAt = none && r.closedAt = none

/-- The close of a granted erasure request the move-in has overtaken. -/
def closeForMoveIn (personId : String) (actorPersonId : Option String) : Tx Unit := do
  let s ← snapshot
  let standing := (s.dataSubjectRequests.filter (isStanding personId)).insertionSort
    fun r r' => r.requestedOn ≤ r'.requestedOn
  match standing.head? with
  | none => return
  | some request =>
    let now ← readClock
    let _closed ← updateRow (.dataSubjectRequestRow request.id)
      (fun s => s.dataSubjectRequests.any fun r => r.id = request.id && r.closedAt = none)
      (fun s => { s with
        dataSubjectRequests := s.dataSubjectRequests.map fun r =>
          if r.id = request.id ∧ r.closedAt = none then
            { r with
              closedAt := some now
              closeReason := some "moved-in"
              closedByPersonId := actorPersonId }
          else r })

/-- Ends every plugin access the person holds. -/
def endPluginAccesses (personId : String) : Tx Unit := do
  let s ← snapshot
  let held := (s.pluginAccesses.filter fun a => a.personId = personId).insertionSort
    fun a a' => a.pluginId ≤ a'.pluginId
  held.forM fun access => do
    let _ended ← updateRow (.pluginAccessRow access.id)
      (fun s => s.pluginAccesses.any fun a => a.id = access.id)
      (fun s => { s with pluginAccesses := s.pluginAccesses.filter fun a => a.id ≠ access.id })

/-- A residency the person holds on the apartment, open or ending after the new move-in date. -/
def isAlreadyResident (personId apartmentId : String) (movedInOn : Int) (r : Residency) : Bool :=
  r.personId = personId && r.apartmentId = apartmentId && r.movedOutOn.all (movedInOn < ·)

/-- Appends what a member's move owes the register; a resident's move owes it nothing. -/
def appendOwed (personId : String) :
    Option (List MemberResidencySpan) → Tx (List OwedMembershipEvent)
  | none => return []
  | some before => appendOwedMembershipEvents personId before

/-- What the person held before the change, for a member. -/
def memberResidenciesBefore (personId : String) (role : ResidencyRole) :
    Tx (Option (List MemberResidencySpan)) :=
  match role with
  | .MEMBER => do return some (← readMemberResidencies personId)
  | .RESIDENT => return none

/-- Creates a residency inside the caller's transaction, under the rules every path that moves
somebody in shares. -/
def enterResidency (input : EnterResidencyInput) : Tx EnterResidencyResult := do
  lockApartmentResidencies input.apartmentId
  lockResidencyTransitionsInOrder (input.personId :: input.alsoLockPersonIds)
  let s ← snapshot
  refuseIf (s.residencies.any
      (isAlreadyResident input.personId input.apartmentId input.movedInOn) = true)
    (.moveError "This person already has a residency on that apartment." .alreadyResident)
  -- read before the insert: the row about to be created would answer its own question
  let memberResidencies ← memberResidenciesBefore input.personId input.role
  let id ← createResidency input.personId input.apartmentId input.role input.movedInOn none
  closeForMoveIn input.personId (some input.actorPersonId)
  endPluginAccesses input.personId
  let owed ← appendOwed input.personId memberResidencies
  return ⟨id, owed.any fun event => event.eventType = .ENTRY⟩

/-! ### Transfers -/

structure TransferInput where
  transferredOn : Int
  price : Option String := none
  agreementReference : Option String := none
  deriving DecidableEq, Repr

structure RecordTransferInput extends TransferInput where
  apartmentId : String
  kind : TransferKind
  fromPersonId : Option String
  toPersonId : String

/-- A MEMBER residency of the seller on the apartment, held on the transfer day or the day
before. -/
def sellerHeld (residencies : List Residency) (personId apartmentId : String) (day : Int) : Bool :=
  residencies.any fun r => r.personId = personId && r.apartmentId = apartmentId &&
    r.role = .MEMBER && (r.span.isHeldOn day || r.span.isHeldOn (dateUTC day - 1))

def recordTransfer (input : RecordTransferInput) : Tx String := do
  refuseIf (input.kind = .GRANT ∧ input.fromPersonId ≠ none)
    (.moveError "An upplatelse has no seller." .grantHasNoSeller)
  refuseIf (input.fromPersonId = some input.toPersonId)
    (.moveError "The seller and the acquirer are the same person." .sellerIsAcquirer)
  let s ← snapshot
  refuseIf (∃ fromPersonId ∈ input.fromPersonId,
      sellerHeld s.residencies fromPersonId input.apartmentId input.transferredOn = false)
    (.moveError "The seller did not hold this apartment on the day of the transfer."
      .sellerNotTenantOwner)
  let s ← snapshot
  refuseIf (input.kind = .GRANT ∧
      ∃ t ∈ s.transfers, t.apartmentId = input.apartmentId ∧ t.kind = .GRANT)
    (.moveError "This apartment has already been granted." .alreadyGranted)
  let agreementReference := Lang.trim (input.agreementReference.getD "")
  refuseIf (agreementReference = "")
    (.moveError "A transfer needs a reference to its agreement." .transferReferenceRequired)
  let id ← fresh
  acquire (.transferRow id) .exclusive
  let s ← snapshot
  refuseIf (∃ t ∈ s.transfers, t.id = id) (.constraint "transfer_pkey")
  update fun s => { s with
    transfers := s.transfers ++ [⟨id, input.apartmentId, input.kind, input.fromPersonId,
      input.toPersonId, input.transferredOn, input.price, agreementReference⟩] }
  return id

def requirePerson (personId : String) : Tx Unit := do
  let s ← snapshot
  refuseIf (findPerson s.persons personId = none)
    (.moveError "No such person." .transferPersonNotFound)

/-! ### Moving in -/

structure MoveInTransfer extends TransferInput where
  kind : TransferKind
  fromPersonId : Option String := none
  deriving DecidableEq, Repr

structure MoveInInput where
  actorPersonId : String
  personId : String
  apartmentId : String
  role : ResidencyRole
  movedInOn : Int
  transfer : Option MoveInTransfer := none
  deriving DecidableEq, Repr

structure MoveInResult where
  residencyId : String
  memberRegisterEntryRecorded : Bool
  transferId : Option String
  deriving DecidableEq, Repr

/-- The person the apartment passes from. -/
def MoveInInput.seller (input : MoveInInput) : Option String :=
  input.transfer.bind fun transfer => transfer.fromPersonId

/-- The residency a move-in creates. -/
def MoveInInput.entering (input : MoveInInput) : EnterResidencyInput :=
  ⟨input.actorPersonId, input.personId, input.apartmentId, input.role, input.movedInOn,
    input.seller.toList⟩

def moveIn (input : MoveInInput) : Tx MoveInResult := do
  let s ← snapshot
  refuseIf (findPerson s.persons input.personId = none)
    (.moveError "No such person." .personNotFound)
  let s ← snapshot
  refuseIf (input.apartmentId ∉ s.apartmentIds)
    (.moveError "No such apartment." .apartmentNotFound)
  refuseIf (input.transfer ≠ none ∧ input.role ≠ .MEMBER)
    (.moveError "Only a tenant-owner acquires an apartment by a transfer or a grant."
      .transferWithoutTenantOwnership)
  input.seller.toList.forM requirePerson
  transaction do
    let entered ← enterResidency input.entering
    let transferIds ← input.transfer.toList.mapM fun transfer =>
      recordTransfer ⟨transfer.toTransferInput, input.apartmentId, transfer.kind,
        transfer.fromPersonId, input.personId⟩
    return ⟨entered.residencyId, entered.memberRegisterEntryRecorded, transferIds.head?⟩

/-! ### Moving out -/

structure MoveOutTransfer extends TransferInput where
  toPersonId : String
  deriving DecidableEq, Repr

structure MoveOutInput where
  actorPersonId : String
  residencyId : String
  movedOutOn : Int
  transfer : Option MoveOutTransfer := none
  deriving DecidableEq, Repr

structure MoveOutResult where
  residencyId : String
  movedOutOn : Int
  memberRegisterExitRecorded : Bool
  /-- The day the membership begins again, when this move-out also wrote that ENTRY. -/
  memberRegisterEntryOn : Option Int
  transferId : Option String
  deriving DecidableEq, Repr

def findResidency (residencies : List Residency) (id : String) : Option Residency :=
  residencies.find? fun r => r.id = id

/-- `where: { id, movedOutOn: null }`. -/
def isOpen (residencyId : String) (r : Residency) : Bool :=
  r.id = residencyId && r.movedOutOn = none

def closed (residencyId : String) (movedOutOn : Int) (r : Residency) : Residency :=
  if isOpen residencyId r then { r with movedOutOn := some movedOutOn } else r

/-- The conditional update that closes a residency still open. -/
def closeResidency (residencyId : String) (movedOutOn : Int) : Tx Bool :=
  updateRow (.residencyRow residencyId)
    (fun s => s.residencies.any (isOpen residencyId))
    (fun s => { s with residencies := s.residencies.map (closed residencyId movedOutOn) })

/-- The residency a move-out is entered on, as read before its transaction. -/
def findResidencyOrFail (residencyId : String) : Tx Residency := do
  let s ← snapshot
  match findResidency s.residencies residencyId with
  | none => fail (.moveError "No such residency." .residencyNotFound)
  | some residency => return residency

def moveOut (input : MoveOutInput) : Tx MoveOutResult := do
  let residency ← findResidencyOrFail input.residencyId
  refuseIf (residency.movedOutOn ≠ none)
    (.moveError "That residency already has a move-out date." .alreadyMovedOut)
  refuseIf (input.movedOutOn < residency.movedInOn)
    (.moveError "A move-out cannot precede the move-in." .movedOutBeforeMovedIn)
  refuseIf (input.transfer ≠ none ∧ residency.role ≠ .MEMBER)
    (.moveError "Only a tenant-owner passes an apartment on by a transfer."
      .transferWithoutTenantOwnership)
  let acquirer := input.transfer.map fun transfer => transfer.toPersonId
  acquirer.toList.forM requirePerson
  transaction do
    lockResidencyTransitionsInOrder (residency.personId :: acquirer.toList)
    let memberResidencies ← memberResidenciesBefore residency.personId residency.role
    -- conditional on the residency still being open: the check above ran before this transaction
    let claimed ← closeResidency residency.id input.movedOutOn
    refuseIf (claimed = false)
      (.moveError "That residency already has a move-out date." .alreadyMovedOut)
    let owed ← appendOwed residency.personId memberResidencies
    let transferIds ← input.transfer.toList.mapM fun transfer =>
      recordTransfer ⟨transfer.toTransferInput, residency.apartmentId, .TRANSFER,
        some residency.personId, transfer.toPersonId⟩
    return ⟨residency.id, input.movedOutOn, owed.any fun event => event.eventType = .EXIT,
      (owed.find? fun event => event.eventType = .ENTRY).map fun event => event.eventOn,
      transferIds.head?⟩

end OpenBrf.Moves
