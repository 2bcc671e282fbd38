import OpenBrf.Txn.Program
import OpenBrf.Registers.MembershipTransitions

/-!
# Registers.Store — the register's tables and the statements the services run on them
-/

namespace OpenBrf.Registers

open Txn

inductive ResidencyRole where
  | MEMBER
  | RESIDENT
  deriving DecidableEq, Repr

structure Residency where
  id : String
  personId : String
  apartmentId : String
  role : ResidencyRole
  movedInOn : Int
  /-- None while the residency is current. -/
  movedOutOn : Option Int
  deriving DecidableEq, Repr

structure Person where
  id : String
  firstName : String
  lastName : String
  postalStreet : Option String := none
  postalCode : Option String := none
  postalCity : Option String := none
  emailCipher : Option String := none
  emailIndex : Option String := none
  phoneCipher : Option String := none
  phoneIndex : Option String := none
  personalIdentityNumberCipher : Option String := none
  personalIdentityNumberIndex : Option String := none
  deriving DecidableEq, Repr

inductive TransferKind where
  | GRANT
  | TRANSFER
  deriving DecidableEq, Repr

structure Transfer where
  id : String
  apartmentId : String
  kind : TransferKind
  fromPersonId : Option String
  toPersonId : String
  transferredOn : Int
  price : Option String
  agreementReference : String
  deriving DecidableEq, Repr

inductive DataSubjectRequestKind where
  | ERASURE
  | OBJECTION
  | RESTRICTION
  deriving DecidableEq, Repr

inductive DataSubjectRequestDecision where
  | GRANTED
  | REFUSED
  deriving DecidableEq, Repr

/-- A data subject request, as much of it as a move-in reads and closes. -/
structure DataSubjectRequest where
  id : String
  personId : String
  kind : DataSubjectRequestKind
  requestedOn : Int
  decision : Option DataSubjectRequestDecision
  executedAt : Option Int
  closedAt : Option Int
  closeReason : Option String
  closedByPersonId : Option String
  deriving DecidableEq, Repr

structure PluginAccess where
  id : String
  personId : String
  pluginId : String
  deriving DecidableEq, Repr

/-- The tables the moves, the member register and the import work on. -/
structure Store where
  apartmentIds : List String := []
  persons : List Person := []
  residencies : List Residency := []
  memberRegisterEntries : List MemberRegisterArchiveRow := []
  transfers : List Transfer := []
  dataSubjectRequests : List DataSubjectRequest := []
  pluginAccesses : List PluginAccess := []

/-- What a transaction locks: the advisory keys of `residency-lock.ts`, and rows and unique keys
of the tables. -/
inductive LockKey where
  /-- `residency:{personId}` -/
  | residencyTransitions (personId : String)
  /-- `residency-apartment:{apartmentId}` -/
  | apartmentResidencies (apartmentId : String)
  | residencyRow (id : String)
  | memberRegisterEntryRow (id : String)
  | transferRow (id : String)
  | dataSubjectRequestRow (id : String)
  | pluginAccessRow (id : String)
  deriving DecidableEq, Repr

/-- `MoveReason`. -/
inductive MoveReason where
  | personNotFound
  | apartmentNotFound
  | residencyNotFound
  | transferPersonNotFound
  | alreadyResident
  | alreadyMovedOut
  | movedOutBeforeMovedIn
  | transferReferenceRequired
  | grantHasNoSeller
  | sellerIsAcquirer
  | sellerNotTenantOwner
  | transferWithoutTenantOwnership
  | alreadyGranted
  deriving DecidableEq, Repr

/-- Why a call fails. -/
inductive Failure where
  | moveError (message : String) (reason : MoveReason)
  /-- A constraint of the database. -/
  | constraint (name : String)
  /-- `throw new Error(message)`. -/
  | error (message : String)
  deriving DecidableEq, Repr

/-- A program of the service over the register. -/
abbrev Tx (α : Type) := Prog Store LockKey String Failure α

/-! ### The locks of `residency-lock.ts` -/

def lockResidencyTransitions (personId : String) : Tx Unit :=
  acquire (.residencyTransitions personId) .exclusive

/-- `[...new Set(ids)].sort()`. -/
def sortedIds (ids : List String) : List String := ids.dedup.insertionSort (· ≤ ·)

def lockResidencyTransitionsInOrder (personIds : List String) : Tx Unit :=
  (sortedIds personIds).forM lockResidencyTransitions

def lockApartmentResidencies (apartmentId : String) : Tx Unit :=
  acquire (.apartmentResidencies apartmentId) .exclusive

/-! ### Residencies -/

/-- A created row: its key must be free and the rows it refers to must exist. -/
def createResidency (personId apartmentId : String) (role : ResidencyRole) (movedInOn : Int)
    (movedOutOn : Option Int) : Tx String := do
  let id ← fresh
  acquire (.residencyRow id) .exclusive
  let s ← snapshot
  refuseIf (∃ r ∈ s.residencies, r.id = id) (.constraint "residency_pkey")
  refuseIf (¬ ∃ p ∈ s.persons, p.id = personId) (.constraint "residency_personId_fkey")
  refuseIf (apartmentId ∉ s.apartmentIds) (.constraint "residency_apartmentId_fkey")
  update fun s => { s with
    residencies := s.residencies ++ [⟨id, personId, apartmentId, role, movedInOn, movedOutOn⟩] }
  return id

/-- `orderBy: [{ movedInOn: "asc" }, { id: "asc" }]`. -/
def ByMoveIn (r r' : Residency) : Prop :=
  r.movedInOn < r'.movedInOn ∨ (r.movedInOn = r'.movedInOn ∧ r.id ≤ r'.id)

instance : DecidableRel ByMoveIn := fun r r' => by unfold ByMoveIn; infer_instance

def Residency.span (r : Residency) : MemberResidencySpan :=
  ⟨r.apartmentId, r.movedInOn, r.movedOutOn⟩

/-- A person's `MEMBER` residencies, in the order the register names them. -/
def memberResidenciesOf (residencies : List Residency) (personId : String) : List Residency :=
  (residencies.filter fun r => r.personId = personId ∧ r.role = .MEMBER).insertionSort ByMoveIn

/-- What `readMemberResidencies` returns on a table. -/
def memberSpans (residencies : List Residency) (personId : String) : List MemberResidencySpan :=
  (memberResidenciesOf residencies personId).map Residency.span

def readMemberResidencies (personId : String) : Tx (List MemberResidencySpan) := do
  let s ← snapshot
  return memberSpans s.residencies personId

/-! ### Register rows -/

/-- The row appended for an owed event, recording the person as they stand. -/
def memberRegisterRow (id : String) (createdAt : Int) (person : Person) (note : Option String)
    (event : OwedMembershipEvent) : MemberRegisterArchiveRow where
  id := id
  personId := person.id
  eventType := match event.eventType with
    | .ENTRY => .ENTRY
    | .EXIT => .EXIT
  eventOn := event.eventOn
  correctsEntryId := none
  createdAt := createdAt
  apartmentId := some event.apartmentId
  recordedFirstName := person.firstName
  recordedLastName := person.lastName
  recordedPostalStreet := person.postalStreet
  recordedPostalCode := person.postalCode
  recordedPostalCity := person.postalCity
  note := note

def createMemberRegisterEntry (person : Person) (note : Option String)
    (event : OwedMembershipEvent) : Tx Unit := do
  let id ← fresh
  let createdAt ← readClock
  acquire (.memberRegisterEntryRow id) .exclusive
  let s ← snapshot
  refuseIf (∃ e ∈ s.memberRegisterEntries, e.id = id) (.constraint "member_register_entry_pkey")
  update fun s => { s with
    memberRegisterEntries :=
      s.memberRegisterEntries ++ [memberRegisterRow id createdAt person note event] }

def findPerson (persons : List Person) (personId : String) : Option Person :=
  persons.find? fun p => p.id = personId

/-- `person.findUniqueOrThrow`. -/
def findPersonOrThrow (personId : String) : Tx Person := do
  let s ← snapshot
  match findPerson s.persons personId with
  | none => fail (.error "No Person found")
  | some person => return person

/-- What a pure function throws, thrown here. -/
def orThrow {α : Type} : Except String α → Tx α
  | .ok a => pure a
  | .error message => fail (.error message)

/-- Appends the rows a change owes the register. -/
def appendOwedMembershipEvents (personId : String) (before : List MemberResidencySpan) :
    Tx (List OwedMembershipEvent) := do
  let after ← readMemberResidencies personId
  let owed ← orThrow (owedMembershipEvents before after)
  if owed = [] then return owed
  let person ← findPersonOrThrow personId
  owed.forM (createMemberRegisterEntry person none)
  return owed

end OpenBrf.Registers
