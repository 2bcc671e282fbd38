import Mathlib.Data.String.Basic
import OpenBrf.Meetings.ProxyAuthority
import OpenBrf.Registers.MembershipPeriods
import OpenBrf.Lang

/-!
# Meetings.VotingRegister — which votes there are and who is there for them (`voting-register.ts`)

The register is read from the member register, the holdings of the day and the list of those
present.  A group of the merge is told from the others by when it was made, as an object is by its
identity.
-/

namespace OpenBrf.Meetings

open Lang Shared Registers

inductive AttendanceCapacity where
  | MEMBER
  | PROXY_HOLDER
  | ASSISTANT
  deriving DecidableEq, Repr

inductive ProxyHolderGround where
  | MEMBER
  | SPOUSE_OR_COHABITANT
  | BYLAWS
  deriving DecidableEq, Repr

structure VotingRegisterAttendance where
  personId : String
  capacity : AttendanceCapacity
  withdrawnAt : Option Int
  deriving DecidableEq, Repr

/-- A tenant-ownership that a membership covered on the meeting day. -/
structure VotingRegisterHolding where
  personId : String
  apartmentId : String
  deriving DecidableEq, Repr

structure VotingRegisterProxyAuthorisation where
  memberPersonId : String
  proxyHolderPersonId : String
  ground : ProxyHolderGround
  authorisedOn : Int
  withdrawnAt : Option Int
  deriving DecidableEq, Repr

/-- A proxy holder present, and the member whose authority they hold. -/
structure VotingRegisterProxyHolder where
  personId : String
  memberPersonId : String
  deriving DecidableEq, Repr

/-- One vote, and who holds and exercises it. -/
structure VotingRegisterLine where
  memberPersonIds : List String
  apartmentIds : List String
  jointlyHeld : Bool
  presentMemberPersonIds : List String
  proxyHolders : List VotingRegisterProxyHolder
  votePresent : Bool
  deriving DecidableEq, Repr

@[ext]
structure VotingRegister where
  lines : List VotingRegisterLine
  votesTotal : ℕ
  votesPresent : ℕ
  assistantsPresent : ℕ
  presentWithoutMembership : List String
  proxyHoldersWithoutVote : List String
  storageOnlyVoteLimited : Bool
  deriving DecidableEq, Repr

section Reading

variable {Row : Type} [RegisterRow Row]

structure VotingRegisterInput (Row : Type) where
  events : List (ResolvedRegisterEvent Row)
  meetingDay : Int
  holdings : List VotingRegisterHolding
  attendances : List VotingRegisterAttendance
  proxyAuthorisations : List VotingRegisterProxyAuthorisation
  storageOnlyVoteLimited : Bool

/-- Strings in their order, as `sort` puts them. -/
def sorted (ids : List String) : List String := ids.insertionSort (· ≤ ·)

/-! ### Members -/

/-- A membership on the meeting day, with the apartments it covered. -/
structure MembershipOnTheDay where
  personId : String
  apartmentIds : List String
  deriving DecidableEq, Repr

/-- Whether a period covers the meeting day; the exit day itself is not a day of membership. -/
def coversDay (meetingDay : LocalDay) (period : MembershipPeriod Row) : Bool :=
  (period.entry.all fun entry =>
    compareLocalDays (.ofNumber entry.eventOn) meetingDay ≤ 0) &&
  period.exit.all fun exit => 0 < compareLocalDays (.ofNumber exit.eventOn) meetingDay

/-- The apartments each person holds. -/
def heldByPerson (holdings : List VotingRegisterHolding) : List (String × List String) :=
  holdings.foldl (fun held holding =>
    setKey holding.personId (addTo holding.apartmentId ((getKey holding.personId held).getD []))
      held) []

/-- Who was a member on the meeting day, and which tenant-ownerships they held. -/
def membersOn (events : List (ResolvedRegisterEvent Row)) (meetingDay : LocalDay)
    (holdings : List VotingRegisterHolding) : List MembershipOnTheDay :=
  let byPerson := events.foldl (fun byPerson event => pushKey event.personId event byPerson) []
  byPerson.filterMap fun (personId, personEvents) =>
    if (membershipPeriods personEvents).any (coversDay meetingDay) then
      some ⟨personId, (getKey personId (heldByPerson holdings)).getD []⟩
    else none

/-! ### Joint holdings -/

/-- Memberships that share one vote. -/
structure VotingGroup where
  made : ℕ
  personIds : List String
  apartmentIds : List String
  deriving DecidableEq, Repr

structure Merging where
  groupOfApartment : List (String × VotingGroup) := []
  groups : List VotingGroup := []
  made : ℕ := 0

/-- The groups that claim one of the apartments, each once. -/
def joinedGroups (groupOfApartment : List (String × VotingGroup)) (apartmentIds : List String) :
    List VotingGroup :=
  apartmentIds.foldl (fun joined apartmentId =>
    match getKey apartmentId groupOfApartment with
    | none => joined
    | some existing =>
      if existing.made ∈ joined.map (·.made) then joined else joined ++ [existing]) []

/-- A membership's own group, with those it joins pulled into it. -/
def mergedGroup (made : ℕ) (member : MembershipOnTheDay) (joined : List VotingGroup) : VotingGroup :=
  joined.foldl (fun group other => { group with
    personIds := addAll other.personIds group.personIds
    apartmentIds := addAll other.apartmentIds group.apartmentIds })
    ⟨made, [member.personId], member.apartmentIds⟩

def mergeMember (merging : Merging) (member : MembershipOnTheDay) : Merging :=
  let joined := joinedGroups merging.groupOfApartment member.apartmentIds
  let group := mergedGroup merging.made member joined
  { groupOfApartment := group.apartmentIds.foldl (fun groupOfApartment apartmentId =>
      setKey apartmentId group groupOfApartment) merging.groupOfApartment
    groups := (merging.groups.filter fun other => other.made ∉ joined.map (·.made)) ++ [group]
    made := merging.made + 1 }

/-- Merges the memberships that hold a tenant-ownership jointly into one vote each. -/
def mergeJointHoldings (members : List MembershipOnTheDay) : List VotingGroup :=
  (members.foldl mergeMember {}).groups

/-! ### Presence -/

/-- Who is standing on the list in a capacity. -/
def presentAs (attendances : List VotingRegisterAttendance) (capacity : AttendanceCapacity) :
    List String :=
  attendances.foldl (fun present attendance =>
    if attendance.withdrawnAt = none ∧ attendance.capacity = capacity then
      addTo attendance.personId present
    else present) []

/-- Which member each standing, current authority names as its proxy holder. -/
def currentAuthorities (authorisations : List VotingRegisterProxyAuthorisation)
    (meetingDay : LocalDay) (members : List String) : List (String × String) :=
  authorisations.foldl (fun holders authorisation =>
    if authorisation.withdrawnAt ≠ none then holders
    else if ¬isProxyAuthorityCurrent (.ofNumber authorisation.authorisedOn) meetingDay then holders
    else if authorisation.ground = .MEMBER ∧ authorisation.proxyHolderPersonId ∉ members then holders
    else setKey authorisation.memberPersonId authorisation.proxyHolderPersonId holders) []

/-! ### The register -/

/-- The proxy holders present for members who are not. -/
def proxyHoldersOf (presentAs : AttendanceCapacity → List String) (standing : List (String × String))
    (memberPersonIds : List String) : List VotingRegisterProxyHolder :=
  memberPersonIds.filterMap fun memberPersonId =>
    if memberPersonId ∈ presentAs .MEMBER then none
    else match getKey memberPersonId standing with
      | none => none
      | some holder =>
        if holder ∈ presentAs .PROXY_HOLDER then some ⟨holder, memberPersonId⟩ else none

/-- The line of a group. -/
def lineOf (presentAs : AttendanceCapacity → List String) (standing : List (String × String))
    (group : VotingGroup) : VotingRegisterLine :=
  let memberPersonIds := sorted group.personIds
  let presentMemberPersonIds := memberPersonIds.filter (· ∈ presentAs .MEMBER)
  let proxyHolders := proxyHoldersOf presentAs standing memberPersonIds
  { memberPersonIds
    apartmentIds := sorted group.apartmentIds
    jointlyHeld := 1 < memberPersonIds.length
    presentMemberPersonIds
    proxyHolders
    votePresent := 0 < presentMemberPersonIds.length ∨ 0 < proxyHolders.length }

structure Drawing where
  lines : List VotingRegisterLine := []
  memberOfSomeLine : List String := []
  authorityUsed : List String := []

def drawLine (presentAs : AttendanceCapacity → List String) (standing : List (String × String))
    (drawing : Drawing) (group : VotingGroup) : Drawing :=
  let line := lineOf presentAs standing group
  { lines := drawing.lines ++ [line]
    memberOfSomeLine := addAll line.memberPersonIds drawing.memberOfSomeLine
    authorityUsed := addAll (line.proxyHolders.map (·.personId)) drawing.authorityUsed }

/-- What lines are put in order by. -/
def VotingRegisterLine.joined (line : VotingRegisterLine) : String :=
  " ".intercalate line.memberPersonIds

/-- Draws the voting register. -/
def votingRegister (input : VotingRegisterInput Row) : VotingRegister :=
  let meetingDay := LocalDay.ofNumber input.meetingDay
  let members := membersOn input.events meetingDay input.holdings
  let groups := mergeJointHoldings members
  let present := presentAs input.attendances
  let standing := currentAuthorities input.proxyAuthorisations meetingDay
    (members.map (·.personId))
  let drawing := groups.foldl (drawLine present standing) {}
  let lines := drawing.lines.insertionSort fun left right => left.joined ≤ right.joined
  { lines
    votesTotal := lines.length
    votesPresent := (lines.filter (·.votePresent)).length
    assistantsPresent := (present .ASSISTANT).length
    presentWithoutMembership :=
      sorted ((present .MEMBER).filter (· ∉ drawing.memberOfSomeLine))
    proxyHoldersWithoutVote :=
      sorted ((present .PROXY_HOLDER).filter (· ∉ drawing.authorityUsed))
    storageOnlyVoteLimited := input.storageOnlyVoteLimited }

end Reading

end OpenBrf.Meetings
