import Mathlib.Data.List.Defs
import OpenBrf.Async.Process

/-!
# PendingChanges.Queue — a call held until its proposer confirms it

The queue of pending changes (`pending-change.service.ts`), its nightly sweep
(`pending-change-sweep.ts`) and what a confirmation makes of the action's answer (`action.error.ts`).
The log stands for the audit log, with the claims, the hand-overs and the answers of the actions
among its entries in the order they happen; a claim is named by how much of the log is before it.
A transaction that locks what it decides on takes effect where it commits, and its answer may be
lost.  Times are in milliseconds.
-/

namespace OpenBrf.PendingChanges

open Async

inductive AuditChannel where
  | WEB
  | MCP
  | AI
  | SYSTEM
  | PLUGIN
  | MANAGEMENT
  | SUPPORT
  deriving DecidableEq, Repr

inductive ActionChannel where
  | web
  | mcp
  | ai
  | system
  | plugin
  deriving DecidableEq, Repr

def CHANNELS : ActionChannel → AuditChannel
  | .web => .WEB
  | .mcp => .MCP
  | .ai => .AI
  | .system => .SYSTEM
  | .plugin => .PLUGIN

/-- None for a channel that no action arrives through. -/
def actionChannelOf (channel : AuditChannel) : Option ActionChannel :=
  [.web, .mcp, .ai, .system, .plugin].find? fun key => CHANNELS key = channel

/-! ### What an action was called with -/

/-- A JSON value; an object's entries stand in the order they are read. -/
inductive Json where
  | null
  | bool (value : Bool)
  | number (digits : String)
  | string (text : String)
  | array (items : List Json)
  | object (entries : List (String × Json))

inductive PathStep where
  | index (position : ℕ)
  | key (name : String)
  deriving DecidableEq, Repr

section Walk

variable (carriesNumber : String → Bool)

mutual

/-- The paths to the texts that carry a personal identity number. -/
def walk (path : List PathStep) : Json → List (List PathStep)
  | .string text => if carriesNumber text then [path] else []
  | .array items => walkItems path 0 items
  | .object entries => walkEntries path entries
  | .null => []
  | .bool _ => []
  | .number _ => []

def walkItems (path : List PathStep) (index : ℕ) : List Json → List (List PathStep)
  | [] => []
  | item :: items => walk (path ++ [.index index]) item ++ walkItems path (index + 1) items

def walkEntries (path : List PathStep) : List (String × Json) → List (List PathStep)
  | [] => []
  | (key, item) :: entries => walk (path ++ [.key key]) item ++ walkEntries path entries

end

end Walk

/-! ### How an action fails -/

inductive ActionErrorReason where
  | unknownAction
  | forbiddenCapability
  | forbiddenSurface
  | insufficientScope
  | notServing
  | readOnly
  | confirmationRequired
  | outputInvalid
  | rateLimited
  | internal
  deriving DecidableEq, Repr

/-- One link of what was thrown and what caused it. -/
inductive Cause where
  | actionError (reason : ActionErrorReason)
  /-- What `host.actions.invoke` rejects with, of kind `registry`. -/
  | registryRefusal (reason : ActionErrorReason)
  /-- Anything else with a reason and a status. -/
  | domainError (reason : String)
  | failure
  deriving DecidableEq, Repr

/-- What was thrown first, then what caused it, as far as the links do not come back. -/
abbrev Thrown := List Cause

def Cause.failed : Cause → Option ActionErrorReason
  | .actionError reason => some reason
  | .registryRefusal reason => some reason
  | .domainError _ => none
  | .failure => none

def isDomainError (thrown : Thrown) : Bool :=
  match thrown with
  | [] => false
  | cause :: _ => cause != .failure

/-- The registry failure that a failed call ended in. -/
def dispatchFailure (thrown : Thrown) : Option ActionErrorReason :=
  (thrown.filterMap Cause.failed).find? fun reason =>
    reason = .internal ∨ reason = .outputInvalid

def isRefusal (thrown : Thrown) : Bool :=
  dispatchFailure thrown = none && isDomainError thrown

def failureOf (thrown : Thrown) : ActionErrorReason := (dispatchFailure thrown).getD .internal

/-- What a handler did. -/
inductive Handled where
  /-- It returned, and its output is what its schema takes or is not. -/
  | returned (valid : Bool)
  | threw (thrown : Thrown)
  deriving DecidableEq

/-- What the registry hands on: a refusal as it is, and anything else as a failure of its own. -/
def Handled.answer : Handled → Except Thrown Unit
  | .returned true => .ok ()
  | .returned false => .error [.actionError .outputInvalid]
  | .threw thrown => .error (if isDomainError thrown then thrown else [.actionError .internal])

/-- What a hand-over came to. -/
inductive Outcome where
  | done
  | refused
  | failed (reason : ActionErrorReason)
  deriving DecidableEq, Repr

def outcomeOf : Except Thrown Unit → Outcome
  | .ok () => .done
  | .error thrown => if isRefusal thrown then .refused else .failed (failureOf thrown)

/-! ### The table -/

def PENDING_CHANGE_LIFETIME_MS : Int := 7 * 24 * 60 * 60 * 1000

structure PendingChange where
  id : String
  actionName : String
  input : Json
  proposedByPersonId : String
  channel : AuditChannel
  proposedAt : Int
  expiresAt : Int
  dispatchedAt : Option Int

/-- What happens to a change. -/
inductive Act where
  /-- `PENDING_CHANGE_PROPOSED`, and whether its action takes a personal identity number. -/
  | proposed (row : PendingChange) (takesNumber : Bool)
  /-- A confirmation stamps it. -/
  | claimed (token : ℕ) (personId : String) (dispatchedAt : Int)
  /-- Its action is called. -/
  | handedOver (token : ℕ) (actionName : String) (input : Json)
  /-- Its action has answered. -/
  | answered (token : ℕ) (outcome : Outcome)
  /-- The stamp is taken back. -/
  | released (token : ℕ)
  /-- `PENDING_CHANGE_CONFIRMED` -/
  | confirmed (personId : String) (failure : Option ActionErrorReason)
  /-- `PENDING_CHANGE_REJECTED`, and the moment it was judged at. -/
  | rejected (personId : String) (now : Int)
  /-- `PENDING_CHANGE_EXPIRED`, and the moment it was judged at. -/
  | expired (now : Int) (dispatched : Bool)

structure Entry where
  id : String
  act : Act

structure PendingStore where
  rows : List PendingChange := []
  /-- The newest entry first. -/
  log : List Entry := []

namespace PendingStore

def record (s : PendingStore) (id : String) (act : Act) : PendingStore :=
  { s with log := ⟨id, act⟩ :: s.log }

@[simp] theorem record_rows (s : PendingStore) (id : String) (act : Act) :
    (s.record id act).rows = s.rows := rfl

@[simp] theorem record_log (s : PendingStore) (id : String) (act : Act) :
    (s.record id act).log = ⟨id, act⟩ :: s.log := rfl

/-- Deletes the rows with the identifiers. -/
def deleteMany (s : PendingStore) (ids : List String) : PendingStore :=
  { s with rows := s.rows.filter fun row => row.id ∉ ids }

end PendingStore

/-- The changes still waiting for a person. -/
def waitingFor (personId : String) (now : Int) (row : PendingChange) : Bool :=
  row.proposedByPersonId = personId && decide (now < row.expiresAt) && row.dispatchedAt = none

/-- `findFirst`, of the changes that wait for a person. -/
def PendingStore.findWaiting (s : PendingStore) (personId id : String) (now : Int) :
    Option PendingChange :=
  s.rows.find? fun row => row.id = id && waitingFor personId now row

/-! ### Statements -/

/-- What the world outside answers. -/
structure Answer where
  /-- `cuid()` -/
  id : String
  delivery : Delivery
  /-- What the registry's checks refuse a call with. -/
  refusal : Option Thrown
  handled : Handled
  /-- A legal hold or a restriction stands for the person. -/
  withheld : Bool

inductive PendingFault where
  | notFound
  | failedAfterDispatch
  | personalIdentityNumber (paths : List (List PathStep))
  | thrown (thrown : Thrown)
  | uniqueKey
  | database

abbrev PendingTx := Prog PendingStore Answer PendingFault

variable {β : Type}

/-- A statement in a transaction of its own. -/
def statement (f : Int → PendingStore → β × PendingStore) : PendingTx β :=
  transacted (fun _ => True) (·.delivery) .database f

/-- What the world outside answers, with nothing written. -/
def asked (f : Answer → β) : PendingTx β :=
  .step (fun _ _ _ => True) (fun _ s _ => s) fun _ _ a => .ret (f a)

/-- The registry's checks. -/
def registryCheck : PendingTx Unit := do
  let refusal ← asked (·.refusal)
  match refusal with
  | none => pure ()
  | some thrown => fail (.thrown thrown)

/-! ### Proposing -/

section Propose

variable (carriesNumber : String → Bool)

def propose (personId actionName : String) (takesNumber : Bool) (input : Json)
    (channel : AuditChannel) : PendingTx Unit := do
  let now ← clock
  registryCheck
  let paths := walk carriesNumber [] input
  if takesNumber = false ∧ paths ≠ [] then fail (.personalIdentityNumber paths)
  else do
    let id ← asked (·.id)
    let row : PendingChange := ⟨id, actionName, input, personId, channel, now,
      now + PENDING_CHANGE_LIFETIME_MS, none⟩
    let created ← statement fun _ s =>
      if ∃ entry ∈ s.log, entry.id = id then (false, s)
      else (true, ({ s with rows := row :: s.rows } : PendingStore).record id
        (.proposed row takesNumber))
    if created then pure () else fail .uniqueKey

end Propose

/-- The changes waiting for a person, oldest first. -/
def mine (s : PendingStore) (personId : String) (now : Int) : List PendingChange :=
  (s.rows.filter (waitingFor personId now)).mergeSort fun a b => decide (a.proposedAt ≤ b.proposedAt)

/-! ### Confirming -/

/-- Stamps a change that is still waiting, and says which claim it is. -/
def claim (personId id : String) (dispatchedAt : Int) : PendingTx (Option ℕ) :=
  statement fun _ s =>
    if (s.findWaiting personId id dispatchedAt).isSome then
      (some s.log.length, { s with
        rows := s.rows.map fun row =>
          if row.id = id ∧ waitingFor personId dispatchedAt row = true then
            { row with dispatchedAt := some dispatchedAt }
          else row
        log := ⟨id, .claimed s.log.length personId dispatchedAt⟩ :: s.log })
    else (none, s)

/-- Calls the action, which answers. -/
def handOver (id : String) (token : ℕ) (held : PendingChange) : PendingTx (Except Thrown Unit) := do
  update (·.record id (.handedOver token held.actionName held.input))
  .step (fun _ _ _ => True)
    (fun _ s a => s.record id (.answered token (outcomeOf a.handled.answer)))
    fun _ _ a => .ret a.handled.answer

/-- Lets a claimed change wait again, matched on the stamp of the claim. -/
def release (id : String) (token : ℕ) (dispatchedAt : Int) : PendingTx Unit :=
  statement fun _ s => ((), ({ s with
    rows := s.rows.map fun row =>
      if row.id = id ∧ row.dispatchedAt = some dispatchedAt then { row with dispatchedAt := none }
      else row } : PendingStore).record id (.released token))

/-- Ends a change whose action was called, and records that it was. -/
def endChange (id personId : String) (failure : Option ActionErrorReason) : PendingTx Unit :=
  statement fun _ s => ((), (s.deleteMany [id]).record id (.confirmed personId failure))

/-- What a confirmation makes of the answer. -/
def conclude (personId id : String) (dispatchedAt : Int) (token : ℕ) :
    Except Thrown Unit → PendingTx Unit
  | .ok () => do
    let ended ← (endChange id personId none).catching
    match ended with
    | .ok () => pure ()
    | .error _ => fail .failedAfterDispatch
  | .error thrown =>
    if isRefusal thrown then do
      let _ ← (release id token dispatchedAt).catching
      fail (.thrown thrown)
    else do
      let _ ← (endChange id personId (some (failureOf thrown))).catching
      fail .failedAfterDispatch

/-- Runs a held call as the person confirming it. -/
def confirm (personId id : String) : PendingTx Unit := do
  let now ← clock
  let found ← statement fun _ s => (s.findWaiting personId id now, s)
  match found.filter fun held => (actionChannelOf held.channel).isSome with
  | none => fail .notFound
  | some held => do
    registryCheck
    let dispatchedAt ← clock
    let claimed ← claim personId id dispatchedAt
    match claimed with
    | none => fail .notFound
    | some token => do
      let answer ← handOver id token held
      conclude personId id dispatchedAt token answer

/-! ### Rejecting, sweeping and purging -/

/-- Ends a pending change without running it. -/
def reject (personId id : String) : PendingTx Unit := do
  let now ← clock
  let rejected ← statement fun _ s =>
    if (s.findWaiting personId id now).isSome then
      (true, (s.deleteMany [id]).record id (.rejected personId now))
    else (false, s)
  if rejected then pure () else fail .notFound

def BATCH_SIZE : ℕ := 100

/-- What a batch deletes of a person's changes. -/
def expiredOf (s : PendingStore) (personId : String) (now : Int) : List PendingChange :=
  ((s.rows.filter fun row => row.proposedByPersonId = personId &&
    decide (row.expiresAt ≤ now)).mergeSort fun a b => decide (a.id ≤ b.id)).take BATCH_SIZE

/-- Deletes a batch of one person's expired changes, each with its entry. -/
def sweepBatch (personId : String) (now : Int) : PendingTx ℕ := do
  let withheld ← asked (·.withheld)
  if withheld then pure 0
  else do
    let expired ← statement fun _ s => (expiredOf s personId now, s)
    statement fun _ s => (expired.length, expired.foldl
      (fun s row => s.record row.id (.expired now row.dispatchedAt.isSome))
      (s.deleteMany (expired.map (·.id))))

/-- The batches of one person, for so many turns. -/
def sweepPerson (personId : String) (now : Int) : ℕ → PendingTx Unit
  | 0 => pure ()
  | turns + 1 => do
    let deleted ← sweepBatch personId now
    if deleted = BATCH_SIZE then sweepPerson personId now turns else pure ()

def sweepPersons (now : Int) (turns : ℕ) : List String → PendingTx Unit
  | [] => pure ()
  | personId :: personIds => do
    sweepPerson personId now turns
    sweepPersons now turns personIds

/-- Deletes the pending changes whose expiry has passed. -/
def sweepExpiredPendingChanges (turns : ℕ) : PendingTx Unit := do
  let now ← clock
  let proposers ← statement fun _ s =>
    (((s.rows.filter fun row => decide (row.expiresAt ≤ now)).map (·.proposedByPersonId)).dedup, s)
  sweepPersons now turns proposers

/-- What the purge of a person does to the changes they proposed. -/
def purgePerson (personId : String) : PendingTx Unit :=
  statement fun _ s => ((), { s with
    rows := s.rows.filter fun row => row.proposedByPersonId ≠ personId })

end OpenBrf.PendingChanges
