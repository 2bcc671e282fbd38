import Mathlib.Logic.Function.Basic
import Mathlib.Tactic.Common

/-!
# Plugins.ResidentRoute — the answers a plugin's resident routes have yet to give, and the calls that
wait for them (`resident-route-scope.ts`)

One plugin's handlers and its narrowed host calls on the event loop: timers that fire at any time from
the one they were set for, and the reactions of promises, run one after the other before any timer.
-/

namespace OpenBrf.Plugins

def RESIDENT_ROUTE_ANSWER_WAIT_MS : Int := 5000

def RESIDENT_ROUTE_DEADLINE_MS : Int := 4500

def RESIDENT_ROUTE_OVERRUN_MS : Int := 5000

/-- An answer a resident route's handler has yet to give, with the timers `inTime` sets for it. -/
structure PendingAnswer where
  /-- True once the handler has answered or failed, false once its deadline ran out first. -/
  given : Option Bool
  /-- When that was. -/
  givenAt : Option Int
  /-- The calls that wait for `given`, in the order they were made. -/
  reactions : List ℕ
  /-- When the handler returned a promise. -/
  awaitedFrom : Option Int
  deadline : Option Int
  overrun : Option Int
  /-- Its work has settled. -/
  settled : Bool
  deriving DecidableEq, Repr

/-- What `residentRouteOfHostCall` answers. -/
inductive Outcome where
  /-- The call is made on a resident route of the plugin's, and narrowed to it. -/
  | scope
  /-- The call goes ahead. -/
  | ahead
  | refused
  deriving DecidableEq, Repr

/-- A host call the scope narrows. -/
structure HostCall where
  madeAt : Int
  /-- The answers that were pending then. -/
  pending : List ℕ
  unanswered : ℕ
  timer : Option Int
  /-- What the promise it awaits settled as. -/
  answered : Option Bool
  outcome : Option Outcome
  deriving DecidableEq, Repr

/-- A reaction that is due to run. -/
inductive Job where
  | answerGiven (call handler : ℕ) (inTime : Bool)
  | resume (call : ℕ)
  deriving DecidableEq, Repr

structure EventLoop where
  clock : Int
  handlers : ℕ → Option PendingAnswer
  calls : ℕ → Option HostCall
  /-- `PENDING` of the plugin. -/
  pending : List ℕ
  jobs : List Job

/-- Nothing has been called. -/
def EventLoop.start (clock : Int) : EventLoop := ⟨clock, fun _ => none, fun _ => none, [], []⟩

namespace EventLoop

variable (s : EventLoop)

def setHandler (h : ℕ) (answer : PendingAnswer) : EventLoop :=
  { s with handlers := Function.update s.handlers h (some answer) }

def setCall (c : ℕ) (call : HostCall) : EventLoop :=
  { s with calls := Function.update s.calls c (some call) }

/-- `answer.give`; only the first counts. -/
def give (h : ℕ) (answer : PendingAnswer) (inTime : Bool) : EventLoop :=
  match answer.given with
  | some _ => s.setHandler h answer
  | none =>
    { s.setHandler h { answer with given := some inTime, givenAt := some s.clock, reactions := [] }
      with jobs := s.jobs ++ answer.reactions.map fun c => .answerGiven c h inTime }

/-- `answer.end`. -/
def endAnswer (h : ℕ) : EventLoop := { s with pending := s.pending.filter (· ≠ h) }

/-- `pendingAnswer`, as the handler of a resident route is called. -/
def pendingAnswer (h : ℕ) : EventLoop :=
  { s.setHandler h ⟨none, none, [], none, none, none, false⟩ with pending := s.pending ++ [h] }

/-- The promise a call awaits settles, once. -/
def resolve (c : ℕ) (call : HostCall) (answered : Bool) : EventLoop :=
  match call.answered with
  | some _ => s.setCall c call
  | none =>
    { s.setCall c { call with answered := some answered } with jobs := s.jobs ++ [.resume c] }

/-- `answer.given.then`, which reacts at once to an answer that has been given. -/
def awaitGiven (c h : ℕ) : EventLoop :=
  match s.handlers h with
  | none => s
  | some answer =>
    match answer.given with
    | some inTime => { s with jobs := s.jobs ++ [.answerGiven c h inTime] }
    | none => s.setHandler h { answer with reactions := answer.reactions ++ [c] }

/-- `residentRouteOfHostCall`, up to its first wait. -/
def residentRouteOfHostCall (c : ℕ) (onResidentRoute servesRequest : Bool) : EventLoop :=
  if onResidentRoute then s.setCall c ⟨s.clock, [], 0, none, none, some .scope⟩
  else if servesRequest then s.setCall c ⟨s.clock, [], 0, none, none, some .ahead⟩
  else if s.pending.length = 0 then s.setCall c ⟨s.clock, [], 0, none, none, some .ahead⟩
  else
    s.pending.foldl (fun s h => s.awaitGiven c h)
      (s.setCall c ⟨s.clock, s.pending, s.pending.length,
        some (s.clock + RESIDENT_ROUTE_ANSWER_WAIT_MS), none, none⟩)

/-- The reaction of a call to an answer given. -/
def answerGiven (c : ℕ) (inTime : Bool) : EventLoop :=
  match s.calls c with
  | none => s
  | some call =>
    if !inTime then s.resolve c call false
    else if call.unanswered - 1 = 0 then
      s.resolve c { call with unanswered := call.unanswered - 1 } true
    else s.setCall c { call with unanswered := call.unanswered - 1 }

/-- What follows the wait of `residentRouteOfHostCall`. -/
def resume (c : ℕ) : EventLoop :=
  match s.calls c with
  | none => s
  | some call =>
    s.setCall c { call with
      timer := none
      outcome := if call.answered = some true then some .ahead else some .refused }

end EventLoop

/-- What happens on the event loop. -/
inductive Event where
  | tick (clock : Int)
  /-- `servedOnResidentRoute` calls the handler. -/
  | callHandler (h : ℕ)
  /-- The handler returned an answer, or threw. -/
  | answerNow (h : ℕ)
  /-- The handler returned a promise. -/
  | inTime (h : ℕ)
  /-- The work of a handler that returned a promise settles. -/
  | settle (h : ℕ)
  | deadline (h : ℕ)
  | overrun (h : ℕ)
  | call (c : ℕ) (onResidentRoute servesRequest : Bool)
  | wait (c : ℕ)
  | job
  deriving DecidableEq, Repr

/-- The handler answers, or fails. -/
def Event.Answers (h : ℕ) (e : Event) : Prop := e = .answerNow h ∨ e = .settle h

/-- One event, none where it cannot happen. -/
def step (s : EventLoop) : Event → Option EventLoop
  -- reactions are run before anything waits
  | .tick clock => if s.clock ≤ clock ∧ s.jobs = [] then some { s with clock } else none
  | .callHandler h =>
    match s.handlers h with
    | none => some (s.pendingAnswer h)
    | some _ => none
  | .answerNow h =>
    match s.handlers h with
    | none => none
    | some answer =>
      if answer.awaitedFrom = none ∧ answer.settled = false then
        some ((s.give h { answer with settled := true } true).endAnswer h)
      else none
  | .inTime h =>
    match s.handlers h with
    | none => none
    | some answer =>
      if answer.awaitedFrom = none ∧ answer.settled = false then
        some (s.setHandler h { answer with
          awaitedFrom := some s.clock, deadline := some (s.clock + RESIDENT_ROUTE_DEADLINE_MS) })
      else none
  | .settle h =>
    match s.handlers h with
    | none => none
    | some answer =>
      if answer.awaitedFrom ≠ none ∧ answer.settled = false then
        some ((s.give h { answer with settled := true, deadline := none, overrun := none }
          true).endAnswer h)
      else none
  | .deadline h =>
    match s.handlers h with
    | none => none
    | some answer =>
      match answer.deadline with
      | none => none
      | some due =>
        if due ≤ s.clock ∧ s.jobs = [] then
          some (s.give h { answer with
            deadline := none, overrun := some (s.clock + RESIDENT_ROUTE_OVERRUN_MS) } false)
        else none
  | .overrun h =>
    match s.handlers h with
    | none => none
    | some answer =>
      match answer.overrun with
      | none => none
      | some due =>
        if due ≤ s.clock ∧ s.jobs = [] then
          some ((s.setHandler h { answer with overrun := none }).endAnswer h)
        else none
  | .call c onResidentRoute servesRequest =>
    match s.calls c with
    | none => some (s.residentRouteOfHostCall c onResidentRoute servesRequest)
    | some _ => none
  | .wait c =>
    match s.calls c with
    | none => none
    | some call =>
      match call.timer with
      | none => none
      | some due =>
        if due ≤ s.clock ∧ s.jobs = [] then some (s.resolve c { call with timer := none } false)
        else none
  | .job =>
    match s.jobs with
    | [] => none
    | .answerGiven c _ inTime :: jobs => some ({ s with jobs }.answerGiven c inTime)
    | .resume c :: jobs => some ({ s with jobs }.resume c)

/-- One event after the other. -/
def run : EventLoop → List Event → Option EventLoop
  | s, [] => some s
  | s, e :: es => (step s e).bind fun s' => run s' es

end OpenBrf.Plugins
