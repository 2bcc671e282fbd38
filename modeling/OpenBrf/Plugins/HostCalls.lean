import Mathlib.Data.List.Nodup
import OpenBrf.Plugins.ResidentRoute

/-!
# Plugins.HostCalls — a call goes ahead only after the handlers it found have answered

A call counts the answers given in time down to none, each once, and a handler cut off is never
counted.  The set of pending answers is the handlers that have yet to answer and those cut off whose
work has neither settled nor overrun.
-/

namespace OpenBrf.Plugins

variable {s s' : EventLoop} {c h : ℕ} {answer : PendingAnswer} {call : HostCall}

/-! ### What an event changes -/

namespace EventLoop

@[simp] theorem setHandler_handlers (s : EventLoop) (h : ℕ) (answer : PendingAnswer) :
    (s.setHandler h answer).handlers = Function.update s.handlers h (some answer) := rfl

@[simp] theorem setHandler_calls (s : EventLoop) (h : ℕ) (answer : PendingAnswer) :
    (s.setHandler h answer).calls = s.calls := rfl

@[simp] theorem setHandler_pending (s : EventLoop) (h : ℕ) (answer : PendingAnswer) :
    (s.setHandler h answer).pending = s.pending := rfl

@[simp] theorem setHandler_jobs (s : EventLoop) (h : ℕ) (answer : PendingAnswer) :
    (s.setHandler h answer).jobs = s.jobs := rfl

@[simp] theorem setHandler_clock (s : EventLoop) (h : ℕ) (answer : PendingAnswer) :
    (s.setHandler h answer).clock = s.clock := rfl

@[simp] theorem setCall_handlers (s : EventLoop) (c : ℕ) (call : HostCall) :
    (s.setCall c call).handlers = s.handlers := rfl

@[simp] theorem setCall_calls (s : EventLoop) (c : ℕ) (call : HostCall) :
    (s.setCall c call).calls = Function.update s.calls c (some call) := rfl

@[simp] theorem setCall_pending (s : EventLoop) (c : ℕ) (call : HostCall) :
    (s.setCall c call).pending = s.pending := rfl

@[simp] theorem setCall_jobs (s : EventLoop) (c : ℕ) (call : HostCall) :
    (s.setCall c call).jobs = s.jobs := rfl

@[simp] theorem setCall_clock (s : EventLoop) (c : ℕ) (call : HostCall) :
    (s.setCall c call).clock = s.clock := rfl

@[simp] theorem endAnswer_handlers (s : EventLoop) (h : ℕ) :
    (s.endAnswer h).handlers = s.handlers := rfl

@[simp] theorem endAnswer_calls (s : EventLoop) (h : ℕ) : (s.endAnswer h).calls = s.calls := rfl

@[simp] theorem endAnswer_jobs (s : EventLoop) (h : ℕ) : (s.endAnswer h).jobs = s.jobs := rfl

@[simp] theorem endAnswer_clock (s : EventLoop) (h : ℕ) : (s.endAnswer h).clock = s.clock := rfl

theorem mem_endAnswer {k : ℕ} : k ∈ (s.endAnswer h).pending ↔ k ∈ s.pending ∧ k ≠ h := by
  unfold endAnswer
  rw [List.mem_filter, decide_eq_true_eq]

theorem give_of_given {inTime : Bool} (hgiven : answer.given ≠ none) :
    s.give h answer inTime = s.setHandler h answer := by
  unfold give
  split
  · rfl
  · next heq => exact absurd heq hgiven

theorem give_of_none {inTime : Bool} (hgiven : answer.given = none) :
    s.give h answer inTime =
      { s.setHandler h { answer with
          given := some inTime, givenAt := some s.clock, reactions := [] }
        with jobs := s.jobs ++ answer.reactions.map fun c => .answerGiven c h inTime } := by
  unfold give
  rw [hgiven]

theorem resolve_of_answered {answered : Bool} (hanswered : call.answered ≠ none) :
    s.resolve c call answered = s.setCall c call := by
  unfold resolve
  split
  · rfl
  · next heq => exact absurd heq hanswered

theorem resolve_of_none {answered : Bool} (hanswered : call.answered = none) :
    s.resolve c call answered =
      { s.setCall c { call with answered := some answered } with jobs := s.jobs ++ [.resume c] } := by
  unfold resolve
  rw [hanswered]

/-! #### The wait of a call -/

/-- A handler with one more call waiting for its answer. -/
def addReaction (c : ℕ) (answer : PendingAnswer) : PendingAnswer :=
  if answer.given = none then { answer with reactions := answer.reactions ++ [c] } else answer

/-- What a call that finds an answer given is told at once. -/
def givenNow (s : EventLoop) (c h : ℕ) : Option Job :=
  (s.handlers h).bind fun answer => answer.given.map fun inTime => .answerGiven c h inTime

theorem awaitGiven_handlers (s : EventLoop) (c h : ℕ) :
    (s.awaitGiven c h).handlers =
      Function.update s.handlers h ((s.handlers h).map (addReaction c)) := by
  unfold awaitGiven
  split
  · next hnone =>
    rw [hnone, Option.map_none, ← hnone, Function.update_eq_self]
  · next answer hanswer =>
    split
    · next inTime hgiven =>
      have hsame : addReaction c answer = answer := if_neg (by rw [hgiven]; nofun)
      rw [hanswer, Option.map_some, hsame, ← hanswer, Function.update_eq_self]
    · next hgiven =>
      have hadd : addReaction c answer = { answer with reactions := answer.reactions ++ [c] } :=
        if_pos hgiven
      rw [hanswer, Option.map_some, hadd, setHandler_handlers]

theorem awaitGiven_jobs (s : EventLoop) (c h : ℕ) :
    (s.awaitGiven c h).jobs = s.jobs ++ (s.givenNow c h).toList := by
  unfold awaitGiven givenNow
  split
  · next hnone => rw [hnone, Option.bind_none, Option.toList_none, List.append_nil]
  · next answer hanswer =>
    rw [hanswer, Option.bind_some]
    split
    · next inTime hgiven => rw [hgiven, Option.map_some, Option.toList_some]
    · next hgiven =>
      rw [hgiven, Option.map_none, Option.toList_none, List.append_nil, setHandler_jobs]

theorem awaitGiven_same (s : EventLoop) (c h : ℕ) : (s.awaitGiven c h).calls = s.calls ∧
    (s.awaitGiven c h).pending = s.pending ∧ (s.awaitGiven c h).clock = s.clock := by
  unfold awaitGiven
  split
  · exact ⟨rfl, rfl, rfl⟩
  · split
    · exact ⟨rfl, rfl, rfl⟩
    · exact ⟨rfl, rfl, rfl⟩

/-- The loop over the answers that are pending. -/
theorem foldl_awaitGiven (c : ℕ) : ∀ (hs : List ℕ) (s : EventLoop), hs.Nodup →
    let s' := hs.foldl (fun s h => s.awaitGiven c h) s
    (∀ h, s'.handlers h = if h ∈ hs then (s.handlers h).map (addReaction c) else s.handlers h) ∧
      s'.jobs = s.jobs ++ hs.flatMap (fun h => (s.givenNow c h).toList) ∧
      s'.calls = s.calls ∧ s'.pending = s.pending ∧ s'.clock = s.clock
  | [], s, _ => by simp
  | k :: hs, s, hnodup => by
    obtain ⟨hk, hrest⟩ := List.nodup_cons.mp hnodup
    obtain ⟨hhandlers, hjobs, hcalls, hpending, hclock⟩ :=
      foldl_awaitGiven c hs (s.awaitGiven c k) hrest
    obtain ⟨hcalls', hpending', hclock'⟩ := awaitGiven_same s c k
    have hother : ∀ h, h ≠ k → (s.awaitGiven c k).handlers h = s.handlers h := by
      intro h hne
      rw [awaitGiven_handlers, Function.update_of_ne hne]
    have hgiven : ∀ h ∈ hs, (s.awaitGiven c k).givenNow c h = s.givenNow c h := by
      intro h hin
      unfold givenNow
      rw [hother h fun heq => hk (heq ▸ hin)]
    refine ⟨fun h => ?_, ?_, hcalls.trans hcalls', hpending.trans hpending', hclock.trans hclock'⟩
    · rw [List.foldl_cons, hhandlers h]
      by_cases heq : h = k
      · subst heq
        rw [if_neg hk, if_pos List.mem_cons_self, awaitGiven_handlers, Function.update_self]
      · rw [hother h heq]
        simp [heq]
    · rw [List.foldl_cons, hjobs, awaitGiven_jobs, List.flatMap_cons, List.append_assoc]
      congr 2
      exact List.flatMap_congr fun h hin => congrArg Option.toList (hgiven h hin)

end EventLoop

/-! ### What holds between two events -/

open EventLoop

/-- A handler answered before its deadline ran out. -/
def GivenInTime (s : EventLoop) (h : ℕ) : Prop :=
  ∃ answer, s.handlers h = some answer ∧ answer.given = some true

/-- A call has counted a handler's answer. -/
def counted (s : EventLoop) (c h : ℕ) : Bool :=
  (s.handlers h).any (fun answer => answer.given = some true) &&
    !s.jobs.contains (.answerGiven c h true)

theorem givenInTime_of_counted (hcounted : counted s c h = true) : GivenInTime s h := by
  unfold counted at hcounted
  rw [Bool.and_eq_true, Option.any_eq_true] at hcounted
  obtain ⟨⟨answer, hanswer, hgiven⟩, -⟩ := hcounted
  exact ⟨answer, hanswer, of_decide_eq_true hgiven⟩

/-- What a handler's answer records. -/
structure AnswerSound (s : EventLoop) (h : ℕ) (answer : PendingAnswer) : Prop where
  holds : h ∈ s.pending ↔ answer.settled = false ∧ (answer.given = none ∨ answer.overrun ≠ none)
  running : answer.given = none → answer.settled = false ∧ answer.overrun = none ∧
    answer.deadline = answer.awaitedFrom.map (· + RESIDENT_ROUTE_DEADLINE_MS)
  done : answer.given ≠ none → answer.deadline = none ∧ answer.reactions = []
  inTime : answer.given = some true → answer.settled = true
  cutOff : answer.given = some false → answer.awaitedFrom ≠ none
  overrun : ∀ due ∈ answer.overrun, answer.given = some false ∧
    answer.givenAt = some (due - RESIDENT_ROUTE_OVERRUN_MS)
  nodup : answer.reactions.Nodup
  reactions : ∀ c ∈ answer.reactions, ∃ call, s.calls c = some call ∧ h ∈ call.pending

/-- What a call has counted, and what it waits for. -/
structure CallSound (s : EventLoop) (c : ℕ) (call : HostCall) : Prop where
  nodup : call.pending.Nodup
  known : ∀ h ∈ call.pending, s.handlers h ≠ none
  registered : ∀ h ∈ call.pending, ∀ answer, s.handlers h = some answer → answer.given = none →
    c ∈ answer.reactions
  count : call.unanswered = call.pending.countP fun h => !counted s c h
  answered : call.answered = some true → ∀ h ∈ call.pending, GivenInTime s h
  ahead : call.outcome = some .ahead → ∀ h ∈ call.pending, GivenInTime s h
  undecided : call.outcome = none →
    call.answered = none ∧ call.timer = some (call.madeAt + RESIDENT_ROUTE_ANSWER_WAIT_MS) ∨
      call.answered ≠ none ∧ Job.resume c ∈ s.jobs
  decided : call.outcome ≠ none → call.answered = none → call.pending = [] ∧ call.timer = none

structure Sound (s : EventLoop) : Prop where
  nodup : s.pending.Nodup
  known : ∀ h ∈ s.pending, s.handlers h ≠ none
  answers : ∀ h answer, s.handlers h = some answer → AnswerSound s h answer
  calls : ∀ c call, s.calls c = some call → CallSound s c call
  jobs : ∀ c h inTime, Job.answerGiven c h inTime ∈ s.jobs →
    (∃ call, s.calls c = some call ∧ h ∈ call.pending) ∧
      ∃ answer, s.handlers h = some answer ∧ answer.given = some inTime
  resumes : ∀ c, Job.resume c ∈ s.jobs →
    ∃ call, s.calls c = some call ∧ call.answered ≠ none ∧ call.outcome = none
  once : s.jobs.Nodup

theorem sound_start (clock : Int) : Sound (.start clock) where
  nodup := List.nodup_nil
  known := by simp [EventLoop.start]
  answers := nofun
  calls := nofun
  jobs := nofun
  resumes := nofun
  once := List.nodup_nil

theorem Sound.tick (hs : Sound s) (clock : Int) : Sound { s with clock } where
  nodup := hs.nodup
  known := hs.known
  answers h answer hanswer := { hs.answers h answer hanswer with }
  calls c call hcall := { hs.calls c call hcall with }
  jobs := hs.jobs
  resumes := hs.resumes
  once := hs.once

/-! #### What an event leaves as it was -/

/-- The handlers that are there stay, and what they have given stands. -/
def GivenStands (s s' : EventLoop) : Prop :=
  ∀ k answer, s.handlers k = some answer → ∃ answer', s'.handlers k = some answer' ∧
    ∀ inTime, answer.given = some inTime → answer'.given = some inTime

namespace GivenStands

theorem known (hstands : GivenStands s s') {k : ℕ} (hk : s.handlers k ≠ none) :
    s'.handlers k ≠ none := by
  obtain ⟨answer, hanswer⟩ := Option.ne_none_iff_exists'.mp hk
  obtain ⟨answer', hanswer', -⟩ := hstands k answer hanswer
  rw [hanswer']
  nofun

theorem inTime (hstands : GivenStands s s') {k : ℕ} (hk : GivenInTime s k) : GivenInTime s' k := by
  obtain ⟨answer, hanswer, htrue⟩ := hk
  obtain ⟨answer', hanswer', hsame⟩ := hstands k answer hanswer
  exact ⟨answer', hanswer', hsame true htrue⟩

theorem of_same (hhandlers : s'.handlers = s.handlers) : GivenStands s s' :=
  fun k answer hanswer => ⟨answer, (congrFun hhandlers k).trans hanswer, fun _ hsaid => hsaid⟩

/-- One handler changes, and not what it has given. -/
theorem of_update {answer' : PendingAnswer} (hanswer : s.handlers h = some answer)
    (hhandlers : s'.handlers = Function.update s.handlers h (some answer'))
    (hgiven : ∀ inTime, answer.given = some inTime → answer'.given = some inTime) :
    GivenStands s s' := by
  intro k answer₀ hanswer₀
  by_cases heq : k = h
  · subst heq
    obtain rfl := Option.some.inj (hanswer.symm.trans hanswer₀)
    exact ⟨answer', by rw [hhandlers, Function.update_self], hgiven⟩
  · exact ⟨answer₀, by rw [hhandlers, Function.update_of_ne heq, hanswer₀], fun _ hsaid => hsaid⟩

end GivenStands

/-- What a call has counted goes by what the handler has given and the job that says so. -/
theorem counted_congr {k : ℕ}
    (hgiven : (s'.handlers k).map (·.given) = (s.handlers k).map (·.given))
    (hjob : Job.answerGiven c k true ∈ s'.jobs ↔ Job.answerGiven c k true ∈ s.jobs) :
    counted s' c k = counted s c k := by
  have hany : ∀ handler : Option PendingAnswer,
      handler.any (fun answer => answer.given = some true) =
        (handler.map (·.given)).any (fun given => given = some true) := by
    intro handler
    cases handler <;> rfl
  have hcontains : s'.jobs.contains (.answerGiven c k true) =
      s.jobs.contains (.answerGiven c k true) := by
    rw [Bool.eq_iff_iff, List.contains_iff_mem, List.contains_iff_mem]
    exact hjob
  unfold counted
  rw [hcontains, hany, hany, hgiven]

/-- An answer that did not change, with the calls that wait for it still there. -/
theorem AnswerSound.of_same (hold : AnswerSound s h answer)
    (hpending : h ∈ s'.pending ↔ h ∈ s.pending)
    (hwaits : ∀ c ∈ answer.reactions, (∃ call, s.calls c = some call ∧ h ∈ call.pending) →
      ∃ call, s'.calls c = some call ∧ h ∈ call.pending) : AnswerSound s' h answer :=
  { hold with
    holds := hpending.trans hold.holds
    reactions := fun c hc => hwaits c hc (hold.reactions c hc) }

/-- A call that did not change, nor what it has counted. -/
theorem CallSound.of_same (hold : CallSound s c call) (hstands : GivenStands s s')
    (hregistered : ∀ k ∈ call.pending, ∀ answer, s'.handlers k = some answer → answer.given = none →
      c ∈ answer.reactions)
    (hcounted : ∀ k ∈ call.pending, counted s' c k = counted s c k)
    (hresume : Job.resume c ∈ s.jobs → Job.resume c ∈ s'.jobs) : CallSound s' c call where
  nodup := hold.nodup
  known k hk := hstands.known (hold.known k hk)
  registered := hregistered
  count := by
    rw [hold.count]
    refine List.countP_congr fun k hk => ?_
    rw [hcounted k hk]
  answered htrue k hk := hstands.inTime (hold.answered htrue k hk)
  ahead hahead k hk := hstands.inTime (hold.ahead hahead k hk)
  undecided hundecided := (hold.undecided hundecided).imp_right (And.imp_right hresume)
  decided := hold.decided

/-! #### One handler -/

/-- One handler changes, and neither what it has given nor who waits for it. -/
theorem Sound.setHandler (hs : Sound s) (answer' : PendingAnswer)
    (hanswer : s.handlers h = some answer) (hgiven : answer'.given = answer.given)
    (hreactions : answer'.reactions = answer.reactions) (hsound : AnswerSound s' h answer')
    (hhandlers : s'.handlers = Function.update s.handlers h (some answer'))
    (hcalls : s'.calls = s.calls) (hjobs : s'.jobs = s.jobs)
    (hpending : ∀ k, k ≠ h → (k ∈ s'.pending ↔ k ∈ s.pending)) (hnodup : s'.pending.Nodup) :
    Sound s' := by
  have hself : s'.handlers h = some answer' := by rw [hhandlers, Function.update_self]
  have hother : ∀ k, k ≠ h → s'.handlers k = s.handlers k := by
    intro k hne
    rw [hhandlers, Function.update_of_ne hne]
  have hstands : GivenStands s s' :=
    .of_update hanswer hhandlers fun inTime hsaid => hgiven.trans hsaid
  -- what a handler has given, and to whom it is owed, is what it was
  have hback : ∀ k answer₁, s'.handlers k = some answer₁ → ∃ answer₀, s.handlers k = some answer₀ ∧
      answer₁.given = answer₀.given ∧ answer₁.reactions = answer₀.reactions := by
    intro k answer₁ hanswer₁
    by_cases heq : k = h
    · subst heq
      obtain rfl := Option.some.inj (hself.symm.trans hanswer₁)
      exact ⟨answer, hanswer, hgiven, hreactions⟩
    · rw [hother k heq] at hanswer₁
      exact ⟨answer₁, hanswer₁, rfl, rfl⟩
  have hgivens : ∀ k, (s'.handlers k).map (·.given) = (s.handlers k).map (·.given) := by
    intro k
    by_cases heq : k = h
    · subst heq
      rw [hself, hanswer, Option.map_some, Option.map_some, hgiven]
    · rw [hother k heq]
  refine ⟨hnodup, fun k hk => ?_, fun k answer₁ hanswer₁ => ?_, fun c call hcall => ?_,
    fun c k inTime hjob => ?_, ?_, hjobs ▸ hs.once⟩
  · by_cases heq : k = h
    · subst heq
      rw [hself]
      nofun
    · exact hstands.known (hs.known k ((hpending k heq).mp hk))
  · by_cases heq : k = h
    · subst heq
      obtain rfl := Option.some.inj (hself.symm.trans hanswer₁)
      exact hsound
    · rw [hother k heq] at hanswer₁
      refine (hs.answers k answer₁ hanswer₁).of_same (hpending k heq) fun c _ hwaits => ?_
      rwa [hcalls]
  · rw [hcalls] at hcall
    have hold := hs.calls c call hcall
    refine hold.of_same hstands (fun k hk answer₁ hanswer₁ hnone => ?_)
      (fun k _ => counted_congr (hgivens k) (by rw [hjobs])) fun hresume => hjobs ▸ hresume
    obtain ⟨answer₀, hanswer₀, hsame, hwho⟩ := hback k answer₁ hanswer₁
    rw [hwho]
    exact hold.registered k hk answer₀ hanswer₀ (hsame.symm.trans hnone)
  · rw [hjobs] at hjob
    obtain ⟨hcall, answer₀, hanswer₀, hsaid⟩ := hs.jobs c k inTime hjob
    obtain ⟨answer₁, hanswer₁, hsame⟩ := hstands k answer₀ hanswer₀
    rw [hcalls]
    exact ⟨hcall, answer₁, hanswer₁, hsame inTime hsaid⟩
  · rw [hjobs, hcalls]
    exact hs.resumes

/-- A job of another handler is none of those an answer makes. -/
theorem mem_reactions {reactions : List ℕ} {inTime inTime' : Bool} {k : ℕ} :
    Job.answerGiven c k inTime' ∈ (reactions.map fun c => Job.answerGiven c h inTime) ↔
      c ∈ reactions ∧ k = h ∧ inTime' = inTime := by
  rw [List.mem_map]
  constructor
  · rintro ⟨c', hin, heq⟩
    injection heq with hc hh hinTime
    exact ⟨hc ▸ hin, hh.symm, hinTime.symm⟩
  · rintro ⟨hin, rfl, rfl⟩
    exact ⟨c, hin, rfl⟩

theorem nodup_reactions {reactions : List ℕ} (hnodup : reactions.Nodup) (inTime : Bool) :
    (reactions.map fun c => Job.answerGiven c h inTime).Nodup := by
  refine hnodup.map fun c c' heq => ?_
  injection heq

/-- A handler gives its answer, or its deadline runs out: the calls that wait for it are told. -/
structure Gave (s s' : EventLoop) (h : ℕ) (answer answer' : PendingAnswer) (inTime : Bool) :
    Prop where
  found : s.handlers h = some answer
  waited : answer.given = none
  given : answer'.given = some inTime
  handlers : s'.handlers = Function.update s.handlers h (some answer')
  calls : s'.calls = s.calls
  jobs : s'.jobs = s.jobs ++ answer.reactions.map fun c => .answerGiven c h inTime

namespace Gave

variable {answer' : PendingAnswer} {inTime : Bool} {k : ℕ}

theorem self (hg : Gave s s' h answer answer' inTime) : s'.handlers h = some answer' := by
  rw [hg.handlers, Function.update_self]

theorem other (hg : Gave s s' h answer answer' inTime) (hne : k ≠ h) :
    s'.handlers k = s.handlers k := by
  rw [hg.handlers, Function.update_of_ne hne]

theorem stands (hg : Gave s s' h answer answer' inTime) : GivenStands s s' := by
  refine .of_update hg.found hg.handlers fun inTime' hsaid => ?_
  rw [hg.waited] at hsaid
  cases hsaid

/-- Nobody has been told of the handler's answer before. -/
theorem quiet (hg : Gave s s' h answer answer' inTime) (hs : Sound s) (c : ℕ) (inTime' : Bool) :
    Job.answerGiven c h inTime' ∉ s.jobs := by
  intro hjob
  obtain ⟨-, answer₀, hanswer₀, hsaid⟩ := hs.jobs c h inTime' hjob
  obtain rfl := Option.some.inj (hg.found.symm.trans hanswer₀)
  rw [hg.waited] at hsaid
  cases hsaid

/-- A call that waits for the answer has yet to count it. -/
theorem counted (hg : Gave s s' h answer answer' inTime) (hwaits : k = h → c ∈ answer.reactions) :
    counted s' c k = Plugins.counted s c k := by
  by_cases heq : k = h
  · subst heq
    unfold Plugins.counted
    rw [hg.self, hg.found, Option.any_some, Option.any_some, hg.given, hg.waited]
    cases inTime with
    | false => rfl
    | true =>
      have hin : Job.answerGiven c k true ∈ s'.jobs := by
        rw [hg.jobs]
        exact List.mem_append_right _ (mem_reactions.mpr ⟨hwaits rfl, rfl, rfl⟩)
      rw [List.contains_iff_mem.mpr hin]
      rfl
  · refine counted_congr (by rw [hg.other heq]) ?_
    rw [hg.jobs, List.mem_append]
    exact or_iff_left fun hnew => heq (mem_reactions.mp hnew).2.1

theorem callSound (hg : Gave s s' h answer answer' inTime) (hold : CallSound s c call) :
    CallSound s' c call := by
  refine hold.of_same hg.stands (fun k hk answer₁ hanswer₁ hopen => ?_) (fun k hk => ?_)
    fun hresume => ?_
  · by_cases heq : k = h
    · subst heq
      obtain rfl := Option.some.inj (hg.self.symm.trans hanswer₁)
      rw [hg.given] at hopen
      cases hopen
    · rw [hg.other heq] at hanswer₁
      exact hold.registered k hk answer₁ hanswer₁ hopen
  · refine hg.counted fun heq => ?_
    subst heq
    exact hold.registered k hk answer hg.found hg.waited
  · rw [hg.jobs]
    exact List.mem_append_left _ hresume

/-- Whoever is told waits for the handler, and is told what it gave. -/
theorem told (hg : Gave s s' h answer answer' inTime) (hs : Sound s) {inTime' : Bool}
    (hjob : Job.answerGiven c k inTime' ∈ s'.jobs) :
    (∃ call, s'.calls c = some call ∧ k ∈ call.pending) ∧
      ∃ answer, s'.handlers k = some answer ∧ answer.given = some inTime' := by
  rw [hg.jobs, List.mem_append] at hjob
  rw [hg.calls]
  rcases hjob with hold | hnew
  · obtain ⟨hcall, answer₀, hanswer₀, hsaid⟩ := hs.jobs c k inTime' hold
    have hne : k ≠ h := fun heq => hg.quiet hs c inTime' (heq ▸ hold)
    exact ⟨hcall, answer₀, (hg.other hne).trans hanswer₀, hsaid⟩
  · obtain ⟨hin, rfl, rfl⟩ := mem_reactions.mp hnew
    exact ⟨(hs.answers k answer hg.found).reactions c hin, answer', hg.self, hg.given⟩

theorem once (hg : Gave s s' h answer answer' inTime) (hs : Sound s) : s'.jobs.Nodup := by
  rw [hg.jobs, List.nodup_append]
  refine ⟨hs.once, nodup_reactions (hs.answers h answer hg.found).nodup inTime,
    fun job hjob job' hjob' heq => ?_⟩
  obtain ⟨c, -, rfl⟩ := List.mem_map.mp hjob'
  exact hg.quiet hs c inTime (heq ▸ hjob)

end Gave

theorem Sound.give (hs : Sound s) {answer' : PendingAnswer} {inTime : Bool}
    (hg : Gave s s' h answer answer' inTime) (hsound : AnswerSound s' h answer')
    (hpending : ∀ k, k ≠ h → (k ∈ s'.pending ↔ k ∈ s.pending)) (hnodup : s'.pending.Nodup) :
    Sound s' := by
  refine ⟨hnodup, fun k hk => ?_, fun k answer₁ hanswer₁ => ?_, fun c call hcall => ?_,
    fun c k inTime' hjob => hg.told hs hjob, fun c hresume => ?_, hg.once hs⟩
  · by_cases heq : k = h
    · subst heq
      rw [hg.self]
      nofun
    · exact hg.stands.known (hs.known k ((hpending k heq).mp hk))
  · by_cases heq : k = h
    · subst heq
      obtain rfl := Option.some.inj (hg.self.symm.trans hanswer₁)
      exact hsound
    · rw [hg.other heq] at hanswer₁
      refine (hs.answers k answer₁ hanswer₁).of_same (hpending k heq) fun c _ hwaits => ?_
      rwa [hg.calls]
  · rw [hg.calls] at hcall
    exact hg.callSound (hs.calls c call hcall)
  · rw [hg.jobs, List.mem_append] at hresume
    rw [hg.calls]
    refine hs.resumes c (hresume.resolve_right fun hnew => ?_)
    obtain ⟨c', -, heq⟩ := List.mem_map.mp hnew
    cases heq

/-- The handler of a resident route is called. -/
theorem Sound.pendingAnswer (hs : Sound s) (hnew : s.handlers h = none) :
    Sound (s.pendingAnswer h) := by
  have hself : (s.pendingAnswer h).handlers h = some ⟨none, none, [], none, none, none, false⟩ :=
    Function.update_self ..
  have hother : ∀ k, k ≠ h → (s.pendingAnswer h).handlers k = s.handlers k :=
    fun k hne => Function.update_of_ne hne ..
  have hne : ∀ k, s.handlers k ≠ none → k ≠ h := by
    rintro k hk rfl
    exact hk hnew
  have hnot : h ∉ s.pending := fun hin => hs.known h hin hnew
  have hmem : ∀ k, k ∈ (s.pendingAnswer h).pending ↔ k ∈ s.pending ∨ k = h := by
    intro k
    show k ∈ s.pending ++ [h] ↔ _
    rw [List.mem_append, List.mem_singleton]
  have hstands : GivenStands s (s.pendingAnswer h) := fun k answer₀ hanswer₀ =>
    ⟨answer₀, (hother k (hne k (by rw [hanswer₀]; nofun))).trans hanswer₀, fun _ hsaid => hsaid⟩
  refine ⟨?_, fun k hk => ?_, fun k answer₁ hanswer₁ => ?_, fun c call hcall => ?_,
    fun c k inTime hjob => ?_, hs.resumes, hs.once⟩
  · show (s.pending ++ [h]).Nodup
    rw [List.nodup_append]
    exact ⟨hs.nodup, List.nodup_singleton h, fun a ha b hb => by
      rw [List.mem_singleton.mp hb]
      exact fun heq => hnot (heq ▸ ha)⟩
  · rcases (hmem k).mp hk with hold | rfl
    · exact hstands.known (hs.known k hold)
    · rw [hself]
      nofun
  · by_cases heq : k = h
    · subst heq
      obtain rfl := Option.some.inj (hself.symm.trans hanswer₁)
      refine ⟨?_, fun _ => ⟨rfl, rfl, rfl⟩, fun hdone => absurd rfl hdone, nofun, nofun, nofun,
        List.nodup_nil, nofun⟩
      rw [hmem]
      exact ⟨fun _ => ⟨rfl, .inl rfl⟩, fun _ => .inr rfl⟩
    · rw [hother k heq] at hanswer₁
      refine (hs.answers k answer₁ hanswer₁).of_same ?_ fun _ _ hwaits => hwaits
      rw [hmem, or_iff_left heq]
  · have hold := hs.calls c call hcall
    have hsame : ∀ k ∈ call.pending, (s.pendingAnswer h).handlers k = s.handlers k :=
      fun k hk => hother k (hne k (hold.known k hk))
    refine hold.of_same hstands (fun k hk answer₁ hanswer₁ => ?_)
      (fun k hk => counted_congr (by rw [hsame k hk]) Iff.rfl) id
    rw [hsame k hk] at hanswer₁
    exact hold.registered k hk answer₁ hanswer₁
  · obtain ⟨hcall, answer₀, hanswer₀, hsaid⟩ := hs.jobs c k inTime hjob
    obtain ⟨answer₁, hanswer₁, hsame⟩ := hstands k answer₀ hanswer₀
    exact ⟨hcall, answer₁, hanswer₁, hsame inTime hsaid⟩

/-! #### One call -/

/-- One call changes, and not what it waits for; at most its own jobs are gone. -/
theorem Sound.setCall (hs : Sound s) (call' : HostCall)
    (hold : ∀ call, s.calls c = some call → call'.pending = call.pending)
    (hsound : CallSound s' c call') (hcalls : s'.calls = Function.update s.calls c (some call'))
    (hhandlers : s'.handlers = s.handlers) (hpending : s'.pending = s.pending)
    (honce : s'.jobs.Nodup) (hback : ∀ job ∈ s'.jobs, job ≠ .resume c → job ∈ s.jobs)
    (hsame : ∀ c', c' ≠ c → ∀ job ∈ s.jobs,
      job = .resume c' ∨ (∃ k inTime, job = .answerGiven c' k inTime) → job ∈ s'.jobs)
    (hresumes : Job.resume c ∈ s'.jobs → call'.answered ≠ none ∧ call'.outcome = none) :
    Sound s' := by
  have hself : s'.calls c = some call' := by rw [hcalls, Function.update_self]
  have hother : ∀ c', c' ≠ c → s'.calls c' = s.calls c' := by
    intro c' hne
    rw [hcalls, Function.update_of_ne hne]
  have hwaits : ∀ c' k, (∃ call, s.calls c' = some call ∧ k ∈ call.pending) →
      ∃ call, s'.calls c' = some call ∧ k ∈ call.pending := by
    rintro c' k ⟨call, hcall, hk⟩
    by_cases heq : c' = c
    · subst heq
      exact ⟨call', hself, hold call hcall ▸ hk⟩
    · exact ⟨call, (hother c' heq).trans hcall, hk⟩
  have hjob : ∀ c k inTime, Job.answerGiven c k inTime ∈ s'.jobs →
      Job.answerGiven c k inTime ∈ s.jobs := fun c k inTime hin => hback _ hin nofun
  refine ⟨hpending ▸ hs.nodup, fun k hk => ?_, fun k answer₁ hanswer₁ => ?_,
    fun c' call hcall => ?_, fun c' k inTime hin => ?_, fun c' hresume => ?_, honce⟩
  · rw [hhandlers]
    exact hs.known k (hpending ▸ hk)
  · rw [hhandlers] at hanswer₁
    exact (hs.answers k answer₁ hanswer₁).of_same (by rw [hpending]) fun c' _ => hwaits c' k
  · by_cases heq : c' = c
    · subst heq
      obtain rfl := Option.some.inj (hself.symm.trans hcall)
      exact hsound
    · rw [hother c' heq] at hcall
      have hcall := hs.calls c' call hcall
      refine hcall.of_same (.of_same hhandlers) ?_ (fun k _ => ?_) fun hresume =>
        hsame c' heq _ hresume (.inl rfl)
      · rw [hhandlers]
        exact hcall.registered
      · exact counted_congr (by rw [hhandlers])
          ⟨hjob c' k true, fun hin => hsame c' heq _ hin (.inr ⟨k, true, rfl⟩)⟩
  · obtain ⟨hcall, hanswer⟩ := hs.jobs c' k inTime (hjob c' k inTime hin)
    rw [hhandlers]
    exact ⟨hwaits c' k hcall, hanswer⟩
  · by_cases heq : c' = c
    · subst heq
      exact ⟨call', hself, hresumes hresume⟩
    · rw [hother c' heq]
      refine hs.resumes c' (hback _ hresume fun hsame => heq ?_)
      injection hsame

theorem addReaction_given (c : ℕ) (answer : PendingAnswer) :
    (addReaction c answer).given = answer.given := by
  unfold addReaction
  split_ifs <;> rfl

/-- A call waits for more answers than before, and for this one only from now on. -/
theorem AnswerSound.addReaction (hold : AnswerSound s h answer)
    (hpending : h ∈ s'.pending ↔ h ∈ s.pending) (hfirst : c ∉ answer.reactions)
    (hwaits : ∀ c' ∈ c :: answer.reactions, ∃ call, s'.calls c' = some call ∧ h ∈ call.pending) :
    AnswerSound s' h (EventLoop.addReaction c answer) := by
  have hbefore : ∀ c' ∈ answer.reactions, ∃ call, s'.calls c' = some call ∧ h ∈ call.pending :=
    fun c' hc' => hwaits c' (List.mem_cons_of_mem _ hc')
  unfold EventLoop.addReaction
  split_ifs with hopen
  · refine ⟨hpending.trans hold.holds, fun _ => hold.running hopen, fun hdone => absurd hopen hdone,
      hold.inTime, hold.cutOff, hold.overrun, ?_, fun c' hc' => ?_⟩
    · rw [List.nodup_append]
      refine ⟨hold.nodup, List.nodup_singleton c, fun a ha b hb => ?_⟩
      rw [List.mem_singleton.mp hb]
      exact fun heq => hfirst (heq ▸ ha)
    · rcases List.mem_append.mp hc' with hbefore' | hlast
      · exact hbefore c' hbefore'
      · exact hwaits c' (List.mem_singleton.mp hlast ▸ List.mem_cons_self)
  · exact hold.of_same hpending fun c' hc' _ => hbefore c' hc'

/-- The jobs of a new call are of the answers it finds given. -/
theorem mem_givenNow {c' k : ℕ} {inTime : Bool} :
    Job.answerGiven c' k inTime ∈ s.pending.filterMap (s.givenNow c) ↔
      c' = c ∧ k ∈ s.pending ∧ ∃ answer, s.handlers k = some answer ∧ answer.given = some inTime := by
  rw [List.mem_filterMap]
  constructor
  · rintro ⟨k', hk', hjob⟩
    obtain ⟨answer, hanswer, hjob⟩ := Option.bind_eq_some_iff.mp hjob
    obtain ⟨inTime', hsaid, heq⟩ := Option.map_eq_some_iff.mp hjob
    injection heq with hc hk hinTime
    subst hc hk hinTime
    exact ⟨rfl, hk', answer, hanswer, hsaid⟩
  · rintro ⟨rfl, hk, answer, hanswer, hsaid⟩
    refine ⟨k, hk, ?_⟩
    unfold givenNow
    rw [hanswer, Option.bind_some, hsaid, Option.map_some]

theorem exists_of_givenNow {k : ℕ} {job : Job} (hjob : s.givenNow c k = some job) :
    ∃ inTime, job = .answerGiven c k inTime := by
  obtain ⟨answer, -, hjob⟩ := Option.bind_eq_some_iff.mp hjob
  obtain ⟨inTime, -, rfl⟩ := Option.map_eq_some_iff.mp hjob
  exact ⟨inTime, rfl⟩

/-- A call that is made while answers are pending. -/
def waitingCall (s : EventLoop) : HostCall :=
  ⟨s.clock, s.pending, s.pending.length, some (s.clock + RESIDENT_ROUTE_ANSWER_WAIT_MS), none, none⟩

/-- A call waits for the answers that are pending. -/
structure Waited (s s' : EventLoop) (c : ℕ) : Prop where
  new : s.calls c = none
  calls : s'.calls = Function.update s.calls c (some (waitingCall s))
  handlers : ∀ h, s'.handlers h =
    if h ∈ s.pending then (s.handlers h).map (addReaction c) else s.handlers h
  jobs : s'.jobs = s.jobs ++ s.pending.filterMap (s.givenNow c)
  pending : s'.pending = s.pending

namespace Waited

variable {c' k : ℕ}

theorem self (hw : Waited s s' c) : s'.calls c = some (waitingCall s) := by
  rw [hw.calls, Function.update_self]

theorem ne (hw : Waited s s' c) (hcall : s.calls c' = some call) : c' ≠ c := by
  rintro rfl
  rw [hw.new] at hcall
  cases hcall

theorem other (hw : Waited s s' c) (hcall : s.calls c' = some call) : s'.calls c' = some call := by
  rw [hw.calls, Function.update_of_ne (hw.ne hcall), hcall]

theorem waits (hw : Waited s s' c) (hcall : ∃ call, s.calls c' = some call ∧ k ∈ call.pending) :
    ∃ call, s'.calls c' = some call ∧ k ∈ call.pending := by
  obtain ⟨call, hcall, hk⟩ := hcall
  exact ⟨call, hw.other hcall, hk⟩

theorem given (hw : Waited s s' c) (k : ℕ) :
    (s'.handlers k).map (·.given) = (s.handlers k).map (·.given) := by
  rw [hw.handlers k]
  split_ifs
  · rw [Option.map_map]
    exact congrArg (Option.map · (s.handlers k)) (funext (addReaction_given c))
  · rfl

theorem stands (hw : Waited s s' c) : GivenStands s s' := by
  intro k answer₀ hanswer₀
  have hsame := hw.given k
  rw [hanswer₀, Option.map_some, Option.map_eq_some_iff] at hsame
  obtain ⟨answer₁, hanswer₁, hsame⟩ := hsame
  exact ⟨answer₁, hanswer₁, fun _ hsaid => hsame.trans hsaid⟩

theorem counted (hw : Waited s s' c) (hne : c' ≠ c) (k : ℕ) :
    counted s' c' k = Plugins.counted s c' k := by
  refine counted_congr (hw.given k) ?_
  rw [hw.jobs, List.mem_append]
  exact or_iff_left fun hin => hne (mem_givenNow.mp hin).1

theorem answerSound (hw : Waited s s' c) (hs : Sound s) (hanswer : s'.handlers k = some answer) :
    AnswerSound s' k answer := by
  have hpending : k ∈ s'.pending ↔ k ∈ s.pending := by rw [hw.pending]
  rw [hw.handlers k] at hanswer
  split_ifs at hanswer with hk
  · obtain ⟨answer₀, hanswer₀, rfl⟩ := Option.map_eq_some_iff.mp hanswer
    have hold := hs.answers k answer₀ hanswer₀
    refine hold.addReaction hpending (fun hc => ?_) fun c' hc' => ?_
    · obtain ⟨call, hcall, -⟩ := hold.reactions c hc
      exact hw.ne hcall rfl
    · rcases List.mem_cons.mp hc' with rfl | hbefore
      · exact ⟨_, hw.self, hk⟩
      · exact hw.waits (hold.reactions c' hbefore)
  · exact (hs.answers k answer hanswer).of_same hpending fun c' _ => hw.waits

/-- No answer that is pending has been given in time. -/
theorem uncounted (hw : Waited s s' c) (hs : Sound s) (hk : k ∈ s.pending) :
    Plugins.counted s' c k = false := by
  refine Bool.eq_false_iff.mpr fun hcount => ?_
  obtain ⟨answer₁, hanswer₁, htrue⟩ := givenInTime_of_counted hcount
  have hsettled := (hw.answerSound hs hanswer₁).inTime htrue
  have hpending : k ∈ s'.pending := hw.pending ▸ hk
  rw [((hw.answerSound hs hanswer₁).holds.mp hpending).1] at hsettled
  cases hsettled

theorem newSound (hw : Waited s s' c) (hs : Sound s) : CallSound s' c (waitingCall s) := by
  refine ⟨hs.nodup, fun k hk => hw.stands.known (hs.known k hk), fun k hk answer hanswer hopen => ?_,
    ?_, nofun, nofun, fun _ => .inl ⟨rfl, rfl⟩, fun hset => absurd rfl hset⟩
  · rw [hw.handlers k, if_pos (show k ∈ s.pending from hk)] at hanswer
    obtain ⟨answer₀, -, rfl⟩ := Option.map_eq_some_iff.mp hanswer
    rw [addReaction_given] at hopen
    unfold addReaction
    rw [if_pos hopen]
    exact List.mem_append_right _ List.mem_cons_self
  · refine (List.countP_eq_length.mpr fun k hk => ?_).symm
    rw [hw.uncounted hs hk]
    rfl

theorem callSound (hw : Waited s s' c) (hold : CallSound s c' call) (hne : c' ≠ c) :
    CallSound s' c' call := by
  refine hold.of_same hw.stands (fun k hk answer hanswer hopen => ?_) (fun k _ => hw.counted hne k)
    fun hresume => ?_
  · rw [hw.handlers k] at hanswer
    split_ifs at hanswer
    · obtain ⟨answer₀, hanswer₀, rfl⟩ := Option.map_eq_some_iff.mp hanswer
      rw [addReaction_given] at hopen
      unfold addReaction
      rw [if_pos hopen]
      exact List.mem_append_left _ (hold.registered k hk answer₀ hanswer₀ hopen)
    · exact hold.registered k hk answer hanswer hopen
  · rw [hw.jobs]
    exact List.mem_append_left _ hresume

theorem told (hw : Waited s s' c) (hs : Sound s) {inTime : Bool}
    (hjob : Job.answerGiven c' k inTime ∈ s'.jobs) :
    (∃ call, s'.calls c' = some call ∧ k ∈ call.pending) ∧
      ∃ answer, s'.handlers k = some answer ∧ answer.given = some inTime := by
  rw [hw.jobs, List.mem_append] at hjob
  rcases hjob with hold | hfound
  · obtain ⟨hcall, answer₀, hanswer₀, hsaid⟩ := hs.jobs c' k inTime hold
    obtain ⟨answer₁, hanswer₁, hsame⟩ := hw.stands k answer₀ hanswer₀
    exact ⟨hw.waits hcall, answer₁, hanswer₁, hsame inTime hsaid⟩
  · obtain ⟨rfl, hk, answer₀, hanswer₀, hsaid⟩ := mem_givenNow.mp hfound
    obtain ⟨answer₁, hanswer₁, hsame⟩ := hw.stands k answer₀ hanswer₀
    exact ⟨⟨_, hw.self, hk⟩, answer₁, hanswer₁, hsame inTime hsaid⟩

theorem resumes (hw : Waited s s' c) (hs : Sound s) (hresume : Job.resume c' ∈ s'.jobs) :
    ∃ call, s'.calls c' = some call ∧ call.answered ≠ none ∧ call.outcome = none := by
  rw [hw.jobs, List.mem_append] at hresume
  have hold := hresume.resolve_right fun hfound => by
    obtain ⟨k, -, hjob⟩ := List.mem_filterMap.mp hfound
    obtain ⟨inTime, heq⟩ := exists_of_givenNow hjob
    cases heq
  obtain ⟨call, hcall, hdue⟩ := hs.resumes c' hold
  exact ⟨call, hw.other hcall, hdue⟩

theorem once (hw : Waited s s' c) (hs : Sound s) : s'.jobs.Nodup := by
  rw [hw.jobs, List.nodup_append]
  refine ⟨hs.once, hs.nodup.filterMap fun k k' job hjob hjob' => ?_, fun job hjob job' hjob' heq => ?_⟩
  · obtain ⟨inTime₁, rfl⟩ := exists_of_givenNow hjob
    obtain ⟨inTime₂, heq⟩ := exists_of_givenNow hjob'
    injection heq with _ hk _
  · -- the call is in no job yet
    obtain ⟨k, -, hfound⟩ := List.mem_filterMap.mp hjob'
    obtain ⟨inTime, rfl⟩ := exists_of_givenNow hfound
    obtain ⟨⟨call, hcall, -⟩, -⟩ := hs.jobs c k inTime (heq ▸ hjob)
    exact hw.ne hcall rfl

end Waited

theorem Sound.wait (hs : Sound s) (hw : Waited s s' c) : Sound s' := by
  refine ⟨hw.pending ▸ hs.nodup, fun k hk => hw.stands.known (hs.known k (hw.pending ▸ hk)),
    fun k answer hanswer => hw.answerSound hs hanswer, fun c' call hcall => ?_,
    fun c' k inTime hjob => hw.told hs hjob, fun c' hresume => hw.resumes hs hresume, hw.once hs⟩
  by_cases heq : c' = c
  · subst heq
    obtain rfl := Option.some.inj (hw.self.symm.trans hcall)
    exact hw.newSound hs
  · rw [hw.calls, Function.update_of_ne heq] at hcall
    exact hw.callSound (hs.calls c' call hcall) heq

/-! ### One event -/

/-- The handler answers, or its work settles after it was cut off. -/
theorem Sound.settles (hs : Sound s) (hanswer : s.handlers h = some answer) {answer₁ : PendingAnswer}
    (hgiven : answer₁.given = answer.given) (hreactions : answer₁.reactions = answer.reactions)
    (hawaited : answer₁.awaitedFrom = answer.awaitedFrom) (hsettled : answer₁.settled = true)
    (hdeadline : answer₁.deadline = none) (hoverrun : answer₁.overrun = none) :
    Sound ((s.give h answer₁ true).endAnswer h) := by
  have hold := hs.answers h answer hanswer
  have hgone : h ∉ ((s.give h answer₁ true).endAnswer h).pending :=
    fun hin => (mem_endAnswer.mp hin).2 rfl
  have hsettled' : ¬(answer₁.settled = false ∧ (answer₁.given = none ∨ answer₁.overrun ≠ none)) := by
    rw [hsettled]
    exact fun hfalse => nomatch hfalse.1
  cases hcase : answer.given with
  | none =>
    rw [hcase] at hgiven
    rw [give_of_none hgiven] at hgone ⊢
    refine hs.give ⟨hanswer, hcase, rfl, rfl, rfl, by rw [← hreactions]; rfl⟩ ?_ (fun k hne => ?_)
      (hs.nodup.filter _)
    · refine ⟨iff_of_false hgone ?_, nofun, fun _ => ⟨hdeadline, rfl⟩, fun _ => hsettled, nofun,
        fun due hdue => ?_, List.nodup_nil, nofun⟩
      · exact fun hholds => nomatch hsettled.symm.trans hholds.1
      · rw [show _ = answer₁.overrun from rfl, hoverrun] at hdue
        cases hdue
    · exact mem_endAnswer.trans (and_iff_left hne)
  | some inTime =>
    have hdone := hold.done (by rw [hcase]; nofun)
    rw [give_of_given (by rw [hgiven, hcase]; nofun)] at hgone ⊢
    refine hs.setHandler _ hanswer hgiven hreactions ?_ rfl rfl rfl (fun k hne => ?_)
      (hs.nodup.filter _)
    · refine ⟨iff_of_false hgone hsettled', ?_, fun _ => ⟨hdeadline, hreactions.trans hdone.2⟩,
        fun _ => hsettled, ?_, fun due hdue => ?_, ?_, ?_⟩
      · rw [hgiven, hcase]
        nofun
      · rw [hgiven, hawaited]
        exact hold.cutOff
      · rw [hoverrun] at hdue
        cases hdue
      · rw [hreactions]
        exact hold.nodup
      · rw [hreactions]
        exact hold.reactions
    · exact mem_endAnswer.trans (and_iff_left hne)

theorem Sound.inTime (hs : Sound s) (hanswer : s.handlers h = some answer)
    (hfirst : answer.awaitedFrom = none) (hworking : answer.settled = false) :
    Sound (s.setHandler h { answer with
      awaitedFrom := some s.clock, deadline := some (s.clock + RESIDENT_ROUTE_DEADLINE_MS) }) := by
  have hold := hs.answers h answer hanswer
  have hnone : answer.given = none := by
    match hcase : answer.given with
    | none => rfl
    | some true => exact nomatch hworking.symm.trans (hold.inTime hcase)
    | some false => exact absurd hfirst (hold.cutOff hcase)
  have hrunning := hold.running hnone
  refine hs.setHandler { answer with
    awaitedFrom := some s.clock, deadline := some (s.clock + RESIDENT_ROUTE_DEADLINE_MS) }
    hanswer rfl rfl ?_ rfl rfl rfl (fun _ _ => Iff.rfl) hs.nodup
  exact ⟨hold.holds, fun _ => ⟨hworking, hrunning.2.1, rfl⟩, fun hdone => absurd hnone hdone,
    hold.inTime, nofun, hold.overrun, hold.nodup, hold.reactions⟩

theorem Sound.deadline (hs : Sound s) (hanswer : s.handlers h = some answer) {due : Int}
    (hdue : answer.deadline = some due) :
    Sound (s.give h { answer with
      deadline := none, overrun := some (s.clock + RESIDENT_ROUTE_OVERRUN_MS) } false) := by
  have hold := hs.answers h answer hanswer
  have hnone : answer.given = none := by
    by_contra hdone
    exact nomatch hdue.symm.trans (hold.done hdone).1
  obtain ⟨hworking, -, hset⟩ := hold.running hnone
  have hnone' : ({ answer with
      deadline := none
      overrun := some (s.clock + RESIDENT_ROUTE_OVERRUN_MS) } : PendingAnswer).given = none := hnone
  rw [give_of_none hnone']
  refine hs.give ⟨hanswer, hnone, rfl, rfl, rfl, rfl⟩ ?_ (fun _ _ => Iff.rfl) hs.nodup
  refine ⟨⟨fun _ => ⟨hworking, .inr nofun⟩, fun _ => hold.holds.mpr ⟨hworking, .inl hnone⟩⟩, nofun,
    fun _ => ⟨rfl, rfl⟩, nofun, fun _ hnever => ?_, fun due' hdue' => ?_, List.nodup_nil, nofun⟩
  · rw [show answer.awaitedFrom = none from hnever, Option.map_none, hdue] at hset
    cases hset
  · obtain rfl := Option.some.inj hdue'
    refine ⟨rfl, congrArg some ?_⟩
    omega

theorem Sound.overrun (hs : Sound s) (hanswer : s.handlers h = some answer) {due : Int}
    (hdue : answer.overrun = some due) :
    Sound ((s.setHandler h { answer with overrun := none }).endAnswer h) := by
  have hold := hs.answers h answer hanswer
  obtain ⟨hcut, -⟩ := hold.overrun due hdue
  have hdone := hold.done (by rw [hcut]; nofun)
  refine hs.setHandler { answer with overrun := none } hanswer rfl rfl ?_ rfl rfl rfl
    (fun k hne => mem_endAnswer.trans (and_iff_left hne)) (hs.nodup.filter _)
  refine ⟨iff_of_false (fun hin => (mem_endAnswer.mp hin).2 rfl) ?_, ?_, fun _ => hdone,
    hold.inTime, hold.cutOff, nofun, hold.nodup, hold.reactions⟩
  · rintro ⟨-, hnone | hset⟩
    · exact nomatch hcut.symm.trans hnone
    · exact hset rfl
  · intro hnone
    exact nomatch hcut.symm.trans hnone

/-! #### The calls -/

/-- A call that waits for nobody. -/
theorem Sound.callNow (hs : Sound s) (hnew : s.calls c = none) (outcome : Outcome) :
    Sound (s.setCall c ⟨s.clock, [], 0, none, none, some outcome⟩) := by
  refine hs.setCall _ (fun call hcall => nomatch hnew.symm.trans hcall) ?_ rfl rfl rfl hs.once
    (fun _ hin _ => hin) (fun _ _ _ hin _ => hin) fun hresume => ?_
  · exact ⟨List.nodup_nil, nofun, nofun, rfl, nofun, fun _ => nofun, nofun, fun _ _ => ⟨rfl, rfl⟩⟩
  · obtain ⟨call, hcall, -⟩ := hs.resumes c hresume
    exact nomatch hnew.symm.trans hcall

theorem Sound.residentRouteOfHostCall (hs : Sound s) (hnew : s.calls c = none)
    (onResidentRoute servesRequest : Bool) :
    Sound (s.residentRouteOfHostCall c onResidentRoute servesRequest) := by
  unfold EventLoop.residentRouteOfHostCall
  split_ifs
  · exact hs.callNow hnew _
  · exact hs.callNow hnew _
  · exact hs.callNow hnew _
  · obtain ⟨hhandlers, hjobs, hcalls, hpending, -⟩ := foldl_awaitGiven c s.pending
      (s.setCall c ⟨s.clock, s.pending, s.pending.length,
        some (s.clock + RESIDENT_ROUTE_ANSWER_WAIT_MS), none, none⟩) hs.nodup
    refine hs.wait ⟨hnew, hcalls, hhandlers, ?_, hpending⟩
    rw [hjobs, List.filterMap_eq_flatMap_toList]
    rfl

/-- What a call counts, and of whom. -/
structure Counts (s : EventLoop) (c : ℕ) (call : HostCall) : Prop where
  nodup : call.pending.Nodup
  known : ∀ h ∈ call.pending, s.handlers h ≠ none
  registered : ∀ h ∈ call.pending, ∀ answer, s.handlers h = some answer → answer.given = none →
    c ∈ answer.reactions
  count : call.unanswered = call.pending.countP fun h => !counted s c h
  ahead : call.outcome = some .ahead → ∀ h ∈ call.pending, GivenInTime s h

/-- The promise of a call settles, with at most the call's own reactions run before it. -/
theorem Sound.resolve (hs : Sound s) {s₁ : EventLoop} {call₁ : HostCall} {inTime : Bool}
    (hcall : s.calls c = some call) (hcalls : s₁.calls = s.calls)
    (hhandlers : s₁.handlers = s.handlers) (hpending : s₁.pending = s.pending)
    (honce : s₁.jobs.Nodup) (hback : ∀ job ∈ s₁.jobs, job ∈ s.jobs)
    (hsame : ∀ c', c' ≠ c → ∀ job ∈ s.jobs,
      job = .resume c' ∨ (∃ k inTime, job = .answerGiven c' k inTime) → job ∈ s₁.jobs)
    (hresume : Job.resume c ∈ s.jobs → Job.resume c ∈ s₁.jobs)
    (hwho : call₁.pending = call.pending) (hanswered : call₁.answered = call.answered)
    (houtcome : call₁.outcome = call.outcome) (hopen : call.answered = none → call.outcome = none)
    (hcounts : Counts s₁ c call₁)
    (htrue : inTime = true → ∀ h ∈ call.pending, GivenInTime s h) :
    Sound (s₁.resolve c call₁ inTime) := by
  have hold := hs.calls c call hcall
  have hpend : ∀ call', s.calls c = some call' → call₁.pending = call'.pending := by
    intro call' hcall'
    rw [← Option.some.inj (hcall.symm.trans hcall'), hwho]
  have hgiven : ∀ k, GivenInTime s k → GivenInTime s₁ k := by
    rintro k ⟨answer₀, hanswer₀, hsaid⟩
    exact ⟨answer₀, (congrFun hhandlers k).trans hanswer₀, hsaid⟩
  cases hcase : call₁.answered with
  | some b =>
    rw [resolve_of_answered (by rw [hcase]; nofun)]
    refine hs.setCall call₁ hpend ?_ (by rw [setCall_calls, hcalls]) hhandlers hpending honce
      (fun job hjob _ => hback job hjob) hsame fun hdue => ?_
    · refine ⟨hcounts.nodup, hcounts.known, hcounts.registered, hcounts.count, fun h k hk => ?_,
        hcounts.ahead, fun hundecided => .inr ⟨by rw [hcase]; nofun, ?_⟩,
        fun _ hnone => nomatch hcase.symm.trans hnone⟩
      · exact hgiven k (hold.answered (hanswered.symm.trans h) k (hwho ▸ hk))
      · refine hresume ((hold.undecided (houtcome.symm.trans hundecided)).resolve_left ?_).2
        rintro ⟨hnone, -⟩
        exact nomatch hcase.symm.trans (hanswered.trans hnone)
    · obtain ⟨call', hcall', hset, hundecided⟩ := hs.resumes c (hback _ hdue)
      obtain rfl := Option.some.inj (hcall.symm.trans hcall')
      exact ⟨by rw [hcase]; nofun, houtcome.trans hundecided⟩
  | none =>
    rw [resolve_of_none hcase]
    have hmore : ∀ c' k inTime', Job.answerGiven c' k inTime' ∉ [Job.resume c] := by
      intro c' k inTime' hin
      cases List.mem_singleton.mp hin
    -- it has not been resumed, nor is it about to be
    have hnone : call.answered = none := hanswered.symm.trans hcase
    have hnot : Job.resume c ∉ s₁.jobs := by
      intro hdue
      obtain ⟨call', hcall', hset, -⟩ := hs.resumes c (hback _ hdue)
      obtain rfl := Option.some.inj (hcall.symm.trans hcall')
      exact hset hnone
    have hundecided := hopen hnone
    refine hs.setCall { call₁ with answered := some inTime } hpend ?_ (by rw [← hcalls]; rfl)
      hhandlers hpending ?_ ?_ ?_ fun _ => ⟨nofun, houtcome.trans hundecided⟩
    · refine ⟨hcounts.nodup, hcounts.known, hcounts.registered, hcounts.count.trans ?_,
        fun h k hk => ?_, hcounts.ahead, fun _ => .inr ⟨nofun, ?_⟩, fun _ => nofun⟩
      · refine List.countP_congr fun k _ => ?_
        unfold counted
        show _ ↔ (!((s₁.handlers k).any _ && !(s₁.jobs ++ [Job.resume c]).contains _)) = true
        have hcontains : (s₁.jobs ++ [Job.resume c]).contains (.answerGiven c k true) =
            s₁.jobs.contains (.answerGiven c k true) := by
          rw [Bool.eq_iff_iff, List.contains_iff_mem, List.contains_iff_mem, List.mem_append]
          exact or_iff_left (hmore c k true)
        rw [hcontains]
      · exact hgiven k (htrue (Option.some.inj h) k (hwho ▸ hk))
      · exact List.mem_append_right _ List.mem_cons_self
    · show (s₁.jobs ++ [Job.resume c]).Nodup
      rw [List.nodup_append]
      refine ⟨honce, List.nodup_singleton _, fun job hjob job' hjob' heq => ?_⟩
      rw [List.mem_singleton.mp hjob'] at heq
      exact hnot (heq ▸ hjob)
    · intro job hjob hne
      rcases List.mem_append.mp hjob with hjob | hlast
      · exact hback job hjob
      · exact absurd (List.mem_singleton.mp hlast) hne
    · exact fun c' hne job hin hkind => List.mem_append_left _ (hsame c' hne job hin hkind)

/-! #### The reactions -/

theorem countP_of_flip {p q : ℕ → Bool} {k : ℕ} (hp : p k = true) (hq : q k = false)
    (hsame : ∀ n, n ≠ k → q n = p n) : ∀ {l : List ℕ}, l.Nodup → k ∈ l →
      l.countP q + 1 = l.countP p
  | n :: l, hnodup, hin => by
    obtain ⟨hn, hrest⟩ := List.nodup_cons.mp hnodup
    by_cases heq : n = k
    · subst heq
      rw [List.countP_cons_of_neg (by rw [hq]; nofun), List.countP_cons_of_pos hp]
      refine congrArg (· + 1) (List.countP_congr fun m hm => ?_)
      rw [hsame m fun heq => hn (heq ▸ hm)]
    · have hin := (List.mem_cons.mp hin).resolve_left fun h => heq h.symm
      have ih := countP_of_flip hp hq hsame hrest hin
      rw [List.countP_cons, List.countP_cons, hsame n heq]
      omega

theorem Sound.answerGiven (hs : Sound s) {inTime : Bool} {jobs : List Job}
    (hjobs : s.jobs = .answerGiven c h inTime :: jobs) :
    Sound ({ s with jobs }.answerGiven c inTime) := by
  obtain ⟨⟨call, hcall, hin⟩, answer, hanswer, hgiven⟩ :=
    hs.jobs c h inTime (hjobs ▸ List.mem_cons_self)
  have hold := hs.calls c call hcall
  have hback : ∀ job ∈ jobs, job ∈ s.jobs := fun job hjob => hjobs ▸ List.mem_cons_of_mem _ hjob
  have hnodup := hs.once
  rw [hjobs, List.nodup_cons] at hnodup
  obtain ⟨hlast, honce⟩ := hnodup
  have hsame : ∀ c', c' ≠ c → ∀ job ∈ s.jobs,
      job = .resume c' ∨ (∃ k inTime, job = .answerGiven c' k inTime) → job ∈ jobs := by
    intro c' hne job hjob hkind
    rw [hjobs] at hjob
    refine (List.mem_cons.mp hjob).resolve_left ?_
    rintro rfl
    rcases hkind with hresume | ⟨k, inTime', heq⟩
    · cases hresume
    · injection heq with hc _ _
      exact hne hc.symm
  have hresume : Job.resume c ∈ s.jobs → Job.resume c ∈ jobs := by
    intro hjob
    rw [hjobs] at hjob
    exact (List.mem_cons.mp hjob).resolve_left nofun
  have hopen : call.answered = none → call.outcome = none := by
    intro hnone
    by_contra hset
    rw [(hold.decided hset hnone).1] at hin
    cases hin
  -- the job is run once, and no other answer's is
  have hother : ∀ k, k ≠ h ∨ inTime = false → counted { s with jobs } c k = counted s c k := by
    intro k hk
    refine counted_congr rfl ?_
    rw [hjobs, List.mem_cons]
    refine (or_iff_right fun heq => ?_).symm
    injection heq with _ hh hinTime
    rcases hk with hne | hfalse
    · exact hne hh
    · exact nomatch hinTime.trans hfalse
  unfold EventLoop.answerGiven
  dsimp only
  rw [hcall]
  dsimp only
  cases inTime with
  | false =>
    rw [if_pos (by rfl)]
    refine hs.resolve hcall rfl rfl rfl honce hback hsame hresume rfl rfl rfl hopen ?_ nofun
    refine ⟨hold.nodup, hold.known, hold.registered, ?_, hold.ahead⟩
    rw [hold.count]
    refine List.countP_congr fun k _ => ?_
    rw [hother k (.inr rfl)]
  | true =>
    have hcounted : counted { s with jobs } c h = true := by
      unfold counted
      dsimp only
      rw [hanswer, Option.any_some, hgiven, Bool.and_eq_true, Bool.not_eq_true',
        Bool.eq_false_iff, ne_eq, List.contains_iff_mem]
      exact ⟨rfl, hlast⟩
    have huncounted : counted s c h = false := by
      unfold counted
      rw [hjobs, Bool.and_eq_false_iff, Bool.not_eq_false', List.contains_iff_mem]
      exact .inr List.mem_cons_self
    have hflip := countP_of_flip (p := fun k => !counted s c k)
      (q := fun k => !counted { s with jobs } c k) (k := h) (by rw [huncounted]; rfl)
      (by rw [hcounted]; rfl) (fun k hne => by rw [hother k (.inl hne)]) hold.nodup hin
    have hcount : call.unanswered - 1 =
        call.pending.countP fun k => !counted { s with jobs } c k := by
      rw [hold.count]
      omega
    rw [if_neg (by nofun)]
    split_ifs with hzero
    · refine hs.resolve hcall rfl rfl rfl honce hback hsame hresume rfl rfl rfl hopen
        ⟨hold.nodup, hold.known, hold.registered, hcount, hold.ahead⟩ fun _ k hk => ?_
      rw [hcount, List.countP_eq_zero] at hzero
      have hall := hzero k hk
      rw [Bool.not_eq_true', Bool.not_eq_false] at hall
      obtain ⟨answer', hanswer', hgiven'⟩ := givenInTime_of_counted hall
      exact ⟨answer', hanswer', hgiven'⟩
    · refine hs.setCall { call with unanswered := call.unanswered - 1 } (fun call' hcall' => ?_) ?_
        rfl rfl rfl honce (fun job hjob _ => hback job hjob) hsame fun hdue => ?_
      · rw [← Option.some.inj (hcall.symm.trans hcall')]
      · exact ⟨hold.nodup, hold.known, hold.registered, hcount, hold.answered, hold.ahead,
          fun hundecided => (hold.undecided hundecided).imp_right fun hdue =>
            ⟨hdue.1, hresume hdue.2⟩, hold.decided⟩
      · obtain ⟨call', hcall', hdue⟩ := hs.resumes c (hback _ hdue)
        obtain rfl := Option.some.inj (hcall.symm.trans hcall')
        exact hdue

theorem Sound.resume (hs : Sound s) {jobs : List Job} (hjobs : s.jobs = .resume c :: jobs) :
    Sound ({ s with jobs }.resume c) := by
  have hmem : ∀ c k inTime,
      (Job.answerGiven c k inTime ∈ jobs ↔ Job.answerGiven c k inTime ∈ s.jobs) := by
    intro c k inTime
    rw [hjobs, List.mem_cons, or_iff_right nofun]
  have hback : ∀ job ∈ jobs, job ∈ s.jobs := fun job hjob => hjobs ▸ List.mem_cons_of_mem _ hjob
  have hnodup := hs.once
  rw [hjobs, List.nodup_cons] at hnodup
  obtain ⟨hlast, honce⟩ := hnodup
  obtain ⟨call, hcall, hset, -⟩ := hs.resumes c (hjobs ▸ List.mem_cons_self)
  have hsame : ∀ c', c' ≠ c → ∀ job ∈ s.jobs,
      job = .resume c' ∨ (∃ k inTime, job = .answerGiven c' k inTime) → job ∈ jobs := by
    intro c' hne job hjob hkind
    rw [hjobs] at hjob
    refine (List.mem_cons.mp hjob).resolve_left ?_
    rintro rfl
    rcases hkind with heq | ⟨k, inTime', heq⟩
    · injection heq with hc
      exact hne hc.symm
    · cases heq
  have hold := hs.calls c call hcall
  unfold EventLoop.resume
  dsimp only
  rw [hcall]
  dsimp only
  refine hs.setCall { call with
    timer := none
    outcome := if call.answered = some true then some .ahead else some .refused }
    (fun call' hcall' => ?_) ?_ rfl rfl rfl honce (fun job hjob _ => hback job hjob) hsame
    fun hdue => absurd hdue hlast
  · rw [← Option.some.inj (hcall.symm.trans hcall')]
  · refine ⟨hold.nodup, hold.known, hold.registered, ?_, hold.answered, fun hahead => ?_, ?_,
      fun _ hnone => absurd hnone hset⟩
    · rw [hold.count]
      refine List.countP_congr fun k _ => ?_
      unfold counted
      dsimp only [setCall_handlers, setCall_jobs]
      rw [show jobs.contains (.answerGiven c k true) = s.jobs.contains (.answerGiven c k true) by
        rw [Bool.eq_iff_iff, List.contains_iff_mem, List.contains_iff_mem, hmem]]
    · dsimp only at hahead
      split_ifs at hahead with htrue
      · exact hold.answered htrue
      · cases hahead
    · intro hundecided
      dsimp only at hundecided
      split_ifs at hundecided

end OpenBrf.Plugins
