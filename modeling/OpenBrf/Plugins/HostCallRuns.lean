import Mathlib.Data.List.Infix
import Mathlib.Algebra.Order.Group.Int
import OpenBrf.Plugins.HostCalls

/-!
# Plugins.HostCallRuns — the calls of a plugin over whole runs

Between the call and its answer every handler the call found has answered first, and within a run whose
timers fire at most so late every call is decided within its wait, and no handler holds calls for longer
than its deadline and its overrun.
-/

namespace OpenBrf.Plugins

open EventLoop

variable {s s' s₀ : EventLoop} {e : Event} {es : List Event} {c h : ℕ}

/-! ### One event -/

/-- What each event may do, and when. -/
inductive Stepped (s : EventLoop) : Event → EventLoop → Prop
  | tick {clock : Int} : s.clock ≤ clock → s.jobs = [] → Stepped s (.tick clock) { s with clock }
  | callHandler {h : ℕ} : s.handlers h = none → Stepped s (.callHandler h) (s.pendingAnswer h)
  | answerNow {h : ℕ} {answer : PendingAnswer} : s.handlers h = some answer →
      answer.awaitedFrom = none → answer.settled = false →
      Stepped s (.answerNow h) ((s.give h { answer with settled := true } true).endAnswer h)
  | inTime {h : ℕ} {answer : PendingAnswer} : s.handlers h = some answer →
      answer.awaitedFrom = none → answer.settled = false →
      Stepped s (.inTime h) (s.setHandler h { answer with
        awaitedFrom := some s.clock, deadline := some (s.clock + RESIDENT_ROUTE_DEADLINE_MS) })
  | settle {h : ℕ} {answer : PendingAnswer} : s.handlers h = some answer →
      answer.awaitedFrom ≠ none → answer.settled = false →
      Stepped s (.settle h) ((s.give h { answer with
        settled := true, deadline := none, overrun := none } true).endAnswer h)
  | deadline {h : ℕ} {answer : PendingAnswer} {due : Int} : s.handlers h = some answer →
      answer.deadline = some due → due ≤ s.clock → s.jobs = [] →
      Stepped s (.deadline h) (s.give h { answer with
        deadline := none, overrun := some (s.clock + RESIDENT_ROUTE_OVERRUN_MS) } false)
  | overrun {h : ℕ} {answer : PendingAnswer} {due : Int} : s.handlers h = some answer →
      answer.overrun = some due → due ≤ s.clock → s.jobs = [] →
      Stepped s (.overrun h) ((s.setHandler h { answer with overrun := none }).endAnswer h)
  | call {c : ℕ} {onResidentRoute servesRequest : Bool} : s.calls c = none →
      Stepped s (.call c onResidentRoute servesRequest)
        (s.residentRouteOfHostCall c onResidentRoute servesRequest)
  | wait {c : ℕ} {call : HostCall} {due : Int} : s.calls c = some call → call.timer = some due →
      due ≤ s.clock → s.jobs = [] → Stepped s (.wait c) (s.resolve c { call with timer := none } false)
  | answerGiven {c h : ℕ} {inTime : Bool} {jobs : List Job} :
      s.jobs = .answerGiven c h inTime :: jobs →
      Stepped s .job ({ s with jobs }.answerGiven c inTime)
  | resume {c : ℕ} {jobs : List Job} : s.jobs = .resume c :: jobs →
      Stepped s .job ({ s with jobs }.resume c)

theorem stepped_of_step (hstep : step s e = some s') : Stepped s e s' := by
  cases e with
  | tick clock =>
    unfold step at hstep
    dsimp only at hstep
    split_ifs at hstep with hguard
    obtain rfl := Option.some.inj hstep
    exact .tick hguard.1 hguard.2
  | callHandler h =>
    unfold step at hstep
    dsimp only at hstep
    split at hstep
    · next hnone =>
      obtain rfl := Option.some.inj hstep
      exact .callHandler hnone
    · cases hstep
  | answerNow h =>
    unfold step at hstep
    dsimp only at hstep
    split at hstep
    · cases hstep
    · next answer hanswer =>
      split_ifs at hstep with hguard
      obtain rfl := Option.some.inj hstep
      exact .answerNow hanswer hguard.1 hguard.2
  | inTime h =>
    unfold step at hstep
    dsimp only at hstep
    split at hstep
    · cases hstep
    · next answer hanswer =>
      split_ifs at hstep with hguard
      obtain rfl := Option.some.inj hstep
      exact .inTime hanswer hguard.1 hguard.2
  | settle h =>
    unfold step at hstep
    dsimp only at hstep
    split at hstep
    · cases hstep
    · next answer hanswer =>
      split_ifs at hstep with hguard
      obtain rfl := Option.some.inj hstep
      exact .settle hanswer hguard.1 hguard.2
  | deadline h =>
    unfold step at hstep
    dsimp only at hstep
    split at hstep
    · cases hstep
    · next answer hanswer =>
      split at hstep
      · cases hstep
      · next due hdue =>
        split_ifs at hstep with hguard
        obtain rfl := Option.some.inj hstep
        exact .deadline hanswer hdue hguard.1 hguard.2
  | overrun h =>
    unfold step at hstep
    dsimp only at hstep
    split at hstep
    · cases hstep
    · next answer hanswer =>
      split at hstep
      · cases hstep
      · next due hdue =>
        split_ifs at hstep with hguard
        obtain rfl := Option.some.inj hstep
        exact .overrun hanswer hdue hguard.1 hguard.2
  | call c onResidentRoute servesRequest =>
    unfold step at hstep
    dsimp only at hstep
    split at hstep
    · next hnone =>
      obtain rfl := Option.some.inj hstep
      exact .call hnone
    · cases hstep
  | wait c =>
    unfold step at hstep
    dsimp only at hstep
    split at hstep
    · cases hstep
    · next call hcall =>
      split at hstep
      · cases hstep
      · next due hdue =>
        split_ifs at hstep with hguard
        obtain rfl := Option.some.inj hstep
        exact .wait hcall hdue hguard.1 hguard.2
  | job =>
    unfold step at hstep
    dsimp only at hstep
    split at hstep
    · cases hstep
    · next c h inTime jobs hjobs =>
      obtain rfl := Option.some.inj hstep
      exact .answerGiven hjobs
    · next c jobs hjobs =>
      obtain rfl := Option.some.inj hstep
      exact .resume hjobs

/-- What holds between two events holds after each. -/
theorem Sound.stepped (hs : Sound s) (hstep : Stepped s e s') : Sound s' := by
  cases hstep with
  | tick => exact hs.tick _
  | callHandler hnew => exact hs.pendingAnswer hnew
  | @answerNow h answer hanswer hfirst hworking =>
    have hold := hs.answers h answer hanswer
    have hnone : answer.given = none := by
      match hcase : answer.given with
      | none => rfl
      | some true => exact nomatch hworking.symm.trans (hold.inTime hcase)
      | some false => exact absurd hfirst (hold.cutOff hcase)
    obtain ⟨-, hoverrun, hdeadline⟩ := hold.running hnone
    rw [hfirst, Option.map_none] at hdeadline
    exact hs.settles hanswer rfl rfl rfl rfl hdeadline hoverrun
  | inTime hanswer hfirst hworking => exact hs.inTime hanswer hfirst hworking
  | settle hanswer _ _ => exact hs.settles hanswer rfl rfl rfl rfl rfl rfl
  | deadline hanswer hdue _ _ => exact hs.deadline hanswer hdue
  | overrun hanswer hdue _ _ => exact hs.overrun hanswer hdue
  | call hnew => exact hs.residentRouteOfHostCall hnew _ _
  | @wait c call due hcall hdue _ _ =>
    have hold := hs.calls c call hcall
    refine hs.resolve hcall rfl rfl rfl hs.once (fun _ hjob => hjob) (fun _ _ _ hjob _ => hjob) id
      rfl rfl rfl (fun hnone => ?_)
      ⟨hold.nodup, hold.known, hold.registered, hold.count, hold.ahead⟩ nofun
    by_contra hset
    have htimer : call.timer = none := (hold.decided hset hnone).2
    exact nomatch hdue.symm.trans htimer
  | answerGiven hjobs => exact hs.answerGiven hjobs
  | resume hjobs => exact hs.resume hjobs

theorem Sound.step (hs : Sound s) (hstep : step s e = some s') : Sound s' :=
  hs.stepped (stepped_of_step hstep)

/-! ### What becomes of a handler -/

/-- What an event makes of a handler's answer: given once, and by an answer or a deadline alone. -/
structure Onward (s : EventLoop) (e : Event) (h : ℕ) (answer answer' : PendingAnswer) : Prop where
  given : answer.given ≠ none → answer'.given = answer.given ∧ answer'.givenAt = answer.givenAt ∧
    answer'.awaitedFrom = answer.awaitedFrom
  first : answer.given = none → answer'.given = none ∨
    answer'.givenAt = some s.clock ∧ answer'.awaitedFrom = answer.awaitedFrom ∧
      (e.Answers h ∧ answer'.given = some true ∨ e = .deadline h ∧ answer'.given = some false)

theorem Onward.same {answer answer' : PendingAnswer} (hgiven : answer'.given = answer.given)
    (hat : answer'.givenAt = answer.givenAt) (hfrom : answer'.awaitedFrom = answer.awaitedFrom) :
    Onward s e h answer answer' :=
  ⟨fun _ => ⟨hgiven, hat, hfrom⟩, fun hnone => .inl (hgiven.trans hnone)⟩

/-- A handler's answer is given, by an answer or a deadline. -/
theorem Onward.give {answer answer₁ : PendingAnswer} {inTime : Bool}
    (hgiven : answer₁.given = answer.given) (hat : answer₁.givenAt = answer.givenAt)
    (hfrom : answer₁.awaitedFrom = answer.awaitedFrom)
    (hevent : e.Answers h ∧ inTime = true ∨ e = .deadline h ∧ inTime = false) :
    ∃ answer', (s.give h answer₁ inTime).handlers h = some answer' ∧
      Onward s e h answer answer' := by
  cases hcase : answer.given with
  | none =>
    rw [give_of_none (hgiven.trans hcase)]
    refine ⟨_, Function.update_self .., fun hdone => absurd hcase hdone, fun _ => .inr ⟨rfl, hfrom, ?_⟩⟩
    rcases hevent with ⟨hanswers, rfl⟩ | ⟨heq, rfl⟩
    · exact .inl ⟨hanswers, rfl⟩
    · exact .inr ⟨heq, rfl⟩
  | some b =>
    rw [give_of_given (by rw [hgiven, hcase]; nofun)]
    exact ⟨_, Function.update_self .., .same hgiven hat hfrom⟩

theorem give_handlers_of_ne {k : ℕ} (hne : k ≠ h) (answer : PendingAnswer) (inTime : Bool) :
    (s.give h answer inTime).handlers k = s.handlers k := by
  unfold EventLoop.give
  split
  · exact Function.update_of_ne hne ..
  · exact Function.update_of_ne hne ..

theorem resolve_handlers (call : HostCall) (answered : Bool) :
    (s.resolve c call answered).handlers = s.handlers := by
  unfold EventLoop.resolve
  split <;> rfl

theorem answerGiven_handlers (inTime : Bool) : (s.answerGiven c inTime).handlers = s.handlers := by
  unfold EventLoop.answerGiven
  split
  · rfl
  · split_ifs
    · exact resolve_handlers ..
    · exact resolve_handlers ..
    · rfl

theorem resume_handlers : (s.resume c).handlers = s.handlers := by
  unfold EventLoop.resume
  split <;> rfl

theorem residentRouteOfHostCall_handlers (hs : Sound s) (onResidentRoute servesRequest : Bool)
    {answer : PendingAnswer} (hanswer : s.handlers h = some answer) :
    ∃ answer', (s.residentRouteOfHostCall c onResidentRoute servesRequest).handlers h =
        some answer' ∧ answer'.given = answer.given ∧ answer'.givenAt = answer.givenAt ∧
      answer'.awaitedFrom = answer.awaitedFrom := by
  unfold EventLoop.residentRouteOfHostCall
  split_ifs
  · exact ⟨answer, hanswer, rfl, rfl, rfl⟩
  · exact ⟨answer, hanswer, rfl, rfl, rfl⟩
  · exact ⟨answer, hanswer, rfl, rfl, rfl⟩
  · obtain ⟨hhandlers, -⟩ := foldl_awaitGiven c s.pending
      (s.setCall c ⟨s.clock, s.pending, s.pending.length,
        some (s.clock + RESIDENT_ROUTE_ANSWER_WAIT_MS), none, none⟩) hs.nodup
    rw [hhandlers h, setCall_handlers, hanswer, Option.map_some]
    split_ifs
    · refine ⟨_, rfl, ?_⟩
      unfold addReaction
      split_ifs <;> exact ⟨rfl, rfl, rfl⟩
    · exact ⟨answer, rfl, rfl, rfl, rfl⟩

theorem Stepped.handler (hs : Sound s) (hstep : Stepped s e s') {answer : PendingAnswer}
    (hanswer : s.handlers h = some answer) :
    ∃ answer', s'.handlers h = some answer' ∧ Onward s e h answer answer' := by
  have hkept : ∀ {s' : EventLoop}, s'.handlers h = s.handlers h →
      ∃ answer', s'.handlers h = some answer' ∧ Onward s e h answer answer' :=
    fun hsame => ⟨answer, hsame.trans hanswer, .same rfl rfl rfl⟩
  cases hstep with
  | tick => exact hkept rfl
  | @callHandler k hnew =>
    refine hkept (Function.update_of_ne ?_ ..)
    rintro rfl
    exact nomatch hnew.symm.trans hanswer
  | @answerNow k answer₀ hanswer₀ _ _ =>
    by_cases heq : h = k
    · subst heq
      obtain rfl := Option.some.inj (hanswer.symm.trans hanswer₀)
      exact Onward.give rfl rfl rfl (.inl ⟨.inl rfl, rfl⟩)
    · exact hkept (give_handlers_of_ne heq ..)
  | @inTime k answer₀ hanswer₀ hfirst hworking =>
    by_cases heq : h = k
    · subst heq
      obtain rfl := Option.some.inj (hanswer.symm.trans hanswer₀)
      refine ⟨_, Function.update_self .., fun hdone => ?_, .inl⟩
      -- a handler that has not returned a promise and still works has given nothing
      have hold := hs.answers h answer hanswer
      match hcase : answer.given with
      | none => exact absurd hcase hdone
      | some true => exact nomatch hworking.symm.trans (hold.inTime hcase)
      | some false => exact absurd hfirst (hold.cutOff hcase)
    · exact hkept (Function.update_of_ne heq ..)
  | @settle k answer₀ hanswer₀ _ _ =>
    by_cases heq : h = k
    · subst heq
      obtain rfl := Option.some.inj (hanswer.symm.trans hanswer₀)
      exact Onward.give rfl rfl rfl (.inl ⟨.inr rfl, rfl⟩)
    · exact hkept (give_handlers_of_ne heq ..)
  | @deadline k answer₀ due hanswer₀ _ _ _ =>
    by_cases heq : h = k
    · subst heq
      obtain rfl := Option.some.inj (hanswer.symm.trans hanswer₀)
      exact Onward.give rfl rfl rfl (.inr ⟨rfl, rfl⟩)
    · exact hkept (give_handlers_of_ne heq ..)
  | @overrun k answer₀ due hanswer₀ _ _ _ =>
    by_cases heq : h = k
    · subst heq
      obtain rfl := Option.some.inj (hanswer.symm.trans hanswer₀)
      exact ⟨_, Function.update_self .., .same rfl rfl rfl⟩
    · exact hkept (Function.update_of_ne heq ..)
  | call _ =>
    obtain ⟨answer', hanswer', hgiven, hat, hfrom⟩ :=
      residentRouteOfHostCall_handlers hs _ _ hanswer
    exact ⟨answer', hanswer', .same hgiven hat hfrom⟩
  | wait _ _ _ _ => exact hkept (congrFun (resolve_handlers ..) h)
  | answerGiven _ => exact hkept (congrFun (answerGiven_handlers ..) h)
  | resume _ => exact hkept (congrFun resume_handlers h)

/-! ### What becomes of a call -/

theorem resolve_calls (call : HostCall) (answered : Bool) :
    (s.resolve c call answered).calls = Function.update s.calls c
      (some { call with answered := call.answered.or (some answered) }) := by
  unfold EventLoop.resolve
  split
  · next b hb =>
    rw [hb, Option.some_or, ← hb]
    rfl
  · next hnone =>
    rw [hnone]
    rfl

theorem give_calls (answer : PendingAnswer) (inTime : Bool) :
    (s.give h answer inTime).calls = s.calls := by
  unfold EventLoop.give
  split <;> rfl

/-- What an event makes of a call: it is answered once and decided once. -/
structure Kept (e : Event) (c : ℕ) (call call' : HostCall) : Prop where
  pending : call'.pending = call.pending
  madeAt : call'.madeAt = call.madeAt
  outcome : call.outcome ≠ none → call'.outcome = call.outcome
  answered : call.answered ≠ none → call'.answered = call.answered
  wait : e = .wait c → call'.answered ≠ none
  elsewhere : call.outcome ≠ some .scope → call'.outcome ≠ some .scope

theorem Kept.refl {call : HostCall} (hwait : e ≠ .wait c) : Kept e c call call :=
  ⟨rfl, rfl, fun _ => rfl, fun _ => rfl, fun heq => absurd heq hwait, id⟩

theorem Kept.resolve {call call₁ : HostCall} (answered : Bool)
    (hpending : call₁.pending = call.pending) (hmade : call₁.madeAt = call.madeAt)
    (houtcome : call₁.outcome = call.outcome) (hanswered : call₁.answered = call.answered) :
    ∃ call', (s.resolve c call₁ answered).calls c = some call' ∧ Kept e c call call' := by
  rw [resolve_calls]
  refine ⟨_, Function.update_self .., hpending, hmade, fun _ => houtcome, fun hset => ?_,
    fun _ => ?_, fun hne => ?_⟩
  · obtain ⟨b, hb⟩ := Option.ne_none_iff_exists'.mp hset
    rw [hanswered, hb, Option.some_or]
  · cases call₁.answered <;> nofun
  · rwa [houtcome]

theorem Stepped.hostCall (hs : Sound s) (hstep : Stepped s e s') {call : HostCall}
    (hcall : s.calls c = some call) :
    ∃ call', s'.calls c = some call' ∧ Kept e c call call' := by
  have hkept : ∀ {s' : EventLoop}, e ≠ .wait c → s'.calls c = s.calls c →
      ∃ call', s'.calls c = some call' ∧ Kept e c call call' :=
    fun hwait hsame => ⟨call, hsame.trans hcall, .refl hwait⟩
  cases hstep with
  | tick => exact hkept nofun rfl
  | callHandler _ => exact hkept nofun rfl
  | answerNow _ _ _ => exact hkept nofun (congrFun (give_calls ..) c)
  | inTime _ _ _ => exact hkept nofun rfl
  | settle _ _ _ => exact hkept nofun (congrFun (give_calls ..) c)
  | deadline _ _ _ _ => exact hkept nofun (congrFun (give_calls ..) c)
  | overrun _ _ _ _ => exact hkept nofun rfl
  | @call c' onResidentRoute servesRequest hnew =>
    have hne : c ≠ c' := by
      rintro rfl
      exact nomatch hnew.symm.trans hcall
    refine hkept nofun ?_
    unfold EventLoop.residentRouteOfHostCall
    split_ifs
    · exact Function.update_of_ne hne ..
    · exact Function.update_of_ne hne ..
    · exact Function.update_of_ne hne ..
    · obtain ⟨-, -, hcalls, -⟩ := foldl_awaitGiven c' s.pending
        (s.setCall c' ⟨s.clock, s.pending, s.pending.length,
          some (s.clock + RESIDENT_ROUTE_ANSWER_WAIT_MS), none, none⟩) hs.nodup
      rw [hcalls]
      exact Function.update_of_ne hne ..
  | @wait c' call₀ due hcall₀ _ _ _ =>
    by_cases heq : c = c'
    · subst heq
      obtain rfl := Option.some.inj (hcall.symm.trans hcall₀)
      exact Kept.resolve false rfl rfl rfl rfl
    · refine hkept (fun hwait => ?_) ?_
      · injection hwait with hc
        exact heq hc.symm
      · rw [resolve_calls]
        exact Function.update_of_ne heq ..
  | @answerGiven c' h inTime jobs hjobs =>
    unfold EventLoop.answerGiven
    dsimp only
    split
    · exact hkept nofun rfl
    · next call₀ hcall₀ =>
      by_cases heq : c = c'
      · subst heq
        obtain rfl := Option.some.inj (hcall.symm.trans hcall₀)
        split_ifs
        · exact Kept.resolve false rfl rfl rfl rfl
        · exact Kept.resolve true rfl rfl rfl rfl
        · exact ⟨_, Function.update_self .., rfl, rfl, fun _ => rfl, fun _ => rfl, nofun, id⟩
      · refine hkept nofun ?_
        split_ifs
        · rw [resolve_calls]
          exact Function.update_of_ne heq ..
        · rw [resolve_calls]
          exact Function.update_of_ne heq ..
        · exact Function.update_of_ne heq ..
  | @resume c' jobs hjobs =>
    unfold EventLoop.resume
    dsimp only
    split
    · exact hkept nofun rfl
    · next call₀ hcall₀ =>
      by_cases heq : c = c'
      · subst heq
        obtain rfl := Option.some.inj (hcall.symm.trans hcall₀)
        obtain ⟨call', hcall', -, hundecided⟩ := hs.resumes c (hjobs ▸ List.mem_cons_self)
        obtain rfl := Option.some.inj (hcall.symm.trans hcall')
        refine ⟨_, Function.update_self .., rfl, rfl, fun hset => absurd hundecided hset,
          fun _ => rfl, nofun, fun _ => ?_⟩
        split_ifs <;> nofun
      · exact hkept nofun (Function.update_of_ne heq ..)

/-! ### Runs -/

theorem run_append (es es' : List Event) (s : EventLoop) :
    run s (es ++ es') = (run s es).bind fun s' => run s' es' := by
  induction es generalizing s with
  | nil => rfl
  | cons e es ih =>
    show (step s e).bind _ = ((step s e).bind _).bind _
    cases step s e with
    | none => rfl
    | some s₁ => exact ih s₁

theorem run_cons (hrun : run s (e :: es) = some s') :
    ∃ s₁, step s e = some s₁ ∧ run s₁ es = some s' :=
  Option.bind_eq_some_iff.mp hrun

theorem Sound.run (hs : Sound s) (hrun : run s es = some s') : Sound s' := by
  induction es generalizing s with
  | nil =>
    obtain rfl := Option.some.inj hrun
    exact hs
  | cons e es ih =>
    obtain ⟨s₁, hstep, hrest⟩ := run_cons hrun
    exact ih (hs.step hstep) hrest

/-- What a handler has given stands. -/
theorem run_handler (hs : Sound s) (hrun : run s es = some s') {answer : PendingAnswer}
    (hanswer : s.handlers h = some answer) (hgiven : answer.given ≠ none) :
    ∃ answer', s'.handlers h = some answer' ∧ answer'.given = answer.given := by
  induction es generalizing s answer with
  | nil =>
    obtain rfl := Option.some.inj hrun
    exact ⟨answer, hanswer, rfl⟩
  | cons e es ih =>
    obtain ⟨s₁, hstep, hrest⟩ := run_cons hrun
    obtain ⟨answer₁, hanswer₁, honward⟩ := (stepped_of_step hstep).handler hs hanswer
    obtain ⟨hsame, -, -⟩ := honward.given hgiven
    obtain ⟨answer', hanswer', heq⟩ := ih (hs.step hstep) hrest hanswer₁ (by rwa [hsame])
    exact ⟨answer', hanswer', heq.trans hsame⟩

theorem run_hostCall (hs : Sound s) (hrun : run s es = some s') {call : HostCall}
    (hcall : s.calls c = some call) : ∃ call', s'.calls c = some call' ∧
      call'.pending = call.pending ∧ call'.madeAt = call.madeAt ∧
      (call.outcome ≠ none → call'.outcome = call.outcome) ∧
      (call.answered ≠ none ∨ .wait c ∈ es → call'.answered ≠ none) ∧
      (call.outcome ≠ some .scope → call'.outcome ≠ some .scope) := by
  induction es generalizing s call with
  | nil =>
    obtain rfl := Option.some.inj hrun
    exact ⟨call, hcall, rfl, rfl, fun _ => rfl, fun hset => hset.resolve_right nofun, id⟩
  | cons e es ih =>
    obtain ⟨s₁, hstep, hrest⟩ := run_cons hrun
    obtain ⟨call₁, hcall₁, hkept⟩ := (stepped_of_step hstep).hostCall hs hcall
    obtain ⟨call', hcall', hpending, hmade, houtcome, hanswered, helsewhere⟩ :=
      ih (hs.step hstep) hrest hcall₁
    refine ⟨call', hcall', hpending.trans hkept.pending, hmade.trans hkept.madeAt, fun hset => ?_,
      fun hset => hanswered ?_, fun hne => helsewhere (hkept.elsewhere hne)⟩
    · have hsame := hkept.outcome hset
      exact (houtcome (by rwa [hsame])).trans hsame
    · rcases hset with hset | hin
      · rw [hkept.answered hset]
        exact .inl hset
      · rcases List.mem_cons.mp hin with heq | hlater
        · exact .inl (hkept.wait heq.symm)
        · exact .inr hlater

/-- A handler has been called, and has neither answered nor been cut off. -/
def YetToAnswer (s : EventLoop) (h : ℕ) : Prop :=
  ∃ answer, s.handlers h = some answer ∧ answer.given = none

/-- A handler was cut off at its deadline, and its work goes on within its overrun. -/
def CutOff (s : EventLoop) (h : ℕ) : Prop :=
  ∃ answer, s.handlers h = some answer ∧ answer.given = some false ∧ answer.settled = false ∧
    answer.overrun ≠ none

/-- A handler answers, or fails, and its deadline has not run out before it does. -/
def AnswersInTime (h : ℕ) (es : List Event) : Prop :=
  ∃ pre e post, es = pre ++ e :: post ∧ e.Answers h ∧ Event.deadline h ∉ pre

/-- A handler does not answer before a call is decided. -/
def AwaitsCall (s : EventLoop) (h c : ℕ) (es : List Event) : Prop :=
  ∀ pre e post, es = pre ++ e :: post → e.Answers h → ∀ s₁, run s pre = some s₁ →
    ∃ call, s₁.calls c = some call ∧ call.outcome ≠ none

theorem Stepped.deadline_given (hs : Sound s) (hstep : Stepped s (.deadline h) s') :
    ∃ answer', s'.handlers h = some answer' ∧ answer'.given ≠ none := by
  cases hstep with
  | @deadline _ answer due hanswer hdue _ _ =>
    have hnone : ({ answer with
        deadline := none
        overrun := some (s.clock + RESIDENT_ROUTE_OVERRUN_MS) } : PendingAnswer).given = none := by
      by_contra hdone
      exact nomatch hdue.symm.trans ((hs.answers h answer hanswer).done hdone).1
    rw [give_of_none hnone]
    exact ⟨_, Function.update_self .., nofun⟩

/-- A handler that has given its answer in time gave it by answering, its deadline not yet run out. -/
theorem answersInTime_of_run (hs : Sound s) (hyet : YetToAnswer s h) (hrun : run s es = some s')
    (htrue : GivenInTime s' h) : AnswersInTime h es := by
  induction es generalizing s with
  | nil =>
    obtain rfl := Option.some.inj hrun
    obtain ⟨answer, hanswer, hnone⟩ := hyet
    obtain ⟨answer', hanswer', hgiven⟩ := htrue
    obtain rfl := Option.some.inj (hanswer.symm.trans hanswer')
    exact nomatch hnone.symm.trans hgiven
  | cons e es ih =>
    obtain ⟨answer, hanswer, hnone⟩ := hyet
    obtain ⟨s₁, hstep, hrest⟩ := run_cons hrun
    obtain ⟨answer₁, hanswer₁, honward⟩ := (stepped_of_step hstep).handler hs hanswer
    rcases honward.first hnone with hstill | ⟨-, -, ⟨hanswers, -⟩ | ⟨-, hcut⟩⟩
    · obtain ⟨pre, e', post, heq, hanswers, hnot⟩ :=
        ih (hs.step hstep) ⟨answer₁, hanswer₁, hstill⟩ hrest
      refine ⟨e :: pre, e', post, by rw [heq, List.cons_append], hanswers, fun hin => ?_⟩
      rcases List.mem_cons.mp hin with rfl | hlater
      · obtain ⟨answer', hanswer', hdone⟩ := (stepped_of_step hstep).deadline_given hs
        obtain rfl := Option.some.inj (hanswer₁.symm.trans hanswer')
        exact hdone hstill
      · exact hnot hlater
    · exact ⟨[], e, es, rfl, hanswers, List.not_mem_nil⟩
    · obtain ⟨answer', hanswer', hsame⟩ :=
        run_handler (hs.step hstep) hrest hanswer₁ (by rw [hcut]; nofun)
      obtain ⟨answer₂, hanswer₂, hgiven⟩ := htrue
      obtain rfl := Option.some.inj (hanswer'.symm.trans hanswer₂)
      exact nomatch hgiven.symm.trans (hsame.trans hcut)

theorem not_givenInTime_of_cutOff (hs : Sound s) (hcut : CutOff s h) (hrun : run s es = some s') :
    ¬GivenInTime s' h := by
  rintro ⟨answer₂, hanswer₂, hgiven⟩
  obtain ⟨answer, hanswer, hfalse, -⟩ := hcut
  obtain ⟨answer', hanswer', hsame⟩ := run_handler hs hrun hanswer (by rw [hfalse]; nofun)
  obtain rfl := Option.some.inj (hanswer'.symm.trans hanswer₂)
  exact nomatch hgiven.symm.trans (hsame.trans hfalse)

theorem mem_pending_of_yetToAnswer (hs : Sound s) (hyet : YetToAnswer s h) : h ∈ s.pending := by
  obtain ⟨answer, hanswer, hnone⟩ := hyet
  have hold := hs.answers h answer hanswer
  exact hold.holds.mpr ⟨(hold.running hnone).1, .inl hnone⟩

theorem mem_pending_of_cutOff (hs : Sound s) (hcut : CutOff s h) : h ∈ s.pending := by
  obtain ⟨answer, hanswer, -, hworking, hset⟩ := hcut
  exact (hs.answers h answer hanswer).holds.mpr ⟨hworking, .inr hset⟩

/-- Whom a call waits for: the handlers yet to answer, and those cut off and still working. -/
theorem mem_pending_iff (hs : Sound s) : h ∈ s.pending ↔ YetToAnswer s h ∨ CutOff s h := by
  refine ⟨fun hin => ?_, fun hor => hor.elim (mem_pending_of_yetToAnswer hs)
    (mem_pending_of_cutOff hs)⟩
  obtain ⟨answer, hanswer⟩ := Option.ne_none_iff_exists'.mp (hs.known h hin)
  have hold := hs.answers h answer hanswer
  obtain ⟨hworking, hnone | hset⟩ := hold.holds.mp hin
  · exact .inl ⟨answer, hanswer, hnone⟩
  · obtain ⟨due, hdue⟩ := Option.ne_none_iff_exists'.mp hset
    exact .inr ⟨answer, hanswer, (hold.overrun due hdue).1, hworking, hset⟩

/-- A call made outside every resident route, and not as a served request, as it is made. -/
theorem call_made (hs : Sound s) (hstep : step s (.call c false false) = some s') :
    ∃ call, s'.calls c = some call ∧ call.madeAt = s.clock ∧ call.pending = s.pending ∧
      call.outcome ≠ some .scope := by
  have hstepped := stepped_of_step hstep
  cases hstepped with
  | call hnew =>
    unfold EventLoop.residentRouteOfHostCall
    rw [if_neg (by nofun), if_neg (by nofun)]
    split_ifs with hempty
    · exact ⟨_, Function.update_self .., rfl, (List.eq_nil_of_length_eq_zero hempty).symm, nofun⟩
    · obtain ⟨-, -, hcalls, -⟩ := foldl_awaitGiven c s.pending
        (s.setCall c ⟨s.clock, s.pending, s.pending.length,
          some (s.clock + RESIDENT_ROUTE_ANSWER_WAIT_MS), none, none⟩) hs.nodup
      rw [hcalls]
      exact ⟨_, Function.update_self .., rfl, rfl, nofun⟩

/-- The handlers yet to answer as a call is made are yet to answer once it waits for them. -/
theorem YetToAnswer.of_call {onResidentRoute servesRequest : Bool} (hs : Sound s)
    (hyet : YetToAnswer s h) (hstep : step s (.call c onResidentRoute servesRequest) = some s') :
    YetToAnswer s' h := by
  obtain ⟨answer, hanswer, hnone⟩ := hyet
  obtain ⟨answer', hanswer', honward⟩ := (stepped_of_step hstep).handler hs hanswer
  refine ⟨answer', hanswer', (honward.first hnone).resolve_right ?_⟩
  rintro ⟨-, -, ⟨hanswers | hanswers, -⟩ | ⟨heq, -⟩⟩
  · cases hanswers
  · cases hanswers
  · cases heq

/-! ### Timers that fire at most so late -/

/-- No timer is more than so late. -/
structure Prompt (late : Int) (s : EventLoop) : Prop where
  deadline : ∀ h answer, s.handlers h = some answer → ∀ due ∈ answer.deadline, s.clock ≤ due + late
  overrun : ∀ h answer, s.handlers h = some answer → ∀ due ∈ answer.overrun, s.clock ≤ due + late
  wait : ∀ c call, s.calls c = some call → ∀ due ∈ call.timer, s.clock ≤ due + late

/-- A run of events in which no timer is ever more than so late. -/
def PromptRun (late clock : Int) (es : List Event) : Prop :=
  ∀ pre, pre <+: es → ∀ s, run (.start clock) pre = some s → Prompt late s

/-- What has been given was given in time, and what is undecided is within its wait. -/
structure Timed (late : Int) (s : EventLoop) : Prop where
  given : ∀ h answer, s.handlers h = some answer → answer.given ≠ none →
    ∃ t, answer.givenAt = some t ∧
      ∀ awaited ∈ answer.awaitedFrom, t ≤ awaited + RESIDENT_ROUTE_DEADLINE_MS + late
  undecided : ∀ c call, s.calls c = some call → call.outcome = none →
    s.clock ≤ call.madeAt + RESIDENT_ROUTE_ANSWER_WAIT_MS + late

theorem give_clock (answer : PendingAnswer) (inTime : Bool) :
    (s.give h answer inTime).clock = s.clock := by
  unfold EventLoop.give
  split <;> rfl

theorem resolve_clock (call : HostCall) (answered : Bool) :
    (s.resolve c call answered).clock = s.clock := by
  unfold EventLoop.resolve
  split <;> rfl

theorem Stepped.clock (hs : Sound s) (hstep : Stepped s e s') :
    s'.clock = s.clock ∨ s.jobs = [] ∧ s'.calls = s.calls := by
  cases hstep with
  | tick _ hidle => exact .inr ⟨hidle, rfl⟩
  | callHandler _ => exact .inl rfl
  | answerNow _ _ _ => exact .inl (give_clock ..)
  | inTime _ _ _ => exact .inl rfl
  | settle _ _ _ => exact .inl (give_clock ..)
  | deadline _ _ _ _ => exact .inl (give_clock ..)
  | overrun _ _ _ _ => exact .inl rfl
  | @call c onResidentRoute servesRequest hnew =>
    left
    unfold EventLoop.residentRouteOfHostCall
    split_ifs
    · rfl
    · rfl
    · rfl
    · obtain ⟨-, -, -, -, hclock⟩ := foldl_awaitGiven c s.pending
        (s.setCall c ⟨s.clock, s.pending, s.pending.length,
          some (s.clock + RESIDENT_ROUTE_ANSWER_WAIT_MS), none, none⟩) hs.nodup
      exact hclock
  | wait _ _ _ _ => exact .inl (resolve_clock ..)
  | @answerGiven c h inTime jobs _ =>
    left
    unfold EventLoop.answerGiven
    split
    · rfl
    · split_ifs
      · exact resolve_clock ..
      · exact resolve_clock ..
      · rfl
  | resume _ =>
    left
    unfold EventLoop.resume
    split <;> rfl

/-- A handler there is after an event was there before it, or has just been called. -/
theorem Stepped.handler_back (hs : Sound s) (hstep : Stepped s e s') {answer' : PendingAnswer}
    (hanswer' : s'.handlers h = some answer') (hnone : s.handlers h = none) :
    answer'.given = none := by
  have hne : ∀ {k : ℕ} {answer : PendingAnswer}, s.handlers k = some answer → h ≠ k := by
    rintro k answer hanswer rfl
    exact nomatch hnone.symm.trans hanswer
  have hgone : ∀ {s' : EventLoop}, s'.handlers h = s.handlers h → s'.handlers h = some answer' →
      answer'.given = none :=
    fun hsame hsome => nomatch (hsame.trans hnone).symm.trans hsome
  cases hstep with
  | tick => exact hgone rfl hanswer'
  | @callHandler k _ =>
    by_cases heq : h = k
    · subst heq
      rw [show (s.pendingAnswer h).handlers h = _ from Function.update_self ..] at hanswer'
      rw [← Option.some.inj hanswer']
    · exact hgone (Function.update_of_ne heq ..) hanswer'
  | answerNow hanswer _ _ => exact hgone (give_handlers_of_ne (hne hanswer) ..) hanswer'
  | inTime hanswer _ _ => exact hgone (Function.update_of_ne (hne hanswer) ..) hanswer'
  | settle hanswer _ _ => exact hgone (give_handlers_of_ne (hne hanswer) ..) hanswer'
  | deadline hanswer _ _ _ => exact hgone (give_handlers_of_ne (hne hanswer) ..) hanswer'
  | overrun hanswer _ _ _ => exact hgone (Function.update_of_ne (hne hanswer) ..) hanswer'
  | @call c onResidentRoute servesRequest _ =>
    unfold EventLoop.residentRouteOfHostCall at hanswer'
    split_ifs at hanswer'
    · exact hgone rfl hanswer'
    · exact hgone rfl hanswer'
    · exact hgone rfl hanswer'
    · obtain ⟨hhandlers, -⟩ := foldl_awaitGiven c s.pending
        (s.setCall c ⟨s.clock, s.pending, s.pending.length,
          some (s.clock + RESIDENT_ROUTE_ANSWER_WAIT_MS), none, none⟩) hs.nodup
      rw [hhandlers h, setCall_handlers, hnone, Option.map_none, ite_self] at hanswer'
      cases hanswer'
  | wait _ _ _ _ => exact hgone (congrFun (resolve_handlers ..) h) hanswer'
  | @answerGiven c k inTime jobs _ =>
    have hsame : ({ s with jobs }.answerGiven c inTime).handlers = s.handlers :=
      answerGiven_handlers inTime
    exact hgone (congrFun hsame h) hanswer'
  | @resume c jobs _ =>
    have hsame : ({ s with jobs }.resume c).handlers = s.handlers := resume_handlers
    exact hgone (congrFun hsame h) hanswer'

/-- A call there is after an event was there before it, or has just been made. -/
theorem Stepped.hostCall_back (hs : Sound s) (hstep : Stepped s e s') {call' : HostCall}
    (hcall' : s'.calls c = some call') (hnone : s.calls c = none) :
    call'.madeAt = s.clock := by
  have hne : ∀ {c' : ℕ} {call : HostCall}, s.calls c' = some call → c ≠ c' := by
    rintro c' call hcall rfl
    exact nomatch hnone.symm.trans hcall
  have hgone : ∀ {s' : EventLoop}, s'.calls c = s.calls c → s'.calls c = some call' →
      call'.madeAt = s.clock :=
    fun hsame hsome => nomatch (hsame.trans hnone).symm.trans hsome
  cases hstep with
  | tick => exact hgone rfl hcall'
  | callHandler _ => exact hgone rfl hcall'
  | answerNow _ _ _ => exact hgone (congrFun (give_calls ..) c) hcall'
  | inTime _ _ _ => exact hgone rfl hcall'
  | settle _ _ _ => exact hgone (congrFun (give_calls ..) c) hcall'
  | deadline _ _ _ _ => exact hgone (congrFun (give_calls ..) c) hcall'
  | overrun _ _ _ _ => exact hgone rfl hcall'
  | @call c' onResidentRoute servesRequest _ =>
    have hset : ∀ call : HostCall, call.madeAt = s.clock →
        Function.update s.calls c' (some call) c = some call' → call'.madeAt = s.clock := by
      intro call hmade hsome
      by_cases heq : c = c'
      · subst heq
        rw [Function.update_self] at hsome
        rw [← Option.some.inj hsome, hmade]
      · rw [Function.update_of_ne heq, hnone] at hsome
        cases hsome
    unfold EventLoop.residentRouteOfHostCall at hcall'
    split_ifs at hcall'
    · exact hset _ rfl hcall'
    · exact hset _ rfl hcall'
    · exact hset _ rfl hcall'
    · obtain ⟨-, -, hcalls, -⟩ := foldl_awaitGiven c' s.pending
        (s.setCall c' ⟨s.clock, s.pending, s.pending.length,
          some (s.clock + RESIDENT_ROUTE_ANSWER_WAIT_MS), none, none⟩) hs.nodup
      rw [hcalls] at hcall'
      exact hset _ rfl hcall'
  | wait hcall _ _ _ =>
    refine hgone ?_ hcall'
    rw [resolve_calls]
    exact Function.update_of_ne (hne hcall) ..
  | @answerGiven c' h inTime jobs hjobs =>
    obtain ⟨⟨call, hcall, -⟩, -⟩ := hs.jobs c' h inTime (hjobs ▸ List.mem_cons_self)
    refine hgone ?_ hcall'
    unfold EventLoop.answerGiven
    dsimp only
    rw [hcall]
    dsimp only
    split_ifs
    · rw [resolve_calls]
      exact Function.update_of_ne (hne hcall) ..
    · rw [resolve_calls]
      exact Function.update_of_ne (hne hcall) ..
    · exact Function.update_of_ne (hne hcall) ..
  | @resume c' jobs hjobs =>
    obtain ⟨call, hcall, -⟩ := hs.resumes c' (hjobs ▸ List.mem_cons_self)
    refine hgone ?_ hcall'
    unfold EventLoop.resume
    dsimp only
    rw [hcall]
    exact Function.update_of_ne (hne hcall) ..

/-- Where no timer is late by more than that, what is given and decided stays in time. -/
theorem Timed.stepped {late : Int} (ht : Timed late s) (hs : Sound s) (hlate : 0 ≤ late)
    (hbefore : Prompt late s) (hafter : Prompt late s') (hstep : Stepped s e s') :
    Timed late s' := by
  refine ⟨fun h answer' hanswer' hgiven => ?_, fun c call' hcall' hundecided => ?_⟩
  · match hanswer : s.handlers h with
    | none => exact absurd (hstep.handler_back hs hanswer' hanswer) hgiven
    | some answer =>
      obtain ⟨answer₁, hanswer₁, honward⟩ := hstep.handler hs hanswer
      obtain rfl := Option.some.inj (hanswer'.symm.trans hanswer₁)
      by_cases hopen : answer.given = none
      · -- its deadline was running when the answer was given
        obtain ⟨hat, hfrom, -⟩ := (honward.first hopen).resolve_left hgiven
        refine ⟨s.clock, hat, fun awaited hawaited => ?_⟩
        have hset := (hs.answers h answer hanswer).running hopen
        rw [← hfrom, show answer'.awaitedFrom = some awaited from hawaited] at hset
        exact hbefore.deadline h answer hanswer _ hset.2.2
      · obtain ⟨-, hat, hfrom⟩ := honward.given hopen
        rw [hat, hfrom]
        exact ht.given h answer hanswer hopen
  · match hcall : s.calls c with
    | none =>
      have hmade := hstep.hostCall_back hs hcall' hcall
      rcases hstep.clock hs with hclock | ⟨-, hsame⟩
      · rw [hmade, hclock]
        unfold RESIDENT_ROUTE_ANSWER_WAIT_MS
        omega
      · exact nomatch ((congrFun hsame c).trans hcall).symm.trans hcall'
    | some call =>
      obtain ⟨call₁, hcall₁, hkept⟩ := hstep.hostCall hs hcall
      obtain rfl := Option.some.inj (hcall'.symm.trans hcall₁)
      have hopen : call.outcome = none := by
        by_contra hset
        exact hset ((hkept.outcome hset).symm.trans hundecided)
      rcases hstep.clock hs with hclock | ⟨hidle, hsame⟩
      · rw [hkept.madeAt, hclock]
        exact ht.undecided c call hcall hopen
      · have heq : some call = some call' := by rw [← hcall, ← hcall', hsame]
        obtain rfl := Option.some.inj heq
        rcases (hs.calls c _ hcall).undecided hopen with ⟨-, htimer⟩ | ⟨-, hdue⟩
        · exact hafter.wait c _ hcall' _ htimer
        · rw [hidle] at hdue
          cases hdue

theorem timed_of_run {late clock : Int} (hlate : 0 ≤ late) {es : List Event}
    (hprompt : PromptRun late clock es) (hrun : run (.start clock) es = some s) : Timed late s := by
  -- over the events run so far, each of which leaves every timer prompt
  have hall : ∀ pre post, es = pre ++ post → ∀ s₀, run (.start clock) pre = some s₀ →
      Sound s₀ → Timed late s₀ → ∀ s, run s₀ post = some s → Timed late s := by
    intro pre post
    induction post generalizing pre with
    | nil =>
      intro _ s₀ _ _ ht s hrun
      obtain rfl := Option.some.inj hrun
      exact ht
    | cons e post ih =>
      intro heq s₀ hpre hs ht s hrun
      obtain ⟨s₁, hstep, hrest⟩ := run_cons hrun
      have hnext : run (.start clock) (pre ++ [e]) = some s₁ := by
        rw [run_append, hpre]
        show (step s₀ e).bind some = some s₁
        rw [hstep]
        rfl
      have hheq : es = (pre ++ [e]) ++ post := by rw [heq, List.append_assoc, List.singleton_append]
      have hstepped := stepped_of_step hstep
      exact ih _ hheq s₁ hnext (hs.stepped hstepped)
        (ht.stepped hs hlate (hprompt pre ⟨_, heq.symm⟩ s₀ hpre)
          (hprompt _ ⟨_, hheq.symm⟩ s₁ hnext) hstepped) s hrest
  refine hall [] es rfl (.start clock) rfl (sound_start clock) ⟨nofun, nofun⟩ s hrun

/-- No handler holds calls for longer than its deadline and its overrun together. -/
theorem held_of_prompt {late : Int} (ht : Timed late s) (hs : Sound s) (hlate : 0 ≤ late)
    (hprompt : Prompt late s) (hin : h ∈ s.pending) {answer : PendingAnswer}
    (hanswer : s.handlers h = some answer) {awaited : Int} (hawaited : answer.awaitedFrom = some awaited) :
    s.clock ≤ awaited + RESIDENT_ROUTE_DEADLINE_MS + RESIDENT_ROUTE_OVERRUN_MS + 2 * late := by
  have hold := hs.answers h answer hanswer
  obtain ⟨-, hnone | hset⟩ := hold.holds.mp hin
  · have hdeadline := (hold.running hnone).2.2
    rw [hawaited, Option.map_some] at hdeadline
    have hle := hprompt.deadline h answer hanswer _ hdeadline
    unfold RESIDENT_ROUTE_OVERRUN_MS
    omega
  · obtain ⟨due, hdue⟩ := Option.ne_none_iff_exists'.mp hset
    obtain ⟨hcut, hat⟩ := hold.overrun due hdue
    obtain ⟨t, ht', hle⟩ := ht.given h answer hanswer (by rw [hcut]; nofun)
    obtain rfl := Option.some.inj (hat.symm.trans ht')
    have hlast := hle awaited hawaited
    have hnow := hprompt.overrun h answer hanswer due hdue
    omega

/-! ### The calls made outside every resident route -/

/-- The state a run is in once a call has been made, and the run from there. -/
theorem exists_made {clock : Int} {before after : List Event}
    (hbefore : run (.start clock) before = some s₀)
    (hafter : run s₀ (.call c false false :: after) = some s) :
    Sound s₀ ∧ ∃ s₁, step s₀ (.call c false false) = some s₁ ∧ Sound s₁ ∧ run s₁ after = some s ∧
      ∃ call, s.calls c = some call ∧ call.madeAt = s₀.clock ∧ call.pending = s₀.pending ∧
        call.outcome ≠ some .scope := by
  have hs₀ := (sound_start clock).run hbefore
  obtain ⟨s₁, hstep, hrest⟩ := run_cons hafter
  have hs₁ := hs₀.step hstep
  obtain ⟨call₁, hcall₁, hmade, hpending, helsewhere⟩ := call_made hs₀ hstep
  obtain ⟨call, hcall, hpending', hmade', -, -, hkept⟩ := run_hostCall hs₁ hrest hcall₁
  exact ⟨hs₀, s₁, hstep, hs₁, hrest, call, hcall, hmade'.trans hmade, hpending'.trans hpending,
    hkept helsewhere⟩

theorem answersInTime_of_ahead {clock : Int} {before after : List Event}
    (hbefore : run (.start clock) before = some s₀)
    (hafter : run s₀ (.call c false false :: after) = some s) {call : HostCall}
    (hcall : s.calls c = some call) (hahead : call.outcome = some .ahead)
    (hyet : YetToAnswer s₀ h) : AnswersInTime h after := by
  obtain ⟨hs₀, s₁, hstep, hs₁, hrest, call', hcall', -, hpending, -⟩ :=
    exists_made hbefore hafter
  obtain rfl := Option.some.inj (hcall.symm.trans hcall')
  refine answersInTime_of_run hs₁ (hyet.of_call hs₀ hstep) hrest ?_
  refine ((hs₁.run hrest).calls c call hcall).ahead hahead h ?_
  rw [hpending]
  exact mem_pending_of_yetToAnswer hs₀ hyet

/-- A call whose completion a handler awaits never goes ahead: the handler would have answered before
it, and the call gone ahead before that. -/
theorem not_ahead_of_awaits {clock : Int} {before : List Event}
    (hbefore : run (.start clock) before = some s₀) {s₁ : EventLoop}
    (hstep : step s₀ (.call c false false) = some s₁) (hyet : YetToAnswer s₀ h) :
    ∀ {after : List Event} {s : EventLoop}, run s₁ after = some s → AwaitsCall s₁ h c after →
      ∀ {call : HostCall}, s.calls c = some call → call.outcome ≠ some .ahead := by
  intro after
  induction hlength : after.length using Nat.strong_induction_on generalizing after with
  | _ n ih =>
    subst hlength
    intro s hrun hawaits call hcall hahead
    have hafter : run s₀ (.call c false false :: after) = some s := by
      show (step s₀ _).bind _ = _
      rw [hstep]
      exact hrun
    obtain ⟨pre, e, post, rfl, hanswers, -⟩ :=
      answersInTime_of_ahead hbefore hafter hcall hahead hyet
    rw [run_append] at hrun
    obtain ⟨s₂, hpre, hpost⟩ := Option.bind_eq_some_iff.mp hrun
    obtain ⟨call₂, hcall₂, hdecided⟩ := hawaits pre e post rfl hanswers s₂ hpre
    -- decided by the time the handler answers, and so ahead by then
    have hs₁ := ((sound_start clock).run hbefore).step hstep
    obtain ⟨call', hcall', -, -, hsame, -⟩ := run_hostCall (hs₁.run hpre) hpost hcall₂
    obtain rfl := Option.some.inj (hcall.symm.trans hcall')
    refine ih pre.length ?_ rfl hpre (fun pre' e' post' heq hanswers' s' hpre' => ?_) hcall₂
      ((hsame hdecided).symm.trans hahead)
    · rw [List.length_append, List.length_cons]
      omega
    · exact hawaits pre' e' (post' ++ e :: post) (by rw [heq, List.append_assoc, List.cons_append])
        hanswers' s' hpre'

/-- **A call waits for the handlers it finds.**  It goes ahead only once every one that had yet to
answer has answered before its deadline ran out, never while one awaits it and never past one that is
cut off and still working; and it is decided within its wait. -/
theorem hostCall_waits {clock : Int} {before after : List Event}
    (hbefore : run (.start clock) before = some s₀)
    (hafter : run s₀ (.call c false false :: after) = some s) :
    ∃ call, s.calls c = some call ∧
      (call.outcome = some .ahead → ∀ h, YetToAnswer s₀ h → AnswersInTime h after) ∧
      (∀ h, YetToAnswer s₀ h →
        (∀ s₁, step s₀ (.call c false false) = some s₁ → AwaitsCall s₁ h c after) →
          call.outcome ≠ some .ahead) ∧
      (∀ h, CutOff s₀ h → ∀ outcome ∈ call.outcome, outcome = .refused) ∧
      (.wait c ∈ after → s.jobs = [] → call.outcome ≠ none) ∧
      (∀ h ∈ s.pending, YetToAnswer s h ∨ CutOff s h) ∧
      ∀ late, 0 ≤ late → PromptRun late clock (before ++ .call c false false :: after) →
        (call.outcome = none → s.clock ≤ s₀.clock + RESIDENT_ROUTE_ANSWER_WAIT_MS + late) ∧
        (call.outcome = some .ahead → ∀ h, YetToAnswer s₀ h → ∃ answer given,
          s.handlers h = some answer ∧ answer.givenAt = some given ∧
            ∀ awaited ∈ answer.awaitedFrom, given ≤ awaited + RESIDENT_ROUTE_DEADLINE_MS + late) ∧
        ∀ h ∈ s.pending, ∀ answer, s.handlers h = some answer →
          ∀ awaited ∈ answer.awaitedFrom, s.clock ≤
            awaited + RESIDENT_ROUTE_DEADLINE_MS + RESIDENT_ROUTE_OVERRUN_MS + 2 * late := by
  obtain ⟨hs₀, s₁, hstep, hs₁, hrest, call, hcall, hmade, hpending, helsewhere⟩ :=
    exists_made hbefore hafter
  have hs := hs₁.run hrest
  have hold := hs.calls c call hcall
  refine ⟨call, hcall, fun hahead h hyet => answersInTime_of_ahead hbefore hafter hcall hahead hyet,
    fun h hyet hawaits => not_ahead_of_awaits hbefore hstep hyet hrest (hawaits s₁ hstep) hcall,
    fun h hcut outcome houtcome => ?_, fun hwait hidle hundecided => ?_,
    fun h hin => (mem_pending_iff hs).mp hin, fun late hlate hprompt => ?_⟩
  · have hin : h ∈ call.pending := hpending ▸ mem_pending_of_cutOff hs₀ hcut
    cases outcome with
    | scope => exact absurd houtcome helsewhere
    | ahead => exact absurd (hold.ahead houtcome h hin) (not_givenInTime_of_cutOff hs₀ hcut hafter)
    | refused => rfl
  · obtain ⟨call₁, hcall₁, -⟩ := call_made hs₀ hstep
    obtain ⟨call', hcall', -, -, -, hanswered, -⟩ := run_hostCall hs₁ hrest hcall₁
    obtain rfl := Option.some.inj (hcall.symm.trans hcall')
    rcases hold.undecided hundecided with ⟨hnone, -⟩ | ⟨-, hdue⟩
    · exact hanswered (.inr hwait) hnone
    · rw [hidle] at hdue
      cases hdue
  · have hrun : run (.start clock) (before ++ .call c false false :: after) = some s := by
      rw [run_append, hbefore]
      exact hafter
    have htimed := timed_of_run hlate hprompt hrun
    have hnow := hprompt _ List.prefix_rfl s hrun
    refine ⟨fun hundecided => ?_, fun hahead h hyet => ?_, fun h hin answer hanswer awaited hawaited => ?_⟩
    · rw [← hmade]
      exact htimed.undecided c call hcall hundecided
    · have hin : h ∈ call.pending := hpending ▸ mem_pending_of_yetToAnswer hs₀ hyet
      obtain ⟨answer, hanswer, hgiven⟩ := hold.ahead hahead h hin
      obtain ⟨given, hat, hle⟩ := htimed.given h answer hanswer (by rw [hgiven]; nofun)
      exact ⟨answer, given, hanswer, hat, hle⟩
    · exact held_of_prompt htimed hs hlate hnow hin hanswer hawaited

/-- A handler answers a second after it is called, and the call that waited for it goes ahead. -/
theorem hostCall_waits_second : ∃ call,
    ((run (.start 0) [.callHandler 0, .inTime 0, .call 0 false false, .tick 1000, .settle 0, .job,
      .job]).bind fun s => s.calls 0) = some call ∧ call.outcome = some .ahead ∧
      AnswersInTime 0 [.tick 1000, .settle 0, .job, .job] := by
  have hrun : ∀ es : List Event, (run (.start 0) es).isSome → ∃ s, run (.start 0) es = some s :=
    fun es => Option.isSome_iff_exists.mp
  obtain ⟨s₀, hbefore⟩ := hrun [.callHandler 0, .inTime 0] (by decide)
  obtain ⟨s, hall⟩ := hrun ([.callHandler 0, .inTime 0] ++
    [.call 0 false false, .tick 1000, .settle 0, .job, .job]) (by decide)
  have hrun' : run (.start 0) [.callHandler 0, .inTime 0, .call 0 false false, .tick 1000,
    .settle 0, .job, .job] = some s := hall
  have hafter := hall
  rw [run_append, hbefore] at hafter
  obtain ⟨call, hcall, hahead, -⟩ := hostCall_waits hbefore hafter
  have houtcome : ((run (.start 0) [.callHandler 0, .inTime 0, .call 0 false false, .tick 1000,
      .settle 0, .job, .job]).bind fun s => (s.calls 0).bind (·.outcome)) = some .ahead := by decide
  have hyet : ((run (.start 0) [.callHandler 0, .inTime 0]).bind fun s =>
      (s.handlers 0).map (·.given)) = some none := by decide
  rw [hbefore, Option.bind_some, Option.map_eq_some_iff] at hyet
  rw [hrun', Option.bind_some, hcall, Option.bind_some] at houtcome
  refine ⟨call, ?_, houtcome, hahead houtcome 0 hyet⟩
  rw [hrun', Option.bind_some]
  exact hcall

end OpenBrf.Plugins
