import Mathlib.Data.List.Dedup
import OpenBrf.Registers.Reading

/-!
# Registers.PeriodPairing — where each event goes (`membership-periods.ts`)

Every EXIT ends one period, every ENTRY opens one or falls in one that is open, and one person's
periods follow one another.
-/

namespace OpenBrf.Registers

open Timeline RegisterRow

variable {Row : Type} {personId : String}

/-! ### One person's events -/

/-- The exits of the periods are the EXIT events, each once and in their order. -/
theorem exits_pairEvents : ∀ (es : List (ResolvedRegisterEvent Row))
    (opened : Option (ResolvedRegisterEvent Row)),
    (pairEvents personId opened es).filterMap (·.exit) = es.filter fun e => !e.isEntry
  | [], opened => by cases opened <;> rfl
  | e :: es, opened => by
    unfold pairEvents
    cases htype : e.eventType with
    | ENTRY =>
      have hentry : e.isEntry = true := by simp [ResolvedRegisterEvent.isEntry, htype]
      rw [List.filter_cons_of_neg (by simp [hentry])]
      exact exits_pairEvents es _
    | EXIT =>
      have hexit : e.isEntry = false := by simp [ResolvedRegisterEvent.isEntry, htype]
      rw [List.filter_cons_of_pos (by simp [hexit])]
      exact congrArg (e :: ·) (exits_pairEvents es none)

/-- The events of a period are among those it was paired from, its entry an ENTRY. -/
theorem mem_of_mem_pairEvents {period : MembershipPeriod Row} :
    ∀ {es : List (ResolvedRegisterEvent Row)} {opened : Option (ResolvedRegisterEvent Row)},
      period ∈ pairEvents personId opened es →
        (∀ entry ∈ period.entry, entry ∈ opened ∨ entry ∈ es ∧ entry.isEntry = true) ∧
          ∀ exit ∈ period.exit, exit ∈ es
  | [], opened, h => by
    obtain ⟨entry, hentry, rfl⟩ := List.mem_map.mp h
    refine ⟨fun entry' hentry' => .inl ?_, fun _ hexit => by cases hexit⟩
    rw [← Option.mem_some_iff.mp hentry']
    exact Option.mem_toList.mp hentry
  | e :: es, opened, h => by
    unfold pairEvents at h
    cases htype : e.eventType with
    | ENTRY =>
      have hentry : e.isEntry = true := by simp [ResolvedRegisterEvent.isEntry, htype]
      rw [htype] at h
      obtain ⟨hentries, hexits⟩ := mem_of_mem_pairEvents h
      refine ⟨fun entry hmem => ?_, fun exit hexit => List.mem_cons_of_mem _ (hexits exit hexit)⟩
      rcases hentries entry hmem with hopened | ⟨hlater, his⟩
      · cases opened with
        | none =>
          rw [← Option.mem_some_iff.mp hopened]
          exact .inr ⟨List.mem_cons_self, hentry⟩
        | some o => exact .inl hopened
      · exact .inr ⟨List.mem_cons_of_mem _ hlater, his⟩
    | EXIT =>
      rw [htype] at h
      rcases List.mem_cons.mp h with rfl | hlater
      · refine ⟨fun entry hmem => .inl hmem, fun exit hexit => ?_⟩
        rw [← Option.mem_some_iff.mp hexit]
        exact List.mem_cons_self
      · obtain ⟨hentries, hexits⟩ := mem_of_mem_pairEvents hlater
        refine ⟨fun entry hmem => ?_, fun exit hexit => List.mem_cons_of_mem _ (hexits exit hexit)⟩
        rcases hentries entry hmem with hnone | ⟨hmore, his⟩
        · cases hnone
        · exact .inr ⟨List.mem_cons_of_mem _ hmore, his⟩

/-- What is open is the entry of a period that ends with a later event, or does not end. -/
theorem exists_period_of_open (personId : String) {o : ResolvedRegisterEvent Row} :
    ∀ es : List (ResolvedRegisterEvent Row),
      ∃ period ∈ pairEvents personId (some o) es, period.entry = some o
  | [] => ⟨_, List.mem_cons_self, rfl⟩
  | e :: es => by
    unfold pairEvents
    cases e.eventType with
    | ENTRY => exact exists_period_of_open personId es
    | EXIT => exact ⟨_, List.mem_cons_self, rfl⟩

section Ordered

variable [RegisterRow Row]

/-- An ENTRY opens a period, or falls in one that an earlier ENTRY opened and that has not ended. -/
def Placed (periods : List (MembershipPeriod Row)) (e : ResolvedRegisterEvent Row) : Prop :=
  ∃ period ∈ periods, (period.entry = some e ∨ ∃ o ∈ period.entry, Chronological o e) ∧
    ∀ exit ∈ period.exit, Chronological e exit

theorem placed_pairEvents : ∀ (es : List (ResolvedRegisterEvent Row))
    (opened : Option (ResolvedRegisterEvent Row)), es.Pairwise Chronological →
    (∀ o ∈ opened, ∀ e ∈ es, Chronological o e) →
    ∀ e ∈ es, e.isEntry = true → Placed (pairEvents personId opened es) e
  | [], _, _, _, _, he, _ => by cases he
  | first :: es, opened, hsort, hopen, e, he, hentry => by
    obtain ⟨hfirst, hrest⟩ := List.pairwise_cons.mp hsort
    unfold pairEvents
    cases htype : first.eventType with
    | ENTRY =>
      dsimp only
      rcases List.mem_cons.mp he with rfl | hlater
      · -- the first opens a period, or falls in the one that is open
        cases opened with
        | none =>
          obtain ⟨period, hperiod, hopened⟩ := exists_period_of_open personId (o := e) es
          refine ⟨period, hperiod, .inl hopened, fun exit hexit => ?_⟩
          exact hfirst exit ((mem_of_mem_pairEvents hperiod).2 exit hexit)
        | some o =>
          obtain ⟨period, hperiod, hopened⟩ := exists_period_of_open personId (o := o) es
          refine ⟨period, hperiod, .inr ⟨o, hopened, hopen o rfl e he⟩, fun exit hexit => ?_⟩
          exact hfirst exit ((mem_of_mem_pairEvents hperiod).2 exit hexit)
      · refine placed_pairEvents es _ hrest (fun o ho e' he' => ?_) e hlater hentry
        cases opened with
        | none =>
          rw [← Option.mem_some_iff.mp ho]
          exact hfirst e' he'
        | some o' => exact hopen o ho e' (List.mem_cons_of_mem _ he')
    | EXIT =>
      rcases List.mem_cons.mp he with rfl | hlater
      · simp [ResolvedRegisterEvent.isEntry, htype] at hentry
      · obtain ⟨period, hperiod, hin⟩ := placed_pairEvents es none hrest
          (fun _ hnone => by cases hnone) e hlater hentry
        exact ⟨period, List.mem_cons_of_mem _ hperiod, hin⟩

/-- One period comes before another: it has ended by everything that is of the other. -/
def MembershipPeriod.Before (period later : MembershipPeriod Row) : Prop :=
  ∃ exit ∈ period.exit, (∀ entry ∈ later.entry, Chronological exit entry) ∧
    ∀ exit' ∈ later.exit, Chronological exit exit'

theorem pairwise_pairEvents (personId : String) : ∀ (es : List (ResolvedRegisterEvent Row))
    (opened : Option (ResolvedRegisterEvent Row)), es.Pairwise Chronological →
    (∀ o ∈ opened, ∀ e ∈ es, Chronological o e) →
    (pairEvents personId opened es).Pairwise MembershipPeriod.Before ∧
      ∀ period ∈ pairEvents personId opened es, ∀ entry ∈ period.entry, ∀ exit ∈ period.exit,
        Chronological entry exit
  | [], opened, _, _ => by
    cases opened with
    | none => exact ⟨.nil, fun _ h => by cases h⟩
    | some o =>
      refine ⟨List.pairwise_singleton _ _, fun period hperiod entry _ exit hexit => ?_⟩
      obtain rfl := List.mem_singleton.mp hperiod
      cases hexit
  | e :: es, opened, hsort, hopen => by
    obtain ⟨hfirst, hrest⟩ := List.pairwise_cons.mp hsort
    unfold pairEvents
    cases htype : e.eventType with
    | ENTRY =>
      refine pairwise_pairEvents personId es _ hrest fun o ho e' he' => ?_
      cases opened with
      | none =>
        rw [← Option.mem_some_iff.mp ho]
        exact hfirst e' he'
      | some o' => exact hopen o ho e' (List.mem_cons_of_mem _ he')
    | EXIT =>
      obtain ⟨hpairwise, hwithin⟩ := pairwise_pairEvents personId es none hrest
        fun _ hnone => by cases hnone
      refine ⟨.cons (fun period hperiod => ?_) hpairwise, fun period hperiod => ?_⟩
      · obtain ⟨hentries, hexits⟩ := mem_of_mem_pairEvents hperiod
        refine ⟨e, rfl, fun entry hentry => ?_, fun exit hexit => hfirst exit (hexits exit hexit)⟩
        rcases hentries entry hentry with hnone | ⟨hmem, -⟩
        · cases hnone
        · exact hfirst entry hmem
      · rcases List.mem_cons.mp hperiod with rfl | hlater
        · intro entry hentry exit hexit
          rw [← Option.mem_some_iff.mp hexit]
          exact hopen entry hentry e List.mem_cons_self
        · exact hwithin period hlater

/-! ### The periods of everybody -/

/-- The periods of one person. -/
def periodsOf (events : List (ResolvedRegisterEvent Row)) (personId : String) :
    List (MembershipPeriod Row) :=
  (membershipPeriods events).filter fun period => period.personId = personId

theorem nodup_eraseDups {α : Type} [DecidableEq α] : ∀ keys : List α, keys.eraseDups.Nodup
  | [] => List.nodup_nil
  | key :: keys => by
    rw [List.eraseDups_cons, List.nodup_cons]
    refine ⟨fun hmem => ?_, nodup_eraseDups _⟩
    rw [List.mem_eraseDups, List.mem_filter] at hmem
    simp at hmem
  termination_by keys => keys.length
  decreasing_by exact Nat.lt_succ_of_le (List.length_filter_le _ _)

theorem flatMap_of_nodup {α β : Type} [DecidableEq α] {f : α → List β} {a : α} :
    ∀ {keys : List α}, keys.Nodup → (∀ key ∈ keys, key ≠ a → f key = []) → (a ∉ keys → f a = []) →
      keys.flatMap f = f a
  | [], _, _, hnone => (hnone List.not_mem_nil).symm
  | key :: keys, hnodup, hother, hnone => by
    obtain ⟨hnot, hrest⟩ := List.nodup_cons.mp hnodup
    rw [List.flatMap_cons]
    by_cases heq : key = a
    · subst heq
      have hempty : keys.flatMap f = [] := by
        rw [List.flatMap_eq_nil_iff]
        exact fun key' hkey' => hother key' (List.mem_cons_of_mem _ hkey')
          fun hsame => hnot (hsame ▸ hkey')
      rw [hempty, List.append_nil]
    · rw [hother key List.mem_cons_self heq, List.nil_append]
      exact flatMap_of_nodup hrest (fun key' hkey' => hother key' (List.mem_cons_of_mem _ hkey'))
        fun hmissing => hnone fun hmem => by
          rcases List.mem_cons.mp hmem with rfl | hmem
          · exact heq rfl
          · exact hmissing hmem

/-- The periods of one person are paired from that person's events. -/
theorem periodsOf_eq (events : List (ResolvedRegisterEvent Row)) (personId : String) :
    periodsOf events personId = pairEvents personId none
      (chronologically (events.filter fun e => e.personId = personId)) := by
  have hselect : ∀ personId' : String,
      (pairEvents personId' none (chronologically (events.filter fun e => e.personId = personId'))
        ).filter (fun period => period.personId = personId) =
      if personId' = personId then
        pairEvents personId' none (chronologically (events.filter fun e => e.personId = personId'))
      else [] := by
    intro personId'
    split_ifs with hsame
    · exact List.filter_eq_self.mpr fun period hperiod =>
        decide_eq_true ((personId_of_mem_pairEvents hperiod).trans hsame)
    · exact List.filter_eq_nil_iff.mpr fun period hperiod hother =>
        hsame ((personId_of_mem_pairEvents hperiod).symm.trans (of_decide_eq_true hother))
  unfold periodsOf membershipPeriods
  rw [List.filter_flatMap]
  simp only [hselect]
  rw [flatMap_of_nodup (a := personId) (nodup_eraseDups _), if_pos rfl]
  · exact fun key _ hne => if_neg hne
  · intro hmissing
    have hnone : events.filter (fun e => e.personId = personId) = [] := by
      rw [List.filter_eq_nil_iff]
      intro e he hsame
      rw [List.mem_eraseDups, List.mem_map] at hmissing
      exact hmissing ⟨e, he, of_decide_eq_true hsame⟩
    rw [if_pos rfl, hnone]
    rfl

/-- **The pairing**, of any events: one person's EXITs each end one period, in their order; every
ENTRY is the start of a period or falls in one; the periods follow one another, each beginning before
it ends; a day is covered by at most one of them, and by one exactly when the last event on or before
the day is an ENTRY. -/
structure PairedInto (events : List (ResolvedRegisterEvent Row)) : Prop where
  exits : ∀ personId, (periodsOf events personId).filterMap (·.exit) =
    (chronologically (events.filter fun e => e.personId = personId)).filter fun e => !e.isEntry
  entries : ∀ personId, ∀ e ∈ events, e.personId = personId → e.isEntry = true →
    Placed (periodsOf events personId) e
  ordered : ∀ personId, (periodsOf events personId).Pairwise MembershipPeriod.Before
  within : ∀ personId, ∀ period ∈ periodsOf events personId, ∀ entry ∈ period.entry,
    ∀ exit ∈ period.exit, Chronological entry exit
  disjoint : ∀ personId day, (periodsOf events personId).Pairwise fun period later =>
    ¬(period.Covers day ∧ later.Covers day)
  lastEvent : ∀ personId day, (∃ period ∈ periodsOf events personId, period.Covers day) ↔
    lastSays none (chronologically (events.filter fun e => e.personId = personId)) day = true

theorem MembershipPeriod.Before.disjoint {period later : MembershipPeriod Row}
    (h : period.Before later) (day : Int) : ¬(period.Covers day ∧ later.Covers day) := by
  obtain ⟨exit, hexit, hentries, -⟩ := h
  rintro ⟨⟨-, hended⟩, ⟨entry, hentry, hbegun⟩, -⟩
  have hbefore := hended exit hexit
  have horder : exit.eventOn < entry.eventOn ∨
      exit.eventOn = entry.eventOn ∧ exit.createdAt ≤ entry.createdAt := hentries entry hentry
  omega

theorem pairedInto (events : List (ResolvedRegisterEvent Row)) : PairedInto events where
  exits personId := by
    rw [periodsOf_eq]
    exact exits_pairEvents _ _
  entries personId e he hperson hentry := by
    rw [periodsOf_eq]
    refine placed_pairEvents _ none (pairwise_chronologically _) (fun _ hnone => by cases hnone) e ?_
      hentry
    rw [mem_chronologically, List.mem_filter]
    exact ⟨he, decide_eq_true hperson⟩
  ordered personId := by
    rw [periodsOf_eq]
    exact (pairwise_pairEvents _ _ none (pairwise_chronologically _) fun _ hnone => by
      cases hnone).1
  within personId := by
    rw [periodsOf_eq]
    exact (pairwise_pairEvents _ _ none (pairwise_chronologically _) fun _ hnone => by
      cases hnone).2
  disjoint personId day := by
    rw [periodsOf_eq]
    refine (pairwise_pairEvents _ _ none (pairwise_chronologically _) fun _ hnone => by
      cases hnone).1.imp ?_
    exact fun h => h.disjoint day
  lastEvent personId day := by
    rw [periodsOf_eq]
    exact pairEvents_covers_iff personId day _ none (pairwise_chronologically _) fun _ hnone => by
      cases hnone

end Ordered

end OpenBrf.Registers
