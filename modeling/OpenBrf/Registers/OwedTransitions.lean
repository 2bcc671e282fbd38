import OpenBrf.Registers.StoreEffects

/-!
# Registers.OwedTransitions — a change of residencies and the register it leaves

A change adds residencies and ends ones that were open.  It is always answered, and a register that
held the transitions of what was held before reads as what is held after.
-/

namespace OpenBrf.Registers

open Timeline RegisterRow Shared

/-! ### A change -/

/-- A residency after a change: as it was, or given an end no earlier than it began. -/
def MemberResidencySpan.EndedAs (span span' : MemberResidencySpan) : Prop :=
  span' = span ∨ span.movedOutOn = none ∧ ∃ movedOutOn, span.movedInOn ≤ movedOutOn ∧
    span' = { span with movedOutOn := some movedOutOn }

/-- Residencies are added, and open ones ended; they are read in any order. -/
def Changes (before after : List MemberResidencySpan) : Prop :=
  ∃ kept added, List.Forall₂ MemberResidencySpan.EndedAs before kept ∧ after.Perm (kept ++ added)

variable {before after : List MemberResidencySpan}

theorem Changes.exists_after (h : Changes before after) {span : MemberResidencySpan}
    (hspan : span ∈ before) : ∃ span' ∈ after, span.EndedAs span' := by
  obtain ⟨kept, added, hkept, hperm⟩ := h
  have hin : ∃ span' ∈ kept, span.EndedAs span' := by
    clear hperm
    induction hkept with
    | nil => cases hspan
    | cons hended _ ih =>
      rcases List.mem_cons.mp hspan with rfl | hlater
      · exact ⟨_, List.mem_cons_self, hended⟩
      · obtain ⟨span', hspan', hended'⟩ := ih hlater
        exact ⟨span', List.mem_cons_of_mem _ hspan', hended'⟩
  obtain ⟨span', hspan', hended⟩ := hin
  exact ⟨span', hperm.mem_iff.mpr (List.mem_append_left _ hspan'), hended⟩

/-- A row is owed on a day when what is covered is not what the register reads there. -/
theorem owedOn_eq_some {d : Int} {v : Bool} (h : owedOn before after d = some v) :
    covered after d = v ∧ (registeredRow before d = none ∧ covered after (d - 1) = !v ∨
      registeredRow before d = some (!v)) := by
  unfold owedOn rowOn at h
  split_ifs at h with hsame
  obtain rfl := Option.some.inj h
  refine ⟨rfl, ?_⟩
  cases hrow : registeredRow before d with
  | none =>
    rw [hrow, Option.getD_none] at hsame
    refine .inl ⟨rfl, ?_⟩
    revert hsame
    cases covered after d <;> cases covered after (d - 1) <;> simp
  | some u =>
    rw [hrow, Option.getD_some] at hsame
    refine .inr ?_
    revert hsame
    cases covered after d <;> cases u <;> simp

/-- The residency behind a row that is owed. -/
theorem Changes.exists_span (h : Changes before after) (hcounted : CountedDays before) {d : Int}
    {v : Bool} (howed : owedOn before after d = some v) :
    if v then ∃ span ∈ after, span.covers d = true else ∃ span ∈ after, span.movedOutOn = some d := by
  obtain ⟨hafter, hregister⟩ := owedOn_eq_some howed
  cases v with
  | true => exact covered_iff.mp hafter
  | false =>
    rcases hregister with ⟨-, hprev⟩ | hrow
    · exact exists_movedOutOn hafter hprev
    · -- the register's own row says a membership begins on the day; what began it has been ended
      obtain ⟨span, hspan, hbegins, hheld⟩ :=
        exists_movedInOn (registeredRow_eq_some hrow) (hcounted.not_covered_before hrow)
      obtain ⟨span', hspan', hended⟩ := h.exists_after hspan
      have hnot := covered_eq_false.mp hafter span' hspan'
      rcases hended with rfl | ⟨-, movedOutOn, hle, rfl⟩
      · rw [hheld] at hnot
        cases hnot
      · refine ⟨_, hspan', ?_⟩
        rw [← Bool.not_eq_true, MemberResidencySpan.covers_iff] at hnot
        have hlast : ¬d < movedOutOn := fun hlt => hnot ⟨hbegins.le, fun m hm => by
          rw [← Option.mem_some_iff.mp hm]
          exact hlt⟩
        have hday : movedOutOn = d := by omega
        rw [hday]

/-! ### The search for an apartment -/

theorem apartmentOf_ok {spans : List MemberResidencySpan} {d : Int} {v : Bool}
    (hd : FIRST_COUNTED_DAY ≤ d)
    (h : if v then ∃ span ∈ spans, span.covers d = true
      else ∃ span ∈ spans, span.movedOutOn = some d) :
    ∃ apartmentId, apartmentOf spans d v = .ok apartmentId := by
  unfold apartmentOf
  cases v with
  | true =>
    obtain ⟨span, hspan, hheld⟩ := h
    have hsome : (entrySpan spans d).isSome := by
      unfold entrySpan
      rw [Option.isSome_or, Bool.or_eq_true, List.find?_isSome, List.find?_isSome]
      exact .inr ⟨span, hspan, (span.isHeldOn_eq hd).trans hheld⟩
    obtain ⟨found, hfound⟩ := Option.isSome_iff_exists.mp hsome
    exact ⟨found.apartmentId, by simp [hfound]⟩
  | false =>
    obtain ⟨span, hspan, hends⟩ := h
    have hsome : (spans.find? fun span => span.movedOutOn = some d).isSome := by
      rw [List.find?_isSome]
      exact ⟨span, hspan, decide_eq_true hends⟩
    obtain ⟨found, hfound⟩ := Option.isSome_iff_exists.mp hsome
    exact ⟨found.apartmentId, by simp [hfound]⟩

/-- The residency a row names: one held on the day of an ENTRY, one ended on the day of an EXIT. -/
theorem span_of_apartmentOf {spans : List MemberResidencySpan} {d : Int} {v : Bool}
    (hd : FIRST_COUNTED_DAY ≤ d) {apartmentId : String}
    (h : apartmentOf spans d v = .ok apartmentId) :
    ∃ span ∈ spans, span.apartmentId = apartmentId ∧
      if v then span.covers d = true else span.movedOutOn = some d := by
  unfold apartmentOf at h
  cases v with
  | true =>
    dsimp only at h
    rw [if_pos rfl] at h
    cases hspan : entrySpan spans d with
    | none =>
      rw [hspan] at h
      cases h
    | some span =>
      rw [hspan] at h
      unfold entrySpan at hspan
      rcases Option.or_eq_some_iff.mp hspan with hfirst | ⟨-, hany⟩
      · have hfound := List.find?_some hfirst
        exact ⟨span, List.mem_of_find?_eq_some hfirst, Except.ok.inj h,
          (span.isHeldOn_eq hd).symm.trans (Bool.and_eq_true_iff.mp hfound).2⟩
      · have hfound := List.find?_some hany
        exact ⟨span, List.mem_of_find?_eq_some hany, Except.ok.inj h,
          (span.isHeldOn_eq hd).symm.trans hfound⟩
  | false =>
    dsimp only at h
    rw [if_neg Bool.false_ne_true] at h
    cases hspan : spans.find? fun span => span.movedOutOn = some d with
    | none =>
      rw [hspan] at h
      cases h
    | some span =>
      rw [hspan] at h
      have hfound := List.find?_some hspan
      exact ⟨span, List.mem_of_find?_eq_some hspan, Except.ok.inj h, of_decide_eq_true hfound⟩

/-! ### The rows of a change -/

/-- What was held before the change began and ended on days what is held after it does. -/
theorem Changes.forall_days (h : Changes before after) {P : Int → Prop}
    (hafter : ∀ d ∈ after.flatMap MemberResidencySpan.days, P d) :
    ∀ d ∈ before.flatMap MemberResidencySpan.days, P d := by
  intro d hd
  obtain ⟨span, hspan, hday⟩ := List.mem_flatMap.mp hd
  obtain ⟨span', hspan', hended⟩ := h.exists_after hspan
  refine hafter d (List.mem_flatMap.mpr ⟨span', hspan', ?_⟩)
  rw [MemberResidencySpan.mem_days] at hday ⊢
  rcases hended with rfl | ⟨hopen, movedOutOn, -, rfl⟩
  · exact hday
  · rw [hopen] at hday
    exact .inl (hday.resolve_right nofun)

theorem Changes.owed_ok (h : Changes before after) (hcounted : CountedDays after) :
    ∃ owed, owedMembershipEvents before after = .ok owed := by
  have hbefore : CountedDays before := h.forall_days hcounted
  unfold owedMembershipEvents
  rw [owedFrom_eq]
  refine mapM_ok fun row hrow => ?_
  obtain ⟨d, v⟩ := row
  have howed := (mem_owedSweep hbefore hcounted d v).mp hrow
  obtain ⟨apartmentId, hfound⟩ :=
    apartmentOf_ok (le_of_owedOn hbefore hcounted howed) (h.exists_span hbefore howed)
  refine ⟨⟨eventTypeOf v, d, apartmentId⟩, ?_⟩
  unfold owedRow
  rw [hfound]
  rfl

/-- Residencies that begin and end after the first day counted. -/
def AfterFirst (spans : List MemberResidencySpan) : Prop :=
  ∀ d ∈ spans.flatMap MemberResidencySpan.days, FIRST_COUNTED_DAY < d

theorem AfterFirst.counted {spans : List MemberResidencySpan} (h : AfterFirst spans) :
    CountedDays spans := fun d hd => (h d hd).le

/-- After the first day counted the register's own rows are the days on which what is covered
changes. -/
theorem AfterFirst.owedOn_eq (hbefore : AfterFirst before) (hafter : AfterFirst after) :
    owedOn before after = rowOn (changes (covered before)) (covered after) := by
  funext d
  by_cases hfirst : d = FIRST_COUNTED_DAY
  · have hnone : ∀ {spans}, AfterFirst spans → ∀ e ≤ d, covered spans e = false := fun h e he =>
      covered_of_lt fun day hday => (he.trans_eq hfirst).trans_lt (h day hday)
    have hrow : (registeredRow before d).getD false = false := by
      cases hcase : registeredRow before d with
      | none => rfl
      | some v => exact (registeredRow_eq_some hcase).symm.trans (hnone hbefore d le_rfl)
    unfold owedOn rowOn changes
    rw [hnone hbefore d le_rfl, hnone hbefore (d - 1) (by omega), hnone hafter d le_rfl,
      hnone hafter (d - 1) (by omega), hrow]
    rfl
  · unfold owedOn rowOn registeredRow
    rw [if_neg hfirst]

/-- The ENTRY and EXIT rows a person has are exactly the days on which what is held begins or
ends. -/
def HoldsTransitions (entries : List MemberRegisterArchiveRow) (personId : String)
    (before : List MemberResidencySpan) : Prop :=
  ∀ d v, (∃ e ∈ eventsOf entries personId, e.eventOn = d ∧ e.isEntry = v) ↔
    changes (covered before) d = some v

theorem HoldsTransitions.settledOn_eq {entries : List MemberRegisterArchiveRow} {personId : String}
    (h : HoldsTransitions entries personId before) :
    settledOn entries personId = changes (covered before) := by
  refine settles_eq _ (fun e he => ?_) (fun d v hv => ?_)
  · exact (h e.eventOn e.isEntry).mp ⟨e, he, rfl, rfl⟩
  · obtain ⟨e, he, hday, -⟩ := (h d v).mpr hv
    exact ⟨e, he, hday⟩

/-- With the rows owed appended, the register reads as what is held after the change. -/
theorem reads_after_owed {entries rows : List MemberRegisterArchiveRow} {personId : String}
    {createdAt : Int} {owed : List OwedMembershipEvent}
    (hbefore : AfterFirst before) (hafter : AfterFirst after)
    (howed : owedMembershipEvents before after = .ok owed)
    (hholds : HoldsTransitions entries personId before)
    (hrows : List.Forall₂ (Records personId createdAt) owed rows)
    (hfresh : ∀ row ∈ rows, row.id ∉ superseded entries)
    (hlater : ∀ row ∈ entries, row.createdAt < createdAt) (d : Int) :
    readsAsMember (entries ++ rows) personId d = covered after d := by
  have happ := appendedTo_of_records hrows hfresh hlater
  have hsettled : settledOn (entries ++ rows) personId =
      fun d => (rowOn (changes (covered before)) (covered after) d).or (changes (covered before) d) := by
    funext d
    rw [happ.settledOn_append, settles_owed hbefore.counted hafter.counted howed hrows,
      hbefore.owedOn_eq hafter, hholds.settledOn_eq]
  have hreads := readsAsMember_reads (entries ++ rows) personId
  rw [hsettled] at hreads
  -- before every row and every residency nobody is a member
  obtain ⟨lo, hlo⟩ := exists_before_all (((entries ++ rows).map fun row => row.eventOn) ++
    (before ++ after).flatMap MemberResidencySpan.days)
  have hunread : ∀ e < lo, readsAsMember (entries ++ rows) personId e = false := by
    intro e he
    refine readsAsMember_of_lt fun row hrow => ?_
    exact he.trans_le (hlo row.eventOn (List.mem_append_left _ (List.mem_map_of_mem hrow)))
  have hunheld : ∀ e < lo, covered after e = false := by
    intro e he
    refine covered_of_lt fun day hday => he.trans_le (hlo day (List.mem_append_right _ ?_))
    rw [List.flatMap_append]
    exact List.mem_append_right _ hday
  rcases lt_or_ge d lo with hlt | hfrom
  · rw [hunread d hlt, hunheld d hlt]
  · have hlow : (changes (covered before) lo).getD (covered after (lo - 1)) =
        (changes (covered before) lo).getD (readsAsMember (entries ++ rows) personId (lo - 1)) := by
      rw [hunread _ (by omega), hunheld _ (by omega)]
    exact reads_target (fun e _ => hreads e) hlow (fun _ _ => rfl) d hfrom

/-- Residencies that are the same, in whatever order, owe nothing. -/
theorem owed_of_perm (h : before.Perm after) (hbefore : AfterFirst before) :
    owedMembershipEvents before after = .ok [] := by
  have hafter : AfterFirst after := fun d hd => by
    obtain ⟨span, hspan, hday⟩ := List.mem_flatMap.mp hd
    exact hbefore d (List.mem_flatMap.mpr ⟨span, h.mem_iff.mpr hspan, hday⟩)
  have hcovered : covered before = covered after := by
    funext d
    rw [Bool.eq_iff_iff, covered_iff, covered_iff]
    simp only [h.mem_iff]
  have hnone : ∀ d, owedOn before after d = none := by
    intro d
    rw [hbefore.owedOn_eq hafter]
    unfold rowOn changes
    rw [hcovered]
    by_cases hsame : covered after d = covered after (d - 1)
    · rw [if_pos hsame, Option.getD_none, if_pos hsame]
    · rw [if_neg hsame, Option.getD_some, if_pos rfl]
  have hempty : sweep (registeredOn before) (heldOn after) false
      (sortedDays ((before ++ after).flatMap MemberResidencySpan.days)) = [] := by
    rw [List.eq_nil_iff_forall_not_mem]
    rintro ⟨d, v⟩ hrow
    have hsome := (mem_owedSweep hbefore.counted hafter.counted d v).mp hrow
    rw [hnone] at hsome
    cases hsome
  unfold owedMembershipEvents
  rw [owedFrom_eq, hempty]
  rfl

/-- **What a change of residencies owes**, from the year 100 on.  It is always answered: every EXIT
names a residency that ends on its day, every ENTRY one that is held on it.  After the first of
January of that year, a register that held the transitions of the residencies before, with the rows
appended, reads on every day as what is held after, and the same residencies owe nothing. -/
theorem owed_of_change :
    (∀ before after, Changes before after → CountedDays after →
      ∃ owed, owedMembershipEvents before after = .ok owed ∧
        (∀ e ∈ owed, ∃ span ∈ after, span.apartmentId = e.apartmentId ∧ match e.eventType with
          | .ENTRY => span.covers e.eventOn = true
          | .EXIT => span.movedOutOn = some e.eventOn) ∧
        (AfterFirst after → ∀ entries rows personId createdAt,
          HoldsTransitions entries personId before →
          List.Forall₂ (Records personId createdAt) owed rows →
          (∀ row ∈ rows, row.id ∉ superseded entries) →
          (∀ row ∈ entries, row.createdAt < createdAt) →
          ∀ d, readsAsMember (entries ++ rows) personId d = covered after d)) ∧
    ∀ before after : List MemberResidencySpan, before.Perm after → AfterFirst before →
      owedMembershipEvents before after = .ok [] := by
  refine ⟨fun before after hchanges hcounted => ?_, fun before after => owed_of_perm⟩
  have hbefore : CountedDays before := hchanges.forall_days hcounted
  obtain ⟨owed, howed⟩ := hchanges.owed_ok hcounted
  refine ⟨owed, howed, fun e he => ?_, fun hlater entries rows personId createdAt hholds hrows hfresh
    hstamps => reads_after_owed (hchanges.forall_days hlater) hlater howed hholds hrows hfresh hstamps⟩
  obtain ⟨v, hv, htype, hfound⟩ := (mem_owed hbefore hcounted howed e).mp he
  obtain ⟨span, hspan, hnamed, hday⟩ :=
    span_of_apartmentOf (le_of_owedOn hbefore hcounted hv) hfound
  refine ⟨span, hspan, hnamed, ?_⟩
  rw [htype]
  cases v with
  | true => exact hday
  | false => exact hday

/-- Anna, as the register records her. -/
def annaBerg : Person :=
  ⟨"anna", "Anna", "Berg", none, none, none, none, none, none, none, none, none⟩

/-- The register of a home held from day 5 on. -/
def enteredOnFive : List MemberRegisterArchiveRow :=
  [memberRegisterRow "e1" 1 annaBerg none ⟨.ENTRY, 5, "1001"⟩]

theorem holds_enteredOnFive : HoldsTransitions enteredOnFive "anna" [⟨"1001", 5, none⟩] := by
  have hevents : (eventsOf enteredOnFive "anna").map (fun e => (e.eventOn, e.isEntry)) =
      [(5, true)] := by decide +kernel
  have hcovered : ∀ d : Int, covered [⟨"1001", 5, none⟩] d = decide (5 ≤ d) := by
    intro d
    rw [Bool.eq_iff_iff, covered_iff]
    simp [MemberResidencySpan.covers_iff]
  intro d v
  have hrow : (∃ e ∈ eventsOf enteredOnFive "anna", e.eventOn = d ∧ e.isEntry = v) ↔
      (d, v) ∈ (eventsOf enteredOnFive "anna").map fun e => (e.eventOn, e.isEntry) := by
    rw [List.mem_map]
    simp only [Prod.mk.injEq]
  rw [hrow, hevents, List.mem_singleton, Prod.mk.injEq]
  unfold changes
  rw [hcovered, hcovered]
  constructor
  · rintro ⟨rfl, rfl⟩
    decide
  · intro h
    split_ifs at h with hsame
    have hv := Option.some.inj h
    have hday : d = 5 := by
      by_contra hne
      exact hsame (decide_eq_decide.mpr (by omega))
    subst hday
    exact ⟨rfl, hv.symm⟩

/-- A home held from day 5, and then given up on day 9 for one held from day 12: the EXIT names the
first, the register reads nobody in between, and the order of the homes owes nothing. -/
theorem owed_of_change_movedOver :
    (∃ owed, owedMembershipEvents [⟨"1001", 5, none⟩] [⟨"1001", 5, some 9⟩, ⟨"1002", 12, none⟩] =
        .ok owed ∧ owed = [⟨.EXIT, 9, "1001"⟩, ⟨.ENTRY, 12, "1002"⟩] ∧
      (∀ e ∈ owed, e.eventType = .EXIT → ∃ span ∈ [(⟨"1001", 5, some 9⟩ : MemberResidencySpan),
        ⟨"1002", 12, none⟩], span.movedOutOn = some e.eventOn) ∧
      ∀ d, readsAsMember (enteredOnFive ++ [memberRegisterRow "e2" 2 annaBerg none
          ⟨.EXIT, 9, "1001"⟩, memberRegisterRow "e3" 2 annaBerg none ⟨.ENTRY, 12, "1002"⟩]) "anna" d =
        covered [⟨"1001", 5, some 9⟩, ⟨"1002", 12, none⟩] d) ∧
    owedMembershipEvents [⟨"1001", 5, some 9⟩, ⟨"1002", 12, none⟩]
      [⟨"1002", 12, none⟩, ⟨"1001", 5, some 9⟩] = .ok [] := by
  have hchanges : Changes [⟨"1001", 5, none⟩] [⟨"1001", 5, some 9⟩, ⟨"1002", 12, none⟩] :=
    ⟨[⟨"1001", 5, some 9⟩], [⟨"1002", 12, none⟩],
      .cons (.inr ⟨rfl, 9, by decide, rfl⟩) .nil, .refl _⟩
  obtain ⟨owed, howed, hnames, hreads⟩ := owed_of_change.1 _ _ hchanges (by unfold CountedDays; decide)
  have hrows : owedMembershipEvents [⟨"1001", 5, none⟩] [⟨"1001", 5, some 9⟩, ⟨"1002", 12, none⟩] =
      .ok [⟨.EXIT, 9, "1001"⟩, ⟨.ENTRY, 12, "1002"⟩] := by decide +kernel
  obtain rfl := Except.ok.inj (howed.symm.trans hrows)
  refine ⟨⟨_, howed, rfl, fun e he hexit => ?_, ?_⟩,
    owed_of_change.2 _ _ (.swap ..) (by unfold AfterFirst; decide)⟩
  · obtain ⟨span, hspan, -, hday⟩ := hnames e he
    rw [hexit] at hday
    exact ⟨span, hspan, hday⟩
  · refine hreads (by unfold AfterFirst; decide) enteredOnFive _ "anna" 2 holds_enteredOnFive ?_
      (by decide) (by decide)
    have hrec : ∀ id event, Records "anna" 2 event (memberRegisterRow id 2 annaBerg none event) :=
      fun id event => records_memberRegisterRow id 2 annaBerg none event
    exact .cons (hrec _ _) (.cons (hrec _ _) .nil)

/-- A home held from the first of January of the year 100 on, unchanged, is owed an ENTRY: the day
before is read as the last of 1999. -/
theorem firstDay_owed :
    ¬ ∀ before after : List MemberResidencySpan, before.Perm after →
      owedMembershipEvents before after = .ok [] := by
  intro h
  have hsame := h [⟨"1001", FIRST_COUNTED_DAY, none⟩] _ (.refl _)
  have howed : owedMembershipEvents [⟨"1001", FIRST_COUNTED_DAY, none⟩]
      [⟨"1001", FIRST_COUNTED_DAY, none⟩] = .ok [⟨.ENTRY, FIRST_COUNTED_DAY, "1001"⟩] := by
    decide +kernel
  rw [howed] at hsame
  cases hsame

end OpenBrf.Registers
