import OpenBrf.Registers.StoreEffects

/-!
# Registers.Reconciliation — checking the register against the residencies
(`member-register-reconciliation.ts`)

The one-off repair of a register that disagrees with the residencies.  It only appends, so the
proof is again that of a sweep: the walk knows what each day of the archive settles, answers every
difference from what is held, and so reads as held from the first residency on.
-/

namespace OpenBrf.Registers

open Txn Timeline Shared

variable {Row : Type} [RegisterRow Row]

/-- What one person's register needs, as the comparison found it. -/
structure PersonReconciliation where
  /-- The rows that make the register read as the residencies do, in order. -/
  owed : List OwedMembershipEvent
  /-- Register rows the residencies cannot speak for. -/
  unverifiableRows : ℕ
  deriving DecidableEq, Repr

/-- The residency an EXIT names: the one that ended latest on or before the day. -/
def latestEnded (spans : List MemberResidencySpan) (day : Int) : Option MemberResidencySpan :=
  ((spans.filter fun span => span.movedOutOn.any (· ≤ day)).insertionSort
    fun left right => right.movedOutOn.getD 0 ≤ left.movedOutOn.getD 0).head?

/-- The apartment an appended row names. -/
def reconciledApartmentOf (spans : List MemberResidencySpan) (day : Int) (entry : Bool) :
    Except String String :=
  match if entry then entrySpan spans day else latestEnded spans day with
  | none => .error noResidencyBehind
  | some span => .ok span.apartmentId

/-- Takes the register's own rows up to and including a day, keeping what the last of them
says. -/
def absorb (day : Int) : Bool → List (ResolvedRegisterEvent Row) →
    Bool × List (ResolvedRegisterEvent Row)
  | registered, [] => (registered, [])
  | registered, e :: pending =>
    if e.eventOn ≤ day then absorb day e.isEntry pending else (registered, e :: pending)

/-- The walk of `reconcileMembership` over the days still to come. -/
def reconcileFrom (residencies : List MemberResidencySpan) :
    List (ResolvedRegisterEvent Row) → Bool → List Int → Except String (List OwedMembershipEvent)
  | _, _, [] => .ok []
  | pending, registered, day :: days => do
    let (registered, pending) := absorb day registered pending
    let held := heldOn residencies day
    if held = registered then
      reconcileFrom residencies pending registered days
    else
      let apartmentId ← reconciledApartmentOf residencies day held
      let owed ← reconcileFrom residencies pending held days
      return ⟨eventTypeOf held, day, apartmentId⟩ :: owed

/-- The day of the person's first `MEMBER` residency. -/
def firstHeld (residencies : List MemberResidencySpan) : Option Int :=
  (residencies.map fun span => span.movedInOn).min?

/-- The days the comparison visits: those a residency begins or ends on and those of the
register's events, from the first residency on. -/
def reconciledDays (events : List (ResolvedRegisterEvent Row))
    (residencies : List MemberResidencySpan) (first : Int) : List Int :=
  ((residencies.flatMap MemberResidencySpan.days ++
    events.map fun e => e.eventOn).dedup.filter (first ≤ ·)).insertionSort (· ≤ ·)

/-- The rows a register owes so that, from the person's first `MEMBER` residency on, it reads as
a member exactly on the days one is held. -/
def reconcileMembership (register : List Row) (residencies : List MemberResidencySpan) :
    Except String PersonReconciliation := do
  let events := resolveRegisterEvents register
  match firstHeld residencies with
  | none => return ⟨[], events.length⟩
  | some first =>
    let owed ← reconcileFrom residencies events false (reconciledDays events residencies first)
    return ⟨owed, (events.filter fun e => e.eventOn < first).length⟩

/-! ### The walk as a sweep -/

/-- What the walk knows a day to settle: on the first day, what the whole register before it
says. -/
def settledFrom (es : List (ResolvedRegisterEvent Row)) (first d : Int) : Option Bool :=
  if d ≤ first then (lastBy es d).map ResolvedRegisterEvent.isEntry
  else settles ResolvedRegisterEvent.isEntry es d

theorem absorb_eq (day : Int) : ∀ (es : List (ResolvedRegisterEvent Row)) (registered : Bool),
    es.Pairwise Chronological →
    absorb day registered es =
      (((es.filter fun e => e.eventOn ≤ day).getLast?.map
        ResolvedRegisterEvent.isEntry).getD registered, es.filter fun e => day < e.eventOn)
  | [], _, _ => rfl
  | e :: es, registered, hsort => by
    obtain ⟨he, hsort⟩ := List.pairwise_cons.mp hsort
    unfold absorb
    split_ifs with h
    · rw [absorb_eq day es _ hsort, List.filter_cons_of_pos (by simpa using h),
        List.filter_cons_of_neg (by simpa using h), List.getLast?_cons]
      cases (es.filter fun e => e.eventOn ≤ day).getLast? <;> rfl
    · have hafter : ∀ e' ∈ e :: es, day < e'.eventOn := by
        intro e' he'
        rcases List.mem_cons.mp he' with rfl | he'
        · omega
        · have := he e' he'
          unfold Chronological at this
          change e.eventOn < e'.eventOn ∨ e.eventOn = e'.eventOn ∧ _ at this
          omega
      rw [List.filter_eq_nil_iff.mpr fun e' he' => by have := hafter e' he'; simp; omega,
        List.filter_eq_self.mpr fun e' he' => by simpa using hafter e' he']
      rfl

/-- The row a day is owed, with the apartment the repair names. -/
def reconciledRow (residencies : List MemberResidencySpan) (row : Int × Bool) :
    Except String OwedMembershipEvent := do
  let apartmentId ← reconciledApartmentOf residencies row.1 row.2
  return ⟨eventTypeOf row.2, row.1, apartmentId⟩

theorem reconciledRow_ok {residencies : List MemberResidencySpan} {row : Int × Bool}
    {e : OwedMembershipEvent} (h : reconciledRow residencies row = .ok e) :
    ∃ apartmentId, reconciledApartmentOf residencies row.1 row.2 = .ok apartmentId ∧
      e = ⟨eventTypeOf row.2, row.1, apartmentId⟩ := by
  unfold reconciledRow at h
  cases hapt : reconciledApartmentOf residencies row.1 row.2 with
  | error message =>
    rw [hapt] at h
    cases h
  | ok apartmentId =>
    rw [hapt] at h
    exact ⟨apartmentId, rfl, (Except.ok.inj h).symm⟩

/-- The last of some events, as an entry or an exit. -/
abbrev lastIsEntry (es : List (ResolvedRegisterEvent Row)) : Option Bool :=
  es.getLast?.map ResolvedRegisterEvent.isEntry

theorem reconcileFrom_eq {residencies : List MemberResidencySpan} {G : Int → Option Bool} :
    ∀ (days : List Int) (pending : List (ResolvedRegisterEvent Row)) (registered : Bool),
      days.Pairwise (· < ·) → pending.Pairwise Chronological →
      (∀ d ∈ days.head?, G d = lastIsEntry (pending.filter fun e => e.eventOn ≤ d)) →
      (∀ d ∈ days.tail, G d = lastIsEntry (pending.filter fun e => e.eventOn = d)) →
      (∀ e ∈ pending, ∀ d ∈ days.head?, d < e.eventOn → e.eventOn ∈ days.tail) →
      reconcileFrom residencies pending registered days =
        (sweep G (heldOn residencies) registered days).mapM (reconciledRow residencies)
  | [], _, _, _, _, _, _, _ => rfl
  | d₀ :: days, pending, registered, hs, hsort, hhead, hrest, hlisted => by
    obtain ⟨h₀, hs⟩ := List.pairwise_cons.mp hs
    -- what is left of the register after this day is dated on the days that follow
    have ih : ∀ registered, reconcileFrom residencies
        (pending.filter fun e => d₀ < e.eventOn) registered days =
          (sweep G (heldOn residencies) registered days).mapM (reconciledRow residencies) := by
      intro registered
      refine reconcileFrom_eq days _ registered hs (hsort.filter _) ?_ ?_ ?_
      · intro d hd
        have hmem : d ∈ days := List.mem_of_mem_head? hd
        rw [hrest d hmem, List.filter_filter]
        congr 1
        refine List.filter_congr fun e he => ?_
        have hlt := h₀ d hmem
        have hfirst : e.eventOn ∈ days → d ≤ e.eventOn := by
          intro hday
          cases days with
          | nil => simp at hday
          | cons d₁ days =>
            obtain rfl : d₁ = d := by simpa using hd
            rcases List.mem_cons.mp hday with heq | hday
            · exact heq.ge
            · exact ((List.pairwise_cons.mp hs).1 _ hday).le
        rw [Bool.eq_iff_iff]
        simp only [decide_eq_true_eq, Bool.and_eq_true]
        constructor
        · rintro rfl
          exact ⟨le_rfl, hlt⟩
        · rintro ⟨hle, hgt⟩
          exact le_antisymm hle (hfirst (hlisted e he d₀ rfl hgt))
      · intro d hd
        have hmem : d ∈ days := List.mem_of_mem_tail hd
        rw [hrest d hmem, List.filter_filter]
        congr 1
        refine List.filter_congr fun e _ => ?_
        have hlt := h₀ d hmem
        rw [Bool.eq_iff_iff]
        simp only [decide_eq_true_eq, Bool.and_eq_true]
        exact ⟨fun heq => ⟨heq, heq ▸ hlt⟩, And.left⟩
      · intro e he d hd hlt
        obtain ⟨he, hgt⟩ := List.mem_filter.mp he
        have hday := hlisted e he d₀ rfl (of_decide_eq_true hgt)
        cases days with
        | nil => simp at hd
        | cons d₁ days =>
          obtain rfl : d₁ = d := by simpa using hd
          rcases List.mem_cons.mp hday with heq | hday
          · omega
          · exact hday
    have hbase : (lastIsEntry (pending.filter fun e => e.eventOn ≤ d₀)).getD registered =
        (G d₀).getD registered := by rw [hhead d₀ rfl]
    unfold reconcileFrom sweep
    rw [absorb_eq d₀ pending registered hsort, hbase]
    dsimp only
    split_ifs with h
    · rw [ih, h]
    · simp only [List.mapM_cons, ih, reconciledRow, bind_assoc, pure_bind]

/-! ### The rows the comparison owes -/

theorem mem_reconciledDays {es : List (ResolvedRegisterEvent Row)}
    {residencies : List MemberResidencySpan} {first d : Int} :
    d ∈ reconciledDays es residencies first ↔ first ≤ d ∧
      (d ∈ residencies.flatMap MemberResidencySpan.days ∨ ∃ e ∈ es, e.eventOn = d) := by
  unfold reconciledDays
  rw [List.mem_insertionSort, List.mem_filter, List.mem_dedup, List.mem_append, List.mem_map,
    decide_eq_true_eq, and_comm]

section FirstHeld

variable {residencies : List MemberResidencySpan} {first : Int}
  (hfirst : firstHeld residencies = some first) (hcounted : FIRST_COUNTED_DAY ≤ first)

include hfirst

theorem exists_first : ∃ span ∈ residencies, span.movedInOn = first := by
  simpa using List.min?_mem hfirst

theorem first_le {span : MemberResidencySpan} (h : span ∈ residencies) :
    first ≤ span.movedInOn :=
  (List.min?_eq_some_iff.mp hfirst).2 _ (List.mem_map_of_mem h)

theorem covered_of_lt_first {d : Int} (hd : d < first) : covered residencies d = false := by
  rw [covered_eq_false]
  intro span hspan
  rw [← Bool.not_eq_true, MemberResidencySpan.covers_iff]
  rintro ⟨hin, -⟩
  have := first_le hfirst hspan
  omega

include hcounted in
/-- From the first residency on, an apartment to name is always found. -/
theorem reconciledApartmentOf_ok {d : Int} (hd : first ≤ d) :
    ∃ apartmentId, reconciledApartmentOf residencies d (covered residencies d) = .ok apartmentId := by
  have hfound : ∃ span, (if covered residencies d = true then entrySpan residencies d
      else latestEnded residencies d) = some span := by
    rw [← Option.isSome_iff_exists]
    split_ifs with h
    · obtain ⟨span, hspan, hheld⟩ := covered_iff.mp h
      unfold entrySpan
      have hon : span.isHeldOn d = true := (span.isHeldOn_eq (hcounted.trans hd)).trans hheld
      have hfound : (residencies.find? fun span => span.isHeldOn d).isSome := by
        rw [List.find?_isSome]
        exact ⟨span, hspan, hon⟩
      rw [Option.isSome_or, hfound, Bool.or_true]
    · obtain ⟨span, hspan, rfl⟩ := exists_first hfirst
      have hended : span.movedOutOn.any (· ≤ d) = true := by
        rw [Bool.not_eq_true, covered_eq_false] at h
        have hn := h span hspan
        rw [← Bool.not_eq_true, MemberResidencySpan.covers_iff] at hn
        cases hm : span.movedOutOn with
        | none => exact absurd ⟨hd, by simp [hm]⟩ hn
        | some m =>
          simp only [Option.any_some, decide_eq_true_eq]
          by_contra hlt
          exact hn ⟨hd, fun m' hm' => by
            rw [hm, Option.mem_some_iff] at hm'
            omega⟩
      unfold latestEnded
      rw [List.isSome_head?, ne_eq, ← List.length_eq_zero_iff, List.length_insertionSort,
        List.length_eq_zero_iff]
      exact List.ne_nil_of_mem (List.mem_filter.mpr ⟨hspan, hended⟩)
  obtain ⟨span, hspan⟩ := hfound
  exact ⟨span.apartmentId, by unfold reconciledApartmentOf; rw [hspan]⟩

/-- The first residency's day is the first day visited. -/
theorem reconciledDays_eq_cons (es : List (ResolvedRegisterEvent Row)) :
    ∃ days, reconciledDays es residencies first = first :: days := by
  have hmem : first ∈ reconciledDays es residencies first := by
    obtain ⟨span, hspan, hin⟩ := exists_first hfirst
    exact mem_reconciledDays.mpr ⟨le_rfl, .inl (List.mem_flatMap.mpr ⟨span, hspan,
      MemberResidencySpan.mem_days.mpr (.inl hin.symm)⟩)⟩
  have hsorted : (reconciledDays es residencies first).Pairwise (· < ·) :=
    pairwise_lt_insertionSort ((List.nodup_dedup _).filter _)
  cases hdays : reconciledDays es residencies first with
  | nil =>
    rw [hdays] at hmem
    simp at hmem
  | cons d days =>
    have hd : first ≤ d := (mem_reconciledDays.mp (hdays ▸ List.mem_cons_self : d ∈ _)).1
    rw [hdays] at hmem hsorted
    rcases List.mem_cons.mp hmem with rfl | hmem
    · exact ⟨days, rfl⟩
    · have := (List.pairwise_cons.mp hsorted).1 first hmem
      omega

/-- The row the comparison owes a day: none before the first residency. -/
def repairOn (es : List (ResolvedRegisterEvent Row)) (residencies : List MemberResidencySpan)
    (first d : Int) : Option Bool :=
  if first ≤ d then rowOn (settledFrom es first) (covered residencies) d else none

/-- The sweep behind the comparison of a register read in order. -/
abbrev reconcileSweep (es : List (ResolvedRegisterEvent Row))
    (residencies : List MemberResidencySpan) (first : Int) : List (Int × Bool) :=
  sweep (settledFrom es first) (covered residencies) false (reconciledDays es residencies first)

include hcounted in
theorem reconcileFrom_eq_sweep {es : List (ResolvedRegisterEvent Row)}
    (hes : es.Pairwise Chronological) :
    reconcileFrom residencies es false (reconciledDays es residencies first) =
      (reconcileSweep es residencies first).mapM (reconciledRow residencies) := by
  have hidem : chronologically es = es := hes.insertionSort_eq
  have hlt : (reconciledDays es residencies first).Pairwise (· < ·) :=
    pairwise_lt_insertionSort ((List.nodup_dedup _).filter _)
  obtain ⟨days, hdays⟩ := reconciledDays_eq_cons hfirst es
  -- no day before the first is visited, and from the year 100 on held is covered
  have hheld : ∀ d ∈ reconciledDays es residencies first, heldOn residencies d = covered residencies d :=
    fun d hd => heldOn_eq (hcounted.trans (mem_reconciledDays.mp hd).1)
  unfold reconcileSweep
  rw [← sweep_congr (fun d _ => rfl) hheld]
  refine reconcileFrom_eq _ es false hlt hes ?_ ?_ ?_
  · rw [hdays]
    rintro d ⟨⟩
    unfold settledFrom lastBy
    rw [if_pos le_rfl, hidem]
    rfl
  · rw [hdays] at hlt ⊢
    intro d hd
    have hgt : ¬ d ≤ first := not_le.mpr ((List.pairwise_cons.mp hlt).1 d hd)
    unfold settledFrom settles lastOn
    rw [if_neg hgt, hidem]
    rfl
  · intro e he d hd hgt
    have hday : e.eventOn ∈ reconciledDays es residencies first := by
      rw [hdays, List.head?_cons, Option.mem_some_iff] at hd
      exact mem_reconciledDays.mpr ⟨by omega, .inr ⟨e, he, rfl⟩⟩
    rw [hdays, List.head?_cons, Option.mem_some_iff] at hd
    rw [hdays] at hday ⊢
    rcases List.mem_cons.mp hday with heq | h
    · omega
    · exact h

theorem mem_reconcileSweep (es : List (ResolvedRegisterEvent Row)) (d : Int) (v : Bool) :
    (d, v) ∈ reconcileSweep es residencies first ↔ repairOn es residencies first d = some v := by
  have hlt : (reconciledDays es residencies first).Pairwise (· < ·) :=
    pairwise_lt_insertionSort ((List.nodup_dedup _).filter _)
  have hheld : ∀ d, first ≤ d → d ∉ reconciledDays es residencies first →
      covered residencies d = covered residencies (d - 1) := fun d hle hd =>
    covered_pred fun h => hd (mem_reconciledDays.mpr ⟨hle, .inl h⟩)
  rw [mem_sweep _ first false hlt (fun d hd => (mem_reconciledDays.mp hd).1) hheld
    (covered_of_lt_first hfirst (by omega)).symm]
  unfold repairOn rowOn
  constructor
  · rintro ⟨hd, rfl, hne⟩
    rw [if_pos (mem_reconciledDays.mp hd).1, if_neg hne]
  · intro h
    split_ifs at h with hle heq
    refine ⟨?_, (Option.some.inj h).symm, heq⟩
    -- on a day that is not visited nothing is settled and nothing changes
    by_contra hd
    have hne : d ≠ first := by
      obtain ⟨days, hdays⟩ := reconciledDays_eq_cons hfirst es
      rintro rfl
      exact hd (hdays ▸ List.mem_cons_self)
    have hevents : ∀ e ∈ es, e.eventOn ≠ d := fun e he heq' =>
      hd (mem_reconciledDays.mpr ⟨hle, .inr ⟨e, he, heq'⟩⟩)
    refine heq ?_
    unfold settledFrom
    rw [if_neg (by omega), (settles_eq_none _).mpr hevents]
    exact hheld d hle hd

include hcounted in
/-- **What the comparison owes**: it always finds the apartments, and a row is owed exactly on
the days, from the first residency on, that do not read as they are held. -/
theorem exists_reconcileMembership (register : List Row) :
    ∃ result, reconcileMembership register residencies = .ok result ∧
      (∀ e ∈ result.owed, ∃ v, repairOn (resolveRegisterEvents register) residencies first
        e.eventOn = some v ∧ e.eventType = eventTypeOf v) ∧
      ∀ d v, repairOn (resolveRegisterEvents register) residencies first d = some v →
        ∃ e ∈ result.owed, e.eventOn = d := by
  set es := resolveRegisterEvents register with hes
  have hsorted : es.Pairwise Chronological := pairwise_chronologically _
  have hwalk := reconcileFrom_eq_sweep hfirst hcounted hsorted
  obtain ⟨owed, howed⟩ :
      ∃ owed, (reconcileSweep es residencies first).mapM (reconciledRow residencies) =
        .ok owed := by
    refine mapM_ok fun row hrow => ?_
    have hrepair := (mem_reconcileSweep hfirst es row.1 row.2).mp hrow
    unfold repairOn rowOn at hrepair
    split_ifs at hrepair with hle heq
    obtain ⟨apartmentId, hapt⟩ := reconciledApartmentOf_ok hfirst hcounted hle
    refine ⟨⟨eventTypeOf row.2, row.1, apartmentId⟩, ?_⟩
    unfold reconciledRow
    rw [← Option.some.inj hrepair, hapt]
    rfl
  refine ⟨⟨owed, (es.filter fun e => e.eventOn < first).length⟩, ?_, ?_, ?_⟩
  · unfold reconcileMembership
    dsimp only
    rw [hfirst]
    dsimp only
    rw [← hes, hwalk, howed]
    rfl
  · intro e he
    obtain ⟨⟨d, v⟩, hmem, hrow⟩ := (mem_of_mapM_ok howed e).mp he
    obtain ⟨apartmentId, -, rfl⟩ := reconciledRow_ok hrow
    exact ⟨v, (mem_reconcileSweep hfirst es d v).mp hmem, rfl⟩
  · intro d v hv
    have hmem := (mem_reconcileSweep hfirst es d v).mpr hv
    obtain ⟨e, he⟩ := ok_of_mapM_ok howed (d, v) hmem
    obtain ⟨apartmentId, -, rfl⟩ := reconciledRow_ok he
    exact ⟨_, (mem_of_mapM_ok howed _).mpr ⟨(d, v), hmem, he⟩, rfl⟩

/-! ### The register after the repair -/

variable {register rows : List MemberRegisterArchiveRow} {personId : String} {createdAt : Int}
  {result : PersonReconciliation}

omit hfirst in
/-- In a register of one person's rows every event is theirs. -/
theorem eventsOf_self (hregister : ∀ row ∈ register, row.personId = personId) :
    eventsOf register personId = resolveRegisterEvents register := by
  unfold eventsOf
  rw [List.filter_eq_self]
  intro e he
  unfold resolveRegisterEvents at he
  rw [mem_chronologically] at he
  obtain ⟨row, hrow, hres⟩ := List.mem_filterMap.mp he
  have : e.personId = row.personId := by
    unfold ResolvedRegisterEvent.personId
    rw [row_of_resolveRow hres]
    rfl
  rw [this, hregister row hrow, decide_eq_true_iff]

include hcounted in
/-- The rows the comparison owes settle the days it owes them. -/
theorem settles_repair (hresult : reconcileMembership register residencies = .ok result)
    (hrows : List.Forall₂ (Records personId createdAt) result.owed rows) :
    settles ResolvedRegisterEvent.isEntry
        ((rows.map plainEvent).filter fun e => e.personId = personId) =
      repairOn (resolveRegisterEvents register) residencies first := by
  obtain ⟨result', hresult', howed, hdays⟩ := exists_reconcileMembership hfirst hcounted register
  obtain rfl : result' = result := Except.ok.inj (hresult'.symm.trans hresult)
  exact settles_records hrows howed hdays

include hcounted in
/-- **After the repair** the register reads as it did before the first residency, and from it on
as a member exactly on the days a residency is held. -/
theorem repaired_reads (hregister : ∀ row ∈ register, row.personId = personId)
    (hresult : reconcileMembership register residencies = .ok result)
    (hrows : List.Forall₂ (Records personId createdAt) result.owed rows)
    (happ : AppendedTo register rows) :
    (∀ d, first ≤ d → readsAsMember (register ++ rows) personId d = covered residencies d) ∧
      ∀ d, d < first →
        readsAsMember (register ++ rows) personId d = readsAsMember register personId d := by
  set es := resolveRegisterEvents register with hes
  have hsettles := settles_repair hfirst hcounted hresult hrows
  have hbelow : ∀ d, d < first →
      readsAsMember (register ++ rows) personId d = readsAsMember register personId d := by
    intro d hd
    refine happ.readsAsMember_lt first (fun e he => ?_) hd
    rw [hsettles]
    unfold repairOn
    rw [if_neg (not_le.mpr he)]
  have hE : ∀ d, settledOn register personId d = settles ResolvedRegisterEvent.isEntry es d := by
    intro d
    unfold settledOn
    rw [eventsOf_self hregister]
  have hR : ∀ d, first ≤ d → readsAsMember (register ++ rows) personId d =
      ((rowOn (settledFrom es first) (covered residencies) d).or
        (settledOn register personId d)).getD
          (readsAsMember (register ++ rows) personId (d - 1)) := by
    intro d hd
    rw [readsAsMember_reads (register ++ rows) personId d, happ.settledOn_append, hsettles]
    unfold repairOn
    rw [if_pos hd]
  refine ⟨reads_target hR ?_ ?_, hbelow⟩
  · rw [hbelow _ (by omega), covered_of_lt_first hfirst (by omega), hE]
    unfold settledFrom readsAsMember reads settles
    rw [if_pos le_rfl, eventsOf_self hregister, lastBy_eq]
    cases lastOn es first <;> cases lastBy es (first - 1) <;> rfl
  · intro d hd
    unfold settledFrom
    rw [if_neg (by omega), hE]

/-- A register that reads as held from the first residency on is owed nothing. -/
theorem repairOn_eq_none (hregister : ∀ row ∈ register, row.personId = personId)
    (hreads : ∀ d, first ≤ d → readsAsMember register personId d = covered residencies d) (d : Int) :
    repairOn (resolveRegisterEvents register) residencies first d = none := by
  unfold repairOn rowOn
  split_ifs with hle heq
  · rfl
  · refine absurd ?_ heq
    have hread := readsAsMember_reads register personId d
    unfold settledFrom
    rcases hle.eq_or_lt with rfl | hlt
    · have hprev : covered residencies (first - 1) = false := covered_of_lt_first hfirst (by omega)
      rw [if_pos le_rfl, hprev, ← hreads first le_rfl]
      unfold readsAsMember reads
      rw [eventsOf_self hregister]
      cases lastBy (resolveRegisterEvents register) first <;> rfl
    · rw [if_neg (by omega), ← hreads d hle, ← hreads (d - 1) (by omega), hread]
      unfold settledOn
      rw [eventsOf_self hregister]
  · rfl

include hcounted in
theorem reconcileMembership_of_reads (hregister : ∀ row ∈ register, row.personId = personId)
    (hreads : ∀ d, first ≤ d → readsAsMember register personId d = covered residencies d)
    (hresult : reconcileMembership register residencies = .ok result) : result.owed = [] := by
  obtain ⟨result', hresult', howed, -⟩ := exists_reconcileMembership hfirst hcounted register
  obtain rfl : result' = result := Except.ok.inj (hresult'.symm.trans hresult)
  refine List.eq_nil_iff_forall_not_mem.mpr fun e he => ?_
  obtain ⟨v, hv, -⟩ := howed e he
  rw [repairOn_eq_none hfirst hregister hreads] at hv
  cases hv

end FirstHeld

/-- A person with no `MEMBER` residency is owed nothing. -/
theorem reconcileMembership_none {register : List Row} {residencies : List MemberResidencySpan}
    (h : firstHeld residencies = none) : reconcileMembership register residencies =
      .ok ⟨[], (resolveRegisterEvents register).length⟩ := by
  unfold reconcileMembership
  dsimp only
  rw [h]
  rfl

/-- **The repair of any register**, against residencies that begin from the year 100 on.  The
comparison finds an apartment for every row it owes.
Once those rows are appended, under ids no row names and stamped later than every row there is,
each day from the first residency on reads as a member exactly when a residency is held, the days
before it read as they did, and a second comparison owes nothing. -/
theorem reconcile_converges (register : List MemberRegisterArchiveRow)
    (residencies : List MemberResidencySpan) (personId : String)
    (hregister : ∀ row ∈ register, row.personId = personId)
    (hcounted : ∀ span ∈ residencies, FIRST_COUNTED_DAY ≤ span.movedInOn) :
    ∃ result, reconcileMembership register residencies = .ok result ∧
      ∀ (createdAt : Int) (rows : List MemberRegisterArchiveRow),
        List.Forall₂ (Records personId createdAt) result.owed rows →
        (∀ row ∈ rows, row.id ∉ superseded register) →
        (∀ row ∈ register, row.createdAt < createdAt) →
        (∀ first ∈ firstHeld residencies, ∀ d, first ≤ d →
          readsAsMember (register ++ rows) personId d = covered residencies d) ∧
        (∀ d, (∀ first ∈ firstHeld residencies, d < first) →
          readsAsMember (register ++ rows) personId d = readsAsMember register personId d) ∧
        ∃ second, reconcileMembership (register ++ rows) residencies = .ok second ∧
          second.owed = [] := by
  cases hfirst : firstHeld residencies with
  | none =>
    refine ⟨_, reconcileMembership_none hfirst, fun createdAt rows hrows _ _ => ?_⟩
    obtain rfl : rows = [] := List.forall₂_nil_left_iff.mp hrows
    refine ⟨nofun, fun d _ => by rw [List.append_nil], ?_⟩
    exact ⟨_, reconcileMembership_none hfirst, rfl⟩
  | some first =>
    have hcounted : FIRST_COUNTED_DAY ≤ first := by
      obtain ⟨span, hspan, rfl⟩ := exists_first hfirst
      exact hcounted span hspan
    obtain ⟨result, hresult, -⟩ := exists_reconcileMembership hfirst hcounted register
    refine ⟨result, hresult, fun createdAt rows hrows hfresh hlater => ?_⟩
    have happ := appendedTo_of_records hrows hfresh hlater
    obtain ⟨hfrom, hbelow⟩ := repaired_reads hfirst hcounted hregister hresult hrows happ
    have hregister' : ∀ row ∈ register ++ rows, row.personId = personId := by
      intro row hrow
      rcases List.mem_append.mp hrow with hrow | hrow
      · exact hregister row hrow
      · obtain ⟨event, -, hr⟩ := exists_records hrows hrow
        exact hr.personId
    obtain ⟨second, hsecond, -⟩ := exists_reconcileMembership hfirst hcounted (register ++ rows)
    refine ⟨?_, fun d hd => hbelow d (hd first rfl), second, hsecond,
      reconcileMembership_of_reads hfirst hcounted hregister' hfrom hsecond⟩
    rintro _ ⟨⟩
    exact hfrom

/-- 1001 held from day 10 to day 15 and 1002 from day 12 on. -/
def bothFlats : List MemberResidencySpan := [⟨"1001", 10, some 15⟩, ⟨"1002", 12, none⟩]

/-- An archive that lists the EXIT of day 15 and no ENTRY for 1002. -/
def missingEntry : List MemberRegisterArchiveRow :=
  [⟨⟨"e1", "anna", .ENTRY, 10, none, 1⟩, some "1001", "Anna", "Berg", none, none, none, none⟩,
    ⟨⟨"e2", "anna", .EXIT, 15, none, 2⟩, some "1001", "Anna", "Berg", none, none, none, none⟩]

/-- The repair appends the ENTRY of day 15, leaves the days before the first home as they read, and
has nothing to append the second time. -/
theorem reconcile_converges_missingEntry :
    ∃ row, (∀ d, 10 ≤ d → readsAsMember (missingEntry ++ [row]) "anna" d = covered bothFlats d) ∧
      (∀ d, d < 10 → readsAsMember (missingEntry ++ [row]) "anna" d =
        readsAsMember missingEntry "anna" d) ∧
      ∃ second, reconcileMembership (missingEntry ++ [row]) bothFlats = .ok second ∧
        second.owed = [] := by
  obtain ⟨result, hresult, hrows⟩ :=
    reconcile_converges missingEntry bothFlats "anna" (by decide) (by decide)
  have howed : (reconcileMembership missingEntry bothFlats).toOption.map (·.owed) =
      some [⟨.ENTRY, 15, "1002"⟩] := by decide +kernel
  rw [hresult] at howed
  have hevent : result.owed = [⟨.ENTRY, 15, "1002"⟩] := Option.some.inj howed
  obtain ⟨hfrom, hbelow, hsecond⟩ := hrows 3 [memberRegisterRow "e3" 3 ⟨"anna", "Anna", "Berg", none,
      none, none, none, none, none, none, none, none⟩ none ⟨.ENTRY, 15, "1002"⟩]
    (hevent ▸ List.Forall₂.cons ⟨rfl, rfl, rfl, rfl, rfl, rfl⟩ .nil) (by decide) (by decide)
  refine ⟨_, hfrom 10 (by decide), fun d hd => hbelow d ?_, hsecond⟩
  intro first hfirst
  obtain rfl : 10 = first := by simpa [firstHeld, bothFlats] using hfirst
  exact hd

/-- 1001 held through the year 50, which `Date.UTC` takes for 1950. -/
def yearFifty : List MemberResidencySpan :=
  [⟨"1001", (⟨50, 1, 1⟩ : LocalDay).number, some (⟨51, 1, 1⟩ : LocalDay).number⟩]

/-- The ENTRY of it. -/
def enteredInFifty : List MemberRegisterArchiveRow :=
  [⟨⟨"e1", "anna", .ENTRY, (⟨50, 1, 1⟩ : LocalDay).number, none, 1⟩, some "1001", "Anna", "Berg",
    none, none, none, none⟩]

/-- An EXIT is owed on the day the home begins, and no residency has ended by it. -/
theorem yearFifty_unanswered :
    ¬ ∀ (register : List MemberRegisterArchiveRow) (residencies : List MemberResidencySpan)
      (personId : String), (∀ row ∈ register, row.personId = personId) →
      ∃ result, reconcileMembership register residencies = .ok result := by
  intro h
  obtain ⟨result, hresult⟩ := h enteredInFifty yearFifty "anna" (by decide)
  have herror : reconcileMembership enteredInFifty yearFifty = .error noResidencyBehind := by
    decide +kernel
  rw [herror] at hresult
  cases hresult

end OpenBrf.Registers
