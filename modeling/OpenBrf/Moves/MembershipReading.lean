import OpenBrf.Moves.Effects

/-!
# Moves.MembershipReading — the register against what is held, over every run of moves

Each move appends rows written after every earlier one, so an appended row settles its day.  An
older row settles its day too, and a move that changes what is held around that day without
changing it on that day leaves the row standing.  So does a move out on the first of January of the
year 100, whose day before is read as one of 1999.  `reads_held_iff` says exactly which moves do.
-/

namespace OpenBrf.Moves

open Txn Registers Timeline Shared

/-! ### One appended change -/

/-- What is held, by the residencies of a table. -/
def memberHeld (s : Store) (personId : String) (d : Int) : Bool :=
  covered (memberSpans s.residencies personId) d

/-- The register reads everybody as a member exactly on the days they hold a residency as one. -/
def ReadsHeld (s : Store) : Prop :=
  ∀ personId d, readsAsMember s.memberRegisterEntries personId d = memberHeld s personId d

/-- The archive and the residencies of a run of moves: rows that are plain, ids that are keys, days
of the year 100 and later. -/
structure Sound (s : Store) : Prop where
  entries : PlainRows s.memberRegisterEntries
  ids : (s.residencies.map fun r => r.id).Nodup
  dated : ∀ r ∈ s.residencies, FIRST_COUNTED_DAY ≤ r.movedInOn ∧
    ∀ m ∈ r.movedOutOn, FIRST_COUNTED_DAY ≤ m

theorem Sound.counted {s : Store} (h : Sound s) (personId : String) :
    CountedDays (memberSpans s.residencies personId) := by
  intro d hd
  obtain ⟨span, hspan, hday⟩ := List.mem_flatMap.mp hd
  obtain ⟨r, hr, -, -, rfl⟩ := mem_memberSpans.mp hspan
  obtain ⟨hin, hout⟩ := h.dated r hr
  rcases MemberResidencySpan.mem_days.mp hday with rfl | hm
  · exact hin
  · exact hout d hm

/-- Rows appended after plain ones, each stamped later. -/
theorem appendedTo {entries rows : List MemberRegisterArchiveRow} {personId : String}
    {createdAt : Int} {role : ResidencyRole} {before after : List MemberResidencySpan}
    (hplain : PlainRows entries) (hstamp : ∀ e ∈ entries, e.createdAt < createdAt)
    (h : AppendsOwed personId createdAt role before after rows) : AppendedTo entries rows := by
  cases role with
  | MEMBER =>
    obtain ⟨owed, -, hrows⟩ := h.member rfl
    exact appendedTo_of_records hrows (by simp [hplain.superseded]) hstamp
  | RESIDENT =>
    rw [h.resident rfl]
    exact ⟨by simp, by simp, by simp, by simp⟩

/-- The rows of a change are about the person who moved, and a member's. -/
theorem AppendsOwed.about {personId other : String} {createdAt : Int} {role : ResidencyRole}
    {before after : List MemberResidencySpan} {rows : List MemberRegisterArchiveRow}
    (h : AppendsOwed personId createdAt role before after rows) {row : MemberRegisterArchiveRow}
    (hrow : row ∈ rows) (hne : personId ≠ other ∨ role ≠ .MEMBER) : row.personId ≠ other := by
  cases role with
  | MEMBER =>
    obtain ⟨owed, -, hrows⟩ := h.member rfl
    obtain ⟨event, -, hr⟩ := exists_records hrows hrow
    rw [hr.personId]
    simpa using hne
  | RESIDENT =>
    rw [h.resident rfl] at hrow
    simp at hrow

theorem PlainRows.append {entries rows : List MemberRegisterArchiveRow} (h : PlainRows entries)
    (happ : AppendedTo entries rows) : PlainRows (entries ++ rows) := by
  refine ⟨fun row hrow => ?_, fun row hrow => ?_⟩
  · rcases List.mem_append.mp hrow with hrow | hrow
    · exact h.eventType row hrow
    · exact happ.plain row hrow
  · rcases List.mem_append.mp hrow with hrow | hrow
    · exact h.correctsEntryId row hrow
    · exact happ.correctsNone row hrow

/-- Rows about other persons leave the reading of a person as it was. -/
theorem readsAsMember_append_other {entries rows : List MemberRegisterArchiveRow}
    {personId : String} (h : AppendedTo entries rows) (hother : ∀ row ∈ rows, row.personId ≠ personId)
    (d : Int) : readsAsMember (entries ++ rows) personId d = readsAsMember entries personId d := by
  have hnil : (rows.map plainEvent).filter (fun e => e.personId = personId) = [] := by
    rw [List.filter_eq_nil_iff]
    intro e he
    obtain ⟨row, hrow, rfl⟩ := List.mem_map.mp he
    exact fun heq => hother row hrow (of_decide_eq_true heq)
  refine h.readsAsMember_lt (d + 1) (fun _ _ => ?_) (by omega)
  rw [hnil]
  rfl

/-- On the first day counted no row is owed where what is held after is what the register's own row
says, or nobody holds anything. -/
theorem owedOn_first {before after : List MemberResidencySpan} (hafter : CountedDays after) :
    owedOn before after FIRST_COUNTED_DAY = none ↔ covered after FIRST_COUNTED_DAY =
      if covered before FIRST_COUNTED_DAY = covered before (dayBefore FIRST_COUNTED_DAY) then false
      else covered before FIRST_COUNTED_DAY := by
  unfold owedOn rowOn
  rw [registeredRow_first, hafter.covered_of_lt (show FIRST_COUNTED_DAY - 1 < FIRST_COUNTED_DAY by
    omega)]
  by_cases hsame : covered before FIRST_COUNTED_DAY = covered before (dayBefore FIRST_COUNTED_DAY) <;>
    simp [hsame]

/-- **One appended change.**  After the rows a change owes are appended, the person reads as the
change leaves them held exactly when no other row of theirs stands on a day the change left
alone while it changed what is held around it, and nothing held on the first day counted, and on the
last of 1999 too, is given up on it. -/
theorem readsAsMember_append_iff {entries rows : List MemberRegisterArchiveRow} {personId : String}
    {createdAt : Int} {before after : List MemberResidencySpan} (happ : AppendedTo entries rows)
    (hbefore : CountedDays before) (hafter : CountedDays after)
    (hrows : AppendsOwed personId createdAt .MEMBER before after rows)
    (hheld : ∀ d, readsAsMember entries personId d = covered before d) :
    (∀ d, readsAsMember (entries ++ rows) personId d = covered after d) ↔
      (∀ d, settledOn entries personId d ≠ none → covered before d = covered before (d - 1) →
        covered after d = covered after (d - 1) → covered after d = covered before d) ∧
      ¬(covered before FIRST_COUNTED_DAY = true ∧
        covered before (dayBefore FIRST_COUNTED_DAY) = true ∧
        covered after FIRST_COUNTED_DAY = false) := by
  obtain ⟨owed, howed, hrecs⟩ := hrows.member rfl
  obtain ⟨lo, hlo⟩ := exists_before_all (((entries ++ rows).map fun row => row.eventOn) ++
    after.flatMap MemberResidencySpan.days)
  have hreads : Reads (settledOn entries personId) (covered before) := by
    have := readsAsMember_reads entries personId
    rwa [funext hheld] at this
  have hreads' := readsAsMember_reads (entries ++ rows) personId
  have hsettled : settledOn (entries ++ rows) personId =
      fun d => (owedOn before after d).or (settledOn entries personId d) := by
    funext d
    rw [happ.settledOn_append, settles_owed hbefore hafter howed hrecs]
  rw [hsettled] at hreads'
  have hbelow : ∀ d, d < lo → readsAsMember (entries ++ rows) personId d = covered after d := by
    intro d hd
    rw [readsAsMember_of_lt, covered_of_lt]
    · intro e he
      have := hlo e (List.mem_append_right _ he)
      omega
    · intro row hrow
      have := hlo row.eventOn (List.mem_append_left _ (List.mem_map_of_mem hrow))
      show d < row.eventOn
      omega
  rw [reads_sweep_iff lo hreads' hbelow]
  have hprev : covered before (FIRST_COUNTED_DAY - 1) = false := hbefore.covered_of_lt (by omega)
  have hprev' : covered after (FIRST_COUNTED_DAY - 1) = false := hafter.covered_of_lt (by omega)
  -- on the first day counted the old rows read what was held, and the day before is empty
  have hfirst : (owedOn before after FIRST_COUNTED_DAY = none →
      (settledOn entries personId FIRST_COUNTED_DAY).getD (covered after (FIRST_COUNTED_DAY - 1)) =
        covered after FIRST_COUNTED_DAY) ↔ ¬(covered before FIRST_COUNTED_DAY = true ∧
          covered before (dayBefore FIRST_COUNTED_DAY) = true ∧
          covered after FIRST_COUNTED_DAY = false) := by
    have hread := hreads FIRST_COUNTED_DAY
    rw [hprev] at hread
    rw [owedOn_first hafter, hprev', ← hread]
    cases covered before FIRST_COUNTED_DAY <;> cases covered after FIRST_COUNTED_DAY <;>
      cases covered before (dayBefore FIRST_COUNTED_DAY) <;> decide
  have hother : ∀ d, d ≠ FIRST_COUNTED_DAY → ((owedOn before after d = none →
      (settledOn entries personId d).getD (covered after (d - 1)) = covered after d) ↔
        (settledOn entries personId d ≠ none → covered before d = covered before (d - 1) →
          covered after d = covered after (d - 1) → covered after d = covered before d)) := by
    intro d hne
    rw [← changes_day_iff hreads]
    unfold owedOn rowOn registeredRow
    rw [if_neg hne]
  constructor
  · intro h
    refine ⟨fun d => ?_, hfirst.mp (h FIRST_COUNTED_DAY)⟩
    by_cases hd : d = FIRST_COUNTED_DAY
    · subst hd
      intro _ hb ha
      rw [hb, ha, hprev, hprev']
    · exact (hother d hd).mp (h d)
  · rintro ⟨h, hday⟩ d
    by_cases hd : d = FIRST_COUNTED_DAY
    · exact hd ▸ hfirst.mpr hday
    · exact (hother d hd).mpr (h d)

theorem settledOn_ne_none {rows : List MemberRegisterArchiveRow} (h : PlainRows rows)
    {personId : String} {d : Int} : settledOn rows personId d ≠ none ↔
      ∃ row ∈ rows, row.personId = personId ∧ row.eventOn = d := by
  have happ : AppendedTo [] rows := ⟨h.eventType, h.correctsEntryId, by simp [superseded], by simp⟩
  have heq := happ.settledOn_append personId d
  rw [List.nil_append] at heq
  have hnil : settledOn ([] : List MemberRegisterArchiveRow) personId d = none := rfl
  rw [heq, hnil, Option.or_none, ne_eq, settles_eq_none]
  push Not
  constructor
  · rintro ⟨e, he, hd⟩
    obtain ⟨hmem, hp⟩ := List.mem_filter.mp he
    obtain ⟨row, hrow, rfl⟩ := List.mem_map.mp hmem
    exact ⟨row, hrow, of_decide_eq_true hp, hd⟩
  · rintro ⟨row, hrow, hp, hd⟩
    exact ⟨plainEvent row, List.mem_filter.mpr ⟨List.mem_map_of_mem hrow, decide_eq_true hp⟩, hd⟩

theorem AppendsOwed.readsHeld_iff {s s' : Store} {personId : String} {createdAt : Int}
    {role : ResidencyRole} {rows : List MemberRegisterArchiveRow}
    (hrows : AppendsOwed personId createdAt role (memberSpans s.residencies personId)
      (memberSpans s'.residencies personId) rows) (hsound : Sound s) (hsound' : Sound s')
    (hentries : s'.memberRegisterEntries = s.memberRegisterEntries ++ rows)
    (happ : AppendedTo s.memberRegisterEntries rows) (hreads : ReadsHeld s)
    (hothers : ∀ other, (personId ≠ other ∨ role ≠ .MEMBER) →
      ∀ d, memberHeld s' other d = memberHeld s other d) :
    ReadsHeld s' ↔ (role = .MEMBER → (∀ row ∈ s.memberRegisterEntries, row.personId = personId →
      (memberHeld s personId row.eventOn = memberHeld s personId (row.eventOn - 1) →
        memberHeld s' personId row.eventOn = memberHeld s' personId (row.eventOn - 1) →
          memberHeld s' personId row.eventOn = memberHeld s personId row.eventOn)) ∧
      ¬(memberHeld s personId FIRST_COUNTED_DAY = true ∧
        memberHeld s personId (dayBefore FIRST_COUNTED_DAY) = true ∧
        memberHeld s' personId FIRST_COUNTED_DAY = false)) := by
  have hother : ∀ other, (personId ≠ other ∨ role ≠ .MEMBER) →
      ∀ d, readsAsMember s'.memberRegisterEntries other d = memberHeld s' other d := by
    intro other hne d
    rw [hothers other hne, hentries, readsAsMember_append_other happ, hreads]
    exact fun row hrow => hrows.about hrow hne
  cases role with
  | RESIDENT =>
    simp only [reduceCtorEq, false_imp_iff, iff_true]
    exact fun other d => hother other (.inr nofun) d
  | MEMBER =>
    have hmover : ReadsHeld s' ↔ ∀ d, readsAsMember (s.memberRegisterEntries ++ rows)
        personId d = memberHeld s' personId d := by
      rw [← hentries]
      refine ⟨fun hall => hall personId, fun hmover other => ?_⟩
      by_cases hp : personId = other
      · exact hp ▸ hmover
      · exact hother other (.inl hp)
    have hiff : (∀ d, readsAsMember (s.memberRegisterEntries ++ rows) personId d =
        memberHeld s' personId d) ↔ (∀ d, settledOn s.memberRegisterEntries personId d ≠ none →
          memberHeld s personId d = memberHeld s personId (d - 1) →
            memberHeld s' personId d = memberHeld s' personId (d - 1) →
              memberHeld s' personId d = memberHeld s personId d) ∧
        ¬(memberHeld s personId FIRST_COUNTED_DAY = true ∧
          memberHeld s personId (dayBefore FIRST_COUNTED_DAY) = true ∧
          memberHeld s' personId FIRST_COUNTED_DAY = false) :=
      readsAsMember_append_iff happ (hsound.counted personId) (hsound'.counted personId) hrows
        (hreads personId)
    rw [hmover, hiff]
    simp only [settledOn_ne_none hsound.entries, forall_true_left]
    refine and_congr_left fun _ => ⟨fun hall row hrow hp => hall _ ⟨row, hrow, hp, rfl⟩, ?_⟩
    rintro hall d ⟨row, hrow, hp, rfl⟩
    exact hall row hrow hp

/-! ### One move -/

/-- No row of the person is dated after `day` on a day such that neither it nor the one before
it is held by another residency. -/
def NoStaleRow (entries : List MemberRegisterArchiveRow) (personId : String) (others : Int → Bool)
    (day : Int) : Prop :=
  ∀ row ∈ entries, row.personId = personId → day < row.eventOn →
    others row.eventOn = true ∨ others (row.eventOn - 1) = true

/-- A move-out on the first day counted, of a home that began that day and is the only one: the day
read before it is the last of 1999, which the home was held on too, so no EXIT is owed. -/
def UnansweredExit (others : Int → Bool) (movedInOn movedOutOn : Int) : Prop :=
  movedInOn = FIRST_COUNTED_DAY ∧ movedOutOn = FIRST_COUNTED_DAY ∧
    others FIRST_COUNTED_DAY = false

/-- What the person holds by other residencies than the one named. -/
def heldByOthers (s : Store) (residencyId personId : String) (d : Int) : Bool :=
  covered (memberSpans (s.residencies.filter fun r => r.id ≠ residencyId) personId) d

/-- A move-in leaves a day alone, and what is held around it, unless the day comes after it and
neither it nor the one before was held. -/
theorem entered_iff {f : Int → Bool} {day d : Int} :
    (f d = f (d - 1) → (f d || decide (day ≤ d)) = (f (d - 1) || decide (day ≤ d - 1)) →
      (f d || decide (day ≤ d)) = f d) ↔ (day < d → f d = true ∨ f (d - 1) = true) := by
  rcases lt_trichotomy day d with h | h | h
  · have h1 : day ≤ d := h.le
    have h2 : day ≤ d - 1 := by omega
    cases f d <;> cases f (d - 1) <;> simp [h, h1, h2]
  · have h1 : ¬ day ≤ d - 1 := by omega
    cases f d <;> cases f (d - 1) <;> simp [h]
  · have h1 : ¬ day ≤ d := not_le.mpr h
    have h2 : ¬ day < d := by omega
    simp [h1, h2]

/-- A move-out from a residency begun on `first`, of which `f` is what the others hold. -/
theorem movedOut_iff {f : Int → Bool} {first day d : Int} (hle : first ≤ day) :
    ((f d || decide (first ≤ d)) = (f (d - 1) || decide (first ≤ d - 1)) →
      (f d || decide (first ≤ d ∧ d < day)) =
          (f (d - 1) || decide (first ≤ d - 1 ∧ d - 1 < day)) →
        (f d || decide (first ≤ d ∧ d < day)) = (f d || decide (first ≤ d))) ↔
      (day < d → f d = true ∨ f (d - 1) = true) := by
  rcases lt_trichotomy day d with h | h | h
  · have h1 : first ≤ d := by omega
    have h2 : first ≤ d - 1 := by omega
    have h3 : ¬ d < day := by omega
    have h4 : ¬ d - 1 < day := by omega
    cases f d <;> cases f (d - 1) <;> simp [h, h1, h2, h3, h4]
  · have h1 : first ≤ d := by omega
    have h2 : ¬ d < day := by omega
    have h3 : d - 1 < day := by omega
    have h4 : ¬ day < d := by omega
    by_cases h5 : first ≤ d - 1 <;> cases f d <;> cases f (d - 1) <;> simp [h1, h2, h3, h4, h5]
  · have h1 : ¬ day < d := by omega
    simp [h, h1]

/-- What is held on the first day counted, and on the last of 1999, is given up on it only by moving out
on the day of an only home. -/
theorem gaveUpFirst_iff {others : Int → Bool} {first day : Int} (hfirst : FIRST_COUNTED_DAY ≤ first)
    (hle : first ≤ day) :
    ((others FIRST_COUNTED_DAY || decide (first ≤ FIRST_COUNTED_DAY)) = true ∧
      (others (dayBefore FIRST_COUNTED_DAY) || decide (first ≤ dayBefore FIRST_COUNTED_DAY)) = true ∧
      (others FIRST_COUNTED_DAY || decide (first ≤ FIRST_COUNTED_DAY ∧ FIRST_COUNTED_DAY < day)) =
        false) ↔ UnansweredExit others first day := by
  have hlater : FIRST_COUNTED_DAY ≤ dayBefore FIRST_COUNTED_DAY := by
    rw [dayBefore_first]
    decide
  unfold UnansweredExit
  cases hothers : others FIRST_COUNTED_DAY with
  | true => simp
  | false =>
    simp only [Bool.false_or, decide_eq_true_eq, decide_eq_false_iff_not, Bool.or_eq_true, and_true]
    constructor
    · rintro ⟨hin, -, hout⟩
      omega
    · rintro ⟨rfl, rfl⟩
      exact ⟨le_rfl, .inr hlater, by omega⟩

theorem Enters.memberHeld_eq {input : EnterResidencyInput} {createdAt : Int} {s s' : Store}
    (h : Enters input createdAt s s') (personId : String) (d : Int) :
    memberHeld s' personId d =
      (memberHeld s personId d || (decide (input.personId = personId) &&
        decide (input.role = .MEMBER) && decide (input.movedInOn ≤ d))) := by
  obtain ⟨id, -, hres⟩ := h.residencies
  rw [Bool.eq_iff_iff]
  unfold memberHeld
  rw [hres, Bool.or_eq_true, covered_memberSpans, covered_memberSpans]
  simp only [List.mem_append, List.mem_singleton, or_and_right, exists_or, exists_eq_left,
    Residency.span, MemberResidencySpan.covers_iff, Bool.and_eq_true, decide_eq_true_eq]
  simp [and_assoc]

theorem Enters.sound {input : EnterResidencyInput} {createdAt : Int} {s s' : Store}
    (h : Enters input createdAt s s') (hsound : Sound s)
    (hdated : FIRST_COUNTED_DAY ≤ input.movedInOn)
    (hstamp : ∀ e ∈ s.memberRegisterEntries, e.createdAt < createdAt) : Sound s' := by
  obtain ⟨rows, hentries, hrows⟩ := h.entries
  obtain ⟨id, hid, hres⟩ := h.residencies
  refine ⟨hentries ▸ PlainRows.append hsound.entries (appendedTo hsound.entries hstamp hrows), ?_, ?_⟩
  · rw [hres, List.map_append, List.map_singleton, List.nodup_append]
    refine ⟨hsound.ids, List.nodup_singleton _, ?_⟩
    intro a ha b hb
    obtain ⟨r, hr, rfl⟩ := List.mem_map.mp ha
    rw [List.mem_singleton.mp hb]
    exact hid r hr
  · intro r hr
    rw [hres] at hr
    rcases List.mem_append.mp hr with hr | hr
    · exact hsound.dated r hr
    · rw [List.mem_singleton.mp hr]
      exact ⟨hdated, nofun⟩

theorem Enters.reads_iff {input : EnterResidencyInput} {createdAt : Int} {s s' : Store}
    (h : Enters input createdAt s s') (hsound : Sound s)
    (hdated : FIRST_COUNTED_DAY ≤ input.movedInOn)
    (hstamp : ∀ e ∈ s.memberRegisterEntries, e.createdAt < createdAt) (hreads : ReadsHeld s) :
    ReadsHeld s' ↔ (input.role = .MEMBER →
      NoStaleRow s.memberRegisterEntries input.personId (memberHeld s input.personId)
        input.movedInOn) := by
  obtain ⟨rows, hentries, hrows⟩ := h.entries
  have happ := appendedTo hsound.entries hstamp hrows
  rw [hrows.readsHeld_iff hsound (h.sound hsound hdated hstamp) hentries happ hreads
    fun personId hne d => ?_]
  · refine forall_congr' fun hrole => ?_
    have hafter : ∀ d, memberHeld s' input.personId d =
        (memberHeld s input.personId d || decide (input.movedInOn ≤ d)) := by
      intro d
      rw [h.memberHeld_eq]
      simp [hrole]
    rw [and_iff_left]
    · refine forall₂_congr fun row hrow => forall_congr' fun hp => ?_
      rw [hafter, hafter]
      exact entered_iff
    · -- a move-in gives up nothing
      rintro ⟨hheld, -, hgone⟩
      rw [hafter, hheld] at hgone
      cases hgone
  · rw [h.memberHeld_eq]
    rcases hne with hne | hne <;> simp [hne]

section MoveOut

variable {input : MoveOutInput} {createdAt : Int} {s s' : Store} {r : Residency}
  (h : MovesOut input createdAt s s' r) (hsound : Sound s)

include h

theorem MovesOut.mem : r ∈ s.residencies ∧ r.id = input.residencyId :=
  ⟨List.mem_of_find?_eq_some h.found, by simpa using List.find?_some h.found⟩

theorem MovesOut.closed_self :
    closed input.residencyId input.movedOutOn r = { r with movedOutOn := some input.movedOutOn } := by
  simp [closed, isOpen, h.mem.2, h.wasOpen]

include hsound

/-- The residency moved out of is the only one of its id. -/
theorem MovesOut.eq_of_id {r' : Residency} (hr' : r' ∈ s.residencies)
    (hid : r'.id = input.residencyId) : r' = r :=
  List.inj_on_of_nodup_map hsound.ids hr' h.mem.1 (hid.trans h.mem.2.symm)

theorem MovesOut.exists_before {P : Residency → Prop} : (∃ r' ∈ s.residencies, P r') ↔
    (∃ r' ∈ s.residencies.filter fun r' => r'.id ≠ input.residencyId, P r') ∨ P r := by
  constructor
  · rintro ⟨r', hr', hP⟩
    by_cases hid : r'.id = input.residencyId
    · exact .inr (h.eq_of_id hsound hr' hid ▸ hP)
    · exact .inl ⟨r', List.mem_filter.mpr ⟨hr', decide_eq_true hid⟩, hP⟩
  · rintro (⟨r', hr', hP⟩ | hP)
    · exact ⟨r', (List.mem_filter.mp hr').1, hP⟩
    · exact ⟨r, h.mem.1, hP⟩

theorem MovesOut.exists_after {P : Residency → Prop} : (∃ r' ∈ s'.residencies, P r') ↔
    (∃ r' ∈ s.residencies.filter fun r' => r'.id ≠ input.residencyId, P r') ∨
      P { r with movedOutOn := some input.movedOutOn } := by
  have hother : ∀ r' : Residency, r'.id ≠ input.residencyId →
      closed input.residencyId input.movedOutOn r' = r' := fun r' hid => by
    simp [closed, isOpen, hid]
  rw [h.residencies]
  simp only [List.mem_map, exists_exists_and_eq_and]
  rw [h.exists_before hsound, h.closed_self]
  refine or_congr_left ⟨?_, ?_⟩
  · rintro ⟨r', hr', hP⟩
    rw [hother r' (of_decide_eq_true (List.mem_filter.mp hr').2)] at hP
    exact ⟨r', hr', hP⟩
  · rintro ⟨r', hr', hP⟩
    rw [← hother r' (of_decide_eq_true (List.mem_filter.mp hr').2)] at hP
    exact ⟨r', hr', hP⟩

theorem MovesOut.memberHeld_before (personId : String) (d : Int) :
    memberHeld s personId d = (heldByOthers s input.residencyId personId d ||
      (decide (r.personId = personId) && decide (r.role = .MEMBER) &&
        decide (r.movedInOn ≤ d))) := by
  rw [Bool.eq_iff_iff]
  unfold memberHeld heldByOthers
  rw [Bool.or_eq_true, covered_memberSpans, covered_memberSpans, h.exists_before hsound]
  refine or_congr_right ?_
  simp [Residency.span, MemberResidencySpan.covers_iff, h.wasOpen, and_assoc]

theorem MovesOut.memberHeld_after (personId : String) (d : Int) :
    memberHeld s' personId d = (heldByOthers s input.residencyId personId d ||
      (decide (r.personId = personId) && decide (r.role = .MEMBER) &&
        decide (r.movedInOn ≤ d ∧ d < input.movedOutOn))) := by
  rw [Bool.eq_iff_iff]
  unfold memberHeld heldByOthers
  rw [Bool.or_eq_true, covered_memberSpans, covered_memberSpans, h.exists_after hsound]
  refine or_congr_right ?_
  simp [Residency.span, MemberResidencySpan.covers_iff, and_assoc]

theorem MovesOut.sound
    (hstamp : ∀ e ∈ s.memberRegisterEntries, e.createdAt < createdAt) : Sound s' := by
  obtain ⟨rows, hentries, hrows⟩ := h.entries
  refine ⟨hentries ▸ PlainRows.append hsound.entries (appendedTo hsound.entries hstamp hrows), ?_, ?_⟩
  · have hid : ∀ r' : Residency, (closed input.residencyId input.movedOutOn r').id = r'.id := by
      intro r'
      unfold closed
      split_ifs <;> rfl
    rw [h.residencies, List.map_map]
    simpa only [Function.comp_def, hid] using hsound.ids
  · intro r' hr'
    rw [h.residencies] at hr'
    obtain ⟨old, hold, rfl⟩ := List.mem_map.mp hr'
    obtain ⟨hin, hout⟩ := hsound.dated old hold
    have hday : FIRST_COUNTED_DAY ≤ input.movedOutOn :=
      (hsound.dated r h.mem.1).1.trans h.movedInOn_le
    unfold closed
    split_ifs
    · exact ⟨hin, fun m hm => Option.mem_some_iff.mp hm ▸ hday⟩
    · exact ⟨hin, hout⟩

theorem MovesOut.reads_iff (hstamp : ∀ e ∈ s.memberRegisterEntries, e.createdAt < createdAt)
    (hreads : ReadsHeld s) :
    ReadsHeld s' ↔ (r.role = .MEMBER →
      NoStaleRow s.memberRegisterEntries r.personId
        (heldByOthers s input.residencyId r.personId) input.movedOutOn ∧
      ¬UnansweredExit (heldByOthers s input.residencyId r.personId) r.movedInOn
        input.movedOutOn) := by
  obtain ⟨rows, hentries, hrows⟩ := h.entries
  have happ := appendedTo hsound.entries hstamp hrows
  rw [hrows.readsHeld_iff hsound (h.sound hsound hstamp) hentries happ hreads
    fun personId hne d => ?_]
  · refine forall_congr' fun hrole => ?_
    simp only [h.memberHeld_before hsound, h.memberHeld_after hsound, hrole, decide_true,
      Bool.true_and]
    refine and_congr (forall₂_congr fun row hrow => forall_congr' fun hp =>
      movedOut_iff h.movedInOn_le) (not_congr ?_)
    exact gaveUpFirst_iff (hsound.dated r h.mem.1).1 h.movedInOn_le
  · rw [h.memberHeld_before hsound, h.memberHeld_after hsound]
    rcases hne with hne | hne <;> simp [hne]

end MoveOut

/-! ### Every run of moves -/

/-- A move as the board records it: an entry by any path that moves somebody in, the move-in of the
moves page, or a move-out. -/
inductive Move where
  | enter (input : EnterResidencyInput)
  | moveIn (input : MoveInInput)
  | out (input : MoveOutInput)

/-- The day a move is dated. -/
def Move.day : Move → Int
  | .enter input => input.movedInOn
  | .moveIn input => input.movedInOn
  | .out input => input.movedOutOn

/-- A move together with what it draws from outside the register: the clock and the ids.  Its day is
one `parseLocalDay` reads, so none before the year 100. -/
structure Recording where
  move : Move
  time : Int
  ids : ℕ → String
  dated : FIRST_COUNTED_DAY ≤ move.day

def Move.program : Move → Tx Unit
  | .enter input => do let _ ← transaction (enterResidency input)
  | .moveIn input => do let _ ← Moves.moveIn input
  | .out input => do let _ ← moveOut input

/-- The register after a move: what it leaves when recorded, what there was when refused. -/
def Recording.after (m : Recording) (s : Store) : Store := (call m.move.program m.time m.ids s).2

/-- Whether the move is recorded, and not refused. -/
def Recording.IsRecorded (m : Recording) (s : Store) : Prop :=
  (call m.move.program m.time m.ids s).1 = .ok ()

/-- Each move of a run, with the register before it. -/
def trace : Store → List Recording → List (Store × Recording)
  | _, [] => []
  | s, m :: ms => (s, m) :: trace (m.after s) ms

/-- What each step of a run keeps holds before and after every step. -/
theorem trace_keeps {P : Store → Prop} : ∀ (ms : List Recording) (s : Store), P s →
    (∀ t ∈ trace s ms, P t.1 → P (t.2.after t.1)) →
    ∀ t ∈ trace s ms, P t.1 ∧ P (t.2.after t.1)
  | [], _, _, _ => by simp [trace]
  | m :: ms, s, h, hstep => by
    unfold trace at *
    obtain ⟨hfirst, hrest⟩ := List.forall_mem_cons.mp hstep
    exact List.forall_mem_cons.mpr ⟨⟨h, hfirst h⟩, trace_keeps ms (m.after s) (hfirst h) hrest⟩

/-- No row of the mover is dated after a move-in on a day such that neither it nor the one before is
held by a residency they have as a member. -/
def EnterResidencyInput.LeavesNoStaleRow (s : Store) (input : EnterResidencyInput) : Prop :=
  input.role = .MEMBER → NoStaleRow s.memberRegisterEntries input.personId
    (memberHeld s input.personId) input.movedInOn

/-- The same of any move, a move-out being read without the residency it ends; and the ENTRY of a home
given up on its first day is not left without its EXIT. -/
def Move.LeavesNoStaleRow (s : Store) : Move → Prop
  | .enter input => input.LeavesNoStaleRow s
  | .moveIn input => input.entering.LeavesNoStaleRow s
  | .out input => ∀ r ∈ findResidency s.residencies input.residencyId, r.role = .MEMBER →
      NoStaleRow s.memberRegisterEntries r.personId
        (heldByOthers s input.residencyId r.personId) input.movedOutOn ∧
      ¬UnansweredExit (heldByOthers s input.residencyId r.personId) r.movedInOn input.movedOutOn

theorem Move.failsClean : ∀ m : Move, FailsClean m.program
  | .enter input => (FailsClean.transaction (within_enterResidency input)).map fun _ => ()
  | .moveIn input => (failsClean_moveIn input).map fun _ => ()
  | .out input => (failsClean_moveOut input).map fun _ => ()

/-- A refused move changes nothing. -/
theorem Recording.after_of_refused {m : Recording} {s : Store} (h : ¬ m.IsRecorded s) :
    m.after s = s := by
  unfold IsRecorded call at h
  unfold after call
  match hrun : exec m.move.program ⟨m.time, m.ids, s, s⟩ with
  | (.ok (), w) => exact absurd (by rw [hrun]) h
  | (.error e, w) => exact m.move.failsClean _ _ _ hrun

/-- The residency a move creates, of a move that creates one. -/
def Move.entering : Move → Option EnterResidencyInput
  | .enter input => some input
  | .moveIn input => some input.entering
  | .out _ => none

theorem Recording.enters {m : Recording} {s : Store} {input : EnterResidencyInput}
    (hm : m.move.entering = some input) (h : m.IsRecorded s) :
    Enters input m.time s (m.after s) := by
  unfold IsRecorded call at h
  unfold after call
  match hrun : exec m.move.program ⟨m.time, m.ids, s, s⟩ with
  | (.error e, w) =>
    rw [hrun] at h
    cases h
  | (.ok (), w) =>
    cases hmove : m.move with
    | enter entered =>
      rw [hmove] at hm hrun
      obtain rfl := Option.some.inj hm
      simp only [Move.program, exec_bind_ok, exec_transaction_ok] at hrun
      obtain ⟨result, w₁, ⟨w₂, hbody, rfl⟩, hpure⟩ := hrun
      obtain ⟨-, rfl⟩ := Prod.mk.inj hpure
      exact exec_enterResidency hbody
    | moveIn movedIn =>
      rw [hmove] at hm hrun
      obtain rfl := Option.some.inj hm
      simp only [Move.program, exec_bind_ok] at hrun
      obtain ⟨result, w₁, hin, hpure⟩ := hrun
      obtain ⟨-, rfl⟩ := Prod.mk.inj hpure
      obtain ⟨henters, hcommitted⟩ := exec_moveIn hin
      exact hcommitted ▸ henters
    | out input =>
      rw [hmove] at hm
      cases hm

/-- The day of a move-in is counted. -/
theorem Recording.dated_entering {m : Recording} {input : EnterResidencyInput}
    (hm : m.move.entering = some input) : FIRST_COUNTED_DAY ≤ input.movedInOn := by
  have hdated : FIRST_COUNTED_DAY ≤ m.move.day := m.dated
  cases hmove : m.move with
  | enter entered =>
    rw [hmove] at hm hdated
    obtain rfl := Option.some.inj hm
    exact hdated
  | moveIn movedIn =>
    rw [hmove] at hm hdated
    obtain rfl := Option.some.inj hm
    exact hdated
  | out input =>
    rw [hmove] at hm
    cases hm

theorem Recording.movesOut {m : Recording} {s : Store} {input : MoveOutInput}
    (hm : m.move = .out input) (h : m.IsRecorded s) :
    ∃ r, MovesOut input m.time s (m.after s) r := by
  unfold IsRecorded call at h
  unfold after call
  match hrun : exec m.move.program ⟨m.time, m.ids, s, s⟩ with
  | (.error e, w) =>
    rw [hrun] at h
    cases h
  | (.ok (), w) =>
    rw [hm] at hrun
    simp only [Move.program, exec_bind_ok] at hrun
    obtain ⟨result, w₁, hout, hpure⟩ := hrun
    obtain ⟨-, rfl⟩ := Prod.mk.inj hpure
    obtain ⟨r, hr, hcommitted⟩ := exec_moveOut hout
    exact ⟨r, hcommitted ▸ hr⟩

/-- **One move.**  From a register that reads what is held, a recorded move leads to one exactly
when it leaves no stale row; and it keeps the archive plain and the ids keys. -/
theorem Recording.step {m : Recording} {s : Store} (hsound : Sound s)
    (hstamp : ∀ e ∈ s.memberRegisterEntries, e.createdAt < m.time) (hreads : ReadsHeld s) :
    Sound (m.after s) ∧
      (ReadsHeld (m.after s) ↔ (m.IsRecorded s → m.move.LeavesNoStaleRow s)) := by
  by_cases hrec : m.IsRecorded s
  · simp only [hrec, forall_true_left]
    have henter : ∀ input, m.move.entering = some input →
        Sound (m.after s) ∧ (ReadsHeld (m.after s) ↔ input.LeavesNoStaleRow s) := by
      intro input hm
      have h := Recording.enters hm hrec
      have hdated := Recording.dated_entering hm
      exact ⟨h.sound hsound hdated hstamp, h.reads_iff hsound hdated hstamp hreads⟩
    cases hm : m.move with
    | enter input => exact henter input (by rw [hm]; rfl)
    | moveIn input => exact henter input.entering (by rw [hm]; rfl)
    | out input =>
      obtain ⟨r, h⟩ := Recording.movesOut hm hrec
      refine ⟨h.sound hsound hstamp, (h.reads_iff hsound hstamp hreads).trans ?_⟩
      unfold Move.LeavesNoStaleRow
      simp [h.found]
  · rw [Recording.after_of_refused hrec]
    exact ⟨hsound, by simp [hrec, hreads]⟩

/-- **Every run.**  After every move of a run the register reads what is held exactly when every
recorded move of it leaves no stale row. -/
theorem reads_held_iff_of_sound : ∀ (ms : List Recording) (s : Store), Sound s → ReadsHeld s →
    (∀ t ∈ trace s ms, ∀ e ∈ t.1.memberRegisterEntries, e.createdAt < t.2.time) →
    ((∀ t ∈ trace s ms, ReadsHeld (t.2.after t.1)) ↔
      ∀ t ∈ trace s ms, t.2.IsRecorded t.1 → t.2.move.LeavesNoStaleRow t.1)
  | [], _, _, _, _ => by simp [trace]
  | m :: ms, s, hsound, hreads, hstamps => by
    obtain ⟨hsound', hstep⟩ := m.step hsound (hstamps (s, m) (by simp [trace])) hreads
    have hrest : ReadsHeld (m.after s) → ((∀ t ∈ trace (m.after s) ms, ReadsHeld (t.2.after t.1)) ↔
        ∀ t ∈ trace (m.after s) ms, t.2.IsRecorded t.1 → t.2.move.LeavesNoStaleRow t.1) :=
      fun hr => reads_held_iff_of_sound ms (m.after s) hsound' hr fun t ht =>
        hstamps t (by simp [trace, ht])
    simp only [trace, List.forall_mem_cons, hstep]
    constructor
    · rintro ⟨h, hall⟩
      exact ⟨h, (hrest (hstep.mpr h)).mp hall⟩
    · rintro ⟨h, hall⟩
      exact ⟨h, (hrest (hstep.mpr h)).mpr hall⟩

/-- A register before its first move: nobody has held anything and nothing is recorded. -/
structure NothingRecorded (s : Store) : Prop where
  residencies : s.residencies = []
  entries : s.memberRegisterEntries = []

theorem NothingRecorded.sound {s : Store} (h : NothingRecorded s) : Sound s :=
  ⟨h.entries ▸ PlainRows.nil, by simp [h.residencies], by simp [h.residencies]⟩

theorem NothingRecorded.readsHeld {s : Store} (h : NothingRecorded s) : ReadsHeld s := by
  intro personId d
  rw [h.entries, memberHeld, h.residencies]
  rfl

/-- **Moves from an empty archive.**  However the moves are dated and whoever they are about, the
register reads everybody as a member exactly on the days they hold a residency as one, after
every move, if and only if each recorded move leaves no stale row. -/
theorem reads_held_iff {s : Store} (hs : NothingRecorded s) (ms : List Recording)
    (hstamps : ∀ t ∈ trace s ms, ∀ e ∈ t.1.memberRegisterEntries, e.createdAt < t.2.time) :
    (∀ t ∈ trace s ms, ReadsHeld (t.2.after t.1)) ↔
      ∀ t ∈ trace s ms, t.2.IsRecorded t.1 → t.2.move.LeavesNoStaleRow t.1 :=
  reads_held_iff_of_sound ms s hs.sound hs.readsHeld hstamps

/-- One person and two apartments, and nothing recorded. -/
def twoFlats : Store where
  apartmentIds := ["1001", "1002"]
  persons := [⟨"anna", "Anna", "Berg", none, none, none, none, none, none, none, none, none⟩]

/-- Moved into 1002 on day 10 and out of it the same day; then a move into 1001 on day 5 is
recorded, after both. -/
def staleExit : List Recording :=
  [⟨.enter ⟨"board", "anna", "1002", .MEMBER, 10, []⟩, 1, fun n => ["r1", "e1"].getD n "",
      by decide⟩,
    ⟨.out ⟨"board", "r1", 10, none⟩, 2, fun n => ["e2"].getD n "", by decide⟩,
    ⟨.enter ⟨"board", "anna", "1001", .MEMBER, 5, []⟩, 3, fun n => ["r2", "e3"].getD n "",
      by decide⟩]

theorem reads_held_iff_staleExit :
    (∀ t ∈ trace twoFlats staleExit, ReadsHeld (t.2.after t.1)) ↔
      ∀ t ∈ trace twoFlats staleExit, t.2.IsRecorded t.1 → t.2.move.LeavesNoStaleRow t.1 :=
  reads_held_iff ⟨rfl, rfl⟩ staleExit (by decide +kernel)

/-- The EXIT of day 10 stands after the move into 1001 is recorded, and the register reads Anna
as having left on day 12, which she holds 1001 on. -/
theorem staleExit_not_readsHeld :
    ¬ ∀ (s : Store) (ms : List Recording), NothingRecorded s →
      (∀ t ∈ trace s ms, ∀ e ∈ t.1.memberRegisterEntries, e.createdAt < t.2.time) →
      ∀ t ∈ trace s ms, ReadsHeld (t.2.after t.1) := by
  intro h
  have hall := h twoFlats staleExit ⟨rfl, rfl⟩ (by decide +kernel)
  have hwrong : ∃ t ∈ trace twoFlats staleExit,
      readsAsMember (t.2.after t.1).memberRegisterEntries "anna" 12 = false ∧
        memberHeld (t.2.after t.1) "anna" 12 = true := by
    decide +kernel
  obtain ⟨t, ht, hreads, hheld⟩ := hwrong
  have := hall t ht "anna" 12
  rw [hreads, hheld] at this
  cases this

end OpenBrf.Moves
