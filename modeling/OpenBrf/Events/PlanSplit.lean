import Mathlib.Data.List.Induction
import Mathlib.Data.List.Nodup
import Mathlib.Data.List.Perm.Basic
import OpenBrf.Events.SeriesDays

/-!
# Events.PlanSplit — what an edit does to each row of a series

The first pass of `planOccurrences` keeps the rows that have begun; the second matches the others
with the periods of the new rule, one period at a time.  `Matched` is what stands between two
periods.
-/

namespace OpenBrf.Events

open Lang Shared

def StoredOccurrence.period (row : StoredOccurrence) : Period := ⟨row.startsAt, row.endsAt⟩

/-- The row at the instants it is moved to. -/
def MovedOccurrence.row (entry : MovedOccurrence) : StoredOccurrence :=
  { entry.occurrence with startsAt := entry.period.startsAt, endsAt := entry.period.endsAt }

theorem MovedOccurrence.row_period (entry : MovedOccurrence) : entry.row.period = entry.period :=
  rfl

section Passes

variable (zone : Zone)

def StoredOccurrence.day (row : StoredOccurrence) : Int := localDayOf zone row.startsAt

/-- The rows of dates that have begun. -/
def begunRows (existing : List StoredOccurrence) (now : Int) : List StoredOccurrence :=
  existing.filter fun row => row.startsAt ≤ now

def futureRows (existing : List StoredOccurrence) (now : Int) : List StoredOccurrence :=
  existing.filter fun row => now < row.startsAt

theorem begunRows_append_futureRows (rows : List StoredOccurrence) (now : Int) :
    (begunRows rows now ++ futureRows rows now).Perm rows := by
  have hneg : futureRows rows now = rows.filter fun row => !decide (row.startsAt ≤ now) := by
    refine List.filter_congr fun row _ => ?_
    rw [← decide_not]
    exact decide_eq_decide.mpr not_le.symm
  rw [hneg]
  exact List.filter_append_perm _ _

/-- The periods of a schedule on days that no row that has begun holds. -/
def openPeriods (existing : List StoredOccurrence) (planned : List Period) (now : Int) :
    List Period :=
  planned.filter fun period =>
    localDayOf zone period.startsAt ∉ (begunRows existing now).map (·.day zone)

variable {zone} {existing : List StoredOccurrence} {now : Int}

/-- **The first pass.** -/
theorem foldl_sortByDay (hdays : (existing.map (·.day zone)).Nodup) :
    existing.foldl (sortByDay zone now) {} =
      { plan := { kept := begunRows existing now }
        frozenDays := ((begunRows existing now).map (·.day zone)).reverse
        futureByDay := (futureRows existing now).map fun row => (row.day zone, row) } := by
  induction existing using List.reverseRecOn with
  | nil => rfl
  | append_singleton rows row ih =>
    rw [List.map_append, List.nodup_append] at hdays
    rw [List.foldl_append, ih hdays.1, List.foldl_cons, List.foldl_nil]
    unfold sortByDay begunRows futureRows
    dsimp only
    rw [List.filter_append, List.filter_append]
    by_cases hbegun : row.startsAt ≤ now
    · rw [if_pos hbegun, List.filter_cons_of_pos (by simpa using hbegun),
        List.filter_cons_of_neg (by simpa using hbegun), List.filter_nil, List.filter_nil,
        List.append_nil, List.map_append, List.reverse_append]
      rfl
    · rw [if_neg hbegun, List.filter_cons_of_neg (by simpa using hbegun),
        List.filter_cons_of_pos (by simpa using hbegun), List.filter_nil, List.filter_nil,
        List.append_nil, List.map_append, setKey_of_absent]
      · rfl
      · rw [List.map_map]
        intro hmem
        obtain ⟨other, hother, heq⟩ := List.mem_map.mp hmem
        exact hdays.2.2 _ (List.mem_map_of_mem (List.mem_filter.mp hother).1) _
          (List.mem_map_of_mem (List.mem_singleton_self row)) heq

/-- The plan once the periods of `done` are matched. -/
structure Matched (zone : Zone) (existing : List StoredOccurrence) (now : Int) (done : List Period)
    (standing : Standing) : Prop where
  frozen : ∀ day, day ∈ standing.frozenDays ↔ day ∈ (begunRows existing now).map (·.day zone)
  /-- No row is lost, and none is in two classes. -/
  rows : (standing.plan.kept ++ standing.plan.moved.map (·.occurrence) ++
    standing.futureByDay.map (·.2)).Perm existing
  begun : begunRows standing.plan.kept now = begunRows existing now
  periods : ((futureRows standing.plan.kept now).map (·.period) ++
    standing.plan.moved.map (·.period) ++ standing.plan.added).Perm (openPeriods zone existing done now)
  keys : (standing.futureByDay.map (·.1)).Nodup
  future : ∀ entry ∈ standing.futureByDay, entry.1 = entry.2.day zone ∧ now < entry.2.startsAt ∧
    entry.1 ∉ done.map fun period => localDayOf zone period.startsAt
  waiting : ∀ row ∈ existing, now < row.startsAt →
    row.day zone ∉ (done.map fun period => localDayOf zone period.startsAt) →
      (row.day zone, row) ∈ standing.futureByDay
  moved : ∀ entry ∈ standing.plan.moved, now < entry.occurrence.startsAt ∧
    entry.occurrence.day zone = localDayOf zone entry.period.startsAt ∧
      entry.occurrence.period ≠ entry.period
  added : ∀ period ∈ standing.plan.added,
    localDayOf zone period.startsAt ∉ existing.map (·.day zone)

namespace Matched

variable {done : List Period} {standing : Standing}

theorem start (hdays : (existing.map (·.day zone)).Nodup) :
    Matched zone existing now [] (existing.foldl (sortByDay zone now) {}) := by
  rw [foldl_sortByDay hdays]
  have hbegun : (begunRows existing now).filter (fun row => row.startsAt ≤ now) =
      begunRows existing now := by
    unfold begunRows
    rw [List.filter_filter]
    simp only [Bool.and_self]
  have hfuture : futureRows (begunRows existing now) now = [] := by
    refine List.filter_eq_nil_iff.mpr fun row hrow => ?_
    rw [decide_eq_true_eq, not_lt]
    exact of_decide_eq_true (List.mem_filter.mp hrow).2
  refine ⟨?_, ?_, hbegun, ?_, ?_, ?_, ?_, ?_, ?_⟩
  · intro day
    rw [List.mem_reverse]
  · show (begunRows existing now ++ [] ++ ((futureRows existing now).map _).map _).Perm existing
    rw [List.append_nil, List.map_map]
    have hid : (futureRows existing now).map
        ((fun entry : Int × StoredOccurrence => entry.2) ∘ fun row => (row.day zone, row)) =
          futureRows existing now := List.map_id _
    rw [hid]
    exact begunRows_append_futureRows existing now
  · show ((futureRows (begunRows existing now) now).map _ ++ [] ++ []).Perm []
    rw [hfuture]
    rfl
  · rw [List.map_map]
    exact hdays.sublist (List.filter_sublist.map _)
  · intro entry hentry
    obtain ⟨row, hrow, rfl⟩ := List.mem_map.mp hentry
    exact ⟨rfl, of_decide_eq_true (List.mem_filter.mp hrow).2, List.not_mem_nil⟩
  · intro row hrow hlater _
    exact List.mem_map_of_mem (f := fun row : StoredOccurrence => (row.day zone, row))
      (List.mem_filter.mpr ⟨hrow, decide_eq_true hlater⟩)
  · exact fun entry hentry => absurd hentry List.not_mem_nil
  · exact fun period hperiod => absurd hperiod List.not_mem_nil

end Matched

theorem openPeriods_concat (existing : List StoredOccurrence) (done : List Period) (period : Period)
    (now : Int) : openPeriods zone existing (done ++ [period]) now =
      openPeriods zone existing done now ++
        if localDayOf zone period.startsAt ∈ (begunRows existing now).map (·.day zone) then []
        else [period] := by
  unfold openPeriods
  rw [List.filter_append]
  congr 1
  split_ifs with h
  · rw [List.filter_cons_of_neg (by simpa using h), List.filter_nil]
  · rw [List.filter_cons_of_pos (by simpa using h), List.filter_nil]

/-- Rows of different days are told apart by their day. -/
theorem eq_of_day_eq (hdays : (existing.map (·.day zone)).Nodup) {row row' : StoredOccurrence}
    (hrow : row ∈ existing) (hrow' : row' ∈ existing) (h : row.day zone = row'.day zone) :
    row = row' :=
  List.inj_on_of_nodup_map hdays hrow hrow' h

namespace Matched

variable {done : List Period} {standing : Standing} {period : Period}

theorem mem_of_future (h : Matched zone existing now done standing) {entry : Int × StoredOccurrence}
    (hentry : entry ∈ standing.futureByDay) : entry.2 ∈ existing :=
  h.rows.subset (List.mem_append_right _ (List.mem_map_of_mem hentry))

/-- A period on a day that a begun row holds is not written. -/
theorem skip (hdays : (existing.map (·.day zone)).Nodup)
    (h : Matched zone existing now done standing)
    (hfrozen : localDayOf zone period.startsAt ∈ standing.frozenDays) :
    Matched zone existing now (done ++ [period]) standing := by
  have hheld := (h.frozen _).mp hfrozen
  refine { h with periods := ?_, future := ?_, waiting := ?_ }
  · rw [openPeriods_concat, if_pos hheld, List.append_nil]
    exact h.periods
  · intro entry hentry
    obtain ⟨hkey, hlater, hnot⟩ := h.future entry hentry
    refine ⟨hkey, hlater, ?_⟩
    rw [List.map_append, List.mem_append, not_or]
    refine ⟨hnot, fun hmem => ?_⟩
    -- the row of that day has begun
    obtain ⟨held, hheld, hday⟩ := List.mem_map.mp hheld
    obtain ⟨hmemheld, hbegun⟩ := List.mem_filter.mp hheld
    rw [List.map_singleton, List.mem_singleton] at hmem
    have heq := eq_of_day_eq hdays (h.mem_of_future hentry) hmemheld
      (hkey.symm.trans (hmem.trans hday.symm))
    rw [heq] at hlater
    exact absurd (of_decide_eq_true hbegun) (not_le.mpr hlater)
  · intro row hrow hlater hnot
    refine h.waiting row hrow hlater fun hmem => hnot ?_
    rw [List.map_append]
    exact List.mem_append_left _ hmem

/-- A period on a day of no row is added. -/
theorem add (h : Matched zone existing now done standing)
    (hfrozen : localDayOf zone period.startsAt ∉ standing.frozenDays)
    (hnew : localDayOf zone period.startsAt ∉
      done.map fun period => localDayOf zone period.startsAt)
    (hnone : (standing.futureByDay.find? fun entry =>
      entry.1 = localDayOf zone period.startsAt) = none) :
    Matched zone existing now (done ++ [period])
      { standing with plan := { standing.plan with added := standing.plan.added ++ [period] } } := by
  have habsent : ∀ entry ∈ standing.futureByDay, entry.1 ≠ localDayOf zone period.startsAt := by
    intro entry hentry
    have hno := List.find?_eq_none.mp hnone entry hentry
    rwa [decide_eq_true_eq] at hno
  refine { h with periods := ?_, future := ?_, waiting := ?_, added := ?_ }
  · rw [openPeriods_concat, if_neg fun hmem => hfrozen ((h.frozen _).mpr hmem), ← List.append_assoc]
    exact h.periods.append_right _
  · intro entry hentry
    obtain ⟨hkey, hlater, hnot⟩ := h.future entry hentry
    refine ⟨hkey, hlater, ?_⟩
    rw [List.map_append, List.mem_append, not_or]
    refine ⟨hnot, fun hmem => habsent entry hentry ?_⟩
    rwa [List.map_singleton, List.mem_singleton] at hmem
  · intro row hrow hlater hnot
    refine h.waiting row hrow hlater fun hmem => hnot ?_
    rw [List.map_append]
    exact List.mem_append_left _ hmem
  · intro other hother
    rcases List.mem_append.mp hother with hold | hlast
    · exact h.added other hold
    · rw [List.mem_singleton.mp hlast]
      intro hmem
      obtain ⟨row, hrow, hday⟩ := List.mem_map.mp hmem
      by_cases hbegun : row.startsAt ≤ now
      · refine hfrozen ((h.frozen _).mpr (List.mem_map.mpr ⟨row, ?_, hday⟩))
        exact List.mem_filter.mpr ⟨hrow, decide_eq_true hbegun⟩
      · have hwait := h.waiting row hrow (not_le.mp hbegun) (hday ▸ hnew)
        exact habsent _ hwait hday

/-- The rows still to be matched once the row of a day is taken. -/
theorem taken_future (h : Matched zone existing now done standing) :
    ∀ entry ∈ deleteKey (localDayOf zone period.startsAt) standing.futureByDay,
      entry.1 = entry.2.day zone ∧ now < entry.2.startsAt ∧
        entry.1 ∉ (done ++ [period]).map fun period => localDayOf zone period.startsAt := by
  intro entry hentry
  obtain ⟨hmem, hne⟩ := List.mem_filter.mp hentry
  obtain ⟨hkey, hlater, hnot⟩ := h.future entry hmem
  refine ⟨hkey, hlater, ?_⟩
  rw [List.map_append, List.mem_append, not_or, List.map_singleton, List.mem_singleton]
  exact ⟨hnot, of_decide_eq_true hne⟩

theorem taken_waiting (h : Matched zone existing now done standing) :
    ∀ row ∈ existing, now < row.startsAt →
      row.day zone ∉ ((done ++ [period]).map fun period => localDayOf zone period.startsAt) →
        (row.day zone, row) ∈
          deleteKey (localDayOf zone period.startsAt) standing.futureByDay := by
  intro row hrow hlater hnot
  rw [List.map_append, List.mem_append, not_or, List.map_singleton, List.mem_singleton] at hnot
  exact List.mem_filter.mpr ⟨h.waiting row hrow hlater hnot.1, decide_eq_true hnot.2⟩

variable {key : Int} {row : StoredOccurrence}

/-- A period takes the row of its day as it is. -/
theorem keep (h : Matched zone existing now done standing)
    (hfrozen : localDayOf zone period.startsAt ∉ standing.frozenDays)
    (hfound : (standing.futureByDay.find? fun entry =>
      entry.1 = localDayOf zone period.startsAt) = some (key, row))
    (hsame : row.period = period) :
    Matched zone existing now (done ++ [period])
      { standing with
        plan := { standing.plan with kept := standing.plan.kept ++ [row] }
        futureByDay := deleteKey (localDayOf zone period.startsAt) standing.futureByDay } := by
  obtain ⟨-, hlater, -⟩ := h.future _ (List.mem_of_find?_eq_some hfound)
  have hrest := (perm_deleteKey h.keys hfound).map (·.2)
  refine ⟨h.frozen, ?_, ?_, ?_, ?_, h.taken_future, h.taken_waiting, h.moved, h.added⟩
  · refine List.Perm.trans ?_ h.rows
    refine List.Perm.trans ?_ (hrest.symm.append_left _)
    dsimp only
    rw [List.append_assoc, List.append_assoc, List.append_assoc, List.singleton_append]
    exact (List.perm_middle.symm).append_left _
  · show begunRows (standing.plan.kept ++ [row]) now = _
    unfold begunRows
    rw [List.filter_append, List.filter_cons_of_neg (by simpa using hlater), List.filter_nil,
      List.append_nil]
    exact h.begun
  · rw [openPeriods_concat, if_neg fun hmem => hfrozen ((h.frozen _).mpr hmem)]
    refine List.Perm.trans ?_ (h.periods.append_right _)
    unfold futureRows
    dsimp only
    rw [List.filter_append, List.filter_cons_of_pos (by simpa using hlater), List.filter_nil,
      List.map_append, List.map_singleton, hsame, List.append_assoc, List.append_assoc,
      List.append_assoc, List.append_assoc, ← List.append_assoc (List.map _ _) _ [period]]
    exact List.perm_append_comm.append_left _
  · exact h.keys.sublist (List.filter_sublist.map _)

/-- A period takes the row of its day and moves it. -/
theorem move (h : Matched zone existing now done standing)
    (hfrozen : localDayOf zone period.startsAt ∉ standing.frozenDays)
    (hfound : (standing.futureByDay.find? fun entry =>
      entry.1 = localDayOf zone period.startsAt) = some (key, row))
    (hsame : row.period ≠ period) :
    Matched zone existing now (done ++ [period])
      { standing with
        plan := { standing.plan with moved := standing.plan.moved ++ [⟨row, period⟩] }
        futureByDay := deleteKey (localDayOf zone period.startsAt) standing.futureByDay } := by
  have hp := List.find?_some hfound
  have hkey : key = localDayOf zone period.startsAt := of_decide_eq_true hp
  obtain ⟨hday, hlater, -⟩ := h.future _ (List.mem_of_find?_eq_some hfound)
  have hrest := (perm_deleteKey h.keys hfound).map (·.2)
  refine ⟨h.frozen, ?_, h.begun, ?_, ?_, h.taken_future, h.taken_waiting, ?_, h.added⟩
  · refine List.Perm.trans ?_ h.rows
    refine List.Perm.trans ?_ (hrest.symm.append_left _)
    dsimp only
    rw [List.map_append, List.append_assoc, List.append_assoc, List.append_assoc]
    exact .refl _
  · rw [openPeriods_concat, if_neg fun hmem => hfrozen ((h.frozen _).mpr hmem)]
    refine List.Perm.trans ?_ (h.periods.append_right _)
    dsimp only
    rw [List.map_append, List.map_singleton, List.append_assoc, List.append_assoc,
      List.append_assoc, List.append_assoc]
    exact (List.perm_append_comm.append_left _).append_left _
  · exact h.keys.sublist (List.filter_sublist.map _)
  · intro entry hentry
    rcases List.mem_append.mp hentry with hold | hlast
    · exact h.moved entry hold
    · rw [List.mem_singleton.mp hlast]
      exact ⟨hlater, hday.symm.trans hkey, hsame⟩

/-- One period of the second pass. -/
theorem step (hdays : (existing.map (·.day zone)).Nodup)
    (h : Matched zone existing now done standing)
    (hnew : localDayOf zone period.startsAt ∉
      done.map fun period => localDayOf zone period.startsAt) :
    Matched zone existing now (done ++ [period]) (matchPeriod zone standing period) := by
  unfold matchPeriod
  dsimp only
  split
  · exact h.skip hdays ‹_›
  · next hfrozen =>
    split
    · exact h.add hfrozen hnew ‹_›
    · next key row hfound =>
      split_ifs with hsame
      · exact h.keep hfrozen hfound (Period.mk.injEq .. ▸ hsame)
      · exact h.move hfrozen hfound fun heq => hsame (Period.mk.injEq .. ▸ heq)

/-- **The second pass.** -/
theorem run (hdays : (existing.map (·.day zone)).Nodup) :
    ∀ {planned done : List Period} {standing : Standing},
      Matched zone existing now done standing →
      ((done ++ planned).map fun period => localDayOf zone period.startsAt).Nodup →
      Matched zone existing now (done ++ planned) (planned.foldl (matchPeriod zone) standing)
  | [], done, _, h, _ => by
    rw [List.append_nil]
    exact h
  | period :: planned, done, standing, h, hplanned => by
    have hnew : localDayOf zone period.startsAt ∉
        done.map fun period => localDayOf zone period.startsAt := by
      rw [List.map_append, List.nodup_append] at hplanned
      exact fun hmem => hplanned.2.2 _ hmem _ (List.mem_map_of_mem List.mem_cons_self) rfl
    rw [List.append_cons] at hplanned ⊢
    exact run hdays (h.step hdays hnew) hplanned

end Matched

/-! ### The plan -/

/-- What a plan does with the rows there are. -/
structure PlanSplit (zone : Zone) (existing : List StoredOccurrence) (planned : List Period)
    (now : Int) (plan : OccurrencePlan) : Prop where
  /-- No row is lost, and none is in two classes. -/
  rows : (plan.kept ++ plan.moved.map (·.occurrence) ++ plan.dropped).Perm existing
  /-- The rows that have begun are kept. -/
  begun : begunRows plan.kept now = begunRows existing now
  /-- What is written beside them is what the new schedule names on the other days. -/
  periods : ((futureRows plan.kept now).map (·.period) ++ plan.moved.map (·.period) ++
    plan.added).Perm (openPeriods zone existing planned now)
  moved : ∀ entry ∈ plan.moved, now < entry.occurrence.startsAt ∧
    entry.occurrence.day zone = localDayOf zone entry.period.startsAt ∧
      entry.occurrence.period ≠ entry.period
  dropped : ∀ row ∈ plan.dropped, now < row.startsAt ∧
    row.day zone ∉ planned.map fun period => localDayOf zone period.startsAt
  added : ∀ period ∈ plan.added, localDayOf zone period.startsAt ∉ existing.map (·.day zone)

theorem PlanSplit.nodup_moved {planned : List Period} {plan : OccurrencePlan}
    (h : PlanSplit zone existing planned now plan) (hids : (existing.map (·.id)).Nodup) :
    (plan.moved.map (·.occurrence.id)).Nodup := by
  have hclasses := (h.rows.map (·.id)).nodup_iff.mpr hids
  rw [List.map_append, List.map_append, List.nodup_append, List.nodup_append, List.map_map]
    at hclasses
  exact hclasses.1.2.1

/-- **What `planOccurrences` does.**  Of rows and periods on different days. -/
theorem planSplit_planOccurrences {planned : List Period} (now : Int)
    (hdays : (existing.map (·.day zone)).Nodup)
    (hplanned : (planned.map fun period => localDayOf zone period.startsAt).Nodup) :
    PlanSplit zone existing planned now (planOccurrences zone existing planned now) := by
  have h : Matched zone existing now ([] ++ planned)
      (planned.foldl (matchPeriod zone) (existing.foldl (sortByDay zone now) {})) :=
    (Matched.start hdays).run hdays hplanned
  rw [List.nil_append] at h
  refine ⟨h.rows, h.begun, h.periods, h.moved, ?_, h.added⟩
  intro row hrow
  obtain ⟨entry, hentry, rfl⟩ := List.mem_map.mp hrow
  obtain ⟨hkey, hlater, hnot⟩ := h.future entry hentry
  exact ⟨hlater, hkey ▸ hnot⟩

/-! ### The rows an edit leaves -/

/-- A series and the rows an edit leaves it. -/
structure Rewritten (zone : Zone) (existing : List StoredOccurrence) (planned : List Period)
    (now : Int) (after : List StoredOccurrence) : Prop where
  /-- A row that has begun is left as it is. -/
  begun : ∀ row ∈ existing, row.startsAt ≤ now → row ∈ after
  /-- The others are the new schedule, less the days of those that have begun. -/
  others : ((after.filter (· ∉ begunRows existing now)).map (·.period)).Perm
    (openPeriods zone existing planned now)
  /-- A row of a day of both schedules keeps its identifier and its cancellation. -/
  keeps : ∀ row ∈ existing,
    row.day zone ∈ (planned.map fun period => localDayOf zone period.startsAt) →
      ∃ row' ∈ after, row'.id = row.id ∧ row'.cancelledAt = row.cancelledAt ∧
        row'.day zone = row.day zone

/-- The rows of a plan that is written, those that have begun first. -/
theorem PlanSplit.perm_after {planned : List Period} {plan : OccurrencePlan}
    (h : PlanSplit zone existing planned now plan) (rows : List StoredOccurrence) :
    (plan.kept ++ plan.moved.map (·.row) ++ rows).Perm
      (begunRows existing now ++ (futureRows plan.kept now ++ plan.moved.map (·.row) ++ rows)) := by
  rw [← h.begun, ← List.append_assoc, ← List.append_assoc]
  exact ((begunRows_append_futureRows plan.kept now).symm.append_right _).append_right _

/-- **A plan that is written.**  The rows kept, the rows moved, and rows for the periods added. -/
theorem PlanSplit.rewritten {planned : List Period} {plan : OccurrencePlan}
    (h : PlanSplit zone existing planned now plan) (hids : (existing.map (·.id)).Nodup)
    {rows after : List StoredOccurrence} (hrows : rows.map (·.period) = plan.added)
    (hfresh : ∀ row ∈ rows, row.id ∉ (begunRows existing now).map (·.id))
    (hafter : after.Perm (plan.kept ++ plan.moved.map (·.row) ++ rows)) :
    Rewritten zone existing planned now after := by
  have hperm := hafter.trans (h.perm_after rows)
  refine ⟨fun row hrow hbegun => ?_, ?_, fun row hrow hday => ?_⟩
  · refine hperm.symm.subset (List.mem_append_left _ ?_)
    exact List.mem_filter.mpr ⟨hrow, decide_eq_true hbegun⟩
  · refine ((hperm.filter _).map _).trans (List.Perm.trans ?_ h.periods)
    have hnone : (begunRows existing now).filter (· ∉ begunRows existing now) = [] :=
      List.filter_eq_nil_iff.mpr fun row hrow => by simpa using hrow
    have hall : (futureRows plan.kept now ++ plan.moved.map (·.row) ++ rows).filter
        (· ∉ begunRows existing now) =
          futureRows plan.kept now ++ plan.moved.map (·.row) ++ rows := by
      refine List.filter_eq_self.mpr fun row hrow => decide_eq_true fun hbegun => ?_
      obtain ⟨hmem, hstart⟩ := List.mem_filter.mp hbegun
      rw [List.mem_append, List.mem_append] at hrow
      rcases hrow with (hkept | hmoved) | hadded
      · have hlater := of_decide_eq_true (List.mem_filter.mp hkept).2
        exact absurd (of_decide_eq_true hstart) (not_le.mpr hlater)
      · -- a row that is moved is no row there was
        obtain ⟨entry, hentry, rfl⟩ := List.mem_map.mp hmoved
        have hold : entry.occurrence ∈ existing :=
          h.rows.subset (List.mem_append_left _ (List.mem_append_right _
            (List.mem_map_of_mem hentry)))
        have hsame := List.inj_on_of_nodup_map hids hmem hold rfl
        exact (h.moved entry hentry).2.2 (hsame ▸ entry.row_period)
      · exact hfresh row hadded (List.mem_map_of_mem hbegun)
    rw [List.filter_append, hnone, List.nil_append, hall, List.map_append, List.map_append,
      List.map_map, hrows]
    exact .refl _
  · have hclass := h.rows.symm.subset hrow
    rw [List.mem_append, List.mem_append] at hclass
    rcases hclass with (hkept | hmoved) | hdropped
    · refine ⟨row, hafter.symm.subset ?_, rfl, rfl, rfl⟩
      exact List.mem_append_left _ (List.mem_append_left _ hkept)
    · obtain ⟨entry, hentry, rfl⟩ := List.mem_map.mp hmoved
      refine ⟨entry.row, hafter.symm.subset ?_, rfl, rfl, (h.moved entry hentry).2.1.symm⟩
      exact List.mem_append_left _ (List.mem_append_right _ (List.mem_map_of_mem hentry))
    · exact absurd hday (h.dropped row hdropped).2

/-- A row as the moves of a plan leave it. -/
def movedRow (moved : List MovedOccurrence) (row : StoredOccurrence) : StoredOccurrence :=
  match moved.find? fun entry => entry.occurrence.id = row.id with
  | none => row
  | some entry => { row with startsAt := entry.period.startsAt, endsAt := entry.period.endsAt }

@[simp] theorem movedRow_id (moved : List MovedOccurrence) (row : StoredOccurrence) :
    (movedRow moved row).id = row.id := by
  unfold movedRow
  split <;> rfl

theorem movedRow_of_absent {moved : List MovedOccurrence} {row : StoredOccurrence}
    (h : row.id ∉ moved.map (·.occurrence.id)) : movedRow moved row = row := by
  have hnone : (moved.find? fun entry => entry.occurrence.id = row.id) = none := by
    refine List.find?_eq_none.mpr fun entry hentry heq => h ?_
    rw [← of_decide_eq_true heq]
    exact List.mem_map_of_mem hentry
  unfold movedRow
  rw [hnone]

theorem movedRow_cons_of_eq {entry : MovedOccurrence} {row : StoredOccurrence}
    (h : entry.occurrence.id = row.id) (moved : List MovedOccurrence) :
    movedRow (entry :: moved) row =
      { row with startsAt := entry.period.startsAt, endsAt := entry.period.endsAt } := by
  unfold movedRow
  rw [List.find?_cons_of_pos (by simpa using h)]

theorem movedRow_cons_of_ne {entry : MovedOccurrence} {row : StoredOccurrence}
    (h : entry.occurrence.id ≠ row.id) (moved : List MovedOccurrence) :
    movedRow (entry :: moved) row = movedRow moved row := by
  unfold movedRow
  rw [List.find?_cons_of_neg (by simpa using h)]

/-- The rows that begin later are the periods that do. -/
theorem Rewritten.future {planned : List Period} {after : List StoredOccurrence}
    (h : Rewritten zone existing planned now after) {period : Period}
    (hlater : now < period.startsAt) :
    period ∈ after.map (·.period) ↔ period ∈ openPeriods zone existing planned now := by
  constructor
  · intro hmem
    obtain ⟨row, hrow, rfl⟩ := List.mem_map.mp hmem
    refine h.others.subset (List.mem_map_of_mem (List.mem_filter.mpr ⟨hrow, ?_⟩))
    refine decide_eq_true fun hbegun => ?_
    exact absurd (of_decide_eq_true (List.mem_filter.mp hbegun).2) (not_le.mpr hlater)
  · intro hopen
    exact (List.filter_sublist.map _).subset (h.others.symm.subset hopen)

/-- The rows of a series once those dropped are deleted and those moved are written. -/
theorem PlanSplit.perm_movedRow {planned : List Period} {plan : OccurrencePlan}
    (h : PlanSplit zone existing planned now plan) (hids : (existing.map (·.id)).Nodup) :
    ((existing.filter fun row => row.id ∉ plan.dropped.map (·.id)).map
      (movedRow plan.moved)).Perm (plan.kept ++ plan.moved.map (·.row)) := by
  have hclasses := (h.rows.map (·.id)).nodup_iff.mpr hids
  rw [List.map_append, List.map_append, List.nodup_append, List.nodup_append, List.map_map]
    at hclasses
  obtain ⟨⟨-, hmoved, hkept⟩, -, hdropped⟩ := hclasses
  refine ((h.rows.symm.filter _).map _).trans ?_
  have hstays : (plan.kept ++ plan.moved.map (·.occurrence)).filter
      (fun row => row.id ∉ plan.dropped.map (·.id)) =
        plan.kept ++ plan.moved.map (·.occurrence) := by
    refine List.filter_eq_self.mpr fun row hrow => decide_eq_true fun hmem => ?_
    refine hdropped row.id ?_ row.id hmem rfl
    rw [← List.map_map, ← List.map_append]
    exact List.mem_map_of_mem hrow
  have hgoes : plan.dropped.filter (fun row => row.id ∉ plan.dropped.map (·.id)) = [] :=
    List.filter_eq_nil_iff.mpr fun row hrow => by simpa using ⟨row, hrow, rfl⟩
  rw [List.filter_append, hstays, hgoes, List.append_nil, List.map_append, List.map_map]
  have hkeptRows : plan.kept.map (movedRow plan.moved) = plan.kept := by
    refine (List.map_congr_left fun row hrow => movedRow_of_absent fun hmem => ?_).trans
      (List.map_id _)
    exact hkept row.id (List.mem_map_of_mem hrow) _ hmem rfl
  have hmovedRows : plan.moved.map (movedRow plan.moved ∘ (·.occurrence)) =
      plan.moved.map (·.row) := by
    refine List.map_congr_left fun entry hentry => ?_
    have hfound : (plan.moved.find? fun other =>
        other.occurrence.id = entry.occurrence.id) = some entry := by
      obtain ⟨other, hother⟩ := Option.isSome_iff_exists.mp (List.find?_isSome.mpr
        ⟨entry, hentry, decide_eq_true rfl⟩ : (plan.moved.find? fun other =>
          other.occurrence.id = entry.occurrence.id).isSome)
      have hp := List.find?_some hother
      have heq : other = entry := List.inj_on_of_nodup_map hmoved
        (List.mem_of_find?_eq_some hother) hentry (of_decide_eq_true hp)
      rw [hother, heq]
    show movedRow plan.moved entry.occurrence = _
    unfold movedRow
    rw [hfound]
    rfl
  rw [hkeptRows, hmovedRows]

/-- The rows of a series are on different days after an edit. -/
theorem Rewritten.nodup_days {planned : List Period} {after : List StoredOccurrence}
    (h : Rewritten zone existing planned now after) (hafter : after.Nodup)
    (hdays : (existing.map (·.day zone)).Nodup)
    (hplanned : (planned.map fun period => localDayOf zone period.startsAt).Nodup) :
    (after.map (·.day zone)).Nodup := by
  have hsplit := (List.filter_append_perm (fun row => decide (row ∉ begunRows existing now))
    after).map (·.day zone)
  rw [List.map_append] at hsplit
  have hothers : ((after.filter (· ∉ begunRows existing now)).map (·.day zone)).Perm
      ((openPeriods zone existing planned now).map fun period =>
        localDayOf zone period.startsAt) := by
    have hdays := h.others.map fun period : Period => localDayOf zone period.startsAt
    rw [List.map_map] at hdays
    exact hdays
  have hbegun : ∀ row ∈ after.filter (fun row => !decide (row ∉ begunRows existing now)),
      row ∈ begunRows existing now := fun row hrow => by
    simpa using (List.mem_filter.mp hrow).2
  refine hsplit.nodup_iff.mp (List.nodup_append.mpr ⟨?_, ?_, ?_⟩)
  · exact hothers.nodup_iff.mpr (hplanned.sublist (List.filter_sublist.map _))
  · refine (hafter.sublist List.filter_sublist).map_on fun row hrow row' hrow' hday => ?_
    exact eq_of_day_eq hdays (List.mem_filter.mp (hbegun row hrow)).1
      (List.mem_filter.mp (hbegun row' hrow')).1 hday
  · -- a period on the day of a row that has begun is not written
    intro day hday day' hday' heq
    obtain ⟨period, hperiod, rfl⟩ := List.mem_map.mp (hothers.subset hday)
    obtain ⟨row, hrow, rfl⟩ := List.mem_map.mp hday'
    refine of_decide_eq_true (List.mem_filter.mp hperiod).2 ?_
    rw [heq]
    exact List.mem_map_of_mem (hbegun row hrow)

/-- The rows of a series are those of its schedule, but for those that have begun. -/
structure Follows (zone : Zone) (planned : List Period) (now : Int) (rows : List Period) :
    Prop where
  written : ∀ period ∈ planned,
    localDayOf zone period.startsAt ∈ rows.map fun period => localDayOf zone period.startsAt
  named : ∀ row ∈ rows, now < row.startsAt → row ∈ planned

theorem Follows.mono {planned rows : List Period} {now' : Int} (hle : now ≤ now')
    (h : Follows zone planned now rows) : Follows zone planned now' rows where
  written := h.written
  named row hrow hlater := h.named row hrow (hle.trans_lt hlater)

theorem Follows.perm {planned rows rows' : List Period} (h : Follows zone planned now rows)
    (hperm : rows.Perm rows') : Follows zone planned now rows' where
  written period hperiod := (hperm.map _).subset (h.written period hperiod)
  named row hrow := h.named row (hperm.symm.subset hrow)

theorem Rewritten.follows {planned : List Period} {after : List StoredOccurrence}
    (h : Rewritten zone existing planned now after) :
    Follows zone planned now (after.map (·.period)) := by
  refine ⟨fun period hperiod => ?_, fun period hperiod hlater => ?_⟩
  · rw [List.map_map]
    by_cases hheld : localDayOf zone period.startsAt ∈ (begunRows existing now).map (·.day zone)
    · obtain ⟨row, hrow, hday⟩ := List.mem_map.mp hheld
      obtain ⟨hmem, hbegun⟩ := List.mem_filter.mp hrow
      rw [← hday]
      exact List.mem_map_of_mem (f := (fun period : Period => localDayOf zone period.startsAt) ∘
        StoredOccurrence.period) (h.begun row hmem (of_decide_eq_true hbegun))
    · have hopen : period ∈ openPeriods zone existing planned now :=
        List.mem_filter.mpr ⟨hperiod, decide_eq_true hheld⟩
      obtain ⟨row, hrow, rfl⟩ := List.mem_map.mp (h.others.symm.subset hopen)
      exact List.mem_map_of_mem (f := (fun period : Period => localDayOf zone period.startsAt) ∘
        StoredOccurrence.period) (List.mem_filter.mp hrow).1
  · exact (List.mem_filter.mp ((h.future hlater).mp hperiod)).1

/-- **Planning the same schedule again.** -/
theorem Follows.plan {planned : List Period} (h : Follows zone planned now (existing.map (·.period)))
    (hdays : (existing.map (·.day zone)).Nodup)
    (hplanned : (planned.map fun period => localDayOf zone period.startsAt).Nodup) :
    (planOccurrences zone existing planned now).moved = [] ∧
      (planOccurrences zone existing planned now).dropped = [] ∧
      (planOccurrences zone existing planned now).added = [] := by
  have hplan := planSplit_planOccurrences now hdays hplanned
  set plan := planOccurrences zone existing planned now
  have hnamed : ∀ row ∈ existing, now < row.startsAt → row.period ∈ planned := fun row hrow =>
    h.named _ (List.mem_map_of_mem hrow)
  refine ⟨?_, ?_, ?_⟩
  · refine List.eq_nil_iff_forall_not_mem.mpr fun entry hentry => ?_
    obtain ⟨hlater, hday, hne⟩ := hplan.moved entry hentry
    have hrow : entry.occurrence ∈ existing := hplan.rows.subset (List.mem_append_left _
      (List.mem_append_right _ (List.mem_map_of_mem hentry)))
    -- both are the period of that day
    have hperiod : entry.period ∈ planned := by
      refine (List.mem_filter.mp (hplan.periods.subset ?_)).1
      exact List.mem_append_left _ (List.mem_append_right _ (List.mem_map_of_mem hentry))
    exact hne (List.inj_on_of_nodup_map hplanned (hnamed _ hrow hlater) hperiod hday)
  · refine List.eq_nil_iff_forall_not_mem.mpr fun row hrow => ?_
    obtain ⟨hlater, hnot⟩ := hplan.dropped row hrow
    have hmem : row ∈ existing := hplan.rows.subset (List.mem_append_right _ hrow)
    exact hnot (List.mem_map_of_mem (f := fun period : Period => localDayOf zone period.startsAt)
      (hnamed row hmem hlater))
  · refine List.eq_nil_iff_forall_not_mem.mpr fun period hperiod => ?_
    have hopen := hplan.periods.subset (List.mem_append_right _ hperiod)
    have hwritten := h.written period (List.mem_filter.mp hopen).1
    rw [List.map_map] at hwritten
    exact hplan.added period hperiod hwritten

end Passes

end OpenBrf.Events
