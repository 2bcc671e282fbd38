import Mathlib.Data.List.Pairwise
import OpenBrf.Roles.BoardPositions

/-!
# Roles.BoardTerms — the terms of one position, one after the other

What an act does to the register, as it stands when the act is committed, and what a history of
acts keeps where none moves an end date that has come.
-/

namespace OpenBrf.Roles

open Shared

variable {zone : Zone} {t t' now : Int}

/-- The days a term covers: none where it ended on or before its election. -/
def BoardPosition.Covers (seat : BoardPosition) (day : Int) : Prop :=
  seat.electedOn ≤ day ∧ ∀ ended ∈ seat.endedOn, day < ended

theorem heldOn_iff {seat : BoardPosition} {day : Int} :
    seat.heldOn day = true ↔ seat.Covers day := by
  unfold BoardPosition.heldOn BoardPosition.Covers
  cases seat.endedOn with
  | none => simp
  | some ended => simp

/-- One person in one position. -/
def SameOffice (a b : BoardPosition) : Prop := a.personId = b.personId ∧ a.position = b.position

theorem SameOffice.symm {a b : BoardPosition} (h : SameOffice a b) : SameOffice b a :=
  ⟨h.1.symm, h.2.symm⟩

/-- The association's day never goes back. -/
def Forward (zone : Zone) : Prop :=
  ∀ {t t' : Int}, t ≤ t' → localDayOf zone t ≤ localDayOf zone t'

/-- The term has ended by the day of a clock, or covers none. -/
def Over (zone : Zone) (t : Int) (seat : BoardPosition) : Prop :=
  ∃ ended ∈ seat.endedOn, ended ≤ seat.electedOn ∨ ended ≤ localDayOf zone t

theorem over_iff {seat : BoardPosition} :
    hasTermEnded zone seat.electedOn seat.endedOn t = true ↔ Over zone t seat := by
  unfold hasTermEnded Over
  cases seat.endedOn with
  | none => simp
  | some ended => simp

theorem Over.later (hforward : Forward zone) (ht : t ≤ t') {seat : BoardPosition}
    (h : Over zone t seat) : Over zone t' seat := by
  obtain ⟨ended, hended, h⟩ := h
  exact ⟨ended, hended, h.imp_right fun hle => hle.trans (hforward ht)⟩

/-- A register is vacant when every term is over by the day, whether it had begun or not. -/
theorem isRegisterVacant_iff {s : BoardStore} :
    isRegisterVacant zone s t = true ↔ ∀ row ∈ s.positions, Over zone t row := by
  unfold isRegisterVacant
  rw [List.all_eq_true]
  constructor
  · intro h row hrow
    by_cases hnot : row.notEndedOn (localDayOf zone t) = true
    · exact over_iff.mp (h row (List.mem_filter.mpr ⟨hrow, hnot⟩))
    · unfold BoardPosition.notEndedOn at hnot
      cases hended : row.endedOn with
      | none => simp [hended] at hnot
      | some ended =>
        rw [hended] at hnot
        exact ⟨ended, hended, .inr (by simpa using hnot)⟩
  · intro h row hrow
    exact over_iff.mpr (h row (List.mem_of_mem_filter hrow))

/-- Somebody who holds a seat holds one of the register's terms. -/
theorem holdsBoardSeat_iff {s : BoardStore} {personId : String} :
    holdsBoardSeat zone s personId t = true ↔
      ∃ row ∈ s.positions, row.personId = personId ∧ row.Covers (localDayOf zone t) := by
  unfold holdsBoardSeat
  simp only [List.any_eq_true, Bool.and_eq_true, decide_eq_true_eq, heldOn_iff]

/-- The first term is over, and covers no day from the election of the second. -/
structure Before (zone : Zone) (t : Int) (a b : BoardPosition) : Prop where
  past : Over zone t a
  apart : ∀ ended ∈ a.endedOn, ended ≤ a.electedOn ∨ ended ≤ b.electedOn

/-- Terms of one person in one position come one after the other. -/
def InTurn (zone : Zone) (t : Int) (a b : BoardPosition) : Prop :=
  SameOffice a b → Before zone t a b ∨ Before zone t b a

theorem InTurn.symm {a b : BoardPosition} (h : InTurn zone t a b) : InTurn zone t b a :=
  fun hsame => (h hsame.symm).symm

theorem Before.later (hforward : Forward zone) (ht : t ≤ t') {a b : BoardPosition}
    (h : Before zone t a b) : Before zone t' a b := ⟨h.past.later hforward ht, h.apart⟩

/-- Two terms of which one comes before the other cover no day both. -/
theorem Before.disjoint {a b : BoardPosition} (h : Before zone t a b) (day : Int) :
    ¬ (a.Covers day ∧ b.Covers day) := by
  rintro ⟨⟨hfrom, huntil⟩, hb, -⟩
  obtain ⟨ended, hended, -⟩ := h.past
  have hlt := huntil ended hended
  have hapart := h.apart ended hended
  omega

/-- No election is dated so far ahead that a later end of its term would be too far ahead. -/
theorem latestElection_le (ht : t ≤ t') : latestElection t ≤ latestTermEnd t' := by
  have hdates : ¬ (utcDateOf t').number < (utcDateOf t).number := by
    unfold utcDateOf
    rw [LocalDay.number_ofNumber, LocalDay.number_ofNumber, not_lt]
    exact Int.ediv_le_ediv (by decide) ht
  have hreal := LocalDay.real_ofNumber (t / MILLISECONDS_PER_DAY)
  have hreal' := LocalDay.real_ofNumber (t' / MILLISECONDS_PER_DAY)
  change (utcDateOf t).Real at hreal
  change (utcDateOf t').Real at hreal'
  rw [LocalDay.number_lt_iff hreal' hreal] at hdates
  -- the date of a year ahead is a date, and in an earlier month
  have hlater : ∀ {date : LocalDay}, date.Real → ∀ years : Int,
      (⟨date.year + years, date.month,
        min date.day (daysInMonth (date.year + years) date.month)⟩ : LocalDay).Real := by
    intro date hdate years
    have hlength : 0 < daysInMonth (date.year + years) date.month := by
      unfold daysInMonth
      split_ifs <;> omega
    have hday := hdate.2.1
    exact ⟨hdate.1, by dsimp only; omega, min_le_right _ _⟩
  refine le_of_lt ?_
  unfold latestElection latestTermEnd yearsAhead
  dsimp only
  rw [LocalDay.number_lt_iff (hlater hreal _) (hlater hreal' _)]
  left
  unfold LocalDay.monthIndex at hdates ⊢
  unfold ELECTION_HORIZON_YEARS TERM_HORIZON_YEARS
  dsimp only
  omega

/-! ### The acts -/

/-- A term that may be recorded beside those there are. -/
structure Recordable (zone : Zone) (now : Int) (terms : List BoardPosition) (seat : BoardPosition) :
    Prop where
  new : ∀ row ∈ terms, row.id ≠ seat.id
  unended : seat.endedOn = none
  past : ∀ row ∈ terms, SameOffice row seat → Over zone now row
  apart : ∀ row ∈ terms, SameOffice row seat → ∀ ended ∈ row.endedOn,
    ended ≤ row.electedOn ∨ ended ≤ seat.electedOn
  stated : ∃ text day, parseLocalDay text = some day ∧ day.number = seat.electedOn
  horizon : seat.electedOn ≤ latestElection now

/-- Terms recorded one at a time. -/
inductive Records (zone : Zone) (now : Int) :
    List BoardPosition → List BoardPosition → List BoardPosition → Prop
  | none (terms : List BoardPosition) : Records zone now terms [] terms
  | one {terms terms' rest : List BoardPosition} {seat : BoardPosition} :
      Recordable zone now terms seat → Records zone now (seat :: terms) rest terms' →
      Records zone now terms (seat :: rest) terms'

theorem Records.subset {terms terms' seats : List BoardPosition}
    (h : Records zone now terms seats terms') : terms ⊆ terms' := by
  induction h with
  | none terms => exact List.Subset.refl _
  | one _ _ ih => exact fun row hrow => ih (List.mem_cons_of_mem _ hrow)

theorem Records.mem {terms terms' seats : List BoardPosition}
    (h : Records zone now terms seats terms') {row : BoardPosition} (hrow : row ∈ terms') :
    row ∈ terms ∨ row ∈ seats := by
  induction h with
  | none terms => exact .inl hrow
  | one _ _ ih =>
    rcases ih hrow with hrow | hrow
    · rcases List.mem_cons.mp hrow with rfl | hrow
      · exact .inr List.mem_cons_self
      · exact .inl hrow
    · exact .inr (List.mem_cons_of_mem _ hrow)

/-- The register once a term has been given an end date. -/
def withTermEnd (terms : List BoardPosition) (id : String) (endedOn : Int) : List BoardPosition :=
  terms.map fun row => if row.id = id then { row with endedOn := some endedOn } else row

/-- One act of a request judged by the clock `now`, on the register as it stands. -/
inductive Act (zone : Zone) (now : Int) (s : BoardStore) : BoardStore → Prop
  | elected {s' : BoardStore} {actorPersonId : String} {seat : BoardPosition} :
      holdsBoardSeat zone s actorPersonId now = true →
      Recordable zone now s.positions seat → s'.positions = seat :: s.positions →
      s'.log = .elected now actorPersonId seat :: s.log → Act zone now s s'
  | recovered {s' : BoardStore} {actorPersonId reason : String} {seats : List BoardPosition} :
      isRegisterVacant zone s now = true → Records zone now s.positions seats s'.positions →
      s'.log = .recovered now actorPersonId seats reason :: s.log → Act zone now s s'
  | ended {s' : BoardStore} {actorPersonId : String} {seat : BoardPosition} {endedOn : Int} :
      holdsBoardSeat zone s actorPersonId now = true → seat ∈ s.positions →
      refuseTermEnd zone seat.electedOn seat.endedOn endedOn now = Option.none →
      s'.positions = withTermEnd s.positions seat.id endedOn →
      s'.log = .ended now actorPersonId seat endedOn :: s.log → Act zone now s s'

/-- Nothing happens to the register. -/
def Untouched (s s' : BoardStore) : Prop := s'.positions = s.positions ∧ s'.log = s.log

/-- What a commit makes of the register: nothing, or an act judged by a clock read before. -/
def Acted (zone : Zone) (t : Int) (s s' : BoardStore) : Prop :=
  Untouched s s' ∨ ∃ now ≤ t, Act zone now s s'

/-! ### What every history keeps -/

/-- The rows are told apart by their identifiers, and every election was stated as a date within
its horizon. -/
structure Registered (t : Int) (terms : List BoardPosition) : Prop where
  unique : (terms.map (·.id)).Nodup
  stated : ∀ row ∈ terms, ∃ text day, parseLocalDay text = some day ∧ day.number = row.electedOn
  horizon : ∀ row ∈ terms, ∃ now ≤ t, row.electedOn ≤ latestElection now

theorem Registered.later (ht : t ≤ t') {terms : List BoardPosition} (h : Registered t terms) :
    Registered t' terms := by
  refine ⟨h.unique, h.stated, fun row hrow => ?_⟩
  obtain ⟨now, hnow, hle⟩ := h.horizon row hrow
  exact ⟨now, hnow.trans ht, hle⟩

theorem Registered.eq_of_id {terms : List BoardPosition} (h : Registered t terms)
    {a b : BoardPosition} (ha : a ∈ terms) (hb : b ∈ terms) (hid : a.id = b.id) : a = b :=
  List.inj_on_of_nodup_map h.unique ha hb hid

theorem Registered.cons {terms : List BoardPosition} {seat : BoardPosition}
    (h : Registered t terms) (hnow : now ≤ t) (hr : Recordable zone now terms seat) :
    Registered t (seat :: terms) := by
  refine ⟨?_, ?_, ?_⟩
  · rw [List.map_cons, List.nodup_cons, List.mem_map]
    refine ⟨?_, h.unique⟩
    rintro ⟨row, hrow, hid⟩
    exact hr.new row hrow hid
  · intro row hrow
    rcases List.mem_cons.mp hrow with rfl | hrow
    · exact hr.stated
    · exact h.stated row hrow
  · intro row hrow
    rcases List.mem_cons.mp hrow with rfl | hrow
    · exact ⟨now, hnow, hr.horizon⟩
    · exact h.horizon row hrow

theorem Registered.records {terms terms' seats : List BoardPosition} (h : Registered t terms)
    (hnow : now ≤ t) (hr : Records zone now terms seats terms') : Registered t terms' := by
  induction hr with
  | none terms => exact h
  | one hseat _ ih => exact ih (h.cons hnow hseat)

/-- The row a term becomes once it has been given an end date keeps all else. -/
theorem mem_withTermEnd {terms : List BoardPosition} {id : String} {endedOn : Int}
    {row : BoardPosition} (h : row ∈ withTermEnd terms id endedOn) :
    ∃ old ∈ terms, row = (if old.id = id then { old with endedOn := some endedOn } else old) ∧
      row.id = old.id ∧ row.personId = old.personId ∧ row.position = old.position ∧
      row.electedOn = old.electedOn := by
  obtain ⟨old, hold, rfl⟩ := List.mem_map.mp h
  refine ⟨old, hold, rfl, ?_⟩
  split_ifs <;> exact ⟨rfl, rfl, rfl, rfl⟩

theorem Registered.withTermEnd {terms : List BoardPosition} (h : Registered t terms)
    (id : String) (endedOn : Int) : Registered t (withTermEnd terms id endedOn) := by
  refine ⟨?_, ?_, ?_⟩
  · have hids : (Roles.withTermEnd terms id endedOn).map (·.id) = terms.map (·.id) := by
      rw [Roles.withTermEnd, List.map_map]
      refine List.map_congr_left fun row _ => ?_
      show (if row.id = id then _ else row : BoardPosition).id = row.id
      split_ifs <;> rfl
    rw [hids]
    exact h.unique
  · intro row hrow
    obtain ⟨old, hold, -, -, -, -, helected⟩ := mem_withTermEnd hrow
    rw [helected]
    exact h.stated old hold
  · intro row hrow
    obtain ⟨old, hold, -, -, -, -, helected⟩ := mem_withTermEnd hrow
    rw [helected]
    exact h.horizon old hold

/-- **One act** keeps the register in order. -/
theorem Registered.acted {s s' : BoardStore} (h : Registered t s.positions)
    (hacted : Acted zone t s s') : Registered t s'.positions := by
  rcases hacted with ⟨hsame, -⟩ | ⟨now, hnow, hact⟩
  · rwa [hsame]
  · cases hact with
    | elected _ hseat hpositions _ =>
      rw [hpositions]
      exact h.cons hnow hseat
    | recovered _ hrecords _ => exact h.records hnow hrecords
    | ended _ _ _ hpositions _ =>
      rw [hpositions]
      exact h.withTermEnd _ _

/-! ### What a history keeps where every end date is moved in time -/

/-- No request moves an end date that came while the request waited: the date does not fall
between the day of its clock and the day it is written on. -/
def InTime (zone : Zone) (t : Int) (entry : BoardEntry) : Prop :=
  match entry with
  | .ended judgedAt _ seat endedOn => ∀ ended ∈ seat.endedOn, ended ≠ endedOn →
    ¬ (localDayOf zone judgedAt < ended ∧ ended ≤ localDayOf zone t)
  | _ => True

/-- A term whose end date is moved, in time, is not over when it is written. -/
theorem not_over_of_inTime {seat : BoardPosition} {endedOn judgedAt : Int} {actor : String}
    (hrefuse : refuseTermEnd zone seat.electedOn seat.endedOn endedOn judgedAt = none)
    (htime : InTime zone t (.ended judgedAt actor seat endedOn))
    (hmoved : seat.endedOn ≠ some endedOn) : ¬ Over zone t seat := by
  rintro ⟨ended, hended, hover⟩
  have hrunning : ¬ Over zone judgedAt seat := by
    rw [← over_iff]
    intro htrue
    unfold refuseTermEnd at hrefuse
    rw [if_pos htrue] at hrefuse
    cases hrefuse
  have hnot := htime ended hended fun heq => hmoved (by rw [← heq]; exact hended)
  have hafter : ¬ (ended ≤ seat.electedOn ∨ ended ≤ localDayOf zone judgedAt) :=
    fun h => hrunning ⟨ended, hended, h⟩
  omega

/-- The terms of each person in each position come one after the other. -/
def InOrder (zone : Zone) (t : Int) (terms : List BoardPosition) : Prop :=
  terms.Pairwise (InTurn zone t)

theorem InOrder.later (hforward : Forward zone) (ht : t ≤ t') {terms : List BoardPosition}
    (h : InOrder zone t terms) : InOrder zone t' terms :=
  h.imp fun hturn hsame => (hturn hsame).imp (·.later hforward ht) (·.later hforward ht)

theorem InOrder.cons (hforward : Forward zone) (hnow : now ≤ t) {terms : List BoardPosition}
    {seat : BoardPosition} (h : InOrder zone t terms) (hr : Recordable zone now terms seat) :
    InOrder zone t (seat :: terms) := by
  refine List.Pairwise.cons (fun row hrow hsame => .inr ⟨?_, ?_⟩) h
  · exact (hr.past row hrow hsame.symm).later hforward hnow
  · exact hr.apart row hrow hsame.symm

theorem InOrder.records (hforward : Forward zone) (hnow : now ≤ t)
    {terms terms' seats : List BoardPosition} (h : InOrder zone t terms)
    (hr : Records zone now terms seats terms') : InOrder zone t terms' := by
  induction hr with
  | none terms => exact h
  | one hseat _ ih => exact ih (h.cons hforward hnow hseat)

/-- A term that is not over comes after every other one, and may be given any end date. -/
theorem InTurn.withTermEnd {a b : BoardPosition} (h : InTurn zone t a b) (hb : ¬ Over zone t b)
    (endedOn : Int) : InTurn zone t a { b with endedOn := some endedOn } := by
  intro hsame
  rcases h hsame with hbefore | hafter
  · exact .inl ⟨hbefore.past, hbefore.apart⟩
  · exact absurd hafter.past hb

theorem InOrder.withTermEnd {terms : List BoardPosition} (h : InOrder zone t terms)
    (hunique : (terms.map (·.id)).Nodup) {seat : BoardPosition} (hseat : seat ∈ terms)
    (hover : ¬ Over zone t seat) (endedOn : Int) :
    InOrder zone t (withTermEnd terms seat.id endedOn) := by
  unfold InOrder Roles.withTermEnd
  rw [List.pairwise_map]
  have hpairs : terms.Pairwise fun a b => InTurn zone t a b ∧ a.id ≠ b.id :=
    h.and (List.pairwise_map.mp hunique)
  refine hpairs.imp_of_mem fun {a b} ha hb hab => ?_
  obtain ⟨hturn, hne⟩ := hab
  by_cases hida : a.id = seat.id
  · obtain rfl := List.inj_on_of_nodup_map hunique ha hseat hida
    rw [if_pos rfl, if_neg hne.symm]
    exact (hturn.symm.withTermEnd hover endedOn).symm
  · rw [if_neg hida]
    by_cases hidb : b.id = seat.id
    · obtain rfl := List.inj_on_of_nodup_map hunique hb hseat hidb
      rw [if_pos rfl]
      exact hturn.withTermEnd hover endedOn
    · rw [if_neg hidb]
      exact hturn

/-- A term given the end date it has stands as it is. -/
theorem withTermEnd_eq {terms : List BoardPosition} (hunique : (terms.map (·.id)).Nodup)
    {seat : BoardPosition} (hseat : seat ∈ terms) {endedOn : Int}
    (hsame : seat.endedOn = some endedOn) : withTermEnd terms seat.id endedOn = terms := by
  unfold withTermEnd
  conv_rhs => rw [← List.map_id terms]
  refine List.map_congr_left fun row hrow => ?_
  split_ifs with hid
  · obtain rfl := List.inj_on_of_nodup_map hunique hrow hseat hid
    rw [← hsame]
    rfl
  · rfl

/-- **One act in time** keeps the terms one after the other. -/
theorem InOrder.acted (hforward : Forward zone) {s s' : BoardStore}
    (h : InOrder zone t s.positions) (hregistered : Registered t s.positions)
    (hacted : Acted zone t s s') (htime : ∀ entry, s'.log = entry :: s.log → InTime zone t entry) :
    InOrder zone t s'.positions := by
  rcases hacted with ⟨hsame, -⟩ | ⟨now, hnow, hact⟩
  · rwa [hsame]
  · cases hact with
    | elected _ hseat hpositions _ =>
      rw [hpositions]
      exact h.cons hforward hnow hseat
    | recovered _ hrecords _ => exact h.records hforward hnow hrecords
    | ended hholds hseat hrefuse hpositions hlog =>
      rename_i seat endedOn
      rw [hpositions]
      by_cases hmoved : seat.endedOn = some endedOn
      · rwa [withTermEnd_eq hregistered.unique hseat hmoved]
      · exact h.withTermEnd hregistered.unique hseat
          (not_over_of_inTime hrefuse (htime _ hlog) hmoved) _

/-- Two terms of one person in one position cover no day both. -/
theorem InOrder.disjoint {terms : List BoardPosition} (h : InOrder zone t terms) :
    terms.Pairwise fun a b => SameOffice a b → ∀ day, ¬ (a.Covers day ∧ b.Covers day) := by
  refine h.imp fun {a b} hturn hsame day hboth => ?_
  rcases hturn hsame with hbefore | hbefore
  · exact hbefore.disjoint day hboth
  · exact hbefore.disjoint day hboth.symm

/-- A term that is over stands as it is. -/
theorem kept_of_over {s s' : BoardStore} (hregistered : Registered t s.positions)
    (hacted : Acted zone t s s') (htime : ∀ entry, s'.log = entry :: s.log → InTime zone t entry)
    {row : BoardPosition} (hrow : row ∈ s.positions) (hover : Over zone t row) :
    row ∈ s'.positions := by
  rcases hacted with ⟨hsame, -⟩ | ⟨now, hnow, hact⟩
  · rwa [hsame]
  · cases hact with
    | elected _ _ hpositions _ =>
      rw [hpositions]
      exact List.mem_cons_of_mem _ hrow
    | recovered _ hrecords _ => exact hrecords.subset hrow
    | ended hholds hseat hrefuse hpositions hlog =>
      rename_i seat endedOn
      rw [hpositions]
      by_cases hmoved : seat.endedOn = some endedOn
      · rwa [withTermEnd_eq hregistered.unique hseat hmoved]
      · refine List.mem_map.mpr ⟨row, hrow, if_neg fun hid => ?_⟩
        obtain rfl := hregistered.eq_of_id hrow hseat hid
        exact not_over_of_inTime hrefuse (htime _ hlog) hmoved hover

end OpenBrf.Roles
