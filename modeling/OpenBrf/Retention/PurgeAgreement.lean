import OpenBrf.Retention.PurgeDate

/-!
# Retention.PurgeAgreement — the date shown, the refusal and the scan are one rule

A move-out is on or before the cutoff exactly when its purge date is on or before now, and such a
move-out has come on the association's calendar, whose day is never behind that of UTC.
-/

namespace OpenBrf.Retention

open Shared

variable {zone : Zone} {now : Instant} {days : ℚ} {cutoff : Instant} {person : PersonRow}

theorem round_nonneg (hdays : 0 ≤ days) : 0 ≤ round days :=
  Int.floor_nonneg.mpr (add_nonneg hdays (by norm_num))

theorem checkedDays_some (hdays : 0 ≤ days) : checkedDays (some days) = .ok days :=
  if_neg (not_lt.mpr hdays)

theorem time_of_newDate {time : Int} {date : Instant} (h : newDate time = some date) :
    date.time = time := by
  unfold newDate at h
  split_ifs at h
  rw [← Option.some.inj h]

/-! ### Ties, holds and restrictions -/

/-- Nothing but the residencies stands in the way. -/
structure Free (person : PersonRow) (now : Instant) : Prop where
  restriction : person.processingRestrictedAt = none
  holds : person.standingHolds = []
  ties : standingTie person.tieFacts now = none

theorem standingTie_eq_none : standingTie person.tieFacts now = none ↔
    holdsNoStandingTie now person = true := by
  unfold standingTie holdsNoStandingTie PersonRow.tieFacts
  rw [← List.not_any_eq_all_not]
  cases person.boardPositions.any (endsAfter (some now)) <;> cases person.systemRoles <;>
    cases person.pluginAccesses <;> simp

theorem standingHolds_eq_nil : person.standingHolds = [] ↔
    person.legalHolds.all (· ≠ none) = true := by
  unfold PersonRow.standingHolds
  rw [List.filter_eq_nil_iff, List.all_eq_true]
  simp

/-! ### The residencies -/

/-- Every residency ended by an instant, and there is one. -/
def EndedBy (person : PersonRow) (time : Int) : Prop :=
  person.residencies ≠ [] ∧
    ∀ movedOutOn ∈ person.residencies, ∃ column ∈ movedOutOn, column.getTime ≤ time

theorem any_endsAfter (cutoff : Instant) (residencies : List (Option DateColumn)) :
    residencies.any (endsAfter (some cutoff)) = false ↔
      ∀ movedOutOn ∈ residencies, ∃ column ∈ movedOutOn, column.getTime ≤ cutoff.time := by
  rw [List.any_eq_false]
  refine forall₂_congr fun movedOutOn _ => ?_
  cases movedOutOn with
  | none => simp [endsAfter]
  | some column => simp [endsAfter, isAfter, DateColumn.date]

theorem purgeRefusal_eq_none : purgeRefusal person.refusalFacts now (some cutoff) false = none ↔
    Free person now ∧ EndedBy person cutoff.time := by
  have hresidencies := any_endsAfter cutoff person.residencies
  unfold purgeRefusal PersonRow.refusalFacts
  dsimp only
  constructor
  · intro h
    by_cases hrestricted : person.processingRestrictedAt = none
    swap
    · rw [if_pos hrestricted] at h
      cases h
    by_cases hheld : 0 < person.standingHolds.length
    · rw [if_neg (not_not.mpr hrestricted), if_pos hheld] at h
      cases h
    cases htie : standingTie person.tieFacts now with
    | some tie =>
      rw [if_neg (not_not.mpr hrestricted), if_neg hheld, htie] at h
      cases h
    | none =>
      rw [if_neg (not_not.mpr hrestricted), if_neg hheld, htie] at h
      simp only [Bool.false_eq_true, ↓reduceIte] at h
      split_ifs at h with hnone hends
      · refine ⟨⟨hrestricted, ?_, htie⟩, ?_, ?_⟩
        · exact List.eq_nil_of_length_eq_zero (Nat.eq_zero_of_not_pos hheld)
        · exact fun hnil => hnone (by rw [hnil]; rfl)
        · exact hresidencies.mp (Bool.eq_false_of_not_eq_true hends)
  · rintro ⟨⟨hrestricted, hheld, htie⟩, hsome, hended⟩
    have hlength : ¬person.residencies.length = 0 := fun hzero =>
      hsome (List.eq_nil_of_length_eq_zero hzero)
    rw [if_neg (not_not.mpr hrestricted), hheld, if_neg (by simp), htie]
    dsimp only
    rw [if_neg hlength, if_neg (by rw [hresidencies.mpr hended]; exact Bool.false_ne_true)]

theorem mayBePurged_iff : mayBePurged now (some cutoff) person = true ↔
    Free person now ∧ EndedBy person cutoff.time := by
  unfold mayBePurged
  rw [Bool.and_eq_true, Bool.and_eq_true, Bool.and_eq_true, Bool.and_eq_true,
    ← standingTie_eq_none, ← standingHolds_eq_nil, Bool.not_eq_true', Bool.not_eq_true',
    any_endsAfter, decide_eq_true_eq]
  constructor
  · rintro ⟨⟨⟨⟨hsome, hended⟩, htie⟩, hheld⟩, hrestricted⟩
    refine ⟨⟨hrestricted, hheld, htie⟩, fun hnil => ?_, hended⟩
    rw [hnil] at hsome
    cases hsome
  · rintro ⟨⟨hrestricted, hheld, htie⟩, hsome, hended⟩
    exact ⟨⟨⟨⟨by simpa using hsome, hended⟩, htie⟩, hheld⟩, hrestricted⟩

/-! ### The last move-out -/

theorem lastMoveOut_eq_some : ∀ {residencies : List (Option DateColumn)}
    {last found : Option DateColumn}, lastMoveOut zone now last residencies = some found →
      (∀ movedOutOn ∈ residencies, hasMovedOut zone movedOutOn now = true) ∧
      (found = none → last = none ∧ residencies = []) ∧
      (∀ column ∈ found, column ∈ last ∨ some column ∈ residencies) ∧
      ∀ latest ∈ found, (∀ column ∈ last, column.getTime ≤ latest.getTime) ∧
        ∀ movedOutOn ∈ residencies, ∃ column ∈ movedOutOn, column.getTime ≤ latest.getTime
  | [], last, found, h => by
    obtain rfl := Option.some.inj h
    refine ⟨by simp, fun hnone => ⟨hnone, rfl⟩, fun _ hin => .inl hin, fun latest hlatest => ?_⟩
    refine ⟨fun column hcolumn => ?_, by simp⟩
    rw [Option.mem_unique hcolumn hlatest]
  | none :: _, _, _, h => by
    unfold lastMoveOut at h
    cases h
  | some movedOutOn :: residencies, last, found, h => by
    unfold lastMoveOut at h
    split_ifs at h with hmoved
    -- the latest so far is one of the two, and no earlier than either
    obtain ⟨kept, hkept, hrest⟩ : ∃ kept, (kept = movedOutOn ∨ kept ∈ last) ∧
        movedOutOn.getTime ≤ kept.getTime ∧ (∀ column ∈ last, column.getTime ≤ kept.getTime) ∧
        lastMoveOut zone now (some kept) residencies = some found := by
      cases last with
      | none => exact ⟨movedOutOn, .inl rfl, Int.le_refl _, (fun _ hnone => by cases hnone), h⟩
      | some latest =>
        dsimp only at h
        split_ifs at h with hlater
        · refine ⟨movedOutOn, .inl rfl, Int.le_refl _, fun column hcolumn => ?_, h⟩
          rw [← Option.mem_some_iff.mp hcolumn]
          exact hlater.le
        · refine ⟨latest, .inr rfl, not_lt.mp hlater, fun column hcolumn => ?_, h⟩
          rw [← Option.mem_some_iff.mp hcolumn]
    obtain ⟨hle, hlast, hfound⟩ := hrest
    obtain ⟨hall, hnone, hfrom, hlatest⟩ := lastMoveOut_eq_some hfound
    refine ⟨fun movedOutOn' hin => ?_, fun hempty => ?_, fun column hcolumn => ?_,
      fun latest hin => ?_⟩
    · rcases List.mem_cons.mp hin with rfl | hlater
      · exact hmoved
      · exact hall _ hlater
    · cases (hnone hempty).1
    · rcases hfrom column hcolumn with hkeep | hlater
      · rw [← Option.mem_some_iff.mp hkeep]
        rcases hkept with rfl | hbefore
        · exact .inr List.mem_cons_self
        · exact .inl hbefore
      · exact .inr (List.mem_cons_of_mem _ hlater)
    · obtain ⟨hkeep, hothers⟩ := hlatest latest hin
      have hkeep := hkeep kept rfl
      refine ⟨fun column hcolumn => (hlast column hcolumn).trans hkeep, fun movedOutOn' hmem => ?_⟩
      rcases List.mem_cons.mp hmem with rfl | hlater
      · exact ⟨movedOutOn, rfl, hle.trans hkeep⟩
      · exact hothers _ hlater

theorem exists_lastMoveOut : ∀ (residencies : List (Option DateColumn)) (last : Option DateColumn),
    (∀ movedOutOn ∈ residencies, hasMovedOut zone movedOutOn now = true) →
      ∃ found, lastMoveOut zone now last residencies = some found
  | [], last, _ => ⟨last, rfl⟩
  | none :: _, _, h => by
    have hmoved := h none List.mem_cons_self
    unfold hasMovedOut at hmoved
    cases hmoved
  | some movedOutOn :: residencies, last, h => by
    have hrest : ∀ movedOutOn ∈ residencies, hasMovedOut zone movedOutOn now = true :=
      fun _ hin => h _ (List.mem_cons_of_mem _ hin)
    unfold lastMoveOut
    rw [if_neg (not_not.mpr (h _ List.mem_cons_self))]
    cases last with
    | none => exact exists_lastMoveOut residencies _ hrest
    | some latest =>
      dsimp only
      split_ifs
      · exact exists_lastMoveOut residencies _ hrest
      · exact exists_lastMoveOut residencies _ hrest

/-! ### The date has come -/

/-- The cutoff, and the association's day, are dates a `Date` can hold. -/
structure InRange (zone : Zone) (now : Instant) (days : ℚ) : Prop where
  cutoff : (newDate (now.time - round days * MILLISECONDS_PER_DAY)).isSome
  today : (dateColumnOf (fieldsAt zone now.time).1).isSome

/-- The date a person's page shows is one that is not after now. -/
def Arrived (zone : Zone) (person : PersonRow) (now : Instant) (days : ℚ) : Prop :=
  ∃ date : Instant,
    computePersonPurgeDate zone person.purgeFacts (some days) now = .ok (some (some date)) ∧
      date.time ≤ now.time

/-- A move-out that is not after now in UTC has come on the association's calendar, which is ahead. -/
theorem hasMovedOut_of_le (hahead : ∀ t, 0 ≤ zone.offset t)
    (htoday : (dateColumnOf (fieldsAt zone now.time).1).isSome) {column : DateColumn}
    (hle : column.getTime ≤ now.time) : hasMovedOut zone (some column) now = true := by
  obtain ⟨today, htoday⟩ := Option.isSome_iff_exists.mp htoday
  have htime : today.time = utcDayOf zone now.time * MILLISECONDS_PER_DAY := time_of_newDate htoday
  have hoffset := hahead now.time
  unfold hasMovedOut
  rw [htoday]
  dsimp only
  rw [decide_eq_true_eq, htime]
  have hday := localDayOf_le_utcDayOf zone now.time
  unfold DateColumn.getTime at hle ⊢
  unfold localDayOf Zone.wall at hday
  simp only [MILLISECONDS_PER_DAY, MILLISECONDS_PER_MINUTE, MINUTES_PER_DAY] at hle hday ⊢
  omega

theorem withheld_purgeFacts : person.purgeFacts.withheld = false ↔
    person.standingHolds = [] ∧ person.processingRestrictedAt = none := by
  unfold PersonRow.purgeFacts
  dsimp only
  rw [decide_eq_false_iff_not, not_or, not_not]
  cases person.standingHolds <;> simp

/-- **The date shown has come** exactly when nothing else stands in the way and every residency ended
by the cutoff. -/
theorem arrived_iff (hahead : ∀ t, 0 ≤ zone.offset t) (hdays : 0 ≤ days)
    (hrange : InRange zone now days) : Arrived zone person now days ↔
      Free person now ∧ EndedBy person (now.time - round days * MILLISECONDS_PER_DAY) := by
  have hround : 0 ≤ round days * MILLISECONDS_PER_DAY :=
    Int.mul_nonneg (round_nonneg hdays) (by decide)
  unfold Arrived computePersonPurgeDate
  constructor
  · rintro ⟨date, hdate, hle⟩
    split_ifs at hdate with hstands
    · cases Except.ok.inj hdate
    · rw [not_or, not_or, not_not] at hstands
      obtain ⟨hwithheld, htie, hsome⟩ := hstands
      obtain ⟨hheld, hrestricted⟩ := withheld_purgeFacts.mp (Bool.eq_false_of_not_eq_true hwithheld)
      split at hdate
      · cases Except.ok.inj hdate
      · next last hlast =>
        obtain ⟨-, -, -, hlatest⟩ := lastMoveOut_eq_some hlast
        cases last with
        | none =>
          unfold computePurgeDate at hdate
          cases Except.ok.inj hdate
        | some latest =>
          unfold computePurgeDate at hdate
          rw [checkedDays_some hdays] at hdate
          have htime := time_of_newDate (Option.some.inj (Except.ok.inj hdate))
          refine ⟨⟨hrestricted, hheld, htie⟩, fun hnil => hsome ?_, fun movedOutOn hin => ?_⟩
          · show person.residencies.length = 0
            rw [hnil]
            rfl
          · obtain ⟨column, hcolumn, hearlier⟩ := (hlatest latest rfl).2 movedOutOn hin
            exact ⟨column, hcolumn, by omega⟩
  · rintro ⟨⟨hrestricted, hheld, htie⟩, hsome, hended⟩
    have hmoved : ∀ movedOutOn ∈ person.residencies, hasMovedOut zone movedOutOn now = true := by
      intro movedOutOn hin
      obtain ⟨column, hcolumn, hle⟩ := hended movedOutOn hin
      rw [hcolumn]
      exact hasMovedOut_of_le hahead hrange.today (by omega)
    obtain ⟨last, hlast⟩ := exists_lastMoveOut person.residencies none hmoved
    obtain ⟨-, hempty, hfrom, -⟩ := lastMoveOut_eq_some hlast
    cases last with
    | none => exact absurd (hempty rfl).2 hsome
    | some latest =>
      have hin : some latest ∈ person.residencies := (hfrom latest rfl).resolve_left nofun
      obtain ⟨column, hcolumn, hle⟩ := hended _ hin
      obtain rfl := Option.some.inj hcolumn
      have hvalid := latest.valid
      have hnow := now.valid
      have hle' : latest.getTime + round days * MILLISECONDS_PER_DAY ≤ now.time := by omega
      have hfits : -MAX_TIME ≤ latest.getTime + round days * MILLISECONDS_PER_DAY ∧
          latest.getTime + round days * MILLISECONDS_PER_DAY ≤ MAX_TIME := by
        unfold DateColumn.getTime at hle' ⊢
        omega
      have hdate : newDate (latest.getTime + round days * MILLISECONDS_PER_DAY) =
          some ⟨latest.getTime + round days * MILLISECONDS_PER_DAY, hfits⟩ :=
        dif_pos hfits
      have hstands : ¬(person.purgeFacts.withheld = true ∨
          standingTie person.purgeFacts.toStandingTieFacts now ≠ none ∨
          person.purgeFacts.residencies.length = 0) := by
        rw [withheld_purgeFacts.mpr ⟨hheld, hrestricted⟩, not_or, not_or, not_not]
        exact ⟨Bool.false_ne_true, htie, fun hzero =>
          hsome (List.eq_nil_of_length_eq_zero hzero)⟩
      refine ⟨⟨latest.getTime + round days * MILLISECONDS_PER_DAY, hfits⟩, ?_, hle'⟩
      rw [if_neg hstands, show lastMoveOut zone now none person.purgeFacts.residencies =
        some (some latest) from hlast]
      show computePurgeDate (some latest) (some days) = _
      unfold computePurgeDate
      rw [checkedDays_some hdays]
      exact congrArg (fun date => Except.ok (some date)) hdate

/-! ### A run -/

theorem mem_foldl_addPerson (withheld : List String) (id : String) :
    ∀ (persons : List PersonRow) (ids : List String),
      id ∈ persons.foldl (addPerson withheld) ids ↔
        id ∈ ids ∨ id ∉ withheld ∧ ∃ person ∈ persons, person.id = id
  | [], ids => by simp
  | person :: persons, ids => by
    rw [List.foldl_cons, mem_foldl_addPerson withheld id persons]
    unfold addPerson
    by_cases hskip : (withheld.contains person.id || ids.contains person.id) = true
    · rw [if_pos hskip]
      rw [Bool.or_eq_true, List.contains_iff_mem, List.contains_iff_mem] at hskip
      constructor
      · rintro (hin | ⟨hheld, other, hother, hid⟩)
        · exact .inl hin
        · exact .inr ⟨hheld, other, List.mem_cons_of_mem _ hother, hid⟩
      · rintro (hin | ⟨hheld, other, hother, hid⟩)
        · exact .inl hin
        · rcases List.mem_cons.mp hother with rfl | hlater
          · exact .inl (hid ▸ hskip.resolve_left (fun hwithheld => hheld (hid ▸ hwithheld)))
          · exact .inr ⟨hheld, other, hlater, hid⟩
    · rw [if_neg hskip, List.mem_append, List.mem_singleton]
      rw [Bool.or_eq_true, List.contains_iff_mem, List.contains_iff_mem, not_or] at hskip
      constructor
      · rintro ((hin | rfl) | ⟨hheld, other, hother, hid⟩)
        · exact .inl hin
        · exact .inr ⟨hskip.1, person, List.mem_cons_self, rfl⟩
        · exact .inr ⟨hheld, other, List.mem_cons_of_mem _ hother, hid⟩
      · rintro (hin | ⟨hheld, other, hother, hid⟩)
        · exact .inl (.inl hin)
        · rcases List.mem_cons.mp hother with rfl | hlater
          · exact .inl (.inr hid.symm)
          · exact .inr ⟨hheld, other, hlater, hid⟩

theorem mem_byCreatedAt {persons : List PersonRow} :
    person ∈ byCreatedAt persons ↔ person ∈ persons :=
  (List.perm_insertionSort _ persons).mem_iff

theorem length_byCreatedAt (persons : List PersonRow) :
    (byCreatedAt persons).length = persons.length :=
  (List.perm_insertionSort _ persons).length_eq

theorem not_isWithheld (h : Free person now) : isWithheld person = false := by
  have hheld := standingHolds_eq_nil.mp h.holds
  unfold isWithheld
  rw [h.restriction, Option.isSome_none, Bool.or_false, List.any_eq_false]
  rw [List.all_eq_true] at hheld
  simpa using hheld

/-- The two lists of a run are of different people. -/
theorem length_lists_le (persons : List PersonRow) (isOne other : PersonRow → Bool) :
    (persons.filter isOne).length +
      (persons.filter fun person => other person && !isOne person).length ≤ persons.length := by
  induction persons with
  | nil => exact Nat.le_refl _
  | cons person persons ih =>
    rw [List.filter_cons, List.filter_cons]
    cases isOne person <;> cases other person <;>
      simp only [Bool.false_eq_true, ↓reduceIte, Bool.not_false, Bool.not_true, Bool.and_self,
        Bool.and_true, Bool.and_false, List.length_cons] <;> omega

theorem eligible_of_cutoff (hcutoff : purgeCutoff now (some days) = .ok (some cutoff))
    (persons : List PersonRow) (defaultLocale : String) (referencedIds : List String)
    (maxPersons : ℕ) : ∃ onRequest scanned : List PersonRow,
      onRequest = (byCreatedAt persons).filter (fun person =>
        (erasureRequestedPersonIds now persons).contains person.id) ∧
      scanned = (byCreatedAt persons).filter (fun person => (mayBePurged now (some cutoff) person &&
        hasSomethingToErase defaultLocale referencedIds person) &&
          !(erasureRequestedPersonIds now persons).contains person.id) ∧
      eligible now persons defaultLocale referencedIds (some days) maxPersons =
        .ok ((onRequest ++ scanned.take (remainingRunBound onRequest.length maxPersons)).foldl
          (addPerson (withheldPersonIds persons)) []) := by
  refine ⟨_, _, rfl, rfl, ?_⟩
  unfold eligible
  rw [hcutoff]
  dsimp only
  rw [if_neg (by simp)]
  simp only [Bool.and_right_comm]

/-- Whoever a run selects was granted an erasure, or meets the conditions of the scan. -/
theorem of_mem_eligible (hcutoff : purgeCutoff now (some days) = .ok (some cutoff))
    {persons : List PersonRow} (hids : (persons.map (·.id)).Nodup) {defaultLocale : String}
    {referencedIds : List String} {maxPersons : ℕ} {ids : List String}
    (hrun : eligible now persons defaultLocale referencedIds (some days) maxPersons = .ok ids)
    (hperson : person ∈ persons) (hin : person.id ∈ ids) :
    person.id ∈ erasureRequestedPersonIds now persons ∨
      mayBePurged now (some cutoff) person = true ∧
        hasSomethingToErase defaultLocale referencedIds person = true := by
  obtain ⟨onRequest, scanned, rfl, rfl, heq⟩ :=
    eligible_of_cutoff hcutoff persons defaultLocale referencedIds maxPersons
  rw [heq] at hrun
  obtain rfl := Except.ok.inj hrun
  rw [mem_foldl_addPerson] at hin
  obtain ⟨-, other, hother, hid⟩ := hin.resolve_left nofun
  have hsame : ∀ other ∈ byCreatedAt persons, other.id = person.id → other = person :=
    fun other hother hid =>
      List.inj_on_of_nodup_map hids (mem_byCreatedAt.mp hother) hperson hid
  rcases List.mem_append.mp hother with hrequested | hscanned
  · rw [List.mem_filter, List.contains_iff_mem, hid] at hrequested
    exact .inl hrequested.2
  · have hscanned := List.mem_of_mem_take hscanned
    rw [List.mem_filter] at hscanned
    obtain rfl := hsame other hscanned.1 hid
    have hconditions := hscanned.2
    rw [Bool.and_eq_true, Bool.and_eq_true] at hconditions
    exact .inr hconditions.1

/-- A run that has room for everybody leaves nobody out. -/
theorem mem_eligible (hcutoff : purgeCutoff now (some days) = .ok (some cutoff))
    {persons : List PersonRow} (hids : (persons.map (·.id)).Nodup) {defaultLocale : String}
    {referencedIds : List String} {maxPersons : ℕ} {ids : List String}
    (hroom : persons.length ≤ maxPersons)
    (hrun : eligible now persons defaultLocale referencedIds (some days) maxPersons = .ok ids)
    (hperson : person ∈ persons) (hmay : mayBePurged now (some cutoff) person = true)
    (hsomething : hasSomethingToErase defaultLocale referencedIds person = true) :
    person.id ∈ ids := by
  obtain ⟨onRequest, scanned, honRequest, hscanned, heq⟩ :=
    eligible_of_cutoff hcutoff persons defaultLocale referencedIds maxPersons
  rw [heq] at hrun
  obtain rfl := Except.ok.inj hrun
  rw [mem_foldl_addPerson]
  refine .inr ⟨fun hwithheld => ?_, person, ?_, rfl⟩
  · obtain ⟨other, hother, hid⟩ := List.mem_map.mp hwithheld
    rw [List.mem_filter] at hother
    obtain rfl := List.inj_on_of_nodup_map hids hother.1 hperson hid
    rw [not_isWithheld (mayBePurged_iff.mp hmay).1] at hother
    cases hother.2
  · have hlength := length_lists_le (byCreatedAt persons)
      (fun person => (erasureRequestedPersonIds now persons).contains person.id)
      fun person => mayBePurged now (some cutoff) person &&
        hasSomethingToErase defaultLocale referencedIds person
    rw [← honRequest, ← hscanned, length_byCreatedAt] at hlength
    have hall : scanned.take (remainingRunBound onRequest.length maxPersons) = scanned := by
      unfold remainingRunBound
      exact List.take_of_length_le (by omega)
    rw [hall, List.mem_append, honRequest, hscanned, List.mem_filter, List.mem_filter, hmay,
      hsomething]
    cases (erasureRequestedPersonIds now persons).contains person.id
    · exact .inr ⟨mem_byCreatedAt.mpr hperson, rfl⟩
    · exact .inl ⟨mem_byCreatedAt.mpr hperson, rfl⟩

/-! ### One rule -/

/-- **The refusal, the scan and the date of the page agree**, and nobody is selected before it. -/
theorem purge_agrees (hahead : ∀ t, 0 ≤ zone.offset t) (hdays : 0 ≤ days)
    (hrange : InRange zone now days) : ∃ cutoff : Instant,
      purgeCutoff now (some days) = .ok (some cutoff) ∧
      (∀ person : PersonRow,
        (purgeRefusal person.refusalFacts now (some cutoff) false = none ↔
          Arrived zone person now days) ∧
        (mayBePurged now (some cutoff) person = true ↔ Arrived zone person now days)) ∧
      ∀ (persons : List PersonRow) (defaultLocale : String) (referencedIds : List String)
        (maxPersons : ℕ), (persons.map (·.id)).Nodup → ∃ ids : List String,
        eligible now persons defaultLocale referencedIds (some days) maxPersons = .ok ids ∧
        (∀ person ∈ persons, person.id ∈ ids →
          person.id ∈ erasureRequestedPersonIds now persons ∨ Arrived zone person now days ∧
            hasSomethingToErase defaultLocale referencedIds person = true) ∧
        (persons.length ≤ maxPersons → ∀ person ∈ persons, Arrived zone person now days →
          hasSomethingToErase defaultLocale referencedIds person = true → person.id ∈ ids) := by
  obtain ⟨cutoff, hnew⟩ := Option.isSome_iff_exists.mp hrange.cutoff
  have htime := time_of_newDate hnew
  have hcutoff : purgeCutoff now (some days) = .ok (some cutoff) := by
    unfold purgeCutoff
    rw [checkedDays_some hdays]
    exact congrArg Except.ok hnew
  have harrived : ∀ person : PersonRow, Arrived zone person now days ↔
      mayBePurged now (some cutoff) person = true := fun person => by
    rw [arrived_iff hahead hdays hrange, mayBePurged_iff, htime]
  refine ⟨cutoff, hcutoff, fun person => ⟨?_, (harrived person).symm⟩, ?_⟩
  · rw [harrived, mayBePurged_iff, purgeRefusal_eq_none]
  · intro persons defaultLocale referencedIds maxPersons hids
    obtain ⟨onRequest, scanned, -, -, heq⟩ :=
      eligible_of_cutoff hcutoff persons defaultLocale referencedIds maxPersons
    refine ⟨_, heq, fun person hperson hin => ?_, fun hroom person hperson hhas hsomething => ?_⟩
    · rw [harrived]
      exact of_mem_eligible hcutoff hids heq hperson hin
    · exact mem_eligible hcutoff hids hroom heq hperson ((harrived person).mp hhas) hsomething

/-- A year, and a person who moved out on the first of January 1970, a year after. -/
theorem purge_agrees_aYearAfter : ∃ cutoff : Instant,
    purgeCutoff ⟨31536000000, by decide⟩ (some 365) = .ok (some cutoff) ∧
    ∃ person : PersonRow, Arrived utc person ⟨31536000000, by decide⟩ 365 ∧
      purgeRefusal person.refusalFacts ⟨31536000000, by decide⟩ (some cutoff) false = none := by
  have hround : round 365 = 365 := by
    unfold round
    norm_num
  have hrange : InRange utc ⟨31536000000, by decide⟩ 365 := by
    refine ⟨?_, by decide⟩
    rw [hround]
    decide
  obtain ⟨cutoff, hcutoff, hagree, -⟩ := purge_agrees (fun _ => le_rfl) (by norm_num) hrange
  have hcutoff' : purgeCutoff ⟨31536000000, by decide⟩ (some 365) =
      .ok (some ⟨0, by decide⟩) := by
    unfold purgeCutoff
    rw [checkedDays_some (by norm_num)]
    show Except.ok (newDate (31536000000 - round 365 * MILLISECONDS_PER_DAY)) = _
    rw [hround]
    rfl
  obtain rfl := Option.some.inj (Except.ok.inj (hcutoff.symm.trans hcutoff'))
  have hnone : purgeRefusal (PersonRow.refusalFacts
      { id := "anna", createdAt := 0, residencies := [some ⟨0, by decide⟩], boardPositions := [],
        systemRoles := [], pluginAccesses := [], legalHolds := [], processingRestrictedAt := none,
        emailCipher := none, emailIndex := none, phoneCipher := none, phoneIndex := none,
        preferredLocale := "sv", userAccount := none, invitations := [],
        dataSubjectRequests := [] }) ⟨31536000000, by decide⟩ (some ⟨0, by decide⟩) false = none := by
    decide
  exact ⟨_, hcutoff, _, (hagree _).1.mp hnone, hnone⟩

/-- With a policy of a thousand million days the cutoff is an invalid date, which no move-out is
after: the refusal refuses nothing, and the page states no date that has come. -/
theorem purgeRefusal_invalidCutoff : ∃ (person : PersonRow) (now : Instant),
    purgeCutoff now (some 1000000000) = .ok none ∧
    purgeRefusal person.refusalFacts now none false = none ∧
    computePersonPurgeDate utc person.purgeFacts (some 1000000000) now = .ok (some none) ∧
    ¬Arrived utc person now 1000000000 := by
  have hround : round 1000000000 = 1000000000 := by
    unfold round
    norm_num
  have hchecked : checkedDays (some 1000000000) = .ok 1000000000 := checkedDays_some (by norm_num)
  have hdate : computePersonPurgeDate utc (PersonRow.purgeFacts
      { id := "anna", createdAt := 0, residencies := [some ⟨0, by decide⟩], boardPositions := [],
        systemRoles := [], pluginAccesses := [], legalHolds := [], processingRestrictedAt := none,
        emailCipher := none, emailIndex := none, phoneCipher := none, phoneIndex := none,
        preferredLocale := "sv", userAccount := none, invitations := [],
        dataSubjectRequests := [] }) (some 1000000000) ⟨31536000000, by decide⟩ =
      .ok (some none) := by
    show computePurgeDate (some ⟨0, by decide⟩) (some 1000000000) = _
    unfold computePurgeDate
    rw [hchecked]
    show Except.ok (some (newDate (0 * MILLISECONDS_PER_DAY +
      round 1000000000 * MILLISECONDS_PER_DAY))) = _
    rw [hround]
    rfl
  refine ⟨_, ⟨31536000000, by decide⟩, ?_, ?_, hdate, ?_⟩
  · unfold purgeCutoff
    rw [hchecked]
    show Except.ok (newDate (31536000000 - round 1000000000 * MILLISECONDS_PER_DAY)) = _
    rw [hround]
    rfl
  · decide
  · rintro ⟨date, hsome, -⟩
    rw [hdate] at hsome
    cases hsome

end OpenBrf.Retention
