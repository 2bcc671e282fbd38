import OpenBrf.Shared.PersonalIdentityNumber

/-!
# Shared.CenturyReading — a number reads the same later

The year a number is read with follows the day of the reading, and never falls.
-/

namespace OpenBrf.Shared

open Lang

/-! ### What the pattern leaves -/

theorem twoDigits_cons (a b : Char) (rest : List Char) :
    twoDigits (a :: b :: rest) = if a.isDigit && b.isDigit then some ([a, b], rest) else none := rfl

theorem twoDigits_eq_some {text digits rest : List Char} (h : twoDigits text = some (digits, rest)) :
    numberOf digits ≤ 99 ∧ text = digits ++ rest := by
  match text, h with
  | a :: b :: tail, h =>
    rw [twoDigits_cons] at h
    split_ifs at h with hdigits
    rw [Bool.and_eq_true] at hdigits
    obtain ⟨rfl, rfl⟩ := Prod.mk.inj (Option.some.inj h)
    exact ⟨(numberOf_pair hdigits.1 hdigits.2).2, rfl⟩

/-- What follows the century does not depend on it. -/
theorem afterCentury_map (century : Option (List Char)) (text : List Char) :
    afterCentury century text =
      (afterCentury none text).map fun groups => { groups with century := century } := by
  unfold afterCentury
  simp only [bind, pure]
  cases twoDigits text with
  | none => rfl
  | some first =>
    simp only [Option.bind_some]
    cases twoDigits first.2 with
    | none => rfl
    | some second =>
      simp only [Option.bind_some]
      cases twoDigits second.2 with
      | none => rfl
      | some third =>
        simp only [Option.bind_some]
        cases separatorAndSuffix third.2 <;> rfl

/-- The groups a text matches are pairs of digits. -/
structure Groups.Paired (groups : Groups) : Prop where
  year : numberOf groups.year ≤ 99
  month : numberOf groups.month ≤ 99
  day : numberOf groups.day ≤ 99

theorem paired_of_afterCentury {century : Option (List Char)} {text : List Char} {groups : Groups}
    (h : afterCentury century text = some groups) : groups.Paired ∧ groups.century = century := by
  unfold afterCentury at h
  simp only [bind, Option.bind_eq_some_iff, pure, Option.some.injEq] at h
  obtain ⟨⟨year, rest⟩, hyear, ⟨month, rest'⟩, hmonth, ⟨day, rest''⟩, hday, ⟨sign, suffix⟩, -, rfl⟩ := h
  exact ⟨⟨(twoDigits_eq_some hyear).1, (twoDigits_eq_some hmonth).1, (twoDigits_eq_some hday).1⟩, rfl⟩

theorem matchPattern_cases {text : List Char} {groups : Groups}
    (h : matchPattern text = some groups) :
    (∃ century rest, twoDigits text = some (century, rest) ∧
      afterCentury (some century) rest = some groups) ∨ afterCentury none text = some groups := by
  unfold matchPattern at h
  split at h
  · rename_i century rest hcentury
    rw [Option.or_eq_some_iff] at h
    exact h.imp (fun hfirst => ⟨century, rest, hcentury, hfirst⟩) And.right
  · cases h

theorem paired_of_shapeOf {input : String} {groups : Groups} (h : shapeOf input = some groups) :
    groups.Paired := by
  rcases matchPattern_cases h with ⟨century, rest, -, hafter⟩ | hafter
  · exact (paired_of_afterCentury hafter).1
  · exact (paired_of_afterCentury hafter).1

/-! ### A century written in front -/

theorem filter_dropWhile {α : Type} (p : α → Bool) : ∀ l : List α,
    (l.dropWhile p).filter (fun a => !p a) = l.filter fun a => !p a
  | [] => rfl
  | a :: l => by
    by_cases h : p a = true
    · rw [List.dropWhile_cons_of_pos h, filter_dropWhile p l, List.filter_cons_of_neg (by simp [h])]
    · rw [List.dropWhile_cons_of_neg h]

/-- Trimming takes away nothing but white space. -/
theorem compactOf_eq (input : String) :
    compactOf input = input.toList.filter fun c => !isWhiteSpace c := by
  unfold compactOf trim
  rw [String.toList_ofList, List.filter_reverse, filter_dropWhile, List.filter_reverse,
    List.reverse_reverse, filter_dropWhile]

/-- **The stored form.**  Two digits before a number written without its century are its century. -/
theorem shapeOf_append {input : String} {groups : Groups} {a b : Char} {century : String}
    (h : shapeOf input = some groups) (hnone : groups.century = none)
    (hcentury : century.toList = [a, b]) (ha : a.isDigit = true) (hb : b.isDigit = true) :
    shapeOf (century ++ trim input) = some { groups with century := some [a, b] } := by
  have hwhite : ∀ c : Char, c.isDigit = true → isWhiteSpace c = false := by
    intro c hc
    have hrange : 48 ≤ c.toNat ∧ c.toNat ≤ 57 := by
      unfold Char.isDigit at hc
      simpa [UInt32.le_iff_toNat_le] using hc
    unfold isWhiteSpace
    simp only [List.mem_cons, List.not_mem_nil, or_false, Bool.or_eq_false_iff, decide_eq_false_iff_not,
      Bool.and_eq_false_imp, decide_eq_true_eq]
    omega
  have hcompact : compactOf (century ++ trim input) = a :: b :: compactOf input := by
    rw [compactOf_eq, String.toList_append, List.filter_append, hcentury]
    have hdigits : [a, b].filter (fun c => !isWhiteSpace c) = [a, b] := by
      simp [hwhite a ha, hwhite b hb]
    rw [hdigits]
    rfl
  have hafter : afterCentury none (compactOf input) = some groups := by
    rcases matchPattern_cases h with ⟨century', rest, -, hafter⟩ | hafter
    · have heq := (paired_of_afterCentury hafter).2
      rw [hnone] at heq
      cases heq
    · exact hafter
  unfold shapeOf
  rw [hcompact]
  unfold matchPattern
  have htwo : twoDigits (a :: b :: compactOf input) = some ([a, b], compactOf input) := by
    rw [twoDigits_cons, ha, hb]
    rfl
  rw [htwo]
  show (afterCentury (some [a, b]) (compactOf input)).or _ = _
  rw [afterCentury_map, hafter]
  rfl

/-! ### The year a number is read with -/

section Year

variable {groups : Groups}

theorem actualDay_le (h : groups.Paired) : groups.actualDay ≤ 60 := by
  have hday := h.day
  unfold Groups.actualDay Groups.isCoordinationNumber Groups.dayNumber
  split_ifs with hcoordination
  · omega
  · rw [decide_eq_true_eq] at hcoordination
    omega

/-- A year written with its century is the year there is. -/
theorem fullYear_of_century {century : List Char} (h : groups.century = some century)
    (referenceDay : LocalDay) :
    groups.fullYear referenceDay = numberOf century * 100 + numberOf groups.year := by
  unfold Groups.fullYear
  rw [h]

/-- A year read without its century ends in the two digits written. -/
theorem fullYear_emod (h : groups.Paired) (hnone : groups.century = none)
    (referenceDay : LocalDay) : groups.fullYear referenceDay % 100 = numberOf groups.year := by
  have hyear := h.year
  unfold Groups.fullYear
  rw [hnone]
  dsimp only
  split_ifs <;> omega

/-- **What the year is.**  The last that ends in the two digits and, by the year or by the day, is
not after the day of the reading; a hundred years before that where there is a plus. -/
theorem fullYear_spec (h : groups.Paired) (hnone : groups.century = none) {referenceDay : LocalDay}
    (hreal : referenceDay.Real) :
    if groups.separator = some '+' then
      groups.fullYear referenceDay + 100 ≤ referenceDay.year ∧
        referenceDay.year < groups.fullYear referenceDay + 200
    else
      (⟨groups.fullYear referenceDay, numberOf groups.month, groups.actualDay⟩ : LocalDay).fieldKey ≤
          referenceDay.fieldKey ∧
        referenceDay.fieldKey < (⟨groups.fullYear referenceDay + 100, numberOf groups.month,
          groups.actualDay⟩ : LocalDay).fieldKey := by
  have hyear := h.year
  have hmonth := h.month
  have hday := actualDay_le h
  have hrange := daysInMonth_range referenceDay.year referenceDay.month
  have hin := hreal.1
  have hof := hreal.2
  unfold Groups.fullYear LocalDay.fieldKey
  rw [hnone]
  dsimp only
  split_ifs <;> omega

/-- **The year never falls** with the day of the reading. -/
theorem fullYear_mono (h : groups.Paired) (hnone : groups.century = none) {day later : LocalDay}
    (hreal : day.Real) (hlater : later.Real) (hle : day.fieldKey ≤ later.fieldKey) :
    groups.fullYear day ≤ groups.fullYear later := by
  have hmod := fullYear_emod h hnone day
  have hmod' := fullYear_emod h hnone later
  have hspec := fullYear_spec h hnone hreal
  have hspec' := fullYear_spec h hnone hlater
  have hday := hreal.2.2.trans (daysInMonth_range _ _).2
  have hday' := hlater.2.2.trans (daysInMonth_range _ _).2
  have hin := hreal.1
  have hin' := hlater.1
  have hof := hreal.2.1
  have hof' := hlater.2.1
  unfold LocalDay.fieldKey at hle hspec hspec'
  split_ifs at hspec hspec'
  · omega
  · dsimp only at hspec hspec'
    omega

end Year

/-! ### A year away -/

section Clocks

variable (zone : Zone)

/-- Two days later it is no earlier a date. -/
theorem fieldKey_dateOf_mono {t t' : Int} (h : t + 2 * MILLISECONDS_PER_DAY ≤ t') :
    (dateOf zone t).fieldKey ≤ (dateOf zone t').fieldKey := by
  have hoffset := zone.offset_lt t
  have hoffset' := zone.offset_lt t'
  apply LocalDay.fieldKey_ofNumber_mono
  unfold localDayOf Zone.wall
  apply Int.ediv_le_ediv (by decide)
  simp only [MILLISECONDS_PER_DAY, MILLISECONDS_PER_MINUTE, MINUTES_PER_DAY] at h hoffset hoffset' ⊢
  omega

/-- The wall clock is less than a day off. -/
theorem utcOf_near (wall : Int) : wall - MILLISECONDS_PER_DAY < zone.utcOf wall ∧
    zone.utcOf wall < wall + MILLISECONDS_PER_DAY := by
  have hoffset := zone.offset_lt (wall - MILLISECONDS_PER_DAY)
  have hoffset' := zone.offset_lt (wall + MILLISECONDS_PER_DAY)
  unfold Zone.utcOf
  simp only [MILLISECONDS_PER_DAY, MILLISECONDS_PER_MINUTE, MINUTES_PER_DAY] at hoffset hoffset' ⊢
  split_ifs <;> omega

/-- The months before a date have as many days, but for one, in another year. -/
theorem sum_daysInMonth_near (year year' : Int) {months : ℕ} (h : months ≤ 11) :
    ((List.range months).map fun (m : ℕ) => daysInMonth year (m + 1)).sum ≤
      ((List.range months).map fun (m : ℕ) => daysInMonth year' (m + 1)).sum + 1 := by
  unfold daysInMonth
  generalize isLeapYear year = leap
  generalize isLeapYear year' = leap'
  revert months leap leap'
  decide

/-- The same date of the next year is a year away, give or take a day or two. -/
theorem number_next_year {d : LocalDay} (h : 1 ≤ d.month ∧ d.month ≤ 12) :
    d.number + 364 ≤ (⟨d.year + 1, d.month, d.day⟩ : LocalDay).number ∧
      (⟨d.year + 1, d.month, d.day⟩ : LocalDay).number ≤ d.number + 367 := by
  have hmonths : (d.month - 1).toNat ≤ 11 := by omega
  have hless := sum_daysInMonth_near d.year (d.year + 1) hmonths
  have hmore := sum_daysInMonth_near (d.year + 1) d.year hmonths
  unfold LocalDay.number
  dsimp only
  omega

/-- **A year away** on the clock of a process is a year away, give or take five days. -/
theorem yearsFrom_near (date : Int) :
    (date + 360 * MILLISECONDS_PER_DAY ≤ yearsFrom zone date 1 ∧
      yearsFrom zone date 1 ≤ date + 372 * MILLISECONDS_PER_DAY) ∧
    date - 372 * MILLISECONDS_PER_DAY ≤ yearsFrom zone date (-1) ∧
      yearsFrom zone date (-1) ≤ date - 360 * MILLISECONDS_PER_DAY := by
  have hoffset := zone.offset_lt date
  have hwall : zone.wall date = date + zone.offset date * MILLISECONDS_PER_MINUTE := rfl
  have hreal := LocalDay.real_ofNumber (zone.wall date / MILLISECONDS_PER_DAY)
  have hnumber := LocalDay.number_ofNumber (zone.wall date / MILLISECONDS_PER_DAY)
  unfold yearsFrom
  dsimp only
  generalize LocalDay.ofNumber (zone.wall date / MILLISECONDS_PER_DAY) = day at hreal hnumber ⊢
  have hnext := number_next_year hreal.1
  have hlast : 1 ≤ (⟨day.year - 1, day.month, day.day⟩ : LocalDay).month ∧
      (⟨day.year - 1, day.month, day.day⟩ : LocalDay).month ≤ 12 := hreal.1
  have hlast := number_next_year hlast
  have hback : (⟨day.year - 1 + 1, day.month, day.day⟩ : LocalDay) = day := by
    rw [sub_add_cancel]
  rw [hback] at hlast
  have hnear := utcOf_near zone ((⟨day.year + 1, day.month, day.day⟩ : LocalDay).number *
    MILLISECONDS_PER_DAY + zone.wall date % MILLISECONDS_PER_DAY)
  have hnear' := utcOf_near zone ((⟨day.year + -1, day.month, day.day⟩ : LocalDay).number *
    MILLISECONDS_PER_DAY + zone.wall date % MILLISECONDS_PER_DAY)
  have hminus : day.year + -1 = day.year - 1 := rfl
  rw [hminus] at hnear' ⊢
  simp only [MILLISECONDS_PER_DAY, MILLISECONDS_PER_MINUTE, MINUTES_PER_DAY] at *
  omega

end Clocks

/-! ### Readings -/

section Readings

variable {zone processZone : Zone} {input : String} {groups : Groups}

theorem normalize_eq (h : shapeOf input = some groups) (t : Int) :
    normalizePersonalIdentityNumber zone input t =
      (groups.parts (groups.fullYear (dateOf zone t))).map (·.normalized) := by
  unfold normalizePersonalIdentityNumber parsePersonalIdentityNumber
  rw [h, Option.bind_some]

theorem parts_eq_some {year : Int} {parts : PersonalIdentityNumberParts}
    (h : groups.parts year = some parts) :
    parts = ⟨year, numberOf groups.month, groups.dayNumber, groups.suffix,
      groups.isCoordinationNumber⟩ := by
  unfold Groups.parts at h
  dsimp only at h
  split_ifs at h
  exact (Option.some.inj h).symm

/-- Readings that are written alike are of one year. -/
theorem year_eq_of_normalized {year year' : Int} {value : String}
    (h : (groups.parts year).map (·.normalized) = some value)
    (h' : (groups.parts year').map (·.normalized) = some value) : year = year' := by
  obtain ⟨parts, hparts, rfl⟩ := Option.map_eq_some_iff.mp h
  obtain ⟨parts', hparts', heq⟩ := Option.map_eq_some_iff.mp h'
  obtain rfl := parts_eq_some hparts
  obtain rfl := parts_eq_some hparts'
  have hlist := congrArg String.toList heq
  unfold PersonalIdentityNumberParts.normalized at hlist
  rw [String.toList_ofList, String.toList_ofList] at hlist
  exact (Int.repr_injective (String.toList_inj.mp (List.append_cancel_right hlist))).symm

/-- A number that needs no century is read alike a year before and a year after. -/
theorem fullYear_eq_of_not_needsCentury (h : shapeOf input = some groups)
    (hnone : groups.century = none) {t : Int} {value : String}
    (hvalue : normalizePersonalIdentityNumber zone input t = some value)
    (hneeds : personalIdentityNumberNeedsCentury zone processZone input t = false) :
    groups.fullYear (dateOf zone (yearsFrom processZone t (-1))) =
        groups.fullYear (dateOf zone t) ∧
      groups.fullYear (dateOf zone (yearsFrom processZone t 1)) =
        groups.fullYear (dateOf zone t) := by
  unfold personalIdentityNumberNeedsCentury at hneeds
  rw [h] at hneeds
  dsimp only at hneeds
  rw [hnone, Option.isSome_none, if_neg Bool.false_ne_true, hvalue] at hneeds
  have halike : ∀ years ∈ [(-1 : Int), 1], normalizePersonalIdentityNumber zone input
      (yearsFrom processZone t years) = some value := by
    intro years hyears
    have hnot := List.any_eq_false.mp hneeds years hyears
    simpa using hnot
  rw [normalize_eq h] at hvalue
  constructor
  · have hbefore := halike (-1) (by decide)
    rw [normalize_eq h] at hbefore
    exact year_eq_of_normalized hbefore hvalue
  · have hafter := halike 1 (by decide)
    rw [normalize_eq h] at hafter
    exact year_eq_of_normalized hafter hvalue

/-- **Less than a year apart.**  A number accepted without its century at two instants is read alike
at both. -/
theorem normalize_of_year_apart (h : shapeOf input = some groups) (hnone : groups.century = none)
    {t t' : Int} (hnear : t - t' < 366 * MILLISECONDS_PER_DAY)
    (hnear' : t' - t < 366 * MILLISECONDS_PER_DAY) {value value' : String}
    (hvalue : normalizePersonalIdentityNumber zone input t = some value)
    (hneeds : personalIdentityNumberNeedsCentury zone processZone input t = false)
    (hvalue' : normalizePersonalIdentityNumber zone input t' = some value')
    (hneeds' : personalIdentityNumberNeedsCentury zone processZone input t' = false) :
    value = value' := by
  obtain ⟨hbefore, hafter⟩ := fullYear_eq_of_not_needsCentury h hnone hvalue hneeds
  obtain ⟨hbefore', hafter'⟩ := fullYear_eq_of_not_needsCentury h hnone hvalue' hneeds'
  have hyear := yearsFrom_near processZone t
  have hyear' := yearsFrom_near processZone t'
  have hpaired := paired_of_shapeOf h
  -- the year before one reading comes before the year after the other
  have hle : groups.fullYear (dateOf zone t) ≤ groups.fullYear (dateOf zone t') := by
    rw [← hbefore, ← hafter']
    apply fullYear_mono hpaired hnone (LocalDay.real_ofNumber _) (LocalDay.real_ofNumber _)
    apply fieldKey_dateOf_mono
    omega
  have hge : groups.fullYear (dateOf zone t') ≤ groups.fullYear (dateOf zone t) := by
    rw [← hbefore', ← hafter]
    apply fullYear_mono hpaired hnone (LocalDay.real_ofNumber _) (LocalDay.real_ofNumber _)
    apply fieldKey_dateOf_mono
    omega
  rw [normalize_eq h] at hvalue hvalue'
  rw [le_antisymm hle hge, hvalue'] at hvalue
  exact (Option.some.inj hvalue).symm

/-- The century of a year of four digits, as it is written in front. -/
theorem century_digits : ∀ century : ℕ, century < 100 → 10 ≤ century →
    (century : Int).repr.toList = [digit (century / 10), digit century] ∧
      (digit (century / 10)).isDigit = true ∧ (digit century).isDigit = true ∧
      numberOf [digit (century / 10), digit century] = century := by
  decide +kernel

/-- **What is stored.**  A number read with a year of four digits and stored with its century
normalizes at any time to what it was read as. -/
theorem normalize_withCentury (h : shapeOf input = some groups) {t t' : Int}
    {parts : PersonalIdentityNumberParts}
    (hparts : parsePersonalIdentityNumber zone input t = some parts)
    (hyear : groups.century = none → 1000 ≤ parts.year ∧ parts.year ≤ 9999) :
    normalizePersonalIdentityNumber zone (withPersonalIdentityNumberCentury zone input t) t' =
      normalizePersonalIdentityNumber zone input t := by
  unfold withPersonalIdentityNumberCentury
  rw [h]
  dsimp only
  cases hcentury : groups.century with
  | some century =>
    rw [Option.isSome_some, if_pos rfl, normalize_eq h, normalize_eq h, fullYear_of_century hcentury,
      fullYear_of_century hcentury]
  | none =>
    rw [Option.isSome_none, if_neg Bool.false_ne_true, hparts]
    dsimp only
    have hread := hparts
    unfold parsePersonalIdentityNumber at hread
    rw [h, Option.bind_some] at hread
    obtain rfl := parts_eq_some hread
    obtain ⟨hlow, hhigh⟩ := hyear hcentury
    have hmod := fullYear_emod (paired_of_shapeOf h) hcentury (dateOf zone t)
    dsimp only at hlow hhigh ⊢
    generalize hfull : groups.fullYear (dateOf zone t) = year at hlow hhigh hmod ⊢
    obtain ⟨century, hof⟩ : ∃ century : ℕ, year / 100 = (century : Int) :=
      ⟨(year / 100).toNat, by omega⟩
    obtain ⟨hwritten, hdigit, hdigit', hnumber⟩ := century_digits century (by omega) (by omega)
    rw [hof, normalize_eq (shapeOf_append h hcentury hwritten hdigit hdigit'), normalize_eq h,
      fullYear_of_century rfl, hnumber, hfull]
    have hsame : (century : Int) * 100 + numberOf groups.year = year := by omega
    dsimp only
    rw [hsame]
    rfl

end Readings

/-- **Readings agree.**  A number read at one instant, with its century or as of a year of four
digits, and stored with its century normalizes at any instant to what it was read as; and one that
is accepted without its century at two instants less than a year apart normalizes alike at both. -/
theorem readings_agree (zone processZone : Zone) (input : String) :
    (∀ t t' parts, parsePersonalIdentityNumber zone input t = some parts →
      ((∃ groups, shapeOf input = some groups ∧ groups.century ≠ none) ∨
        1000 ≤ parts.year ∧ parts.year ≤ 9999) →
      normalizePersonalIdentityNumber zone (withPersonalIdentityNumberCentury zone input t) t' =
        normalizePersonalIdentityNumber zone input t) ∧
    ∀ t t' groups value value', shapeOf input = some groups → groups.century = none →
      t - t' < 366 * MILLISECONDS_PER_DAY → t' - t < 366 * MILLISECONDS_PER_DAY →
      normalizePersonalIdentityNumber zone input t = some value →
      personalIdentityNumberNeedsCentury zone processZone input t = false →
      normalizePersonalIdentityNumber zone input t' = some value' →
      personalIdentityNumberNeedsCentury zone processZone input t' = false → value = value' := by
  constructor
  · intro t t' parts hparts hyear
    cases h : shapeOf input with
    | none =>
      unfold parsePersonalIdentityNumber at hparts
      rw [h] at hparts
      cases hparts
    | some groups =>
      refine normalize_withCentury h hparts fun hnone => hyear.resolve_left ?_
      rintro ⟨groups', heq, hcentury⟩
      rw [h] at heq
      obtain rfl := Option.some.inj heq
      exact hcentury hnone
  · intro t t' groups value value' h hnone hnear hnear' hvalue hneeds hvalue' hneeds'
    exact normalize_of_year_apart h hnone hnear hnear' hvalue hneeds hvalue' hneeds'

/-! ### Two instants -/

section Instants

/-- 14 November 2023, ten months later, and 1 January of the year 10000. -/
def november2023 : Int := 1700000000000

def september2024 : Int := 1726000000000

def january10000 : Int := 253402300800000

theorem readings_agree_1981 :
    normalizePersonalIdentityNumber utc
      (withPersonalIdentityNumberCentury utc "811228-9874" november2023) january10000 =
      normalizePersonalIdentityNumber utc "811228-9874" november2023 ∧
    ∀ value, normalizePersonalIdentityNumber utc "811228-9874" september2024 = some value →
      value = "198112289874" := by
  obtain ⟨hstored, halike⟩ := readings_agree utc utc "811228-9874"
  refine ⟨hstored november2023 january10000 ⟨1981, 12, 28, ['9', '8', '7', '4'], false⟩
    (by decide +kernel) (.inr (by decide)), fun value hvalue => ?_⟩
  exact (halike november2023 september2024 ⟨none, ['8', '1'], ['1', '2'], ['2', '8'], some '-',
    ['9', '8', '7', '4']⟩ _ value (by decide +kernel) rfl (by decide) (by decide)
    (by decide +kernel) (by decide +kernel) hvalue (by decide +kernel)).symm

/-- A number read with a year of five digits gets a century of three. -/
theorem stored_not_read_10000 : ¬ ∀ (zone : Zone) (input : String) (t t' : Int)
    (parts : PersonalIdentityNumberParts), parsePersonalIdentityNumber zone input t = some parts →
      normalizePersonalIdentityNumber zone (withPersonalIdentityNumberCentury zone input t) t' =
        normalizePersonalIdentityNumber zone input t := by
  intro h
  have hread := h utc "000101-0000" january10000 january10000
    ⟨10000, 1, 1, ['0', '0', '0', '0'], false⟩ (by decide +kernel)
  exact absurd hread (by decide +kernel)

end Instants

end OpenBrf.Shared
