import OpenBrf.Retention.PurgeDate
import OpenBrf.Shared.StockholmCalendar

/-!
# Shared.IsoStrings — `toISOString`, and the instant it is read back as

A year outside the four digits has a sign and six.  `new Date` reads other spellings of an instant
too; here it reads the ones `toISOString` writes, which are all a reading checked against
`toISOString` lets through (`parseInstant_eq_some`).
-/

namespace OpenBrf.Shared

open Lang Retention

/-! ### Digits -/

theorem toNat_digit (n : ℕ) : (digit n).toNat = 48 + n % 10 := by
  have hvalid : ∀ i : ℕ, i < 10 → (Char.ofNat (48 + i)).toNat = 48 + i := by decide
  exact hvalid (n % 10) (Nat.mod_lt _ (by decide))

theorem numberOf_concat (digits : List Char) (c : Char) :
    numberOf (digits ++ [c]) = 10 * numberOf digits + (c.toNat - 48) := by
  unfold numberOf
  rw [List.foldl_append]
  rfl

/-- So many digits are read back as the number. -/
theorem numberOf_padStart : ∀ {k n : ℕ}, n < 10 ^ k → numberOf (padStart k n) = n
  | 0, n, h => by
    rw [Nat.pow_zero] at h
    have hzero : n = 0 := by omega
    rw [hzero]
    rfl
  | k + 1, n, h => by
    rw [Nat.pow_succ] at h
    have ih : numberOf (padStart k (n / 10)) = n / 10 := numberOf_padStart (by omega)
    unfold padStart
    rw [numberOf_concat, ih, toNat_digit]
    omega

/-! ### Writing -/

/-- A year of four digits, or of six with its sign. -/
def yearText (year : Int) : List Char :=
  if 0 ≤ year ∧ year ≤ 9999 then padStart 4 year.toNat
  else (if year < 0 then '-' else '+') :: padStart 6 year.natAbs

/-- The hour, minute, second and millisecond of a day. -/
def clockText (ms : ℕ) : List Char :=
  padStart 2 (ms / 3600000) ++ ':' :: padStart 2 (ms / 60000 % 60) ++
    ':' :: padStart 2 (ms / 1000 % 60) ++ '.' :: padStart 3 (ms % 1000) ++ ['Z']

/-- `Date.prototype.toISOString` -/
def toISOString (instant : Instant) : List Char :=
  let day := LocalDay.ofNumber (instant.time / MILLISECONDS_PER_DAY)
  yearText day.year ++ '-' :: padStart 2 day.month.toNat ++ '-' :: padStart 2 day.day.toNat ++
    'T' :: clockText (instant.time % MILLISECONDS_PER_DAY).toNat

example : toISOString ⟨1780272000123, by decide⟩ = "2026-06-01T00:00:00.123Z".toList := by decide

/-! ### Reading -/

/-- A year and what stands behind it. -/
def readYear : List Char → Int × List Char
  | '+' :: rest => (numberOf (rest.take 6), rest.drop 6)
  | '-' :: rest => (-numberOf (rest.take 6), rest.drop 6)
  | text => (numberOf (text.take 4), text.drop 4)

/-- `new Date(text)` -/
def readInstant (text : List Char) : Option Instant :=
  match (readYear text).2 with
  | ['-', m₁, m₂, '-', d₁, d₂, 'T', h₁, h₂, ':', i₁, i₂, ':', s₁, s₂, '.', f₁, f₂, f₃, 'Z'] =>
    let day : LocalDay := ⟨(readYear text).1, numberOf [m₁, m₂], numberOf [d₁, d₂]⟩
    newDate (day.number * MILLISECONDS_PER_DAY +
      (numberOf [h₁, h₂] * 3600000 + numberOf [i₁, i₂] * 60000 + numberOf [s₁, s₂] * 1000 +
        numberOf [f₁, f₂, f₃] : ℕ))
  | _ => none

/-- An instant that comes back out exactly as it went in. -/
def parseInstant (text : List Char) : Option Instant :=
  (readInstant text).filter fun instant => toISOString instant = text

/-! ### The round trip -/

/-- No `Date` has a year of more than six digits. -/
theorem year_lt (instant : Instant) :
    (LocalDay.ofNumber (instant.time / MILLISECONDS_PER_DAY)).year.natAbs < 1000000 := by
  have hvalid := instant.valid
  have hmax : MAX_TIME = 8640000000000000 := rfl
  have hday : MILLISECONDS_PER_DAY = 86400000 := rfl
  rw [hmax] at hvalid
  rw [year_ofNumber, hday]
  unfold yearOfNumber
  dsimp only
  split_ifs <;> omega

theorem digit_ne_sign (n : ℕ) : digit n ≠ '+' ∧ digit n ≠ '-' := by
  have h := toNat_digit n
  constructor <;>
  · intro heq
    rw [heq] at h
    have hplus : ('+' : Char).toNat = 43 := rfl
    have hminus : ('-' : Char).toNat = 45 := rfl
    omega

theorem readYear_yearText {year : Int} (h : year.natAbs < 1000000) (rest : List Char) :
    readYear (yearText year ++ rest) = (year, rest) := by
  unfold yearText
  by_cases hfour : 0 ≤ year ∧ year ≤ 9999
  · rw [if_pos hfour]
    have hnumber : numberOf (padStart 4 year.toNat) = year.toNat := numberOf_padStart (by omega)
    have hlen := length_padStart 4 year.toNat
    have htake : (padStart 4 year.toNat ++ rest).take 4 = padStart 4 year.toNat :=
      List.take_left' hlen
    have hdrop : (padStart 4 year.toNat ++ rest).drop 4 = rest := List.drop_left' hlen
    have hplain : readYear (padStart 4 year.toNat ++ rest) =
        ((numberOf ((padStart 4 year.toNat ++ rest).take 4) : Int),
          (padStart 4 year.toNat ++ rest).drop 4) := by
      -- the first character is a digit
      have hsign := digit_ne_sign (year.toNat / 10 / 10 / 10)
      show readYear (digit (year.toNat / 10 / 10 / 10) :: _) = _
      unfold readYear
      split
      · next heq => exact absurd (List.cons.inj heq).1 hsign.1
      · next heq => exact absurd (List.cons.inj heq).1 hsign.2
      · rfl
    rw [hplain, htake, hdrop, hnumber]
    congr 1
    omega
  · rw [if_neg hfour]
    have hnumber : numberOf (padStart 6 year.natAbs) = year.natAbs := numberOf_padStart (by omega)
    have hlen := length_padStart 6 year.natAbs
    have htake : (padStart 6 year.natAbs ++ rest).take 6 = padStart 6 year.natAbs :=
      List.take_left' hlen
    have hdrop : (padStart 6 year.natAbs ++ rest).drop 6 = rest := List.drop_left' hlen
    by_cases hneg : year < 0
    · rw [if_pos hneg, List.cons_append]
      show (-(numberOf (_ : List Char) : Int), _) = _
      rw [htake, hdrop, hnumber]
      congr 1
      omega
    · rw [if_neg hneg, List.cons_append]
      show ((numberOf (_ : List Char) : Int), _) = _
      rw [htake, hdrop, hnumber]
      congr 1
      omega

theorem readInstant_toISOString (instant : Instant) :
    readInstant (toISOString instant) = some instant := by
  obtain ⟨⟨hmonth, hmonth'⟩, hday, hday'⟩ :=
    LocalDay.real_ofNumber (instant.time / MILLISECONDS_PER_DAY)
  have hnumber := LocalDay.number_ofNumber (instant.time / MILLISECONDS_PER_DAY)
  have hyear := year_lt instant
  have hlength : daysInMonth (LocalDay.ofNumber (instant.time / MILLISECONDS_PER_DAY)).year
      (LocalDay.ofNumber (instant.time / MILLISECONDS_PER_DAY)).month ≤ 31 := by
    unfold daysInMonth
    split_ifs <;> omega
  unfold toISOString
  dsimp only
  generalize LocalDay.ofNumber (instant.time / MILLISECONDS_PER_DAY) = day at *
  have hperDay : MILLISECONDS_PER_DAY = 86400000 := rfl
  have hnonneg : 0 ≤ instant.time % MILLISECONDS_PER_DAY := Int.emod_nonneg _ (by decide)
  have hlt : instant.time % MILLISECONDS_PER_DAY < MILLISECONDS_PER_DAY :=
    Int.emod_lt_of_pos _ (by decide)
  have hwhole := Int.mul_ediv_add_emod instant.time MILLISECONDS_PER_DAY
  rw [Int.mul_comm] at hwhole
  have hms : (instant.time % MILLISECONDS_PER_DAY).toNat < 86400000 := by omega
  have hsplit : instant.time = instant.time / MILLISECONDS_PER_DAY * MILLISECONDS_PER_DAY +
      ((instant.time % MILLISECONDS_PER_DAY).toNat : ℕ) := by omega
  clear hwhole hlt hnonneg
  generalize (instant.time % MILLISECONDS_PER_DAY).toNat = ms at *
  have hpair : ∀ n : ℕ, n < 100 → numberOf [digit (n / 10), digit n] = n := fun n hn =>
    numberOf_padStart (k := 2) (by omega)
  have htriple : ∀ n : ℕ, n < 1000 →
      numberOf [digit (n / 10 / 10), digit (n / 10), digit n] = n := fun n hn =>
    numberOf_padStart (k := 3) (by omega)
  unfold readInstant
  rw [List.append_assoc, List.append_assoc, readYear_yearText hyear]
  show newDate ((⟨day.year, numberOf [digit (day.month.toNat / 10), digit day.month.toNat],
      numberOf [digit (day.day.toNat / 10), digit day.day.toNat]⟩ : LocalDay).number *
        MILLISECONDS_PER_DAY +
      (numberOf [digit (ms / 3600000 / 10), digit (ms / 3600000)] * 3600000 +
        numberOf [digit (ms / 60000 % 60 / 10), digit (ms / 60000 % 60)] * 60000 +
        numberOf [digit (ms / 1000 % 60 / 10), digit (ms / 1000 % 60)] * 1000 +
        numberOf [digit (ms % 1000 / 10 / 10), digit (ms % 1000 / 10), digit (ms % 1000)] : ℕ)) = _
  rw [hpair _ (by omega), hpair _ (by omega), hpair _ (by omega), hpair _ (by omega),
    hpair _ (by omega), htriple _ (by omega)]
  have hback : (⟨day.year, day.month.toNat, day.day.toNat⟩ : LocalDay) = day := by
    rw [Int.toNat_of_nonneg (by omega), Int.toNat_of_nonneg (by omega)]
  have hclock : ms / 3600000 * 3600000 + ms / 60000 % 60 * 60000 + ms / 1000 % 60 * 1000 +
      ms % 1000 = ms := by omega
  rw [hback, hclock, hnumber, ← hsplit]
  exact dif_pos instant.valid

/-- **The round trip**: an instant is read from the text it is written as, and from no other. -/
theorem parseInstant_eq_some {text : List Char} {instant : Instant} :
    parseInstant text = some instant ↔ toISOString instant = text := by
  unfold parseInstant
  rw [Option.filter_eq_some_iff, decide_eq_true_eq]
  refine ⟨And.right, ?_⟩
  rintro rfl
  exact ⟨readInstant_toISOString instant, rfl⟩

end OpenBrf.Shared
