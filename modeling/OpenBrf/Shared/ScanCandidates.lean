import OpenBrf.Shared.IdentityNumberScan

/-!
# Shared.ScanCandidates — the candidates of a text stand apart

A candidate is a date of six or eight digits and four more, with what separates them between, and
no digit on either side.  Its digits are whole runs, and no run is both a date and a last four, so
a search from the left misses none.
-/

namespace OpenBrf.Shared

open Lang Regex Pattern

/-- What the tables have of the characters a number is written with. -/
structure UnicodeTables.Standard (tables : UnicodeTables) : Prop where
  hyphen : tables.dashPunctuation HYPHEN_MINUS = true
  digit_separator : ∀ c, isDigit c = true → tables.separator c = false
  digit_dash : ∀ c, isDigit c = true → tables.dashPunctuation c = false
  dash_separator : ∀ c, tables.isDash c = true → tables.isSeparator c = false

variable {tables : UnicodeTables}

namespace UnicodeTables

theorem Standard.not_separator (h : tables.Standard) {c : CodePoint} (hc : isDigit c = true) :
    tables.isSeparator c = false := by
  have hlisted : ∀ x ∈ [0x9, 0xA, 0xB, 0xC, 0xD, 0x85], isDigit x = false := by decide
  unfold isSeparator
  rw [h.digit_separator c hc, Bool.or_false, decide_eq_false_iff_not]
  intro hmem
  rw [hlisted c hmem] at hc
  cases hc

theorem Standard.not_dash (h : tables.Standard) {c : CodePoint} (hc : isDigit c = true) :
    tables.isDash c = false := by
  have hlisted : ∀ x ∈ [0x2D7, 0x2043, 0x2212, 0x2500, 0x2501, 0x23AF, 0x2796],
      isDigit x = false := by decide
  unfold isDash
  rw [h.digit_dash c hc, Bool.false_or, decide_eq_false_iff_not]
  intro hmem
  rw [hlisted c hmem] at hc
  cases hc

theorem Standard.not_sign (h : tables.Standard) {c : CodePoint} (hc : isDigit c = true) :
    tables.isSign c = false := by
  unfold isSign
  rw [h.not_dash hc, Bool.or_false, decide_eq_false_iff_not]
  rintro rfl
  cases hc

/-- The sign, with the separators that follow it, or nothing. -/
def Signed (tables : UnicodeTables) (sign : List CodePoint) : Prop :=
  sign = [] ∨ ∃ c after, sign = c :: after ∧ tables.isSign c = true ∧
    ∀ x ∈ after, tables.isSeparator x = true

/-- What may stand between the date and the last four. -/
def Gap (tables : UnicodeTables) (gap : List CodePoint) : Prop :=
  ∃ before sign, gap = before ++ sign ∧ (∀ c ∈ before, tables.isSeparator c = true) ∧
    tables.Signed sign

/-- The shape of a number. -/
def NumberShape (tables : UnicodeTables) (word : List CodePoint) : Prop :=
  ∃ date gap lastFour, word = date ++ (gap ++ lastFour) ∧ (date.length = 6 ∨ date.length = 8) ∧
    (∀ c ∈ date, isDigit c = true) ∧ tables.Gap gap ∧ lastFour.length = 4 ∧
      ∀ c ∈ lastFour, isDigit c = true

theorem spells_sign {prev : Option CodePoint} {word after : List CodePoint} :
    Spells (Pattern.optional (seq (one tables.isSign) (many tables.isSeparator))) prev word after ↔
      tables.Signed word := by
  unfold Pattern.optional Signed
  simp only [Spells]
  constructor
  · rintro (⟨_, w, rfl, ⟨c, hc, rfl⟩, hw⟩ | rfl)
    · exact .inr ⟨c, w, rfl, hc, hw⟩
    · exact .inl rfl
  · rintro (rfl | ⟨c, w, rfl, hc, hw⟩)
    · exact .inr rfl
    · exact .inl ⟨[c], w, rfl, ⟨c, hc, rfl⟩, hw⟩

theorem spells_date {prev : Option CodePoint} {word after : List CodePoint} :
    (∃ century date, word = century ++ date ∧
      Spells (Pattern.optional (times isDigit 2)) prev century (date ++ after) ∧
        Spells (times isDigit 6) (lastOf prev century) date after) ↔
      (word.length = 6 ∨ word.length = 8) ∧ ∀ c ∈ word, isDigit c = true := by
  unfold Pattern.optional
  simp only [Spells, spells_times]
  constructor
  · rintro ⟨century, date, rfl, ⟨hlength, hcentury⟩ | rfl, hsix, hdate⟩
    · refine ⟨.inr (by rw [List.length_append, hlength, hsix]), fun c hc => ?_⟩
      exact (List.mem_append.mp hc).elim (hcentury c) (hdate c)
    · exact ⟨.inl hsix, hdate⟩
  · rintro ⟨hsix | height, hword⟩
    · exact ⟨[], word, rfl, .inr rfl, hsix, hword⟩
    · refine ⟨word.take 2, word.drop 2, (List.take_append_drop 2 word).symm, .inl ⟨?_, ?_⟩, ?_, ?_⟩
      · rw [List.length_take, height]
        rfl
      · exact fun c hc => hword c (List.mem_of_mem_take hc)
      · rw [List.length_drop, height]
      · exact fun c hc => hword c (List.mem_of_mem_drop hc)

/-- **The pattern** spells the shape of a number between characters that are no digits. -/
theorem spells_candidate {prev : Option CodePoint} {word after : List CodePoint} :
    Spells tables.CANDIDATE_PATTERN prev word after ↔
      prev.any isDigit = false ∧ after.head?.any isDigit = false ∧ tables.NumberShape word := by
  unfold CANDIDATE_PATTERN NumberShape
  constructor
  · rintro ⟨_, _, rfl, ⟨rfl, hprev⟩, century, _, rfl, hcentury, date, _, rfl, hdate, before, _, rfl,
      hbefore, sign, _, rfl, hsign, lastFour, _, rfl, hlastFour, rfl, hafter⟩
    obtain ⟨hlength, hdates⟩ := spells_date.mp ⟨century, date, rfl, hcentury, hdate⟩
    obtain ⟨hfour, hlastFour⟩ := spells_times.mp hlastFour
    refine ⟨hprev, hafter, century ++ date, before ++ sign, lastFour, ?_, hlength, hdates,
      ⟨before, sign, rfl, hbefore, spells_sign.mp hsign⟩, hfour, hlastFour⟩
    simp only [List.nil_append, List.append_nil, List.append_assoc]
  · rintro ⟨hprev, hafter, dates, _, lastFour, rfl, hlength, hdates, ⟨before, sign, rfl, hbefore,
      hsign⟩, hfour, hlastFour⟩
    obtain ⟨century, date, rfl, hcentury, hdate⟩ : ∃ century date, dates = century ++ date ∧
        Spells (Pattern.optional (times isDigit 2)) prev century
          (date ++ (before ++ (sign ++ (lastFour ++ [])) ++ after)) ∧
        Spells (times isDigit 6) (lastOf prev century) date
          (before ++ (sign ++ (lastFour ++ [])) ++ after) := spells_date.mpr ⟨hlength, hdates⟩
    refine ⟨[], _, rfl, ⟨rfl, hprev⟩, century, date ++ (before ++ (sign ++ (lastFour ++ []))), ?_,
      ?_, date, _, rfl, hdate, before, _, rfl, hbefore, sign, _, rfl, spells_sign.mpr hsign,
      lastFour, [], rfl, spells_times.mpr ⟨hfour, hlastFour⟩, rfl, hafter⟩
    · show century ++ date ++ (before ++ sign ++ lastFour) = _
      simp only [List.append_nil, List.append_assoc]
    · rwa [List.append_assoc]

/-! ### Candidates stand apart -/

/-- Whether a digit stands at a position. -/
def DigitAt (text : List CodePoint) (position : ℕ) : Prop :=
  (text[position]?).any isDigit = true

/-- A number's digits as whole runs: a date, a gap and the last four, and no digit beside them. -/
structure Runs (text : List CodePoint) (start date gap : ℕ) : Prop where
  length : date = 6 ∨ date = 8
  before : 0 < start → ¬ DigitAt text (start - 1)
  date_digit : ∀ x, start ≤ x → x < start + date → DigitAt text x
  gap_digit : ∀ x, start + date ≤ x → x < start + date + gap → ¬ DigitAt text x
  last_digit : ∀ x, start + date + gap ≤ x → x < start + date + gap + 4 → DigitAt text x
  after : ¬ DigitAt text (start + date + gap + 4)

section Runs

variable {text : List CodePoint} {start start' date date' gap gap' : ℕ}

/-- Two numbers that start together end together. -/
theorem Runs.eq (h : Runs text start date gap) (h' : Runs text start date' gap') :
    date + gap = date' + gap' := by
  have hsame : ∀ {date gap gap' : ℕ}, Runs text start date gap → Runs text start date gap' →
      ¬ gap < gap' := by
    intro date gap gap' h h' hlt
    exact h'.gap_digit (start + date + gap) (by omega) (by omega)
      (h.last_digit _ (by omega) (by omega))
  -- ten digits in a row are no date of eight and four more
  have hten : ∀ {gap gap' : ℕ}, Runs text start 6 gap → ¬ Runs text start 8 gap' := by
    intro gap gap' h h'
    have hgap : gap = 0 := by
      by_contra hne
      exact h.gap_digit (start + 6) (by omega) (by omega) (h'.date_digit _ (by omega) (by omega))
    have hgap' : gap' = 0 := by
      by_contra hne
      exact h'.gap_digit (start + 8) (by omega) (by omega) (h.last_digit _ (by omega) (by omega))
    subst hgap hgap'
    exact h.after (h'.last_digit _ (by omega) (by omega))
  rcases h.length with rfl | rfl <;> rcases h'.length with rfl | rfl
  · have hlt := hsame h h'
    have hgt := hsame h' h
    omega
  · exact absurd h' (hten h)
  · exact absurd h (hten h')
  · have hlt := hsame h h'
    have hgt := hsame h' h
    omega

/-- A number that starts past another starts past its end. -/
theorem Runs.apart (h : Runs text start date gap) (h' : Runs text start' date' gap')
    (hlt : start < start') : start + date + gap + 4 ≤ start' := by
  by_contra hinside
  have hbefore := h'.before (by omega)
  have hstart : DigitAt text start' := by
    rcases h'.length with rfl | rfl
    · exact h'.date_digit _ (by omega) (by omega)
    · exact h'.date_digit _ (by omega) (by omega)
  -- only the last four begin a run, and a date is longer
  have hrun : start' = start + date + gap := by
    by_contra hne
    rcases Nat.lt_or_ge start' (start + date + 1) with hdate | hdate
    · exact hbefore (h.date_digit _ (by omega) (by omega))
    · rcases Nat.lt_or_ge start' (start + date + gap) with hgap | hgap
      · exact h.gap_digit _ (by omega) hgap hstart
      · exact hbefore (h.last_digit _ (by omega) (by omega))
  subst hrun
  rcases h'.length with rfl | rfl
  · exact h.after (h'.date_digit _ (by omega) (by omega))
  · exact h.after (h'.date_digit _ (by omega) (by omega))

end Runs

/-- The characters of a stretch of a text, at their positions. -/
theorem any_of_mid {text a m c : List CodePoint} {b : Bool} (htext : text = a ++ (m ++ c))
    (hm : ∀ y ∈ m, isDigit y = b) {x : ℕ} (hlow : a.length ≤ x) (hhigh : x < a.length + m.length) :
    (text[x]?).any isDigit = b := by
  have hlt : x - a.length < m.length := by omega
  rw [htext, List.getElem?_append_right hlow, List.getElem?_append_left hlt,
    List.getElem?_eq_getElem hlt, Option.any_some]
  exact hm _ (List.getElem_mem hlt)

theorem Standard.gap_digit (h : tables.Standard) {gap : List CodePoint} (hgap : tables.Gap gap) :
    ∀ c ∈ gap, isDigit c = false := by
  have hseparator : ∀ c, tables.isSeparator c = true → isDigit c = false := by
    intro c hc
    by_contra hdigit
    rw [h.not_separator (Bool.not_eq_false _ ▸ hdigit)] at hc
    cases hc
  obtain ⟨before, sign, rfl, hbefore, hsign⟩ := hgap
  intro c hc
  rcases List.mem_append.mp hc with hc | hc
  · exact hseparator c (hbefore c hc)
  · rcases hsign with rfl | ⟨s, after, rfl, hs, hafter⟩
    · cases hc
    · rcases List.mem_cons.mp hc with rfl | hc
      · by_contra hdigit
        rw [h.not_sign (Bool.not_eq_false _ ▸ hdigit)] at hs
        cases hs
      · exact hseparator c (hafter c hc)

/-- A candidate is a number whose digits are whole runs. -/
theorem Standard.runs (h : tables.Standard) {text before word : List CodePoint}
    (hoccurs : Occurs tables.CANDIDATE_PATTERN text before word) :
    ∃ date gap, Runs text before.length date gap ∧ word.length = date + gap + 4 := by
  obtain ⟨after, htext, hspells⟩ := hoccurs
  obtain ⟨hprev, hafter, date, gap, lastFour, rfl, hlength, hdate, hgap, hfour, hlast⟩ :=
    spells_candidate.mp hspells
  have hlengths : (date ++ (gap ++ lastFour)).length = date.length + gap.length + 4 := by
    rw [List.length_append, List.length_append, hfour, Nat.add_assoc]
  refine ⟨date.length, gap.length, ⟨hlength, fun hpos => ?_, ?_, ?_, ?_, ?_⟩, hlengths⟩
  · unfold DigitAt
    rw [htext, List.append_assoc, List.getElem?_append_left (by omega),
      ← List.getLast?_eq_getElem?, hprev]
    exact Bool.false_ne_true
  · intro x hlow hhigh
    refine any_of_mid (a := before) (m := date) (c := gap ++ lastFour ++ after) ?_ hdate hlow hhigh
    rw [htext]
    simp only [List.append_assoc]
  · intro x hlow hhigh hdigit
    have hmid : text = (before ++ date) ++ (gap ++ (lastFour ++ after)) := by
      rw [htext]
      simp only [List.append_assoc]
    have hnot := any_of_mid (a := before ++ date) (m := gap) (x := x) hmid (h.gap_digit hgap)
      (by rw [List.length_append]; omega) (by rw [List.length_append]; omega)
    unfold DigitAt at hdigit
    rw [hnot] at hdigit
    cases hdigit
  · intro x hlow hhigh
    refine any_of_mid (a := before ++ (date ++ gap)) (m := lastFour) (c := after) ?_ hlast ?_ ?_
    · rw [htext]
      simp only [List.append_assoc]
    · rw [List.length_append, List.length_append]
      omega
    · rw [List.length_append, List.length_append, hfour]
      omega
  · unfold DigitAt
    have hend : before.length + date.length + gap.length + 4 =
        (before ++ (date ++ (gap ++ lastFour))).length := by
      rw [List.length_append, hlengths]
      omega
    rw [htext, hend, List.getElem?_append_right (Nat.le_refl _), Nat.sub_self,
      ← List.head?_eq_getElem?, hafter]
    exact Bool.false_ne_true

/-- **The candidates** of a text stand apart. -/
theorem Standard.apart (h : tables.Standard) (text : List CodePoint) :
    Apart tables.CANDIDATE_PATTERN text := by
  refine ⟨fun {before word} hoccurs => ?_, fun {before word word'} hoccurs hoccurs' => ?_,
    fun {before word before' word'} hoccurs hoccurs' hlt => ?_⟩
  · obtain ⟨date, gap, -, hlength⟩ := h.runs hoccurs
    rintro rfl
    rw [List.length_nil] at hlength
    omega
  · obtain ⟨date, gap, hruns, hlength⟩ := h.runs hoccurs
    obtain ⟨date', gap', hruns', hlength'⟩ := h.runs hoccurs'
    have hsame := hruns.eq hruns'
    obtain ⟨after, rfl, -⟩ := hoccurs
    obtain ⟨after', htext, -⟩ := hoccurs'
    rw [List.append_assoc, List.append_assoc] at htext
    exact (List.append_inj (List.append_cancel_left htext) (by omega)).1
  · obtain ⟨date, gap, hruns, hlength⟩ := h.runs hoccurs
    obtain ⟨date', gap', hruns', -⟩ := h.runs hoccurs'
    have hpast := hruns.apart hruns' hlt
    omega

end UnicodeTables

end OpenBrf.Shared
