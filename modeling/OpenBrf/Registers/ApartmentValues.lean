import OpenBrf.Registers.ApartmentFigures
import OpenBrf.Shared.IsoStrings

/-!
# Registers.ApartmentValues — what an apartment's row says, as exact figures

The columns and the texts a save states, as the rationals they stand for; and that the code's
comparison of texts is a comparison of these.
-/

namespace OpenBrf.Registers.Apartments

open Lang Shared Decimals

/-- The shares of an apartment. -/
structure Shares where
  participationShare : Option ℚ
  initialShareCapital : Option ℚ
  deriving DecidableEq

/-- The particulars of an apartment, the date as the register prints it. -/
structure Particulars where
  roomCount : Option ℚ
  otherSpaces : Option String
  livingArea : Option ℚ
  economicPlanRegisteredOn : Option String
  deriving DecidableEq

/-- The shares that are not the same. -/
def Shares.differing (was becomes : Shares) : List Field :=
  movedOf [
    (.participationShare, was.participationShare = becomes.participationShare),
    (.initialShareCapital, was.initialShareCapital = becomes.initialShareCapital)]

/-- The particulars that are not the same. -/
def Particulars.differing (was becomes : Particulars) : List Field :=
  movedOf [
    (.roomCount, was.roomCount = becomes.roomCount),
    (.otherSpaces, was.otherSpaces = becomes.otherSpaces),
    (.livingArea, was.livingArea = becomes.livingArea),
    (.economicPlanRegisteredOn,
      was.economicPlanRegisteredOn = becomes.economicPlanRegisteredOn)]

/-- What the columns say. -/
def Apartment.shares (a : Apartment) : Shares where
  participationShare := a.participationShare.map Decimal.value
  initialShareCapital := a.initialShareCapital.map Decimal.value

def Apartment.particulars (a : Apartment) : Particulars where
  roomCount := a.roomCount.map Int.cast
  otherSpaces := a.otherSpaces
  livingArea := a.livingArea.map Decimal.value
  economicPlanRegisteredOn := a.economicPlanRegisteredOn.map formatLocalDay

/-- The figure a decimal string states. -/
def figure (text : String) : ℚ := value (splitPoint text).1 (splitPoint text).2

/-- What texts say. -/
def ApartmentShares.stated (row : ApartmentShares) : Shares where
  participationShare := (readText row.participationShare).map figure
  initialShareCapital := (readText row.initialShareCapital).map figure

def ApartmentParticulars.stated (row : ApartmentParticulars) : Particulars where
  roomCount := row.roomCount
  otherSpaces := readText row.otherSpaces
  livingArea := (readText row.livingArea).map figure
  economicPlanRegisteredOn := readText row.economicPlanRegisteredOn

/-! ### Numerals -/

theorem not_point_of_allDigits {digits : List Char} (h : AllDigits digits) : '.' ∉ digits := by
  intro hmem
  cases h _ hmem

theorem splitPoint_numeral {whole fraction : List Char} (hwhole : '.' ∉ whole)
    (hfraction : '.' ∉ fraction) :
    splitPoint (String.ofList (numeral whole fraction)) = (whole, fraction) := by
  unfold splitPoint numeral
  rw [String.toList_ofList]
  split_ifs with hne
  · rw [List.splitOn_eq_singleton hwhole, hne]
  · rw [List.splitOn_append_cons_self, List.splitOn_eq_singleton hwhole,
      List.splitOn_eq_singleton hfraction]
    rfl

/-- A text that is digits, with a point and more digits or without. -/
structure Numeral (text : String) : Prop where
  whole : AllDigits (splitPoint text).1
  fraction : AllDigits (splitPoint text).2
  ne_nil : (splitPoint text).1 ≠ []

theorem numeral_of_digits {whole fraction : List Char} (hwhole : AllDigits whole)
    (hfraction : AllDigits fraction) (hne : whole ≠ []) :
    Numeral (String.ofList (numeral whole fraction)) := by
  have hsplit := splitPoint_numeral (not_point_of_allDigits hwhole)
    (not_point_of_allDigits hfraction)
  exact ⟨hsplit ▸ hwhole, hsplit ▸ hfraction, hsplit ▸ hne⟩

theorem isDigits_iff {most : ℕ} {text : List Char} :
    isDigits most text = true ↔ 1 ≤ text.length ∧ text.length ≤ most ∧ AllDigits text := by
  unfold isDigits
  rw [Bool.and_eq_true, Bool.and_eq_true, decide_eq_true_eq, decide_eq_true_eq, List.all_eq_true,
    and_assoc]
  rfl

/-- A text in a column's pattern. -/
theorem numeral_of_isDecimal {whole fraction : ℕ} {text : String}
    (h : isDecimal whole fraction text = true) :
    Numeral text ∧ (splitPoint text).2.length ≤ fraction := by
  unfold isDecimal at h
  split at h
  · next front hsplit =>
    obtain ⟨hone, -, hdigits⟩ := isDigits_iff.mp h
    have hparts : splitPoint text = (front, []) := by
      unfold splitPoint
      rw [hsplit]
    refine ⟨⟨hparts ▸ hdigits, ?_, ?_⟩, ?_⟩
    · rw [hparts]
      exact fun c hc => by cases hc
    · rw [hparts]
      exact List.length_pos_iff.mp hone
    · rw [hparts]
      exact Nat.zero_le _
  · next front back hsplit =>
    rw [Bool.and_eq_true] at h
    obtain ⟨hone, -, hdigits⟩ := isDigits_iff.mp h.1
    obtain ⟨-, hmost, hdigits'⟩ := isDigits_iff.mp h.2
    have hparts : splitPoint text = (front, back) := by
      unfold splitPoint
      rw [hsplit]
    refine ⟨⟨hparts ▸ hdigits, hparts ▸ hdigits', ?_⟩, hparts ▸ hmost⟩
    rw [hparts]
    exact List.length_pos_iff.mp hone
  · cases h

theorem numeral_inj {whole whole' fraction fraction' : List Char} (hw : '.' ∉ whole)
    (hw' : '.' ∉ whole') (hf : '.' ∉ fraction) (hf' : '.' ∉ fraction')
    (h : numeral whole fraction = numeral whole' fraction') :
    whole = whole' ∧ fraction = fraction' := by
  have hsplit := splitPoint_numeral hw hf
  rw [h, splitPoint_numeral hw' hf'] at hsplit
  exact ⟨(Prod.mk.inj hsplit).1.symm, (Prod.mk.inj hsplit).2.symm⟩

theorem allDigits_dropZeros {digits : List Char} (h : AllDigits digits) :
    AllDigits (dropZeros digits) := by
  by_cases hne : digits = []
  · subst hne
    exact fun c hc => by cases hc
  · obtain ⟨c, rest, heq, hall, -⟩ := dropZeros_shape h hne
    rw [heq]
    exact hall

/-- **Two decimal strings are alike when normalised exactly when they state one figure.** -/
theorem normaliseDecimal_eq_iff {was becomes : String} (h : Numeral was) (h' : Numeral becomes) :
    normaliseDecimal was = normaliseDecimal becomes ↔ figure was = figure becomes := by
  unfold figure
  rw [value_eq_iff h.whole h.fraction h'.whole h'.fraction h.ne_nil h'.ne_nil]
  have hpoint := fun {digits : List Char} (hd : AllDigits digits) =>
    not_point_of_allDigits (allDigits_dropZeros hd)
  have hpoint' := fun {digits : List Char} (hd : AllDigits digits) =>
    not_point_of_allDigits (allDigits_trimZeros hd)
  unfold normaliseDecimal
  constructor
  · intro heq
    exact numeral_inj (hpoint h.whole) (hpoint h'.whole) (hpoint' h.fraction)
      (hpoint' h'.fraction) (String.ofList_inj.mp heq)
  · rintro ⟨hdrop, htrim⟩
    rw [hdrop, htrim]

/-! ### Columns -/

theorem natOf_eq_numberOf (digits : List Char) : natOf digits = numberOf digits := by
  unfold natOf numberOf
  rw [Nat.ofDigitChars_eq_foldl]
  rfl

theorem natOf_padStart {k n : ℕ} (h : n < 10 ^ k) : natOf (padStart k n) = n := by
  rw [natOf_eq_numberOf, numberOf_padStart h]

theorem allDigits_padStart : ∀ k n : ℕ, AllDigits (padStart k n)
  | 0, _ => fun c hc => by cases hc
  | k + 1, n => by
    intro c hc
    unfold padStart at hc
    rcases List.mem_append.mp hc with hc | hc
    · exact allDigits_padStart k _ c hc
    · rw [List.mem_singleton.mp hc]
      have hnat := toNat_digit n
      unfold Char.isDigit
      rw [Bool.and_eq_true, decide_eq_true_eq, decide_eq_true_eq]
      show 48 ≤ (digit n).toNat ∧ (digit n).toNat ≤ 57
      omega

namespace Decimal

variable {scale : ℕ} {d : Decimal scale}

theorem allDigits_whole : AllDigits d.whole :=
  fun _ hc => Nat.isDigit_of_mem_toDigits (by omega) (by omega) hc

theorem whole_ne_nil : d.whole ≠ [] := Nat.toDigits_ne_nil

theorem allDigits_fraction : AllDigits d.fraction := allDigits_padStart _ _

/-- The digits of a column state its size. -/
theorem value_digits : Decimals.value d.whole d.fraction = d.units.natAbs / 10 ^ scale := by
  have hpos : 0 < 10 ^ scale := Nat.pow_pos (by omega)
  have hsplit : 10 ^ scale * (d.units.natAbs / 10 ^ scale) + d.units.natAbs % 10 ^ scale =
      d.units.natAbs := Nat.div_add_mod _ _
  have hwhole : natOf d.whole = d.units.natAbs / 10 ^ scale := Nat.ofDigitChars_ten_toDigits
  have hfraction : natOf d.fraction = d.units.natAbs % 10 ^ scale :=
    natOf_padStart (Nat.mod_lt _ hpos)
  have hlength : d.fraction.length = scale := length_padStart _ _
  unfold Decimals.value
  rw [hwhole, hfraction, hlength]
  conv_rhs => rw [← hsplit]
  push_cast
  field_simp

/-- Digits behind the point that state what the column's do. -/
structure Ends (d : Decimal scale) (fraction : List Char) : Prop where
  digits : AllDigits fraction
  value : Decimals.value d.whole fraction = Decimals.value d.whole d.fraction

theorem ends_fraction : d.Ends d.fraction := ⟨allDigits_fraction, rfl⟩

theorem ends_trimZeros : d.Ends (trimZeros d.fraction) :=
  ⟨allDigits_trimZeros allDigits_fraction,
    congrArg (fun x : ℚ => natOf d.whole + x) (fraction_trimZeros _)⟩

/-- **A column written out is alike a numeral when normalised** exactly when it holds what the
numeral states. -/
theorem normaliseDecimal_write_iff {fraction : List Char} (hends : d.Ends fraction)
    {text : String} (h : Numeral text) :
    normaliseDecimal (d.write fraction) = normaliseDecimal text ↔ d.value = figure text := by
  unfold write value
  by_cases hsign : d.units < 0
  · -- a negative column is written with a sign, and no numeral states it
    rw [if_pos hsign]
    have hfigure : 0 ≤ figure text := by
      unfold figure Decimals.value
      positivity
    have hvalue : (d.units : ℚ) / 10 ^ scale < 0 :=
      div_neg_of_neg_of_pos (by exact_mod_cast hsign) (by positivity)
    refine iff_of_false (fun heq => ?_) (by linarith)
    have hpoint : '.' ∉ '-' :: d.whole :=
      List.not_mem_cons_of_ne_of_not_mem (by decide) (not_point_of_allDigits allDigits_whole)
    have hsigned : ['-'] ++ numeral d.whole fraction = numeral ('-' :: d.whole) fraction := by
      unfold numeral
      split_ifs <;> rfl
    have hdrop : dropZeros ('-' :: d.whole) = '-' :: d.whole := by
      unfold dropZeros
      split
      · next hother =>
        cases (List.cons.inj hother).1
      · rfl
    obtain ⟨c, rest, hshape, hall, -⟩ := dropZeros_shape h.whole h.ne_nil
    rw [hsigned] at heq
    unfold normaliseDecimal at heq
    rw [splitPoint_numeral hpoint (not_point_of_allDigits hends.digits), hdrop, hshape] at heq
    have hlead := (numeral_inj hpoint (not_point_of_allDigits hall)
      (not_point_of_allDigits (allDigits_trimZeros hends.digits))
      (not_point_of_allDigits (allDigits_trimZeros h.fraction)) (String.ofList_inj.mp heq)).1
    have hdigit := hall c List.mem_cons_self
    rw [← (List.cons.inj hlead).1] at hdigit
    cases hdigit
  · rw [if_neg hsign, List.nil_append, normaliseDecimal_eq_iff
      (numeral_of_digits allDigits_whole hends.digits whole_ne_nil) h]
    have hfigure : figure (String.ofList (numeral d.whole fraction)) = d.units / 10 ^ scale := by
      unfold figure
      rw [splitPoint_numeral (not_point_of_allDigits allDigits_whole)
        (not_point_of_allDigits hends.digits), hends.value, value_digits]
      have hcast : ((d.units.natAbs : ℕ) : ℚ) = d.units := by
        have hnat : ((d.units.natAbs : ℕ) : Int) = d.units := Int.natAbs_of_nonneg (by omega)
        rw [← Int.cast_natCast, hnat]
      rw [hcast]
    rw [hfigure]

/-- A column takes a text in its pattern for what it states. -/
theorem value_ofText {whole fraction : ℕ} {text : String}
    (h : isDecimal whole fraction text = true) (hscale : fraction ≤ scale) :
    (ofText scale text).value = figure text := by
  have hlength := (numeral_of_isDecimal h).2.trans hscale
  unfold value ofText figure Decimals.value
  have hpow : (10 : ℚ) ^ scale = 10 ^ (scale - (splitPoint text).2.length) *
      10 ^ (splitPoint text).2.length := by
    rw [← pow_add, Nat.sub_add_cancel hlength]
  push_cast
  rw [hpow]
  field_simp

end Decimal

/-- Whether a column and a text are the same. -/
theorem sameDecimal_column {scale : ℕ} {column : Option (Decimal scale)}
    {write : Decimal scale → String} {text : Option String}
    (hwrite : ∀ d, ∃ fraction, d.Ends fraction ∧ write d = d.write fraction)
    (htext : ∀ t ∈ text, Numeral t) :
    sameDecimal (column.map write) text = decide (column.map Decimal.value = text.map figure) := by
  cases column with
  | none => cases text <;> rfl
  | some d =>
    cases text with
    | none => rfl
    | some t =>
      obtain ⟨fraction, hends, heq⟩ := hwrite d
      have hiff := d.normaliseDecimal_write_iff hends (htext t rfl)
      show decide (normaliseDecimal (write d) = normaliseDecimal t) =
        decide (some d.value = some (figure t))
      rw [heq, decide_eq_decide, hiff, Option.some.injEq]

theorem sameDecimal_toPlain {scale : ℕ} {column : Option (Decimal scale)} {text : Option String}
    (htext : ∀ t ∈ text, Numeral t) : sameDecimal (column.map Decimal.toPlain) text =
      decide (column.map Decimal.value = text.map figure) :=
  sameDecimal_column (fun _ => ⟨_, Decimal.ends_trimZeros, rfl⟩) htext

theorem sameDecimal_toFixed {scale : ℕ} {column : Option (Decimal scale)} {text : Option String}
    (htext : ∀ t ∈ text, Numeral t) : sameDecimal (column.map Decimal.toFixed) text =
      decide (column.map Decimal.value = text.map figure) :=
  sameDecimal_column (fun _ => ⟨_, Decimal.ends_fraction, rfl⟩) htext

/-! ### What a row states is what is read of it -/

theorem ok_of_bind {ε α β : Type} {x : Except ε α} {f : α → Except ε β} {b : β}
    (h : (x >>= f) = .ok b) : ∃ a, x = .ok a ∧ f a = .ok b := by
  cases x with
  | ok a => exact ⟨a, rfl, h⟩
  | error e => cases h

theorem readDecimal_ok {whole fraction : ℕ} {needs : String → Bool}
    {error : ApartmentRegisterError} {value text : Option String}
    (h : readDecimal whole fraction needs error value = .ok text) :
    text = readText value ∧ ∀ t ∈ text, isDecimal whole fraction t = true := by
  unfold readDecimal at h
  unfold readText
  dsimp only at h ⊢
  split_ifs at h with hblank hpattern
  · obtain rfl := Except.ok.inj h
    exact ⟨(if_pos hblank).symm, fun t ht => by cases ht⟩
  · obtain rfl := Except.ok.inj h
    refine ⟨(if_neg hblank).symm, fun t ht => ?_⟩
    obtain rfl := Option.some.inj ht
    simp only [Bool.or_eq_true, Bool.not_eq_true', not_or] at hpattern
    simpa using hpattern.1

/-- Shares as they are read: what the row states, in the columns' patterns. -/
structure SharesRead (row submitted : ApartmentShares) : Prop where
  participationShare : submitted.participationShare = readText row.participationShare
  initialShareCapital : submitted.initialShareCapital = readText row.initialShareCapital
  share_decimal : ∀ t ∈ submitted.participationShare, isDecimal 4 8 t = true
  capital_decimal : ∀ t ∈ submitted.initialShareCapital, isDecimal 12 2 t = true

theorem readShares_ok {row submitted : ApartmentShares} (h : readShares row = .ok submitted) :
    SharesRead row submitted := by
  unfold readShares at h
  obtain ⟨share, hshare, h⟩ := ok_of_bind h
  obtain ⟨capital, hcapital, h⟩ := ok_of_bind h
  obtain rfl := Except.ok.inj h
  obtain ⟨hs, hs'⟩ := readDecimal_ok hshare
  obtain ⟨hc, hc'⟩ := readDecimal_ok hcapital
  exact ⟨hs, hc, hs', hc'⟩

/-- Particulars as they are read. -/
structure ParticularsRead (row submitted : ApartmentParticulars) : Prop where
  roomCount : submitted.roomCount = row.roomCount
  otherSpaces : submitted.otherSpaces = readText row.otherSpaces
  livingArea : submitted.livingArea = readText row.livingArea
  economicPlanRegisteredOn :
    submitted.economicPlanRegisteredOn = readText row.economicPlanRegisteredOn
  area_decimal : ∀ t ∈ submitted.livingArea, isDecimal 5 1 t = true
  room_whole : ∀ n ∈ submitted.roomCount, n.den = 1

theorem readRoomCount_ok {value count : Option ℚ} (h : readRoomCount value = .ok count) :
    count = value ∧ ∀ n ∈ count, n.den = 1 := by
  cases value with
  | none =>
    obtain rfl := Except.ok.inj h
    exact ⟨rfl, fun n hn => by cases hn⟩
  | some value =>
    unfold readRoomCount at h
    simp only at h
    split_ifs at h with hrange
    obtain rfl := Except.ok.inj h
    refine ⟨rfl, fun n hn => ?_⟩
    obtain rfl := Option.some.inj hn
    simp only [not_or, not_not] at hrange
    exact hrange.1

theorem readParticulars_ok {row submitted : ApartmentParticulars}
    (h : readParticulars row = .ok submitted) : ParticularsRead row submitted := by
  unfold readParticulars at h
  obtain ⟨rooms, hrooms, h⟩ := ok_of_bind h
  obtain ⟨area, harea, h⟩ := ok_of_bind h
  obtain rfl := Except.ok.inj h
  obtain ⟨hr, hr'⟩ := readRoomCount_ok hrooms
  obtain ⟨ha, ha'⟩ := readDecimal_ok harea
  refine ⟨hr, ?_, ha, ?_, ha', hr'⟩
  · dsimp only
  · dsimp only

theorem SharesRead.stated {row submitted : ApartmentShares} (h : SharesRead row submitted) :
    row.stated =
      ⟨submitted.participationShare.map figure, submitted.initialShareCapital.map figure⟩ := by
  rw [h.participationShare, h.initialShareCapital]
  rfl

theorem ParticularsRead.stated {row submitted : ApartmentParticulars}
    (h : ParticularsRead row submitted) :
    row.stated = ⟨submitted.roomCount, submitted.otherSpaces, submitted.livingArea.map figure,
      submitted.economicPlanRegisteredOn⟩ := by
  rw [h.roomCount, h.otherSpaces, h.livingArea, h.economicPlanRegisteredOn]
  rfl

/-- **The shares that moved are those that differ by value.** -/
theorem movedShares_stored {row submitted : ApartmentShares} (h : SharesRead row submitted)
    (a : Apartment) : movedShares (storedShares a) submitted = a.shares.differing row.stated := by
  rw [h.stated]
  unfold movedShares storedShares Shares.differing Apartment.shares
  dsimp only
  rw [sameDecimal_toPlain fun t ht => (numeral_of_isDecimal (h.share_decimal t ht)).1,
    sameDecimal_toFixed fun t ht => (numeral_of_isDecimal (h.capital_decimal t ht)).1]

/-- **The particulars that moved are those that differ by value.** -/
theorem movedParticulars_stored {row submitted : ApartmentParticulars}
    (h : ParticularsRead row submitted) (a : Apartment) :
    movedParticulars (storedParticulars a) submitted = a.particulars.differing row.stated := by
  rw [h.stated]
  unfold movedParticulars storedParticulars Particulars.differing Apartment.particulars
  dsimp only
  rw [sameDecimal_toFixed fun t ht => (numeral_of_isDecimal (h.area_decimal t ht)).1]

/-! ### What is written reads as the row states it -/

/-- A number written to its width is its digits. -/
theorem padded_natOf {digits : List Char} (h : AllDigits digits) (hne : digits ≠ []) :
    padded digits.length (natOf digits) = digits := by
  have htext : (toString ((natOf digits : ℕ) : Int)).toList = Nat.toDigits 10 (natOf digits) := by
    show (Nat.repr (natOf digits)).toList = _
    rw [Nat.toList_repr]
  have hlength : (Nat.toDigits 10 (natOf digits)).length ≤ digits.length :=
    (Nat.length_toDigits_le_iff (by omega) (List.length_pos_iff.mpr hne)).mpr (natOf_lt h)
  unfold padded
  rw [htext]
  unfold List.leftpad
  refine natOf_inj ?_ h ?_ ?_
  · intro c hc
    rcases List.mem_append.mp hc with hc | hc
    · rw [List.eq_of_mem_replicate hc]
      rfl
    · exact Nat.isDigit_of_mem_toDigits (by omega) (by omega) hc
  · rw [List.length_append, List.length_replicate]
    omega
  · rw [natOf_append, natOf_zeros, Nat.mul_zero, Nat.zero_add]
    exact Nat.ofDigitChars_ten_toDigits

/-- A date that is read is written as it was stated. -/
theorem formatLocalDay_of_parse {text : String} {day : LocalDay}
    (h : parseLocalDay text = some day) : formatLocalDay day = text := by
  unfold parseLocalDay at h
  split at h
  · next y₁ y₂ y₃ y₄ m₁ m₂ d₁ d₂ htext =>
    dsimp only at h
    split_ifs at h with hall
    obtain rfl := Option.some.inj h
    have hdigits : ∀ c ∈ [y₁, y₂, y₃, y₄, m₁, m₂, d₁, d₂], c.isDigit = true :=
      List.all_eq_true.mp hall.1
    have hpart : ∀ digits : List Char, (∀ c ∈ digits, c ∈ [y₁, y₂, y₃, y₄, m₁, m₂, d₁, d₂]) →
        digits ≠ [] → padded digits.length (numberOf digits) = digits := by
      intro digits hmem hne
      rw [← natOf_eq_numberOf]
      exact padded_natOf (fun c hc => hdigits c (hmem c hc)) hne
    have hyear := hpart [y₁, y₂, y₃, y₄] (by simp) (List.cons_ne_nil _ _)
    have hmonth := hpart [m₁, m₂] (by simp) (List.cons_ne_nil _ _)
    have hday := hpart [d₁, d₂] (by simp) (List.cons_ne_nil _ _)
    unfold formatLocalDay
    rw [← String.toList_inj, String.toList_ofList, htext]
    show padded 4 _ ++ '-' :: padded 2 _ ++ '-' :: padded 2 _ = _
    simp only [List.length_cons, List.length_nil] at hyear hmonth hday
    rw [hyear, hmonth, hday]
    rfl
  · cases h

/-- A column holds what the text it was written from states. -/
theorem value_column {scale whole fraction : ℕ} {text : Option String}
    (hdecimal : ∀ t ∈ text, isDecimal whole fraction t = true) (hscale : fraction ≤ scale) :
    (text.map (Decimal.ofText scale)).map Decimal.value = text.map figure := by
  cases text with
  | none => rfl
  | some t => exact congrArg some (Decimal.value_ofText (hdecimal t rfl) hscale)

/-- Shares that are written read as the row states them, and the particulars stand. -/
theorem shares_writeShares {row submitted : ApartmentShares} (h : SharesRead row submitted)
    (a : Apartment) : (writeShares submitted a).shares = row.stated ∧
      (writeShares submitted a).particulars = a.particulars := by
  refine ⟨?_, rfl⟩
  rw [h.stated]
  unfold Apartment.shares writeShares
  rw [value_column h.share_decimal (Nat.le_refl 8), value_column h.capital_decimal (Nat.le_refl 2)]

/-- Particulars that are written read as the row states them, and the shares stand. -/
theorem particulars_writeParticulars {row submitted : ApartmentParticulars}
    (h : ParticularsRead row submitted) {registeredOn : Option LocalDay}
    (hday : registeredOn.map formatLocalDay = submitted.economicPlanRegisteredOn) (a : Apartment) :
    (writeParticulars submitted registeredOn a).particulars = row.stated ∧
      (writeParticulars submitted registeredOn a).shares = a.shares := by
  refine ⟨?_, rfl⟩
  have hrooms : (submitted.roomCount.map fun n => n.num).map Int.cast =
      submitted.roomCount := by
    cases hcount : submitted.roomCount with
    | none => rfl
    | some n => exact congrArg some (Rat.coe_int_num_of_den_eq_one (h.room_whole n hcount))
  rw [h.stated]
  unfold Apartment.particulars writeParticulars
  rw [hrooms, hday, value_column h.area_decimal (Nat.le_refl 1)]

end OpenBrf.Registers.Apartments
