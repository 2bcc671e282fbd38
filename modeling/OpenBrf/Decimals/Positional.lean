import Mathlib.Algebra.Order.Field.Basic
import Mathlib.Algebra.Order.Field.Rat
import Mathlib.Data.List.DropRight
import Mathlib.Data.Nat.Digits.Defs
import Mathlib.Tactic.FieldSimp
import Mathlib.Tactic.Linarith
import Mathlib.Tactic.Positivity
import Mathlib.Tactic.Ring

/-!
# Decimals.Positional — decimal numerals and what they state

A numeral is the digits before its point and those behind it.  Two numerals state one figure
exactly when they are alike once the zeros that change nothing are gone.
-/

namespace Decimals

/-- The number a run of digits states. -/
def natOf (digits : List Char) : ℕ := Nat.ofDigitChars 10 digits 0

/-- The figure a numeral states. -/
def value (whole fraction : List Char) : ℚ := natOf whole + natOf fraction / 10 ^ fraction.length

def AllDigits (digits : List Char) : Prop := ∀ c ∈ digits, c.isDigit = true

/-- Without the zeros in front, the last digit apart. -/
def dropZeros : List Char → List Char
  | '0' :: d :: rest => if d.isDigit then dropZeros (d :: rest) else '0' :: d :: rest
  | digits => digits

/-- Without the zeros at the end. -/
def trimZeros (digits : List Char) : List Char := digits.rdropWhile (· = '0')

/-- A numeral written out, with a point where there is a fraction. -/
def numeral (whole fraction : List Char) : List Char :=
  if fraction = [] then whole else whole ++ '.' :: fraction

theorem natOf_nil : natOf [] = 0 := by simp [natOf]

theorem natOf_cons (c : Char) (digits : List Char) :
    natOf (c :: digits) = 10 ^ digits.length * (c.toNat - 48) + natOf digits := by
  unfold natOf
  rw [Nat.ofDigitChars_cons, Nat.ofDigitChars_eq_ofDigitChars_zero]
  simp

theorem natOf_append (front back : List Char) :
    natOf (front ++ back) = 10 ^ back.length * natOf front + natOf back := by
  unfold natOf
  rw [Nat.ofDigitChars_append, Nat.ofDigitChars_eq_ofDigitChars_zero]

theorem natOf_zeros (n : ℕ) : natOf (List.replicate n '0') = 0 := by
  unfold natOf
  rw [Nat.ofDigitChars_replicate_zero, Nat.mul_zero]

theorem digit_range {c : Char} (h : c.isDigit = true) : 48 ≤ c.toNat ∧ c.toNat ≤ 57 := by
  unfold Char.isDigit at h
  simp only [Bool.and_eq_true, decide_eq_true_eq] at h
  exact h

theorem natOf_lt : ∀ {digits : List Char}, AllDigits digits → natOf digits < 10 ^ digits.length
  | [], _ => by
    rw [natOf_nil]
    exact Nat.one_pos
  | c :: digits, h => by
    have hc := digit_range (h c List.mem_cons_self)
    have hrest := natOf_lt fun d hd => h d (List.mem_cons_of_mem c hd)
    rw [natOf_cons, List.length_cons, Nat.pow_succ]
    have hlead : 10 ^ digits.length * (c.toNat - 48) ≤ 10 ^ digits.length * 9 :=
      Nat.mul_le_mul_left _ (by omega)
    omega

/-- Numerals of one length are told apart by what they state. -/
theorem natOf_inj : ∀ {digits digits' : List Char}, AllDigits digits → AllDigits digits' →
    digits.length = digits'.length → natOf digits = natOf digits' → digits = digits'
  | [], [], _, _, _, _ => rfl
  | c :: digits, d :: digits', h, h', hlength, heq => by
    have hc := digit_range (h c List.mem_cons_self)
    have hd := digit_range (h' d List.mem_cons_self)
    have hrest : AllDigits digits := fun x hx => h x (List.mem_cons_of_mem c hx)
    have hrest' : AllDigits digits' := fun x hx => h' x (List.mem_cons_of_mem d hx)
    have hlen : digits.length = digits'.length := Nat.succ.inj hlength
    have hlt := natOf_lt hrest
    have hlt' := natOf_lt hrest'
    rw [natOf_cons, natOf_cons, ← hlen] at heq
    rw [← hlen] at hlt'
    have hpos : 0 < 10 ^ digits.length := Nat.pow_pos (by omega)
    -- the first digits are the quotients
    have hquot := congrArg (· / 10 ^ digits.length) heq
    simp only [Nat.mul_add_div hpos, Nat.div_eq_of_lt hlt, Nat.div_eq_of_lt hlt'] at hquot
    have hcd : c = d := by
      rw [← Char.toNat_inj]
      omega
    subst hcd
    rw [natOf_inj hrest hrest' hlen (Nat.add_left_cancel heq)]

/-! ### Zeros in front -/

theorem natOf_dropZeros : ∀ digits : List Char, natOf (dropZeros digits) = natOf digits := by
  intro digits
  induction digits using dropZeros.induct with
  | case1 d rest hd ih =>
    rw [dropZeros, if_pos hd, ih, natOf_cons '0']
    simp
  | case2 d rest hd =>
    rw [dropZeros, if_neg hd]
  | case3 digits h =>
    unfold dropZeros
    split
    · exact absurd rfl (h _ _)
    · rfl

/-- What is left has its first digit, and it is no zero unless it is all there is. -/
theorem dropZeros_shape {digits : List Char} (h : AllDigits digits) (hne : digits ≠ []) :
    ∃ c rest, dropZeros digits = c :: rest ∧ AllDigits (c :: rest) ∧ (rest = [] ∨ c ≠ '0') := by
  induction digits using dropZeros.induct with
  | case1 d rest hd ih =>
    rw [dropZeros, if_pos hd]
    exact ih (fun c hc => h c (List.mem_cons_of_mem _ hc)) (List.cons_ne_nil d rest)
  | case2 d rest hd => exact absurd (h d (by simp)) hd
  | case3 digits hother =>
    cases digits with
    | nil => exact absurd rfl hne
    | cons c rest =>
      refine ⟨c, rest, ?_, h, ?_⟩
      · unfold dropZeros
        split
        · next heq => exact absurd heq (hother _ _)
        · rfl
      · cases rest with
        | nil => exact .inl rfl
        | cons d rest =>
          right
          rintro rfl
          exact hother d rest rfl

theorem pow_le_natOf {c : Char} {rest : List Char} (h : AllDigits (c :: rest)) (hc : c ≠ '0') :
    10 ^ rest.length ≤ natOf (c :: rest) := by
  have hrange := digit_range (h c List.mem_cons_self)
  have hzero : c.toNat ≠ 48 := fun heq => hc (Char.toNat_inj.mp heq)
  rw [natOf_cons]
  have hlead : 10 ^ rest.length * 1 ≤ 10 ^ rest.length * (c.toNat - 48) :=
    Nat.mul_le_mul_left _ (by omega)
  omega

/-- Whole numbers are told apart once the zeros in front are gone. -/
theorem dropZeros_eq {digits digits' : List Char} (h : AllDigits digits) (h' : AllDigits digits')
    (hne : digits ≠ []) (hne' : digits' ≠ []) (heq : natOf digits = natOf digits') :
    dropZeros digits = dropZeros digits' := by
  obtain ⟨c, rest, hdrop, hall, hlead⟩ := dropZeros_shape h hne
  obtain ⟨d, rest', hdrop', hall', hlead'⟩ := dropZeros_shape h' hne'
  rw [← natOf_dropZeros digits, ← natOf_dropZeros digits', hdrop, hdrop'] at heq
  -- the longer one would state more
  have hshort : ∀ {c d : Char} {rest rest' : List Char}, AllDigits (c :: rest) →
      AllDigits (d :: rest') → (rest' = [] ∨ d ≠ '0') → natOf (c :: rest) = natOf (d :: rest') →
      rest'.length ≤ rest.length := by
    intro c d rest rest' hall hall' hlead' heq
    rcases hlead' with rfl | hd
    · exact Nat.zero_le _
    · have hlow := pow_le_natOf hall' hd
      have hhigh := natOf_lt hall
      rw [heq, List.length_cons] at hhigh
      exact Nat.lt_succ_iff.mp ((Nat.pow_lt_pow_iff_right (by omega)).mp (hlow.trans_lt hhigh))
  have hlength : rest.length = rest'.length :=
    Nat.le_antisymm (hshort hall' hall hlead heq.symm) (hshort hall hall' hlead' heq)
  rw [hdrop, hdrop']
  exact natOf_inj hall hall' (by rw [List.length_cons, List.length_cons, hlength]) heq

/-! ### Zeros at the end -/

/-- What is trimmed is zeros. -/
theorem trimZeros_append (digits : List Char) :
    ∃ n, digits = trimZeros digits ++ List.replicate n '0' := by
  induction digits using List.reverseRecOn with
  | nil => exact ⟨0, rfl⟩
  | append_singleton front c ih =>
    unfold trimZeros
    by_cases hc : c = '0'
    · obtain ⟨n, hn⟩ := ih
      rw [List.rdropWhile_concat_pos _ _ _ (by simpa using hc)]
      refine ⟨n + 1, ?_⟩
      rw [List.replicate_succ', ← List.append_assoc, hc]
      exact congrArg (· ++ ['0']) hn
    · rw [List.rdropWhile_concat_neg _ _ _ (by simpa using hc)]
      exact ⟨0, (List.append_nil _).symm⟩

theorem trimZeros_last {digits : List Char} {front : List Char} :
    trimZeros digits ≠ front ++ ['0'] := by
  intro h
  have hne : trimZeros digits ≠ [] := by
    rw [h]
    simp
  have hlast := List.rdropWhile_last_not (fun c : Char => decide (c = '0')) digits hne
  unfold trimZeros at h
  simp only [h, List.getLast_append_singleton] at hlast
  simp at hlast

theorem allDigits_trimZeros {digits : List Char} (h : AllDigits digits) :
    AllDigits (trimZeros digits) := by
  obtain ⟨n, hn⟩ := trimZeros_append digits
  intro c hc
  refine h c ?_
  rw [hn]
  exact List.mem_append_left _ hc

theorem fraction_trimZeros (digits : List Char) :
    (natOf (trimZeros digits) : ℚ) / 10 ^ (trimZeros digits).length =
      natOf digits / 10 ^ digits.length := by
  obtain ⟨n, hn⟩ := trimZeros_append digits
  have hnat : natOf digits = 10 ^ n * natOf (trimZeros digits) := by
    conv_lhs => rw [hn]
    rw [natOf_append, natOf_zeros, List.length_replicate, Nat.add_zero]
  have hlength : digits.length = (trimZeros digits).length + n := by
    conv_lhs => rw [hn]
    rw [List.length_append, List.length_replicate]
  rw [hnat, hlength, pow_add]
  push_cast
  field_simp

/-- Fractions are told apart once the zeros at the end are gone. -/
theorem trimZeros_eq {digits digits' : List Char} (h : AllDigits digits) (h' : AllDigits digits')
    (heq : (natOf digits : ℚ) / 10 ^ digits.length = natOf digits' / 10 ^ digits'.length) :
    trimZeros digits = trimZeros digits' := by
  rw [← fraction_trimZeros digits, ← fraction_trimZeros digits'] at heq
  -- the shorter one with zeros at its end is the longer one, which ends in none
  have hlonger : ∀ a b : List Char, AllDigits a → AllDigits b →
      (natOf a : ℚ) / 10 ^ a.length = natOf b / 10 ^ b.length → a.length ≤ b.length →
      (∀ front, b ≠ front ++ ['0']) → a = b := by
    intro a b ha hb heq hle hlast
    obtain ⟨n, hn⟩ := Nat.exists_eq_add_of_le hle
    have hnat : natOf b = 10 ^ n * natOf a := by
      rw [hn, pow_add] at heq
      field_simp at heq
      have hcast : ((10 ^ n * natOf a : ℕ) : ℚ) = (natOf b : ℕ) := by
        push_cast
        linarith
      exact (Nat.cast_injective hcast).symm
    have hpadded : a ++ List.replicate n '0' = b := by
      refine natOf_inj ?_ hb ?_ ?_
      · intro c hc
        rcases List.mem_append.mp hc with hc | hc
        · exact ha c hc
        · rw [List.eq_of_mem_replicate hc]
          rfl
      · rw [List.length_append, List.length_replicate, hn]
      · rw [natOf_append, natOf_zeros, List.length_replicate, Nat.add_zero, hnat]
    cases n with
    | zero => simpa using hpadded
    | succ n =>
      rw [List.replicate_succ', ← List.append_assoc] at hpadded
      exact absurd hpadded.symm (hlast _)
  have hall := allDigits_trimZeros h
  have hall' := allDigits_trimZeros h'
  rcases le_total (trimZeros digits).length (trimZeros digits').length with hle | hle
  · exact hlonger _ _ hall hall' heq hle fun front => trimZeros_last
  · exact (hlonger _ _ hall' hall heq.symm hle fun front => trimZeros_last).symm

/-! ### Numerals -/

/-- **Numerals state one figure** exactly when they are alike without the zeros that change
nothing. -/
theorem value_eq_iff {whole fraction whole' fraction' : List Char} (hw : AllDigits whole)
    (hf : AllDigits fraction) (hw' : AllDigits whole') (hf' : AllDigits fraction')
    (hne : whole ≠ []) (hne' : whole' ≠ []) :
    value whole fraction = value whole' fraction' ↔
      dropZeros whole = dropZeros whole' ∧ trimZeros fraction = trimZeros fraction' := by
  have hunit : ∀ digits : List Char, AllDigits digits →
      0 ≤ (natOf digits : ℚ) / 10 ^ digits.length ∧ (natOf digits : ℚ) / 10 ^ digits.length < 1 := by
    intro digits h
    have hlt : (natOf digits : ℚ) < 10 ^ digits.length := by exact_mod_cast natOf_lt h
    exact ⟨by positivity, (div_lt_one (by positivity)).mpr hlt⟩
  constructor
  · intro h
    unfold value at h
    obtain ⟨hlow, hhigh⟩ := hunit fraction hf
    obtain ⟨hlow', hhigh'⟩ := hunit fraction' hf'
    -- the whole parts are less than one apart
    have hwhole : natOf whole = natOf whole' := by
      have hle : (natOf whole : ℚ) < natOf whole' + 1 := by linarith
      have hle' : (natOf whole' : ℚ) < natOf whole + 1 := by linarith
      have hnat : natOf whole < natOf whole' + 1 := by exact_mod_cast hle
      have hnat' : natOf whole' < natOf whole + 1 := by exact_mod_cast hle'
      omega
    rw [hwhole] at h
    exact ⟨dropZeros_eq hw hw' hne hne' hwhole, trimZeros_eq hf hf' (add_left_cancel h)⟩
  · rintro ⟨hdrop, htrim⟩
    unfold value
    rw [← natOf_dropZeros whole, hdrop, natOf_dropZeros, ← fraction_trimZeros fraction, htrim,
      fraction_trimZeros]

end Decimals
