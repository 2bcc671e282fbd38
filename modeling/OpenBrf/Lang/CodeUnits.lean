import Mathlib.Algebra.Ring.Nat
import Mathlib.Data.List.Basic
import Mathlib.Data.List.TakeWhile
import Mathlib.Tactic.Common

/-!
# Lang.CodeUnits — strings as their UTF-16 code units

`String.prototype.length` and `slice` count code units, and a regular expression without the `u`
flag reads them; iterating over a string gives its code points.
-/

namespace OpenBrf.Lang

def isLeadingSurrogate (u : ℕ) : Bool := 0xD800 ≤ u && u ≤ 0xDBFF

def isTrailingSurrogate (u : ℕ) : Bool := 0xDC00 ≤ u && u ≤ 0xDFFF

/-- `\d` -/
def isDigit (c : ℕ) : Bool := 0x30 ≤ c && c ≤ 0x39

/-- `Array.from`: the code points, and a half of a surrogate pair where one stands alone. -/
def codePoints : List ℕ → List ℕ
  | [] => []
  | [u] => [u]
  | u :: v :: rest =>
    if isLeadingSurrogate u && isTrailingSurrogate v then
      (0x10000 + (u - 0xD800) * 0x400 + (v - 0xDC00)) :: codePoints rest
    else u :: codePoints (v :: rest)

/-- A code unit below the surrogates is a code point. -/
theorem codePoints_cons {u : ℕ} (h : u < 0xD800) (rest : List ℕ) :
    codePoints (u :: rest) = u :: codePoints rest := by
  cases rest with
  | nil => rfl
  | cons v rest =>
    have hlead : isLeadingSurrogate u = false := by
      unfold isLeadingSurrogate
      rw [decide_eq_false (by omega), Bool.false_and]
    show (if isLeadingSurrogate u && isTrailingSurrogate v then _ else u :: codePoints (v :: rest)) = _
    rw [hlead, Bool.false_and, if_neg Bool.false_ne_true]

/-- The first code point of a text, where it is below the surrogates, is its first code unit. -/
theorem cons_of_codePoints {text after : List ℕ} {c : ℕ} (hc : c < 0xD800)
    (h : codePoints text = c :: after) : ∃ rest, text = c :: rest ∧ codePoints rest = after := by
  match text, h with
  | [u], h =>
    obtain ⟨rfl, rfl⟩ := List.cons.inj h
    exact ⟨[], rfl, rfl⟩
  | u :: v :: rest, h =>
    unfold codePoints at h
    split_ifs at h
    · obtain ⟨hc', -⟩ := List.cons.inj h
      omega
    · obtain ⟨rfl, hafter⟩ := List.cons.inj h
      exact ⟨v :: rest, rfl, hafter⟩

theorem append_of_codePoints : ∀ {written text after : List ℕ}, (∀ c ∈ written, c < 0xD800) →
    codePoints text = written ++ after → ∃ rest, text = written ++ rest ∧ codePoints rest = after
  | [], text, after, _, h => ⟨text, rfl, h⟩
  | c :: written, text, after, hwritten, h => by
    obtain ⟨rest, rfl, hrest⟩ := cons_of_codePoints (hwritten c List.mem_cons_self) h
    obtain ⟨rest', rfl, hafter⟩ :=
      append_of_codePoints (fun d hd => hwritten d (List.mem_cons_of_mem _ hd)) hrest
    exact ⟨rest', rfl, hafter⟩

/-! ### Splitting -/

/-- `String.prototype.split` at a character. -/
def split (c : ℕ) : List ℕ → List (List ℕ)
  | [] => [[]]
  | u :: rest =>
    if u = c then [] :: split c rest
    else
      match split c rest with
      | [] => [[u]]
      | first :: others => (u :: first) :: others

theorem split_none {c : ℕ} : ∀ {text : List ℕ}, c ∉ text → split c text = [text]
  | [], _ => rfl
  | u :: text, h => by
    rw [List.mem_cons, not_or] at h
    unfold split
    rw [if_neg (Ne.symm h.1), split_none h.2]

theorem split_append {c : ℕ} {text : List ℕ} (h : c ∉ text) (rest : List ℕ) :
    split c (text ++ c :: rest) = text :: split c rest := by
  induction text with
  | nil => exact if_pos rfl
  | cons u text ih =>
    rw [List.mem_cons, not_or] at h
    rw [List.cons_append, split, if_neg (Ne.symm h.1), ih h.2]

/-! ### White space -/

/-- `\s`, white space and line terminators. -/
def isSpace (u : ℕ) : Bool :=
  u ∈ [0x9, 0xA, 0xB, 0xC, 0xD, 0x20, 0xA0, 0x1680, 0x2028, 0x2029, 0x202F, 0x205F, 0x3000, 0xFEFF] ||
    (0x2000 ≤ u && u ≤ 0x200A)

/-- `String.prototype.trim` -/
def trimmed (text : List ℕ) : List ℕ :=
  ((text.dropWhile isSpace).reverse.dropWhile isSpace).reverse

theorem dropWhile_eq_self {p : ℕ → Bool} {text : List ℕ} (h : ∀ u ∈ text.head?, p u = false) :
    text.dropWhile p = text := by
  cases text with
  | nil => rfl
  | cons u text => rw [List.dropWhile_cons, if_neg (by rw [h u rfl]; exact Bool.false_ne_true)]

/-- A text with no white space at its ends is left as it is. -/
theorem trimmed_eq_self {text : List ℕ} (hhead : ∀ u ∈ text.head?, isSpace u = false)
    (hlast : ∀ u ∈ text.getLast?, isSpace u = false) : trimmed text = text := by
  unfold trimmed
  rw [dropWhile_eq_self hhead, dropWhile_eq_self, List.reverse_reverse]
  intro u hu
  rw [List.head?_reverse] at hu
  exact hlast u hu

theorem trimmed_eq_nil {text : List ℕ} : trimmed text = [] ↔ ∀ u ∈ text, isSpace u = true := by
  unfold trimmed
  rw [List.reverse_eq_nil_iff, List.dropWhile_eq_nil_iff]
  simp only [List.mem_reverse]
  constructor
  · intro h u hu
    rw [← List.takeWhile_append_dropWhile (p := isSpace) (l := text)] at hu
    rcases List.mem_append.mp hu with hu | hu
    · exact List.mem_takeWhile_imp hu
    · exact h u hu
  · exact fun h u hu => h u ((List.dropWhile_sublist _).mem hu)

/-- White space around a text is taken. -/
theorem trimmed_padded {lead text trail : List ℕ} (hlead : ∀ u ∈ lead, isSpace u = true)
    (htrail : ∀ u ∈ trail, isSpace u = true) (hhead : ∀ u ∈ text.head?, isSpace u = false)
    (hlast : ∀ u ∈ text.getLast?, isSpace u = false) : trimmed (lead ++ (text ++ trail)) = text := by
  rcases List.eq_nil_or_concat text with rfl | ⟨init, last, rfl⟩
  · refine trimmed_eq_nil.mpr fun u hu => ?_
    rw [List.nil_append] at hu
    exact (List.mem_append.mp hu).elim (hlead u) (htrail u)
  · rw [List.concat_eq_append] at hhead hlast ⊢
    have hkept : (init ++ [last] ++ trail).dropWhile isSpace = init ++ [last] ++ trail := by
      refine dropWhile_eq_self fun u hu => hhead u ?_
      cases init with
      | nil => exact hu
      | cons v init => exact hu
    unfold trimmed
    rw [List.dropWhile_append_of_pos hlead, hkept, List.reverse_append, List.dropWhile_append_of_pos,
      dropWhile_eq_self, List.reverse_reverse]
    · intro u hu
      rw [List.head?_reverse] at hu
      exact hlast u hu
    · exact fun u hu => htrail u (List.mem_reverse.mp hu)

/-- Trimming takes white space alone. -/
theorem count_trimmed {c : ℕ} (hc : isSpace c = false) (text : List ℕ) :
    (trimmed text).count c = text.count c := by
  have hdrop : ∀ text : List ℕ, (text.dropWhile isSpace).count c = text.count c := by
    intro text
    induction text with
    | nil => rfl
    | cons u text ih =>
      rw [List.dropWhile_cons]
      split_ifs with hu
      · have hne : (u == c) = false := beq_false_of_ne fun heq => by
          rw [heq, hc] at hu
          cases hu
        rw [ih, List.count_cons, hne, if_neg Bool.false_ne_true, Nat.add_zero]
      · rfl
  unfold trimmed
  rw [List.count_reverse, hdrop, List.count_reverse, hdrop]

/-! ### Numbers -/

/-- `Number` of digits. -/
def numberOfDigits (digits : List ℕ) : ℕ := digits.foldl (fun n d => 10 * n + (d - 0x30)) 0

/-- `String` of a number. -/
def decimal (n : ℕ) : List ℕ := if n < 10 then [0x30 + n] else decimal (n / 10) ++ [0x30 + n % 10]

theorem numberOfDigits_concat (digits : List ℕ) (d : ℕ) :
    numberOfDigits (digits ++ [d]) = 10 * numberOfDigits digits + (d - 0x30) := by
  unfold numberOfDigits
  rw [List.foldl_append]
  rfl

theorem decimal_ne_nil (n : ℕ) : decimal n ≠ [] := by
  rw [decimal]
  split_ifs
  · exact List.cons_ne_nil _ _
  · exact List.append_ne_nil_of_right_ne_nil _ (List.cons_ne_nil _ _)

theorem digit_of_mem_decimal {c n : ℕ} (h : c ∈ decimal n) : 0x30 ≤ c ∧ c ≤ 0x39 := by
  induction n using Nat.strongRecOn with
  | ind n ih =>
    rw [decimal] at h
    split_ifs at h with hn
    · rw [List.mem_singleton.mp h]
      omega
    · rcases List.mem_append.mp h with h | h
      · exact ih (n / 10) (by omega) h
      · rw [List.mem_singleton.mp h]
        omega

@[simp] theorem numberOfDigits_decimal (n : ℕ) : numberOfDigits (decimal n) = n := by
  induction n using Nat.strongRecOn with
  | ind n ih =>
    rw [decimal]
    split_ifs with hn
    · show 10 * 0 + (0x30 + n - 0x30) = n
      omega
    · rw [numberOfDigits_concat, ih (n / 10) (by omega)]
      omega

theorem length_decimal {k : ℕ} : ∀ {n : ℕ}, n < 10 ^ (k + 1) → (decimal n).length ≤ k + 1 := by
  induction k with
  | zero =>
    intro n hn
    rw [decimal, if_pos (by omega)]
    exact Nat.le_refl _
  | succ k ih =>
    intro n hn
    rw [decimal]
    split_ifs
    · exact Nat.succ_le_succ (Nat.zero_le _)
    · have hlen : (decimal (n / 10)).length ≤ k + 1 :=
        ih (Nat.div_lt_of_lt_mul (by rw [Nat.mul_comm, ← Nat.pow_succ]; exact hn))
      rw [List.length_append, List.length_singleton]
      omega

end OpenBrf.Lang
