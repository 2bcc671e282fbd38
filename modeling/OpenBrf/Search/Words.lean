import Mathlib.Data.List.Basic
import Mathlib.Tactic.Common

/-!
# Search.Words — where a word first stands in a text

A search from the left for a word, at a place whose character in front is of a class.  `Stands` says
where the word stands with no mention of the search.
-/

namespace Search

variable {α : Type}

/-- The character in front of a place: of what was read, or else the one before it. -/
def charBefore (prev : Option α) (before : List α) : Option α := before.getLast?.or prev

@[simp] theorem charBefore_nil (prev : Option α) : charBefore prev [] = prev := rfl

@[simp] theorem charBefore_cons (prev : Option α) (x : α) (before : List α) :
    charBefore prev (x :: before) = charBefore (some x) before := by
  unfold charBefore
  rw [List.getLast?_cons]
  cases before.getLast? <;> rfl

variable {opens : Option α → Bool} {word : List α}

/-- The word stands behind what is before it in a text. -/
def Stands (opens : Option α → Bool) (word : List α) (prev : Option α) (text before : List α) : Prop :=
  opens (charBefore prev before) = true ∧ ∃ after, text = before ++ (word ++ after)

theorem stands_nil {prev : Option α} {text : List α} :
    Stands opens word prev text [] ↔ opens prev = true ∧ word <+: text := by
  unfold Stands
  refine and_congr_right fun _ => exists_congr fun after => ?_
  exact eq_comm

theorem stands_cons {prev : Option α} {x y : α} {text before : List α} :
    Stands opens word prev (x :: text) (y :: before) ↔
      y = x ∧ Stands opens word (some x) text before := by
  unfold Stands
  constructor
  · rintro ⟨hopens, after, htext⟩
    obtain ⟨hx, htail⟩ := List.cons.inj htext
    rw [charBefore_cons, ← hx] at hopens
    exact ⟨hx.symm, hopens, after, htail⟩
  · rintro ⟨rfl, hopens, after, rfl⟩
    refine ⟨?_, after, rfl⟩
    rw [charBefore_cons]
    exact hopens

/-- A word that holds none of a break's characters stands in front of the break or behind it. -/
theorem Stands.of_break {prev : Option α} {text stop after before : List α}
    (hstands : Stands opens word prev (text ++ (stop ++ after)) before)
    (hlength : before.length < text.length + stop.length) (hword : word ≠ []) (hstop : stop ≠ [])
    (hbreak : ∀ c ∈ stop, c ∉ word) : Stands opens word prev text before := by
  obtain ⟨hopens, tail, htext⟩ := hstands
  refine ⟨hopens, ?_⟩
  -- where the word ends: past the end of the text, or inside it
  rw [← List.append_assoc before] at htext
  rcases List.append_eq_append_iff.mp htext with ⟨past, hends, hrest⟩ | ⟨past, hends, -⟩
  · cases past with
    | nil => exact ⟨[], by rw [List.append_nil, hends, List.append_nil]⟩
    | cons c past =>
      exfalso
      rcases List.append_eq_append_iff.mp hends with ⟨lead, -, rfl⟩ | ⟨lead, rfl, hpast⟩
      · -- the break begins inside the word
        obtain ⟨d, stop', rfl⟩ := List.exists_cons_of_ne_nil hstop
        obtain ⟨rfl, -⟩ := List.cons.inj hrest
        exact hbreak d List.mem_cons_self (List.mem_append_right _ List.mem_cons_self)
      · -- the word begins inside the break
        rw [List.length_append] at hlength
        rw [hpast, List.append_assoc] at hrest
        rcases List.append_eq_append_iff.mp hrest with ⟨lead', rfl, -⟩ | ⟨lead', rfl, hlead⟩
        · rw [List.length_append] at hlength
          omega
        · cases lead' with
          | nil =>
            rw [List.length_append, List.length_nil] at hlength
            omega
          | cons d lead' =>
            obtain ⟨e, word', rfl⟩ := List.exists_cons_of_ne_nil hword
            obtain ⟨rfl, -⟩ := List.cons.inj hlead
            exact hbreak e (List.mem_append_right _ List.mem_cons_self) List.mem_cons_self
  · exact ⟨past, by rw [hends, List.append_assoc]⟩

/-- What stands in front of the first of a character is told by the text. -/
theorem first_inj {c : α} : ∀ {a b x y : List α}, c ∉ a → c ∉ b → a ++ c :: x = b ++ c :: y →
    a = b ∧ x = y
  | [], [], _, _, _, _, h => ⟨rfl, (List.cons.inj h).2⟩
  | [], d :: b, _, _, _, hb, h => by
    obtain ⟨rfl, -⟩ := List.cons.inj h
    exact absurd List.mem_cons_self hb
  | d :: a, [], _, _, ha, _, h => by
    obtain ⟨rfl, -⟩ := List.cons.inj h
    exact absurd List.mem_cons_self ha
  | d :: a, e :: b, _, _, ha, hb, h => by
    obtain ⟨rfl, htail⟩ := List.cons.inj h
    obtain ⟨rfl, hx⟩ := first_inj (fun hmem => ha (List.mem_cons_of_mem _ hmem))
      (fun hmem => hb (List.mem_cons_of_mem _ hmem)) htail
    exact ⟨rfl, hx⟩

/-- What stands in front of a character that occurs once is told by the text. -/
theorem only_inj {c : α} {a b x y : List α} (ha : c ∉ a) (hx : c ∉ x)
    (h : a ++ c :: x = b ++ c :: y) : a = b ∧ x = y := by
  rcases List.append_eq_append_iff.mp h with ⟨between, rfl, hbetween⟩ | ⟨between, rfl, hbetween⟩
  · cases between with
    | nil => exact ⟨(List.append_nil _).symm, (List.cons.inj hbetween).2⟩
    | cons d between =>
      obtain ⟨rfl, rfl⟩ := List.cons.inj hbetween
      exact absurd (List.mem_append_right _ List.mem_cons_self) hx
  · cases between with
    | nil => exact ⟨List.append_nil _, (List.cons.inj hbetween).2.symm⟩
    | cons d between =>
      obtain ⟨rfl, -⟩ := List.cons.inj hbetween
      exact absurd (List.mem_append_right _ List.mem_cons_self) ha

/-! ### The search -/

variable [DecidableEq α]

/-- How far into a text the word first stands behind a character that opens it. -/
def scan (opens : Option α → Bool) (word : List α) : Option α → List α → Option ℕ
  | prev, [] => if opens prev && word.isPrefixOf [] then some 0 else none
  | prev, x :: rest =>
    if opens prev && word.isPrefixOf (x :: rest) then some 0
    else (scan opens word (some x) rest).map (· + 1)

theorem scan_none : ∀ {text : List α} {prev : Option α}, scan opens word prev text = none →
    ∀ before, ¬ Stands opens word prev text before := by
  intro text
  induction text with
  | nil =>
    intro prev h before hstands
    unfold scan at h
    split_ifs at h with hhere
    rw [Bool.and_eq_true, List.isPrefixOf_iff_prefix] at hhere
    obtain ⟨hopens, after, htext⟩ := hstands
    obtain ⟨rfl, hword⟩ := List.append_eq_nil_iff.mp htext.symm
    exact hhere ⟨hopens, after, hword⟩
  | cons x text ih =>
    intro prev h before hstands
    unfold scan at h
    split_ifs at h with hhere
    rw [Option.map_eq_none_iff] at h
    cases before with
    | nil =>
      rw [Bool.and_eq_true, List.isPrefixOf_iff_prefix] at hhere
      exact hhere (stands_nil.mp hstands)
    | cons y before => exact ih h before (stands_cons.mp hstands).2

theorem scan_some : ∀ {text : List α} {prev : Option α} {n : ℕ}, scan opens word prev text = some n →
    ∃ before, before.length = n ∧ Stands opens word prev text before ∧
      ∀ before', Stands opens word prev text before' → n ≤ before'.length := by
  intro text
  induction text with
  | nil =>
    intro prev n h
    unfold scan at h
    split_ifs at h with hhere
    rw [Bool.and_eq_true, List.isPrefixOf_iff_prefix] at hhere
    obtain rfl := Option.some.inj h
    exact ⟨[], rfl, stands_nil.mpr hhere, fun _ _ => Nat.zero_le _⟩
  | cons x text ih =>
    intro prev n h
    unfold scan at h
    split_ifs at h with hhere
    · rw [Bool.and_eq_true, List.isPrefixOf_iff_prefix] at hhere
      obtain rfl := Option.some.inj h
      exact ⟨[], rfl, stands_nil.mpr hhere, fun _ _ => Nat.zero_le _⟩
    · obtain ⟨m, hm, rfl⟩ := Option.map_eq_some_iff.mp h
      obtain ⟨before, rfl, hstands, hfirst⟩ := ih hm
      refine ⟨x :: before, rfl, stands_cons.mpr ⟨rfl, hstands⟩, ?_⟩
      intro before' hstands'
      cases before' with
      | nil =>
        rw [Bool.and_eq_true, List.isPrefixOf_iff_prefix] at hhere
        exact absurd (stands_nil.mp hstands') hhere
      | cons y before' =>
        exact Nat.succ_le_succ (hfirst before' (stands_cons.mp hstands').2)

/-- **The search** ends at the first place the word stands. -/
theorem scan_eq_of_first {text : List α} {prev : Option α} {before : List α}
    (hstands : Stands opens word prev text before)
    (hfirst : ∀ before', Stands opens word prev text before' → before.length ≤ before'.length) :
    scan opens word prev text = some before.length := by
  cases hscan : scan opens word prev text with
  | none => exact absurd hstands (scan_none hscan before)
  | some n =>
    obtain ⟨before', rfl, hstands', hfirst'⟩ := scan_some hscan
    have hle := hfirst before' hstands'
    have hle' := hfirst' before hstands
    rw [Nat.le_antisymm hle' hle]

/-- **Past a break**, a word that does not stand in front of it is found right behind it. -/
theorem scan_break {prev : Option α} {text stop after : List α}
    (hnone : ∀ before, ¬ Stands opens word prev text before) (hword : word ≠ []) (hstop : stop ≠ [])
    (hbreak : ∀ c ∈ stop, c ∉ word) (hopens : opens (charBefore prev (text ++ stop)) = true) :
    scan opens word prev (text ++ (stop ++ (word ++ after))) = some (text.length + stop.length) := by
  have hstands : Stands opens word prev (text ++ (stop ++ (word ++ after))) (text ++ stop) :=
    ⟨hopens, after, by rw [List.append_assoc]⟩
  have hlength : (text ++ stop).length = text.length + stop.length := List.length_append
  rw [← hlength]
  refine scan_eq_of_first hstands fun before hbefore => ?_
  rw [hlength]
  by_contra hlt
  exact hnone before (hbefore.of_break (Nat.lt_of_not_le hlt) hword hstop hbreak)

end Search
