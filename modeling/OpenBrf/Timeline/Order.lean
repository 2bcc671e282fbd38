import Mathlib.Data.List.Sort
import Mathlib.Tactic.Common

/-!
# Timeline.Order — dated events and the last one on or before a day

An event carries a day and the instant it was written.  Events are read in the order of their
days, one day's events in the order they were written, and what holds on a day is decided by the
last event on or before it.  The lemmas here follow that reading through an append: rows written
later than every earlier one settle the days they are dated on and no other.
-/

namespace Timeline

/-! ### Stable sorting -/

section Sorting

variable {α : Type} {r : α → α → Prop} [DecidableRel r]

theorem orderedInsert_append {a : α} {l l' : List α} (h : ∀ b ∈ l', r a b) :
    (l ++ l').orderedInsert r a = l.orderedInsert r a ++ l' := by
  induction l with
  | nil =>
    cases l' with
    | nil => rfl
    | cons b l' => simp [List.orderedInsert_cons, h b (by simp)]
  | cons b l ih =>
    by_cases hab : r a b
    · simp [List.orderedInsert_cons, hab]
    · simp [List.orderedInsert_cons, hab, ih]

/-- Two lists sort one after the other when everything in the first may stand before everything
in the second. -/
theorem insertionSort_append {l l' : List α} (h : ∀ a ∈ l, ∀ b ∈ l', r a b) :
    (l ++ l').insertionSort r = l.insertionSort r ++ l'.insertionSort r := by
  induction l with
  | nil => rfl
  | cons a l ih =>
    have ha : ∀ b ∈ l'.insertionSort r, r a b := fun b hb =>
      h a (by simp) b ((List.mem_insertionSort r).mp hb)
    rw [List.cons_append, List.insertionSort_cons, List.insertionSort_cons,
      ih fun a' ha' => h a' (by simp [ha']), orderedInsert_append ha]

theorem filter_orderedInsert [IsTrans α r] {p : α → Bool} {a : α} {l : List α}
    (hl : l.Pairwise r) :
    (l.orderedInsert r a).filter p =
      if p a then (l.filter p).orderedInsert r a else l.filter p := by
  induction l with
  | nil => by_cases ha : p a <;> simp [ha]
  | cons b l ih =>
    obtain ⟨hb, hl⟩ := List.pairwise_cons.mp hl
    by_cases hab : r a b
    · have hall : ∀ c ∈ (b :: l).filter p, r a c := by
        intro c hc
        rcases List.mem_cons.mp (List.mem_filter.mp hc).1 with rfl | hc
        · exact hab
        · exact IsTrans.trans a b c hab (hb c hc)
      by_cases ha : p a
      · have := orderedInsert_append (r := r) (l := []) hall
        simp only [List.orderedInsert_cons, if_pos hab, List.filter_cons_of_pos ha, ha, if_true]
        simpa using this.symm
      · simp [List.orderedInsert_cons, hab, ha]
    · by_cases hpb : p b
      · by_cases ha : p a <;> simp [List.orderedInsert_cons, hab, hpb, ha, ih hl]
      · simp [List.orderedInsert_cons, hab, hpb, ih hl]

/-- Sorting is stable, so it commutes with a selection. -/
theorem filter_insertionSort [IsTrans α r] [Std.Total r] (p : α → Bool) (l : List α) :
    (l.insertionSort r).filter p = (l.filter p).insertionSort r := by
  induction l with
  | nil => rfl
  | cons a l ih =>
    rw [List.insertionSort_cons, filter_orderedInsert (List.pairwise_insertionSort r l), ih]
    by_cases ha : p a <;> simp [ha]

end Sorting

/-- What a search of a sorted list finds stands before everything else it could have found. -/
theorem rel_of_find? {α : Type} {r : α → α → Prop} {p : α → Bool} {l : List α} {a b : α}
    (hs : l.Pairwise r) (hr : r a a) (ha : l.find? p = some a) (hb : b ∈ l) (hpb : p b = true) :
    r a b := by
  obtain ⟨-, before, after, rfl, hbefore⟩ := List.find?_eq_some_iff_append.mp ha
  rcases List.mem_append.mp hb with hb | hb
  · have := hbefore b hb
    simp [hpb] at this
  · rcases List.mem_cons.mp hb with rfl | hb
    · exact hr
    · exact (List.pairwise_cons.mp (List.pairwise_append.mp hs).2.1).1 b hb

theorem exists_before_all (days : List Int) : ∃ lo : Int, ∀ d ∈ days, lo ≤ d := by
  induction days with
  | nil => exact ⟨0, by simp⟩
  | cons d days ih =>
    obtain ⟨lo, h⟩ := ih
    refine ⟨min lo d, fun e he => ?_⟩
    rcases List.mem_cons.mp he with rfl | he
    · exact min_le_right _ _
    · exact (min_le_left _ _).trans (h e he)

/-! ### Dated events -/

/-- An event is dated by a day and by the instant it was written. -/
class Dated (ε : Type) where
  day : ε → Int
  writtenAt : ε → Int

variable {ε : Type} [Dated ε]

open Dated

/-- The order events are read in: by day, one day's events by when they were written. -/
def Chronological (a b : ε) : Prop :=
  day a < day b ∨ (day a = day b ∧ writtenAt a ≤ writtenAt b)

instance : DecidableRel (Chronological : ε → ε → Prop) := fun a b => by
  unfold Chronological; infer_instance

instance : IsTrans ε Chronological where
  trans a b c hab hbc := by
    unfold Chronological at *
    omega

instance : Std.Total (Chronological : ε → ε → Prop) where
  total a b := by
    unfold Chronological
    omega

/-- The events in the order they are read. -/
def chronologically (es : List ε) : List ε := es.insertionSort Chronological

@[simp] theorem mem_chronologically {es : List ε} {e : ε} : e ∈ chronologically es ↔ e ∈ es :=
  List.mem_insertionSort _

theorem pairwise_chronologically (es : List ε) : (chronologically es).Pairwise Chronological :=
  List.pairwise_insertionSort _ es

theorem filter_chronologically (p : ε → Bool) (es : List ε) :
    (chronologically es).filter p = chronologically (es.filter p) :=
  filter_insertionSort p es

theorem chronologically_idem (es : List ε) :
    chronologically (chronologically es) = chronologically es :=
  (pairwise_chronologically es).insertionSort_eq

/-- The last event on or before a day. -/
def lastBy (es : List ε) (d : Int) : Option ε :=
  ((chronologically es).filter fun e => day e ≤ d).getLast?

/-- The last event on a day. -/
def lastOn (es : List ε) (d : Int) : Option ε :=
  ((chronologically es).filter fun e => day e = d).getLast?

theorem day_of_lastOn {es : List ε} {d : Int} {e : ε} (h : lastOn es d = some e) :
    e ∈ es ∧ day e = d := by
  have := List.mem_filter.mp (List.mem_of_getLast? h)
  simpa using this

theorem lastOn_eq_none {es : List ε} {d : Int} :
    lastOn es d = none ↔ ∀ e ∈ es, day e ≠ d := by
  simp [lastOn]

/-- A sorted list splits at a day. -/
theorem filter_day_le {es : List ε} (hes : es.Pairwise Chronological) (d : Int) :
    es.filter (fun e => day e ≤ d) =
      es.filter (fun e => day e ≤ d - 1) ++ es.filter (fun e => day e = d) := by
  induction es with
  | nil => rfl
  | cons e es ih =>
    obtain ⟨he, hes⟩ := List.pairwise_cons.mp hes
    rcases lt_trichotomy (day e) d with h | h | h
    · have h1 : decide (day e ≤ d) = true := decide_eq_true (by omega)
      have h2 : decide (day e ≤ d - 1) = true := decide_eq_true (by omega)
      have h3 : decide (day e = d) = false := decide_eq_false (by omega)
      simp only [List.filter_cons, h1, h2, h3, if_true, Bool.false_eq_true, if_false, ih hes,
        List.cons_append]
    · -- everything after `e` is dated on or after its day
      have hnone : es.filter (fun e => day e ≤ d - 1) = [] := by
        rw [List.filter_eq_nil_iff]
        intro e' he'
        have := he e' he'
        unfold Chronological at this
        rw [decide_eq_true_eq]
        omega
      have h1 : decide (day e ≤ d) = true := decide_eq_true h.le
      have h2 : decide (day e ≤ d - 1) = false := decide_eq_false (by omega)
      have h3 : decide (day e = d) = true := decide_eq_true h
      simp only [List.filter_cons, h1, h2, h3, if_true, Bool.false_eq_true, if_false, ih hes,
        hnone, List.nil_append]
    · have h1 : decide (day e ≤ d) = false := decide_eq_false (by omega)
      have h2 : decide (day e ≤ d - 1) = false := decide_eq_false (by omega)
      have h3 : decide (day e = d) = false := decide_eq_false (by omega)
      simp only [List.filter_cons, h1, h2, h3, Bool.false_eq_true, if_false, ih hes]

/-- **What holds on a day** is what its own last event says, or else what held the day before. -/
theorem lastBy_eq (es : List ε) (d : Int) :
    lastBy es d = (lastOn es d).or (lastBy es (d - 1)) := by
  unfold lastBy lastOn
  rw [filter_day_le (pairwise_chronologically es) d, List.getLast?_append]

theorem lastBy_eq_none {es : List ε} {d : Int} (h : ∀ e ∈ es, d < day e) : lastBy es d = none := by
  simp only [lastBy, List.getLast?_eq_none_iff, List.filter_eq_nil_iff, mem_chronologically,
    decide_eq_true_eq]
  intro e he
  have := h e he
  omega

/-- **Later rows settle their days.**  Appended events written after every earlier one decide the
days they are dated on, and no other day. -/
theorem lastOn_append {es new : List ε} (h : ∀ a ∈ es, ∀ b ∈ new, writtenAt a < writtenAt b)
    (d : Int) : lastOn (es ++ new) d = (lastOn new d).or (lastOn es d) := by
  unfold lastOn
  simp only [filter_chronologically, List.filter_append]
  unfold chronologically
  rw [insertionSort_append, List.getLast?_append]
  intro a ha b hb
  simp only [List.mem_filter, decide_eq_true_eq] at ha hb
  have := h a ha.1 b hb.1
  unfold Chronological
  omega

/-- Selecting from the events in order, or from the events, leaves the same last one on a day. -/
theorem lastOn_filter_chronologically (p : ε → Bool) (es : List ε) :
    lastOn ((chronologically es).filter p) = lastOn (es.filter p) := by
  unfold lastOn
  rw [filter_chronologically, chronologically_idem]

end Timeline
