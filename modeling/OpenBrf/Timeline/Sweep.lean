import OpenBrf.Timeline.Order
import Mathlib.Algebra.Order.Group.Int
import Mathlib.Data.Int.SuccPred

/-!
# Timeline.Sweep — answering every difference from a target with a row

A timeline reads as true or false on each day.  `sweep` walks the days on which anything may
change, keeps what the timeline reads, and answers each difference from a target reading with a
row dated that day.  `mem_sweep` says which rows it leaves, `readsAs_target` what the timeline
then reads.
-/

namespace Timeline

/-- Walks the days, keeping what the timeline reads: what `settled` says a day settles on its
own, until a row appended here says otherwise. -/
def sweep (settled : Int → Option Bool) (target : Int → Bool) : Bool → List Int → List (Int × Bool)
  | _, [] => []
  | registered, d :: ds =>
    if target d = (settled d).getD registered then sweep settled target (target d) ds
    else (d, target d) :: sweep settled target (target d) ds

variable {settled : Int → Option Bool} {target : Int → Bool}

/-- A sweep asks of the days it walks, and of no others. -/
theorem sweep_congr {settled' : Int → Option Bool} {target' : Int → Bool} :
    ∀ {ds : List Int} {registered : Bool}, (∀ d ∈ ds, settled d = settled' d) →
      (∀ d ∈ ds, target d = target' d) →
      sweep settled target registered ds = sweep settled' target' registered ds
  | [], _, _, _ => rfl
  | d :: ds, _, hsettled, htarget => by
    obtain ⟨hsettled, hsettleds⟩ := List.forall_mem_cons.mp hsettled
    obtain ⟨htarget, htargets⟩ := List.forall_mem_cons.mp htarget
    unfold sweep
    rw [hsettled, htarget, sweep_congr hsettleds htargets]

/-- A reading that changes on no day from `lo` on keeps what it read the day before. -/
theorem constant_from {f : Int → Bool} {lo : Int} : ∀ d, lo ≤ d →
    (∀ e, lo ≤ e → e ≤ d → f e = f (e - 1)) → f d = f (lo - 1) := by
  intro d hd
  induction d, hd using Int.leInduction with
  | base => exact fun h => h lo le_rfl le_rfl
  | succ d hd ih =>
    intro h
    have h1 := h (d + 1) (by omega) le_rfl
    rw [h1, show d + 1 - 1 = d by omega]
    exact ih fun e he1 he2 => h e he1 (by omega)

/-- **The rows of a sweep**: one on each listed day where the target differs from what the day
settles, or else from the target of the day before. -/
theorem mem_sweep : ∀ (ds : List Int) (lo : Int) (registered : Bool),
    ds.Pairwise (· < ·) → (∀ d ∈ ds, lo ≤ d) →
    (∀ d, lo ≤ d → d ∉ ds → target d = target (d - 1)) → registered = target (lo - 1) →
    ∀ d v, (d, v) ∈ sweep settled target registered ds ↔
      d ∈ ds ∧ v = target d ∧ target d ≠ (settled d).getD (target (d - 1))
  | [], _, _, _, _, _, _, d, v => by simp [sweep]
  | d₀ :: ds, lo, registered, hs, hlo, hall, hreg, d, v => by
    obtain ⟨h₀, hs⟩ := List.pairwise_cons.mp hs
    -- nothing changes between `lo` and the first day listed
    have hprev : target (d₀ - 1) = registered := by
      rcases (hlo d₀ (by simp)).eq_or_lt with heq | hlt
      · rw [← heq, hreg]
      · rw [hreg]
        refine constant_from (d₀ - 1) (by omega) fun e he1 he2 => hall e he1 ?_
        intro he
        rcases List.mem_cons.mp he with rfl | he
        · omega
        · have := h₀ e he
          omega
    have ih := mem_sweep ds (d₀ + 1) (target d₀) hs
      (fun e he => by have := h₀ e he; omega)
      (fun e he hne => hall e (by have := hlo d₀ (by simp); omega) (by
        rw [List.mem_cons, not_or]; exact ⟨by omega, hne⟩))
      (by rw [show d₀ + 1 - 1 = d₀ by omega]) d v
    have hne : d ∈ ds → d ≠ d₀ := fun hd => (h₀ d hd).ne'
    unfold sweep
    rw [← hprev]
    split_ifs with h
    · rw [ih, List.mem_cons]
      constructor
      · rintro ⟨hd, hv, hx⟩
        exact ⟨.inr hd, hv, hx⟩
      · rintro ⟨rfl | hd, hv, hx⟩
        · exact absurd h hx
        · exact ⟨hd, hv, hx⟩
    · rw [List.mem_cons, ih, List.mem_cons]
      constructor
      · rintro (heq | ⟨hd, hv, hx⟩)
        · obtain ⟨rfl, rfl⟩ := Prod.mk.inj heq
          exact ⟨.inl rfl, rfl, h⟩
        · exact ⟨.inr hd, hv, hx⟩
      · rintro ⟨rfl | hd, hv, hx⟩
        · exact .inl (by rw [hv])
        · exact .inr ⟨hd, hv, hx⟩

/-! ### What a swept timeline reads -/

/-- The row a sweep leaves on a day, if any. -/
def rowOn (settled : Int → Option Bool) (target : Int → Bool) (d : Int) : Option Bool :=
  if target d = (settled d).getD (target (d - 1)) then none else some (target d)

/-- `R` is what a timeline reads whose days settle as `E` says. -/
def Reads (E : Int → Option Bool) (R : Int → Bool) : Prop := ∀ d, R d = (E d).getD (R (d - 1))

/-- Readings that start alike agree for as long as the days settle alike. -/
theorem Reads.agree {E E' : Int → Option Bool} {R R' : Int → Bool} (lo : Int) {hi : Int}
    (h : Reads E R) (h' : Reads E' R') (hlo : ∀ d, d < lo → R d = R' d)
    (hE : ∀ d, d < hi → E d = E' d) {d : Int} (hd : d < hi) : R d = R' d := by
  rcases lt_or_ge d lo with hdlo | hdlo
  · exact hlo d hdlo
  · induction d, hdlo using Int.leInduction with
    | base => rw [h lo, h' lo, hE lo hd, hlo (lo - 1) (by omega)]
    | succ d _ ih =>
      rw [h (d + 1), h' (d + 1), hE (d + 1) hd, show d + 1 - 1 = d by omega, ih (by omega)]

/-- The days on which a reading changes, each with what it changes to. -/
def changes (f : Int → Bool) (d : Int) : Option Bool :=
  if f d = f (d - 1) then none else some (f d)

section Rows

variable {ε : Type} [Dated ε] (opens : ε → Bool)

/-- What the last row on a day settles. -/
def settles (es : List ε) (d : Int) : Option Bool := (lastOn es d).map opens

/-- What a timeline reads on a day: what its last row on or before it says. -/
def reads (es : List ε) (d : Int) : Bool := (lastBy es d).elim false opens

theorem reads_settles (es : List ε) : Reads (settles opens es) (reads opens es) := by
  intro d
  unfold reads settles
  rw [lastBy_eq]
  cases lastOn es d <;> rfl

theorem reads_of_lt {es : List ε} {d : Int} (h : ∀ e ∈ es, d < Dated.day e) :
    reads opens es d = false := by
  unfold reads
  rw [lastBy_eq_none h]
  rfl

theorem settles_append {es new : List ε}
    (h : ∀ a ∈ es, ∀ b ∈ new, Dated.writtenAt a < Dated.writtenAt b) (d : Int) :
    settles opens (es ++ new) d = (settles opens new d).or (settles opens es d) := by
  unfold settles
  rw [lastOn_append h]
  cases lastOn new d <;> rfl

theorem settles_eq_none {es : List ε} {d : Int} :
    settles opens es d = none ↔ ∀ e ∈ es, Dated.day e ≠ d := by
  unfold settles
  rw [Option.map_eq_none_iff, lastOn_eq_none]

/-- Rows that answer `f`, one or more on each day it names and none elsewhere, settle it. -/
theorem settles_eq {es : List ε} {f : Int → Option Bool}
    (hrow : ∀ e ∈ es, f (Dated.day e) = some (opens e))
    (hday : ∀ d v, f d = some v → ∃ e ∈ es, Dated.day e = d) : settles opens es = f := by
  funext d
  unfold settles
  cases h : lastOn es d with
  | none =>
    rw [lastOn_eq_none] at h
    cases hf : f d with
    | none => rfl
    | some v =>
      obtain ⟨e, he, hed⟩ := hday d v hf
      exact absurd hed (h e he)
  | some e =>
    obtain ⟨he, rfl⟩ := day_of_lastOn h
    rw [hrow e he]
    rfl

end Rows

/-- A sweep that knows what every day settles reads as its target from the first day on. -/
theorem reads_target {E : Int → Option Bool} {R : Int → Bool} {lo : Int}
    (hR : ∀ d, lo ≤ d → R d = ((rowOn settled target d).or (E d)).getD (R (d - 1)))
    (hlo : (settled lo).getD (target (lo - 1)) = (E lo).getD (R (lo - 1)))
    (hset : ∀ d, lo < d → settled d = E d) : ∀ d, lo ≤ d → R d = target d := by
  have hstep : ∀ d, lo ≤ d → (settled d).getD (target (d - 1)) = (E d).getD (R (d - 1)) →
      R d = target d := by
    intro d hd hbase
    rw [hR d hd]
    unfold rowOn
    split_ifs with h
    · rw [Option.none_or, ← hbase, h]
    · rfl
  intro d hd
  induction d, hd using Int.leInduction with
  | base => exact hstep lo le_rfl hlo
  | succ d hd ih =>
    refine hstep (d + 1) (by omega) ?_
    rw [hset (d + 1) (by omega), show d + 1 - 1 = d by omega, ih]

/-- **When the rows of a sweep are right.**  A timeline they are added to reads as the target exactly
when each day without one reads as the target does by the older rows, given that the day before
does. -/
theorem reads_sweep_iff {E : Int → Option Bool} {R : Int → Bool} (lo : Int)
    (hR : Reads (fun d => (rowOn settled target d).or (E d)) R)
    (hlo : ∀ d, d < lo → R d = target d) :
    (∀ d, R d = target d) ↔
      ∀ d, rowOn settled target d = none → (E d).getD (target (d - 1)) = target d := by
  have hnone : ∀ d, R (d - 1) = target (d - 1) → rowOn settled target d = none →
      R d = (E d).getD (target (d - 1)) := by
    intro d hprev hrow
    have hr := hR d
    dsimp only at hr
    rwa [hrow, Option.none_or, hprev] at hr
  constructor
  · intro h d hrow
    rw [← hnone d (h (d - 1)) hrow, h d]
  · intro h d
    have hstep : ∀ d, R (d - 1) = target (d - 1) → R d = target d := by
      intro d hprev
      cases hrow : rowOn settled target d with
      | none => rw [hnone d hprev hrow, h d hrow]
      | some v =>
        have hr := hR d
        dsimp only at hr
        rw [hrow, Option.some_or, Option.getD_some] at hr
        unfold rowOn at hrow
        split_ifs at hrow
        rw [hr, Option.some.inj hrow]
    rcases lt_or_ge d lo with hd | hd
    · exact hlo d hd
    · induction d, hd using Int.leInduction with
      | base => exact hstep lo (hlo (lo - 1) (by omega))
      | succ d _ ih =>
        refine hstep (d + 1) ?_
        rw [show d + 1 - 1 = d by omega]
        exact ih

/-- One day of a sweep that takes the changes of an old reading for all that the old rows settle:
without a row of its own it reads right unless it holds an old row and keeps, under both readings,
two different states. -/
theorem changes_day_iff {E : Int → Option Bool} {before after : Int → Bool} (hbefore : Reads E before)
    (d : Int) : (rowOn (changes before) after d = none → (E d).getD (after (d - 1)) = after d) ↔
      (E d ≠ none → before d = before (d - 1) → after d = after (d - 1) → after d = before d) := by
  have hb := hbefore d
  unfold rowOn changes
  by_cases hch : before d = before (d - 1)
  · rw [if_pos hch, Option.getD_none]
    by_cases ha : after d = after (d - 1)
    · rw [if_pos ha]
      cases hE : E d with
      | none => simp [ha]
      | some v =>
        rw [hE, Option.getD_some] at hb
        simp only [Option.getD_some, ← hb, ne_eq, reduceCtorEq, not_false_eq_true, forall_true_left, hch,
          ha]
        exact eq_comm
    · rw [if_neg ha]
      simp [ha]
  · rw [if_neg hch, Option.getD_some]
    have hE : E d ≠ none := by
      intro hnone
      rw [hnone, Option.getD_none] at hb
      exact hch hb
    obtain ⟨v, hv⟩ := Option.ne_none_iff_exists'.mp hE
    rw [hv, Option.getD_some] at hb
    refine ⟨fun _ _ h => absurd h hch, fun _ hrow => ?_⟩
    rw [hv, Option.getD_some, ← hb]
    split_ifs at hrow with ha
    exact ha.symm

end Timeline
