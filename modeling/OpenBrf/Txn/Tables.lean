import Mathlib.Data.List.Nodup
import OpenBrf.Txn.Rows

/-!
# Txn.Tables — tables whose rows are told apart by a key

A table is the list of its rows, the one written last first.  `rowAt` finds the row that has a key
and `overwrite` writes over it; a row keeps its place when it is written over.
-/

namespace Txn

/-! ### Rows by key -/

section Tables

variable {ρ ν β : Type}

/-- No two rows have one key. -/
def Keyed (key : ρ → ν) (rows : List ρ) : Prop := (rows.map key).Nodup

theorem keyed_nil {key : ρ → ν} : Keyed key [] := List.nodup_nil

theorem Keyed.eq_of_key {key : ρ → ν} {rows : List ρ} (h : Keyed key rows) {a b : ρ}
    (ha : a ∈ rows) (hb : b ∈ rows) (hkey : key a = key b) : a = b :=
  List.inj_on_of_nodup_map h ha hb hkey

theorem Keyed.filter {key : ρ → ν} {rows : List ρ} (h : Keyed key rows) (p : ρ → Bool) :
    Keyed key (rows.filter p) := h.sublist (List.filter_sublist.map _)

theorem Keyed.cons {key : ρ → ν} {rows : List ρ} (h : Keyed key rows) {row : ρ}
    (hnew : ∀ other ∈ rows, key other ≠ key row) : Keyed key (row :: rows) := by
  refine List.nodup_cons.mpr ⟨fun hmem => ?_, h⟩
  obtain ⟨other, hother, hkey⟩ := List.mem_map.mp hmem
  exact hnew other hother hkey

theorem Keyed.append {key : ρ → ν} {rows added : List ρ} (h : Keyed key rows)
    (hadded : Keyed key added) (hnew : ∀ row ∈ added, ∀ other ∈ rows, key other ≠ key row) :
    Keyed key (rows ++ added) := by
  unfold Keyed
  rw [List.map_append]
  refine List.nodup_append.mpr ⟨h, hadded, fun k hk k' hk' heq => ?_⟩
  obtain ⟨other, hother, rfl⟩ := List.mem_map.mp hk
  obtain ⟨row, hrow, rfl⟩ := List.mem_map.mp hk'
  exact hnew row hrow other hother heq

variable [DecidableEq ν]

/-- The row that has a key. -/
def rowAt (key : ρ → ν) (rows : List ρ) (k : ν) : Option ρ := rows.find? fun row => key row = k

/-- Writes over the row that has a key. -/
def overwrite (key : ρ → ν) (k : ν) (f : ρ → ρ) (rows : List ρ) : List ρ :=
  rows.map fun row => if key row = k then f row else row

variable {key : ρ → ν} {rows : List ρ} {k k' : ν} {row : ρ} {f : ρ → ρ}

theorem mem_of_rowAt (h : rowAt key rows k = some row) : row ∈ rows ∧ key row = k :=
  ⟨List.mem_of_find?_eq_some h, by simpa using List.find?_some h⟩

theorem rowAt_eq_none : rowAt key rows k = none ↔ ∀ row ∈ rows, key row ≠ k := by
  simp [rowAt]

theorem Keyed.rowAt_eq_some (h : Keyed key rows) :
    rowAt key rows k = some row ↔ row ∈ rows ∧ key row = k := by
  refine ⟨mem_of_rowAt, ?_⟩
  rintro ⟨hmem, rfl⟩
  cases hfound : rowAt key rows (key row) with
  | none => exact absurd rfl (rowAt_eq_none.mp hfound row hmem)
  | some other =>
    obtain ⟨hother, hkey⟩ := mem_of_rowAt hfound
    rw [h.eq_of_key hother hmem hkey]

theorem rowAt_cons_self : rowAt key (row :: rows) (key row) = some row :=
  List.find?_cons_of_pos (by simp)

theorem rowAt_cons_of_ne (h : k ≠ key row) : rowAt key (row :: rows) k = rowAt key rows k :=
  List.find?_cons_of_neg (by simpa using h.symm)

theorem Keyed.rowAt_filter (h : Keyed key rows) (p : ρ → Bool) :
    rowAt key (rows.filter p) k = (rowAt key rows k).filter p := by
  cases hfound : rowAt key rows k with
  | none =>
    rw [rowAt_eq_none] at hfound
    exact rowAt_eq_none.mpr fun row hrow => hfound row (List.mem_filter.mp hrow).1
  | some row =>
    obtain ⟨hmem, hkey⟩ := mem_of_rowAt hfound
    cases hp : p row with
    | true =>
      rw [Option.filter_some_pos hp]
      exact (h.filter p).rowAt_eq_some.mpr ⟨List.mem_filter.mpr ⟨hmem, hp⟩, hkey⟩
    | false =>
      rw [Option.filter_some_neg (by simp [hp])]
      refine rowAt_eq_none.mpr fun other hother hother' => ?_
      obtain ⟨hmem', hp'⟩ := List.mem_filter.mp hother
      rw [h.eq_of_key hmem' hmem (hother'.trans hkey.symm), hp] at hp'
      cases hp'

theorem rowAt_map (hf : ∀ row, key (f row) = key row) :
    rowAt key (rows.map f) k = (rowAt key rows k).map f := by
  unfold rowAt
  rw [List.find?_map]
  simp only [Function.comp_def, hf]

theorem mem_overwrite {row' : ρ} : row' ∈ overwrite key k f rows ↔
    ∃ row ∈ rows, (key row = k ∧ row' = f row) ∨ (key row ≠ k ∧ row' = row) := by
  unfold overwrite
  rw [List.mem_map]
  refine exists_congr fun row => and_congr_right fun _ => ?_
  split_ifs with hkey <;> simp [hkey, eq_comm]

/-- What no row is written over in stands. -/
theorem map_overwrite {view : ρ → β} (hview : ∀ row, key row = k → view (f row) = view row) :
    (overwrite key k f rows).map view = rows.map view := by
  unfold overwrite
  rw [List.map_map]
  refine List.map_congr_left fun row _ => ?_
  show view (if key row = k then f row else row) = view row
  split_ifs with hkey
  · exact hview row hkey
  · rfl

theorem Keyed.overwrite {other : ρ → β} (h : Keyed other rows)
    (hf : ∀ row, key row = k → other (f row) = other row) :
    Keyed other (overwrite key k f rows) := by
  unfold Keyed
  rw [map_overwrite hf]
  exact h

theorem rowAt_overwrite (hf : ∀ row, key row = k → key (f row) = key row) :
    rowAt key (overwrite key k f rows) k' =
      if k' = k then (rowAt key rows k').map f else rowAt key rows k' := by
  unfold rowAt overwrite
  rw [List.find?_map]
  have hp : ((fun row => decide (key row = k')) ∘ fun row => if key row = k then f row else row) =
      fun row => decide (key row = k') := by
    funext row
    show decide (key (if key row = k then f row else row) = k') = _
    split_ifs with hkey
    · rw [hf row hkey]
    · rfl
  rw [hp]
  cases hfound : rows.find? fun row => decide (key row = k') with
  | none => simp
  | some row =>
    have hkey : key row = k' := by simpa using List.find?_some hfound
    show some (if key row = k then f row else row) = if k' = k then some (f row) else some row
    rw [hkey]
    split_ifs <;> rfl

theorem rowAt_overwrite_of_ne (hne : k' ≠ k) (hf : ∀ row, key row = k → key (f row) = key row) :
    rowAt key (overwrite key k f rows) k' = rowAt key rows k' := by
  rw [rowAt_overwrite hf, if_neg hne]

/-- Rows that a filter lets through and nothing is written in. -/
theorem filter_map_of_stands {p : ρ → Bool} {g : ρ → ρ} (hp : ∀ row ∈ rows, p (g row) = p row)
    (hg : ∀ row ∈ rows, p row = true → g row = row) :
    (rows.map g).filter p = rows.filter p := by
  have hcongr : rows.filter (p ∘ g) = rows.filter p := List.filter_congr hp
  rw [List.filter_map, hcongr]
  refine (List.map_congr_left fun row hrow => ?_).trans (List.map_id _)
  obtain ⟨hrow, hpass⟩ := List.mem_filter.mp hrow
  exact hg row hrow hpass

end Tables

/-! ### Tables that only grow -/

section Growing

variable {ρ β : Type} {view : ρ → β} {here : ρ → Prop} {rows rows' rows'' : List ρ}

/-- Rows were added and rows were written over, those alone that are meant; each row keeps its place
and what is viewed of it. -/
def Grown (view : ρ → β) (here : ρ → Prop) (rows rows' : List ρ) : Prop :=
  ∃ (f : ρ → ρ) (added : List ρ), rows' = added ++ rows.map f ∧
    (∀ row ∈ rows, view (f row) = view row) ∧ (∀ row ∈ rows, ¬ here row → f row = row) ∧
    ∀ row ∈ added, here row

theorem Grown.refl (rows : List ρ) : Grown view here rows rows :=
  ⟨id, [], by simp, fun _ _ => rfl, fun _ _ _ => rfl, fun _ h => absurd h List.not_mem_nil⟩

theorem Grown.cons {row : ρ} (hrow : here row) (rows : List ρ) :
    Grown view here rows (row :: rows) := by
  refine ⟨id, [row], by simp, fun _ _ => rfl, fun _ _ _ => rfl, fun other hother => ?_⟩
  rw [List.mem_singleton.mp hother]
  exact hrow

theorem Grown.map {f : ρ → ρ} (hview : ∀ row ∈ rows, view (f row) = view row)
    (hstands : ∀ row ∈ rows, ¬ here row → f row = row) : Grown view here rows (rows.map f) :=
  ⟨f, [], by simp, hview, hstands, fun _ h => absurd h List.not_mem_nil⟩

theorem Grown.trans (hhere : ∀ a b, view a = view b → here a → here b)
    (h : Grown view here rows rows') (h' : Grown view here rows' rows'') :
    Grown view here rows rows'' := by
  obtain ⟨f, added, rfl, hview, hstands, hadded⟩ := h
  obtain ⟨g, added', rfl, hview', hstands', hadded'⟩ := h'
  have hmap : ∀ row ∈ rows, f row ∈ added ++ rows.map f := fun row hrow =>
    List.mem_append_right _ (List.mem_map.mpr ⟨row, hrow, rfl⟩)
  refine ⟨g ∘ f, added' ++ added.map g, by simp, fun row hrow => ?_, fun row hrow hnot => ?_,
    fun row hrow => ?_⟩
  · exact (hview' _ (hmap row hrow)).trans (hview row hrow)
  · have hsame := hstands row hrow hnot
    show g (f row) = row
    rw [hstands' _ (hmap row hrow) (by rwa [hsame]), hsame]
  · rcases List.mem_append.mp hrow with hrow | hrow
    · exact hadded' row hrow
    · obtain ⟨old, hold, rfl⟩ := List.mem_map.mp hrow
      exact hhere _ _ (hview' old (List.mem_append_left _ hold)).symm (hadded old hold)

/-- A row that was there is there. -/
theorem Grown.exists_row (h : Grown view here rows rows') {row : ρ} (hrow : row ∈ rows) :
    ∃ row' ∈ rows', view row' = view row := by
  obtain ⟨f, added, rfl, hview, -, -⟩ := h
  exact ⟨f row, List.mem_append_right _ (List.mem_map.mpr ⟨row, hrow, rfl⟩), hview row hrow⟩

/-- The rows that are not meant are as they were. -/
theorem Grown.filter_eq (h : Grown view here rows rows') {p : ρ → Bool}
    (hp : ∀ a b, view a = view b → p a = p b) (hnot : ∀ row, p row = true → ¬ here row) :
    rows'.filter p = rows.filter p := by
  obtain ⟨f, added, rfl, hview, hstands, hadded⟩ := h
  have hnone : added.filter p = [] := List.filter_eq_nil_iff.mpr fun row hrow hpass =>
    hnot row hpass (hadded row hrow)
  rw [List.filter_append, hnone, List.nil_append]
  exact filter_map_of_stands (fun row hrow => hp _ _ (hview row hrow))
    fun row hrow hpass => hstands row hrow (hnot row hpass)

/-- The first row there was stays the first. -/
theorem Grown.getLast? (h : Grown view here rows rows') {p : ρ → Bool} {γ : Type} {g : ρ → γ}
    (hp : ∀ a b, view a = view b → p a = p b) (hg : ∀ a b, view a = view b → g a = g b) {first : γ}
    (hfirst : ((rows.filter p).map g).getLast? = some first) :
    ((rows'.filter p).map g).getLast? = some first := by
  obtain ⟨f, added, rfl, hview, -, -⟩ := h
  have hmap : ((rows.map f).filter p).map g = (rows.filter p).map g := by
    have hcongr : rows.filter (p ∘ f) = rows.filter p :=
      List.filter_congr fun row hrow => hp _ _ (hview row hrow)
    rw [List.filter_map, hcongr, List.map_map]
    refine List.map_congr_left fun row hrow => ?_
    exact hg _ _ (hview row (List.mem_filter.mp hrow).1)
  rw [List.filter_append, List.map_append, hmap, List.getLast?_append, hfirst]
  rfl

end Growing

/-! ### Locking reads of many rows -/

variable {σ L κ ι ε α ν : Type}

/-- `SELECT … FOR SHARE` or `FOR UPDATE` of the rows that match: each is waited for in turn, and a
row that no longer matches then is passed over. -/
def lockRows [DecidableEq ν] (key : ν → L) (m : Mode) (matched : σ → List ν) :
    Prog σ L ι ε (List ν) := do
  let s ← snapshot
  let found := matched s
  found.forM fun row => acquire (key row) m
  let s ← snapshot
  return found.filter (· ∈ matched s)

section Safe

variable {D : Discipline σ L κ} {prompt : L → Prop} {c : Ctx σ L}

theorem safe_lockRows [DecidableEq ν] {key : ν → L} {m : Mode} {matched : σ → List ν}
    {Q : List ν → Ctx σ L → Prop}
    (h : ∀ c' t₁ s₁ t₂ s₂, c.Later c' → (∀ row ∈ matched (c.pending s₁), (key row, m) ∈ c'.held) →
      D.inv t₁ s₁ → c.knows t₁ s₁ → D.inv t₂ s₂ → c.knows t₂ s₂ → D.Rely c.held s₁ s₂ →
      (∀ t' s', c'.knows t' s' → D.Rely c'.held s₂ s') →
      Q ((matched (c.pending s₁)).filter (· ∈ matched (c.pending s₂))) c') :
    Safe D prompt (lockRows key m matched : Prog σ L ι ε (List ν)) Q c := by
  unfold lockRows
  rw [safe_bind, safe_snapshot]
  intro t₁ s₁ hinv₁ hknows₁
  have hseen := (Ctx.Later.refl c).see (D := D) t₁ s₁
  rw [safe_bind]
  refine safe_acquireAll fun c₁ hlater₁ hheld => ?_
  have hlocked := hseen.trans hlater₁
  rw [safe_bind, safe_snapshot]
  intro t₂ s₂ hinv₂ hknows₂
  have hknows := hlater₁.knows t₂ s₂ hknows₂
  rw [safe_pure, hlocked.pending]
  exact h _ t₁ s₁ t₂ s₂ (hlocked.see t₂ s₂) hheld hinv₁ hknows₁ hinv₂ hknows.1 hknows.2.2
    fun t' s' hk => hk.2.2

end Safe

end Txn
