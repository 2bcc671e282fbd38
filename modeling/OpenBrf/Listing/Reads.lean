import Mathlib.Data.List.Nodup
import Mathlib.Data.List.Pairwise

/-!
# Listing.Reads — what an ordered query may answer

A query that orders rows by a key answers the rows in some order of their keys: rows of one key may
come in any order, and in another one the next time.
-/

namespace Listing

variable {α β : Type} {le : α → α → Prop} {items l : List α}

/-- The rows in an order of their keys. -/
structure Reads (le : α → α → Prop) (items l : List α) : Prop where
  perm : l.Perm items
  sorted : l.Pairwise le

namespace Reads

theorem mem (h : Reads le items l) {a : α} : a ∈ l ↔ a ∈ items := h.perm.mem_iff

/-- A part of a reading is a reading of that part. -/
theorem filter (h : Reads le items l) (p : α → Bool) : Reads le (items.filter p) (l.filter p) :=
  ⟨h.perm.filter p, h.sorted.filter p⟩

/-- The rows of the first name are ranked no higher than those of the second. -/
def Ranked (items : List α) (name : α → β) (rank : α → Int) (b b' : β) : Prop :=
  ∀ a ∈ items, ∀ a' ∈ items, name a = b → name a' = b' → rank a ≤ rank a'

/-- The rows of the first name are ranked lower than those of the second. -/
def Below (items : List α) (name : α → β) (rank : α → Int) (b b' : β) : Prop :=
  ∀ a ∈ items, ∀ a' ∈ items, name a = b → name a' = b' → rank a < rank a'

/-- Rows in a strict order of a rank the key respects are read in that order. -/
theorem map_eq {name : α → β} (h : Reads le items l) (rank : α → Int)
    (hrank : ∀ a b, le a b → rank a ≤ rank b) (hunique : (items.map name).Nodup) {names : List β}
    (hnodup : names.Nodup) (hmem : ∀ b, b ∈ names ↔ b ∈ items.map name)
    (hstrict : names.Pairwise (Below items name rank)) : l.map name = names := by
  have hperm : (l.map name).Perm (items.map name) := h.perm.map name
  have hnames : (l.map name).Perm names := by
    refine (List.perm_ext_iff_of_nodup (hperm.nodup_iff.mpr hunique) hnodup).mpr fun b => ?_
    rw [hperm.mem_iff, hmem]
  have hread : (l.map name).Pairwise (Ranked items name rank) := by
    rw [List.pairwise_map]
    refine h.sorted.imp_of_mem fun {a a'} ha ha' hle b hb b' hb' hname hname' => ?_
    obtain rfl := List.inj_on_of_nodup_map hunique hb (h.mem.mp ha) hname
    obtain rfl := List.inj_on_of_nodup_map hunique hb' (h.mem.mp ha') hname'
    exact hrank _ _ hle
  have hranked : names.Pairwise (Ranked items name rank) :=
    hstrict.imp fun hlt a ha a' ha' hname hname' => Int.le_of_lt (hlt a ha a' ha' hname hname')
  -- two names that come before each other are one
  have happart : names.Pairwise fun b b' => ¬ (Ranked items name rank b b' ∧
      Ranked items name rank b' b) := by
    refine hstrict.imp_of_mem fun {b b'} hb hb' hlt hboth => ?_
    obtain ⟨a, ha, rfl⟩ := List.mem_map.mp ((hmem b).mp hb)
    obtain ⟨a', ha', rfl⟩ := List.mem_map.mp ((hmem b').mp hb')
    have hbelow := hlt a ha a' ha' rfl rfl
    have habove := hboth.2 a' ha' a ha rfl rfl
    omega
  have : Std.Symm fun b b' : β => ¬ (Ranked items name rank b b' ∧ Ranked items name rank b' b) :=
    ⟨fun _ _ hnot hboth => hnot hboth.symm⟩
  refine List.Perm.eq_of_pairwise ?_ hread hranked hnames
  intro b b' hb hb' hle hle'
  by_contra hne
  exact happart.forall (hnames.mem_iff.mp hb) hb' hne ⟨hle, hle'⟩

end Reads

/-- Some reading keeps the order of every part of a list that is in order there. -/
theorem exists_reads [DecidableRel le] (htrans : ∀ a b c, le a b → le b c → le a c)
    (htotal : ∀ a b, le a b ∨ le b a) {base : List α} (hperm : base.Perm items) :
    ∃ l, Reads le items l ∧
      ∀ p : α → Bool, (base.filter p).Pairwise le → l.filter p = base.filter p := by
  have htrans' : ∀ a b c : α, decide (le a b) = true → decide (le b c) = true →
      decide (le a c) = true := by
    simpa using htrans
  have htotal' : ∀ a b : α, (decide (le a b) || decide (le b a)) = true := by simpa using htotal
  refine ⟨base.mergeSort fun a b => decide (le a b), ⟨?_, ?_⟩, fun p hp => ?_⟩
  · exact (List.mergeSort_perm ..).trans hperm
  · exact (List.pairwise_mergeSort htrans' htotal' base).imp of_decide_eq_true
  · have hsub := List.sublist_mergeSort htrans' htotal'
      (hp.imp fun h => decide_eq_true h) (List.filter_sublist (p := p) (l := base))
    have hfilter := hsub.filter p
    rw [List.filter_filter] at hfilter
    simp only [Bool.and_self] at hfilter
    exact (hfilter.eq_of_length ((List.mergeSort_perm ..).filter p).length_eq.symm).symm

/-! ### The part of a list a condition keeps -/

theorem flatMap_filterMap {γ : Type*} (f : α → Option β) (g : β → List γ) :
    ∀ l : List α, (l.filterMap f).flatMap g = l.flatMap fun a => ((f a).map g).getD []
  | [] => rfl
  | a :: l => by
    cases h : f a with
    | none => simp [h, flatMap_filterMap f g l]
    | some b => simp [h, flatMap_filterMap f g l]

theorem flatMap_filter (p : α → Bool) (g : α → List β) :
    ∀ l : List α, (l.filter p).flatMap g = l.flatMap fun a => if p a then g a else []
  | [] => rfl
  | a :: l => by
    cases h : p a with
    | false => simp [h, flatMap_filter p g l]
    | true => simp [h, flatMap_filter p g l]

theorem map_some_filterMap (f : α → Option β) :
    ∀ l : List α, (l.filterMap f).map some = (l.filter fun a => (f a).isSome).map f
  | [] => rfl
  | a :: l => by
    cases h : f a with
    | none => simp [h, map_some_filterMap f l]
    | some b => simp [h, map_some_filterMap f l]

end Listing
