import Mathlib.Data.List.Lex
import OpenBrf.Lang

/-!
# Lang.Sorting — `Array.prototype.toSorted` of strings

Strings are ordered by their UTF-16 code units.
-/

namespace OpenBrf.Lang

/-- The UTF-16 code units of a character. -/
def utf16Of (c : Char) : List ℕ :=
  if c.toNat < 0x10000 then [c.toNat]
  else [0xD800 + (c.toNat - 0x10000) / 0x400, 0xDC00 + (c.toNat - 0x10000) % 0x400]

/-- The UTF-16 code units of a string. -/
def utf16 (s : String) : List ℕ := s.toList.flatMap utf16Of

/-- `Array.prototype.toSorted`, with no comparison given. -/
def toSorted (values : List String) : List String :=
  values.mergeSort fun a b => decide (utf16 a ≤ utf16 b)

theorem toNat_valid (c : Char) : c.toNat < 0xD800 ∨ 0xDFFF < c.toNat ∧ c.toNat < 0x110000 := c.valid

theorem utf16Of_append_inj {c d : Char} {rest rest' : List ℕ}
    (h : utf16Of c ++ rest = utf16Of d ++ rest') : c = d ∧ rest = rest' := by
  have hc := toNat_valid c
  have hd := toNat_valid d
  unfold utf16Of at h
  rw [← Char.toNat_inj]
  by_cases hlow : c.toNat < 0x10000
  · by_cases hlow' : d.toNat < 0x10000
    · rw [if_pos hlow, if_pos hlow'] at h
      exact List.cons.inj h
    · rw [if_pos hlow, if_neg hlow'] at h
      have hunit := (List.cons.inj h).1
      omega
  · by_cases hlow' : d.toNat < 0x10000
    · rw [if_neg hlow, if_pos hlow'] at h
      have hunit := (List.cons.inj h).1
      omega
    · rw [if_neg hlow, if_neg hlow'] at h
      obtain ⟨hlead, h⟩ := List.cons.inj h
      obtain ⟨htrail, hrest⟩ := List.cons.inj h
      refine ⟨?_, hrest⟩
      have hquot : (c.toNat - 0x10000) / 0x400 = (d.toNat - 0x10000) / 0x400 := by omega
      have hrem : (c.toNat - 0x10000) % 0x400 = (d.toNat - 0x10000) % 0x400 := by omega
      omega

theorem utf16_inj {s t : String} (h : utf16 s = utf16 t) : s = t := by
  have hne : ∀ c, utf16Of c ≠ [] := by
    intro c
    unfold utf16Of
    split <;> exact List.cons_ne_nil _ _
  have hlist : ∀ cs ds : List Char, cs.flatMap utf16Of = ds.flatMap utf16Of → cs = ds := by
    intro cs
    induction cs with
    | nil =>
      intro ds h
      cases ds with
      | nil => rfl
      | cons d ds => exact absurd (List.append_eq_nil_iff.mp h.symm).1 (hne d)
    | cons c cs ih =>
      intro ds h
      cases ds with
      | nil => exact absurd (List.append_eq_nil_iff.mp h).1 (hne c)
      | cons d ds =>
        obtain ⟨rfl, hrest⟩ := utf16Of_append_inj h
        rw [ih ds hrest]
  exact String.toList_inj.mp (hlist _ _ h)

/-- **Sorting forgets the order** the strings came in. -/
theorem toSorted_perm {values values' : List String} (h : values.Perm values') :
    toSorted values = toSorted values' := by
  have hsorted : ∀ values : List String,
      (toSorted values).Pairwise fun a b => utf16 a ≤ utf16 b := by
    intro values
    refine (List.pairwise_mergeSort ?_ ?_ values).imp fun hle => of_decide_eq_true hle
    · intro a b c hab hbc
      exact decide_eq_true (le_trans (of_decide_eq_true hab) (of_decide_eq_true hbc))
    · intro a b
      rcases le_total (utf16 a) (utf16 b) with hle | hle
      · simp [hle]
      · simp [hle]
  refine List.Perm.eq_of_pairwise ?_ (hsorted values) (hsorted values') ?_
  · intro a b _ _ hab hba
    exact utf16_inj (le_antisymm hab hba)
  · exact ((List.mergeSort_perm values _).trans h).trans (List.mergeSort_perm values' _).symm

theorem mem_toSorted {values : List String} {value : String} :
    value ∈ toSorted values ↔ value ∈ values := (List.mergeSort_perm _ _).mem_iff

theorem length_toSorted (values : List String) : (toSorted values).length = values.length :=
  (List.mergeSort_perm values _).length_eq

end OpenBrf.Lang
