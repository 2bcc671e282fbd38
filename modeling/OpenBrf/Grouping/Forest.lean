import Mathlib.Logic.Relation
import Mathlib.Logic.Function.Iterate
import Mathlib.Data.List.Nodup
import Mathlib.Data.List.Perm.Subperm
import Mathlib.Tactic.Common

/-!
# Grouping.Forest — classes kept as trees of parents

Every item has a parent, a root is its own.  Where every climb ends, two items are in one class if
they climb to one root; joining two classes makes the root of one the parent of the root of the
other.  And where every item points at one other at most, no class holds two that point at none.
-/

namespace Grouping

open Relation

section Climbs

variable {κ : Type} {parent : κ → κ} {k r ra rb : κ}

/-- The climb from an item ends at a root. -/
def EndsAt (parent : κ → κ) (k r : κ) : Prop := parent r = r ∧ ∃ n, parent^[n] k = r

theorem iterate_root (h : parent r = r) : ∀ n, parent^[n] r = r
  | 0 => rfl
  | n + 1 => by rw [Function.iterate_succ_apply, h, iterate_root h n]

theorem EndsAt.iterate_eq (h : EndsAt parent k r) {n m : ℕ} (hn : parent^[n] k = r) (hle : n ≤ m) :
    parent^[m] k = r := by
  obtain ⟨d, rfl⟩ := Nat.exists_eq_add_of_le hle
  rw [Nat.add_comm, Function.iterate_add_apply, hn, iterate_root h.1]

theorem EndsAt.unique (h : EndsAt parent k r) {r' : κ} (h' : EndsAt parent k r') : r = r' := by
  obtain ⟨n, hn⟩ := h.2
  obtain ⟨m, hm⟩ := h'.2
  rcases Nat.le_total n m with hle | hle
  · exact (h.iterate_eq hn hle).symm.trans hm
  · exact hn.symm.trans (h'.iterate_eq hm hle)

theorem EndsAt.of_parent (h : EndsAt parent (parent k) r) : EndsAt parent k r :=
  ⟨h.1, h.2.elim fun n hn => ⟨n + 1, hn⟩⟩

theorem EndsAt.self (h : parent r = r) : EndsAt parent r r := ⟨h, 0, rfl⟩

/-- Climbing on from an item that comes back to itself never ends elsewhere. -/
theorem fixed_of_cycle (h : EndsAt parent k r) {n : ℕ} (hn : 0 < n) (hcycle : parent^[n] k = k) :
    k = r := by
  obtain ⟨m, hm⟩ := h.2
  have hback : ∀ t, parent^[n * t] k = k := by
    intro t
    induction t with
    | zero => rfl
    | succ t ih => rw [Nat.mul_succ, Function.iterate_add_apply, hcycle, ih]
  exact (hback m).symm.trans (h.iterate_eq hm (Nat.le_mul_of_pos_left m hn))

/-- **A climb is no longer than there are items.** -/
theorem EndsAt.within {keys : List κ} (hkeys : ∀ k ∈ keys, parent k ∈ keys) (hk : k ∈ keys)
    (h : EndsAt parent k r) : parent^[keys.length] k = r := by
  by_contra hne
  have hmem : ∀ n, parent^[n] k ∈ keys := by
    intro n
    induction n with
    | zero => exact hk
    | succ n ih =>
      rw [Function.iterate_succ_apply']
      exact hkeys _ ih
  -- no item is met twice, for the climb would never end
  have hdistinct : ((List.range (keys.length + 1)).map fun n => parent^[n] k).Nodup := by
    refine List.Nodup.map_on ?_ List.nodup_range
    have hlt : ∀ n m, n < m → m ≤ keys.length → parent^[n] k ≠ parent^[m] k := by
      intro n m hlt hle heq
      have hend : EndsAt parent (parent^[n] k) r := by
        obtain ⟨d, hd⟩ := h.2
        refine ⟨h.1, d, ?_⟩
        rw [← Function.iterate_add_apply]
        exact h.iterate_eq hd (Nat.le_add_right d n)
      have hcycle : parent^[m - n] (parent^[n] k) = parent^[n] k := by
        rw [← Function.iterate_add_apply, Nat.sub_add_cancel (Nat.le_of_lt hlt), heq]
      have hroot := fixed_of_cycle hend (Nat.sub_pos_of_lt hlt) hcycle
      exact hne (h.iterate_eq hroot (Nat.le_trans (Nat.le_of_lt hlt) hle))
    intro n hn m hm heq
    have hn' := Nat.lt_succ_iff.mp (List.mem_range.mp hn)
    have hm' := Nat.lt_succ_iff.mp (List.mem_range.mp hm)
    rcases Nat.lt_trichotomy n m with hcmp | hcmp | hcmp
    · exact absurd heq (hlt n m hcmp hm')
    · exact hcmp
    · exact absurd heq.symm (hlt m n hcmp hn')
  have hsub : ((List.range (keys.length + 1)).map fun n => parent^[n] k) ⊆ keys := by
    intro x hx
    obtain ⟨n, -, rfl⟩ := List.mem_map.mp hx
    exact hmem n
  have hlen := (List.subperm_of_subset hdistinct hsub).length_le
  rw [List.length_map, List.length_range] at hlen
  omega

variable [DecidableEq κ]

/-- **Joining**: what climbed to the root that is given a parent climbs on to that parent. -/
theorem EndsAt.join (h : EndsAt parent k r) (hra : parent ra = ra) (hrb : parent rb = rb) :
    EndsAt (Function.update parent ra rb) k (if r = ra then rb else r) := by
  have htop : EndsAt (Function.update parent ra rb) r (if r = ra then rb else r) := by
    by_cases hr : r = ra
    · subst hr
      rw [if_pos rfl]
      refine EndsAt.of_parent ?_
      rw [Function.update_self]
      refine EndsAt.self ?_
      by_cases hb : rb = r
      · rw [hb, Function.update_self]
      · rw [Function.update_of_ne hb, hrb]
    · rw [if_neg hr]
      refine EndsAt.self ?_
      rw [Function.update_of_ne hr, h.1]
  obtain ⟨n, hn⟩ := h.2
  induction n generalizing k with
  | zero =>
    obtain rfl : k = r := hn
    exact htop
  | succ n ih =>
    by_cases hk : parent k = k
    · obtain rfl : k = r := (EndsAt.self hk).unique h
      exact htop
    · have hne : k ≠ ra := by
        rintro rfl
        exact hk hra
      have hup := ih ⟨h.1, n, hn⟩ hn
      refine EndsAt.of_parent ?_
      rwa [Function.update_of_ne hne]

end Climbs

/-! ### Forests -/

section Forests

variable {κ : Type} {keys : List κ} {parent : κ → κ} {E : κ → κ → Prop}

/-- Trees over the items, one for each class of those that edges link. -/
structure Forest (keys : List κ) (parent : κ → κ) (E : κ → κ → Prop) : Prop where
  keeps : ∀ k ∈ keys, parent k ∈ keys
  ends : ∀ k ∈ keys, ∃ r, EndsAt parent k r
  edges : ∀ a b, E a b → a ∈ keys ∧ b ∈ keys
  roots : ∀ k ∈ keys, ∀ k' ∈ keys,
    parent^[keys.length] k = parent^[keys.length] k' ↔ EqvGen E k k'

theorem Forest.congr {E' : κ → κ → Prop} (h : Forest keys parent E) (hE : ∀ x y, E x y ↔ E' x y) :
    Forest keys parent E' := by
  obtain rfl : E = E' := funext fun x => funext fun y => propext (hE x y)
  exact h

/-- Before any class is joined, every item is a root. -/
theorem Forest.start (h : ∀ k ∈ keys, parent k = k) : Forest keys parent fun _ _ => False := by
  refine ⟨fun k hk => (h k hk).symm ▸ hk, fun k hk => ⟨k, .self (h k hk)⟩, nofun, ?_⟩
  intro k hk k' hk'
  rw [iterate_root (h k hk), iterate_root (h k' hk')]
  refine ⟨fun heq => heq ▸ .refl k, fun hlinked => ?_⟩
  clear hk hk'
  induction hlinked with
  | rel _ _ hedge => exact hedge.elim
  | refl _ => rfl
  | symm _ _ _ ih => exact ih.symm
  | trans _ _ _ _ _ ih ih' => exact ih.trans ih'

theorem Forest.top (h : Forest keys parent E) {k : κ} (hk : k ∈ keys) :
    EndsAt parent k (parent^[keys.length] k) := by
  obtain ⟨r, hr⟩ := h.ends k hk
  rwa [hr.within h.keeps hk]

theorem Forest.top_mem (h : Forest keys parent E) {k : κ} (hk : k ∈ keys) (n : ℕ) :
    parent^[n] k ∈ keys := by
  induction n with
  | zero => exact hk
  | succ n ih =>
    rw [Function.iterate_succ_apply']
    exact h.keeps _ ih

/-- **An edge joins the classes of its ends.** -/
theorem Forest.join [DecidableEq κ] (h : Forest keys parent E) {a b : κ} (ha : a ∈ keys) (hb : b ∈ keys) :
    Forest keys (Function.update parent (parent^[keys.length] a) (parent^[keys.length] b))
      fun x y => E x y ∨ x = a ∧ y = b := by
  have htopa := h.top ha
  have htopb := h.top hb
  have hends : ∀ {k}, k ∈ keys → EndsAt
      (Function.update parent (parent^[keys.length] a) (parent^[keys.length] b)) k
      (if parent^[keys.length] k = parent^[keys.length] a then parent^[keys.length] b
        else parent^[keys.length] k) :=
    fun hk => (h.top hk).join htopa.1 htopb.1
  have hkeeps : ∀ k ∈ keys,
      Function.update parent (parent^[keys.length] a) (parent^[keys.length] b) k ∈ keys := by
    intro k hk
    by_cases heq : k = parent^[keys.length] a
    · rw [heq, Function.update_self]
      exact h.top_mem hb _
    · rw [Function.update_of_ne heq]
      exact h.keeps k hk
  refine ⟨hkeeps, fun k hk => ⟨_, hends hk⟩, ?_, ?_⟩
  · rintro x y (hedge | ⟨rfl, rfl⟩)
    · exact h.edges x y hedge
    · exact ⟨ha, hb⟩
  · have hab : EqvGen (fun x y => E x y ∨ x = a ∧ y = b) a b := .rel _ _ (.inr ⟨rfl, rfl⟩)
    have hold : ∀ {k k'}, k ∈ keys → k' ∈ keys →
        parent^[keys.length] k = parent^[keys.length] k' →
        EqvGen (fun x y => E x y ∨ x = a ∧ y = b) k k' :=
      fun hk hk' heq => ((h.roots _ hk _ hk').mp heq).mono fun _ _ => .inl
    have htop : ∀ {k}, k ∈ keys →
        (Function.update parent (parent^[keys.length] a) (parent^[keys.length] b))^[keys.length] k =
          if parent^[keys.length] k = parent^[keys.length] a then parent^[keys.length] b
          else parent^[keys.length] k :=
      fun hk => (hends hk).within hkeeps hk
    intro k hk k' hk'
    constructor
    · intro heq
      rw [htop hk, htop hk'] at heq
      by_cases hka : parent^[keys.length] k = parent^[keys.length] a
      · rw [if_pos hka] at heq
        by_cases hka' : parent^[keys.length] k' = parent^[keys.length] a
        · exact hold hk hk' (hka.trans hka'.symm)
        · rw [if_neg hka'] at heq
          exact (hold hk ha hka).trans _ _ _ (hab.trans _ _ _ (hold hb hk' heq))
      · rw [if_neg hka] at heq
        by_cases hka' : parent^[keys.length] k' = parent^[keys.length] a
        · rw [if_pos hka'] at heq
          exact (hold hk hb heq).trans _ _ _ (hab.symm.trans _ _ _ (hold ha hk' hka'.symm))
        · rw [if_neg hka'] at heq
          exact hold hk hk' heq
    · intro hlinked
      clear hk hk'
      induction hlinked with
      | rel x y hedge =>
        rcases hedge with hedge | ⟨rfl, rfl⟩
        · obtain ⟨hx, hy⟩ := h.edges x y hedge
          rw [htop hx, htop hy, (h.roots x hx y hy).mpr (.rel _ _ hedge)]
        · rw [htop ha, htop hb, if_pos rfl]
          by_cases hba : parent^[keys.length] y = parent^[keys.length] x
          · rw [if_pos hba]
          · rw [if_neg hba]
      | refl _ => rfl
      | symm _ _ _ ih => exact ih.symm
      | trans _ _ _ _ _ ih ih' => exact ih.trans ih'

end Forests

/-! ### Components -/

section Components

variable {α : Type} {r : α → α → Prop} {items items' : List α} {groups groups' : List (List α)}

/-- The classes of the items, each listed once. -/
structure Components (r : α → α → Prop) (items : List α) (groups : List (List α)) : Prop where
  once : groups.flatten.Perm items
  inhabited : ∀ group ∈ groups, group ≠ []
  linked : ∀ group ∈ groups, ∀ a ∈ group, ∀ b ∈ items, b ∈ group ↔ EqvGen r a b

theorem Components.mem (h : Components r items groups) {group : List α} (hgroup : group ∈ groups)
    {a : α} (ha : a ∈ group) : a ∈ items :=
  h.once.mem_iff.mp (List.mem_flatten.mpr ⟨group, hgroup, ha⟩)

theorem Components.exists_group (h : Components r items groups) {a : α} (ha : a ∈ items) :
    ∃ group ∈ groups, a ∈ group :=
  List.mem_flatten.mp (h.once.mem_iff.mpr ha)

theorem Components.perm (h : Components r items groups) (hperm : items.Perm items') :
    Components r items' groups :=
  ⟨h.once.trans hperm, h.inhabited, fun group hgroup a ha b hb =>
    h.linked group hgroup a ha b (hperm.mem_iff.mpr hb)⟩

/-- An item's group is the same, up to order, wherever the components were listed. -/
theorem Components.group_perm (h : Components r items groups) (h' : Components r items groups')
    (hnodup : items.Nodup) {group group' : List α} (hgroup : group ∈ groups)
    (hgroup' : group' ∈ groups') {a : α} (ha : a ∈ group) (ha' : a ∈ group') :
    group.Perm group' := by
  have hflat := List.nodup_flatten.mp (h.once.nodup_iff.mpr hnodup)
  have hflat' := List.nodup_flatten.mp (h'.once.nodup_iff.mpr hnodup)
  refine (List.perm_ext_iff_of_nodup (hflat.1 _ hgroup) (hflat'.1 _ hgroup')).mpr fun b => ?_
  constructor
  · intro hb
    have hitem := h.mem hgroup hb
    exact (h'.linked _ hgroup' a ha' b hitem).mpr ((h.linked _ hgroup a ha b hitem).mp hb)
  · intro hb
    have hitem := h'.mem hgroup' hb
    exact (h.linked _ hgroup a ha b hitem).mpr ((h'.linked _ hgroup' a ha' b hitem).mp hb)

/-- **Buckets** of the items that climb to one root are the components. -/
theorem components_of_buckets {κ : Type} [DecidableEq κ] {key : α → κ} {keys : List κ}
    (hitems : items.Nodup) (hnodup : keys.Nodup) (hkeys : ∀ k, k ∈ keys ↔ ∃ a ∈ items, key a = k)
    (hkey : ∀ a ∈ items, ∀ b ∈ items, key a = key b ↔ EqvGen r a b) :
    Components r items (keys.map fun k => items.filter fun a => key a = k) := by
  refine ⟨?_, ?_, ?_⟩
  · refine (List.perm_ext_iff_of_nodup ?_ hitems).mpr fun a => ?_
    · refine List.nodup_flatten.mpr ⟨?_, ?_⟩
      · intro group hgroup
        obtain ⟨k, -, rfl⟩ := List.mem_map.mp hgroup
        exact hitems.filter _
      · refine List.pairwise_map.mpr (hnodup.imp fun {k k'} hne a ha ha' => hne ?_)
        have hk := of_decide_eq_true (List.mem_filter.mp ha).2
        exact hk.symm.trans (of_decide_eq_true (List.mem_filter.mp ha').2)
    · rw [List.mem_flatten]
      constructor
      · rintro ⟨group, hgroup, ha⟩
        obtain ⟨k, -, rfl⟩ := List.mem_map.mp hgroup
        exact (List.mem_filter.mp ha).1
      · intro ha
        refine ⟨_, List.mem_map.mpr ⟨key a, (hkeys _).mpr ⟨a, ha, rfl⟩, rfl⟩, ?_⟩
        exact List.mem_filter.mpr ⟨ha, decide_eq_true rfl⟩
  · intro group hgroup
    obtain ⟨k, hk, rfl⟩ := List.mem_map.mp hgroup
    obtain ⟨a, ha, hka⟩ := (hkeys k).mp hk
    exact List.ne_nil_of_mem (List.mem_filter.mpr ⟨ha, decide_eq_true hka⟩)
  · intro group hgroup a ha b hb
    obtain ⟨k, -, rfl⟩ := List.mem_map.mp hgroup
    obtain ⟨hitem, hka⟩ := List.mem_filter.mp ha
    rw [← hkey a hitem b hb, List.mem_filter, decide_eq_true_eq, of_decide_eq_true hka]
    exact ⟨fun h => h.2.symm, fun h => ⟨hb, h.symm⟩⟩

end Components

/-! ### Items that point at one other at most -/

section Sinks

variable {α : Type} {r : α → α → Prop}

/-- **One end to a class**: where no item points at two, two linked items that point at none are
one. -/
theorem sink_unique (hone : ∀ a b c, r a b → r a c → b = c) {a b : α} (h : EqvGen r a b)
    (ha : ∀ c, ¬r a c) (hb : ∀ c, ¬r b c) : a = b := by
  have hjoin : Equivalence (Join (ReflTransGen r)) :=
    equivalence_join_reflTransGen fun a b c hab hac =>
      ⟨c, hone a b c hab hac ▸ .refl, .refl⟩
  obtain ⟨c, hac, hbc⟩ : Join (ReflTransGen r) a b :=
    hjoin.eqvGen_iff.mp (h.mono fun _ y hxy => ⟨y, .single hxy, .refl⟩)
  have hstay : ∀ {x}, (∀ c, ¬r x c) → ReflTransGen r x c → x = c := by
    intro x hx hxc
    rcases hxc.cases_head with heq | ⟨d, hxd, -⟩
    · exact heq
    · exact absurd hxd (hx d)
  exact (hstay ha hac).trans (hstay hb hbc).symm

end Sinks

end Grouping
