import Mathlib.Logic.Relation
import Mathlib.Tactic.Common

/-!
# Grouping.Components — items grouped by the keys they share

Two items that hold one key belong together, and so do the ends of a chain of such items.  Blocks
that keep to this are the connected components; adding an item merges the blocks that hold one of
its keys.
-/

namespace Grouping

variable {α κ β : Type}

/-- Two items hold one key. -/
def Shares (held : α → κ → Prop) (p q : α) : Prop := ∃ k, held p k ∧ held q k

/-- The ends of a chain of items that share keys. -/
def Linked (held : α → κ → Prop) : α → α → Prop := Relation.ReflTransGen (Shares held)

variable {held held' : α → κ → Prop}

theorem Shares.symm {p q : α} (h : Shares held p q) : Shares held q p :=
  h.imp fun _ hk => ⟨hk.2, hk.1⟩

theorem Linked.symm {p q : α} (h : Linked held p q) : Linked held q p := by
  induction h with
  | refl => exact .refl
  | tail _ hshares ih => exact .head hshares.symm ih

theorem Linked.trans {p q r : α} (h : Linked held p q) (h' : Linked held q r) : Linked held p r :=
  Relation.ReflTransGen.trans h h'

theorem Linked.of_key {p q : α} {k : κ} (hp : held p k) (hq : held q k) : Linked held p q :=
  .single ⟨k, hp, hq⟩

theorem Linked.mono (h : ∀ p k, held p k → held' p k) {p q : α} (hlinked : Linked held p q) :
    Linked held' p q := by
  induction hlinked with
  | refl => exact .refl
  | tail _ hshares ih => exact .tail ih (hshares.imp fun k hk => ⟨h _ k hk.1, h _ k hk.2⟩)

/-! ### Blocks -/

/-- Blocks of items, by the items and the keys of each: every item is in one, no item and no key is
in two, and the items of one are linked. -/
structure Blocks (item : α → Prop) (held : α → κ → Prop) (items : β → α → Prop)
    (keys : β → κ → Prop) (blocks : β → Prop) : Prop where
  covers : ∀ p, item p → ∃ b, blocks b ∧ items b p
  sound : ∀ b, blocks b → ∀ p, items b p → item p
  apart : ∀ b, blocks b → ∀ b', blocks b' → ∀ p, items b p → items b' p → b = b'
  keys_iff : ∀ b, blocks b → ∀ k, keys b k ↔ ∃ p, items b p ∧ held p k
  keys_apart : ∀ b, blocks b → ∀ b', blocks b' → ∀ k, keys b k → keys b' k → b = b'
  linked : ∀ b, blocks b → ∀ p, items b p → ∀ q, items b q → Linked held p q

section Blocks

variable {item : α → Prop} {items : β → α → Prop} {keys : β → κ → Prop} {blocks blocks' : β → Prop}

theorem Blocks.congr {item' : α → Prop} (h : Blocks item held items keys blocks)
    (hitem : ∀ p, item p ↔ item' p) (hheld : ∀ p k, held p k ↔ held' p k) :
    Blocks item' held' items keys blocks := by
  obtain rfl : item = item' := funext fun p => propext (hitem p)
  obtain rfl : held = held' := funext fun p => funext fun k => propext (hheld p k)
  exact h

/-- **Blocks are components**: an item's block holds the items it is linked to. -/
theorem Blocks.items_iff (h : Blocks item held items keys blocks)
    (hheld : ∀ p k, held p k → item p) {b : β} (hb : blocks b) {p : α} (hp : items b p) (q : α) :
    items b q ↔ Linked held p q := by
  refine ⟨h.linked b hb p hp q, fun hlinked => ?_⟩
  induction hlinked with
  | refl => exact hp
  | tail _ hshares ih =>
    obtain ⟨k, hk, hk'⟩ := hshares
    obtain ⟨b', hb', hitem⟩ := h.covers _ (hheld _ k hk')
    have hsame : b = b' := h.keys_apart b hb b' hb' k ((h.keys_iff b hb k).mpr ⟨_, ih, hk⟩)
      ((h.keys_iff b' hb' k).mpr ⟨_, hitem, hk'⟩)
    rwa [hsame]

/-- An item that holds no key is alone. -/
theorem Blocks.alone (h : Blocks item held items keys blocks) (hheld : ∀ p k, held p k → item p)
    {b : β} (hb : blocks b) {p : α} (hp : items b p) (hnone : ∀ k, ¬held p k) {q : α}
    (hq : items b q) : q = p := by
  have hlinked := (h.items_iff hheld hb hp q).mp hq
  obtain rfl | ⟨r, ⟨k, hk, -⟩, -⟩ := Relation.ReflTransGen.cases_head hlinked
  · rfl
  · exact absurd hk (hnone k)

/-- **Adding an item**: the blocks that hold one of its keys become one with it. -/
theorem Blocks.absorb (h : Blocks item held items keys blocks) {m : α} {ks : κ → Prop} {merged : β}
    (hnew : ¬item m) (hheld : ∀ p k, held p k → item p)
    (hblocks : ∀ b, blocks' b ↔ b = merged ∨ blocks b ∧ ∀ k, keys b k → ¬ks k)
    (hitems : ∀ p, items merged p ↔ p = m ∨ ∃ b, blocks b ∧ (∃ k, keys b k ∧ ks k) ∧ items b p)
    (hkeys : ∀ k, keys merged k ↔ ks k ∨ ∃ b, blocks b ∧ (∃ k, keys b k ∧ ks k) ∧ keys b k) :
    Blocks (fun p => p = m ∨ item p) (fun p k => held p k ∨ p = m ∧ ks k) items keys blocks' := by
  -- a block that is left holds no item of the merged one
  have hother : ∀ b, blocks b → (∀ k, keys b k → ¬ks k) → ∀ p, items b p → ¬items merged p := by
    intro b hb hfree p hp hmem
    obtain rfl | ⟨b', hb', ⟨k, hk, hks⟩, hp'⟩ := (hitems p).mp hmem
    · exact hnew (h.sound b hb _ hp)
    · obtain rfl := h.apart b hb b' hb' p hp hp'
      exact hfree k hk hks
  have hotherKey : ∀ b, blocks b → (∀ k, keys b k → ¬ks k) → ∀ k, keys b k → ¬keys merged k := by
    intro b hb hfree k hk hmem
    obtain hks | ⟨b', hb', ⟨k', hk', hks⟩, hkey⟩ := (hkeys k).mp hmem
    · exact hfree k hk hks
    · obtain rfl := h.keys_apart b hb b' hb' k hk hkey
      exact hfree k' hk' hks
  refine ⟨?_, ?_, ?_, ?_, ?_, ?_⟩
  · rintro p (rfl | hp)
    · exact ⟨merged, (hblocks _).mpr (.inl rfl), (hitems _).mpr (.inl rfl)⟩
    · obtain ⟨b, hb, hbp⟩ := h.covers p hp
      by_cases hmeets : ∃ k, keys b k ∧ ks k
      · exact ⟨merged, (hblocks _).mpr (.inl rfl), (hitems p).mpr (.inr ⟨b, hb, hmeets, hbp⟩)⟩
      · exact ⟨b, (hblocks b).mpr (.inr ⟨hb, fun k hk hks => hmeets ⟨k, hk, hks⟩⟩), hbp⟩
  · intro b hb p hp
    obtain rfl | ⟨hb, -⟩ := (hblocks b).mp hb
    · exact ((hitems p).mp hp).imp_right fun ⟨b', hb', _, hp'⟩ => h.sound b' hb' p hp'
    · exact .inr (h.sound b hb p hp)
  · intro b hb b' hb' p hp hp'
    obtain rfl | ⟨hb, hfree⟩ := (hblocks b).mp hb
    · obtain rfl | ⟨hb', hfree'⟩ := (hblocks b').mp hb'
      · rfl
      · exact absurd hp (hother b' hb' hfree' p hp')
    · obtain rfl | ⟨hb', -⟩ := (hblocks b').mp hb'
      · exact absurd hp' (hother b hb hfree p hp)
      · exact h.apart b hb b' hb' p hp hp'
  · intro b hb k
    obtain rfl | ⟨hb, -⟩ := (hblocks b).mp hb
    · rw [hkeys]
      constructor
      · rintro (hks | ⟨b', hb', hmeets, hk⟩)
        · exact ⟨m, (hitems m).mpr (.inl rfl), .inr ⟨rfl, hks⟩⟩
        · obtain ⟨p, hp, hpk⟩ := (h.keys_iff b' hb' k).mp hk
          exact ⟨p, (hitems p).mpr (.inr ⟨b', hb', hmeets, hp⟩), .inl hpk⟩
      · rintro ⟨p, hp, hpk | ⟨rfl, hks⟩⟩
        · obtain rfl | ⟨b', hb', hmeets, hp'⟩ := (hitems p).mp hp
          · exact absurd (hheld _ k hpk) hnew
          · exact .inr ⟨b', hb', hmeets, (h.keys_iff b' hb' k).mpr ⟨p, hp', hpk⟩⟩
        · exact .inl hks
    · rw [h.keys_iff b hb k]
      constructor
      · rintro ⟨p, hp, hpk⟩
        exact ⟨p, hp, .inl hpk⟩
      · rintro ⟨p, hp, hpk | ⟨rfl, -⟩⟩
        · exact ⟨p, hp, hpk⟩
        · exact absurd (h.sound b hb _ hp) hnew
  · intro b hb b' hb' k hk hk'
    obtain rfl | ⟨hb, hfree⟩ := (hblocks b).mp hb
    · obtain rfl | ⟨hb', hfree'⟩ := (hblocks b').mp hb'
      · rfl
      · exact absurd hk (hotherKey b' hb' hfree' k hk')
    · obtain rfl | ⟨hb', -⟩ := (hblocks b').mp hb'
      · exact absurd hk' (hotherKey b hb hfree k hk)
      · exact h.keys_apart b hb b' hb' k hk hk'
  · have hmono : ∀ {p q}, Linked held p q → Linked (fun p k => held p k ∨ p = m ∧ ks k) p q :=
      fun hlinked => hlinked.mono fun _ _ hk => .inl hk
    intro b hb
    obtain rfl | ⟨hb, -⟩ := (hblocks b).mp hb
    · -- every item of the merged block is linked to the one that is added
      have hcentre : ∀ p, items b p → Linked (fun p k => held p k ∨ p = m ∧ ks k) p m := by
        intro p hp
        obtain rfl | ⟨b', hb', ⟨k, hk, hks⟩, hp'⟩ := (hitems p).mp hp
        · exact .refl
        · obtain ⟨q, hq, hqk⟩ := (h.keys_iff b' hb' k).mp hk
          exact (hmono (h.linked b' hb' p hp' q hq)).trans (.of_key (.inl hqk) (.inr ⟨rfl, hks⟩))
      exact fun p hp q hq => (hcentre p hp).trans (hcentre q hq).symm
    · exact fun p hp q hq => hmono (h.linked b hb p hp q hq)

end Blocks

end Grouping
