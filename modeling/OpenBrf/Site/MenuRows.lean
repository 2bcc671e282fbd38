import OpenBrf.Site.MenuWrite

/-!
# Site.MenuRows — the two levels of the menu, and what each write does to them
-/

namespace OpenBrf.Site

open Listing Lang

theorem bind_ok {α β : Type} {x : MenuTx α} {f : α → MenuTx β} {b : β} :
    (x >>= f) = .ok b ↔ ∃ a, x = .ok a ∧ f a = .ok b := by
  cases x with
  | error e =>
    constructor
    · intro h
      cases h
    · rintro ⟨a, ha, -⟩
      cases ha
  | ok a =>
    constructor
    · intro h
      exact ⟨a, rfl, h⟩
    · rintro ⟨a', ha, h⟩
      obtain rfl := Except.ok.inj ha
      exact h

theorem refuseIf_ok {c : Prop} [Decidable c] {e : MenuFailure} {u : Unit} :
    refuseIf c e = .ok u ↔ ¬ c := by
  unfold refuseIf
  split_ifs with h
  · constructor
    · intro h'
      cases h'
    · exact fun h' => absurd h h'
  · exact ⟨fun _ => h, fun _ => rfl⟩

/-- Every entry hangs from nothing, or from an entry that hangs from nothing. -/
def Hung (items : List MenuItem) : Prop :=
  ∀ row ∈ items, ∀ id ∈ row.parentId, ∃ parent ∈ items, parent.id = id ∧ parent.parentId = none

/-- The menu has two levels, and its entries are told apart by their identifiers. -/
structure TwoLevels (items : List MenuItem) : Prop where
  unique : (items.map (·.id)).Nodup
  hung : Hung items

variable {items : List MenuItem}

theorem TwoLevels.eq_of_id (h : TwoLevels items) {a b : MenuItem} (ha : a ∈ items) (hb : b ∈ items)
    (hid : a.id = b.id) : a = b := List.inj_on_of_nodup_map h.unique ha hb hid

/-- What an entry hangs from hangs from nothing. -/
theorem TwoLevels.top_of_parent (h : TwoLevels items) {row parent : MenuItem} (hrow : row ∈ items)
    (hparent : parent ∈ items) (hhangs : row.parentId = some parent.id) : parent.parentId = none := by
  obtain ⟨other, hother, hid, htop⟩ := h.hung row hrow parent.id hhangs
  rw [h.eq_of_id hparent hother hid.symm]
  exact htop

/-! ### What the database deletes -/

theorem cascade_childless : ∀ {n : ℕ} {gone kept : List MenuItem},
    (∀ row ∈ kept, ∀ parent ∈ gone, row.parentId ≠ some parent.id) → cascade n gone kept = kept
  | 0, _, _, _ => rfl
  | n + 1, gone, kept, h => by
    have hnone : kept.filter (fun row => ∃ parent ∈ gone, row.parentId = some parent.id) = [] := by
      refine List.filter_eq_nil_iff.mpr fun row hrow hhangs => ?_
      obtain ⟨parent, hparent, heq⟩ := of_decide_eq_true hhangs
      exact h row hrow parent hparent heq
    have hall : kept.filter (fun row => ¬ ∃ parent ∈ gone, row.parentId = some parent.id) = kept := by
      refine List.filter_eq_self.mpr fun row hrow => decide_eq_true ?_
      rintro ⟨parent, hparent, heq⟩
      exact h row hrow parent hparent heq
    unfold cascade
    rw [hnone, hall]
    exact cascade_childless fun row _ parent hparent => by cases hparent

/-- Whether a row goes with what it hangs from. -/
def HangsUnder (items : List MenuItem) (p : MenuItem → Bool) (row : MenuItem) : Prop :=
  ∃ parent ∈ items, p parent = true ∧ row.parentId = some parent.id

instance (items : List MenuItem) (p : MenuItem → Bool) : DecidablePred (HangsUnder items p) :=
  fun _ => inferInstanceAs (Decidable (∃ parent ∈ items, _))

/-- **A delete** takes the rows and what hangs under them. -/
theorem deleteItems_eq (h : TwoLevels items) (p : MenuItem → Bool) :
    deleteItems items p = items.filter fun row => !p row && decide (¬ HangsUnder items p row) := by
  unfold deleteItems
  match hitems : items with
  | [] => rfl
  | first :: rest =>
    rw [← hitems] at h ⊢
    have hlength : items.length = rest.length + 1 := by rw [hitems, List.length_cons]
    rw [hlength]
    unfold cascade
    rw [cascade_childless]
    · rw [List.filter_filter]
      refine List.filter_congr fun row _ => ?_
      rw [Bool.and_comm]
      congr 1
      refine decide_eq_decide.mpr (not_congr ⟨?_, ?_⟩)
      · rintro ⟨parent, hparent, heq⟩
        obtain ⟨hmem, hp⟩ := List.mem_filter.mp hparent
        exact ⟨parent, hmem, hp, heq⟩
      · rintro ⟨parent, hmem, hp, heq⟩
        exact ⟨parent, List.mem_filter.mpr ⟨hmem, hp⟩, heq⟩
    · -- a row that goes with its parent has nothing under it
      intro row hrow child hchild hhangs
      have hmem := List.mem_of_mem_filter (List.mem_of_mem_filter hrow)
      obtain ⟨hchild, hgoes⟩ := List.mem_filter.mp hchild
      obtain ⟨parent, -, heq⟩ := of_decide_eq_true hgoes
      have htop := h.top_of_parent hmem (List.mem_of_mem_filter hchild) hhangs
      rw [heq] at htop
      cases htop

theorem TwoLevels.deleteItems (h : TwoLevels items) (p : MenuItem → Bool) :
    TwoLevels (deleteItems items p) := by
  rw [deleteItems_eq h]
  refine ⟨h.unique.sublist (List.filter_sublist.map _), fun row hrow id hid => ?_⟩
  obtain ⟨hmem, hkept⟩ := List.mem_filter.mp hrow
  rw [Bool.and_eq_true, decide_eq_true_eq] at hkept
  obtain ⟨parent, hparent, rfl, htop⟩ := h.hung row hmem id hid
  refine ⟨parent, List.mem_filter.mpr ⟨hparent, ?_⟩, rfl, htop⟩
  rw [Bool.and_eq_true, decide_eq_true_eq]
  refine ⟨?_, ?_⟩
  · by_contra hp
    exact hkept.2 ⟨parent, hparent, by simpa using hp, hid⟩
  · rintro ⟨_, _, _, hhangs⟩
    rw [htop] at hhangs
    cases hhangs

/-! ### Where an entry may hang -/

variable {s s' : MenuStore} {urlProtocol : UrlProtocol}

theorem findItem_some {id : String} {row : MenuItem} (h : findItem s id = some row) :
    row ∈ s.items ∧ row.id = id := by
  have hid := List.find?_some h
  exact ⟨List.mem_of_find?_eq_some h, of_decide_eq_true hid⟩

/-- A parent that may be hung from is the one wanted, at the top level, and what moves there has
nothing under it. -/
theorem requirePlaceableParent_ok {parentId movingId p : Option String}
    (h : requirePlaceableParent s parentId movingId = .ok p) : p = parentId ∧ ∀ id ∈ p,
      some id ≠ movingId ∧ (∃ parent ∈ s.items, parent.id = id ∧ parent.parentId = none) ∧
        (movingId ≠ none → ∀ row ∈ s.items, row.parentId ≠ movingId) := by
  unfold requirePlaceableParent at h
  match parentId with
  | none =>
    obtain rfl := Except.ok.inj h
    exact ⟨rfl, fun id hid => by cases hid⟩
  | some wanted =>
    dsimp only at h
    by_cases hself : some wanted = movingId
    · rw [if_pos hself] at h
      cases h
    rw [if_neg hself] at h
    match hfind : findItem s wanted with
    | none =>
      rw [hfind] at h
      cases h
    | some parent =>
      rw [hfind] at h
      dsimp only at h
      split_ifs at h with htop hchildren
      · cases h
      · cases h
      · obtain rfl := Except.ok.inj h
        obtain ⟨hmem, hid⟩ := findItem_some hfind
        refine ⟨rfl, fun id hsome => ?_⟩
        obtain rfl := Option.some.inj hsome
        refine ⟨hself, ⟨parent, hmem, hid, not_not.mp htop⟩, fun hmoving row hrow hhangs => ?_⟩
        exact hchildren ⟨hmoving, row, hrow, hhangs⟩

theorem insert_ok {row : MenuItem} (h : insert s row = .ok s') :
    s' = { s with items := s.items ++ [row] } ∧ ∀ other ∈ s.items, other.id ≠ row.id := by
  unfold insert at h
  obtain ⟨_, hunique, h⟩ := bind_ok.mp h
  have hnot := refuseIf_ok.mp hunique
  exact ⟨(Except.ok.inj h).symm, fun other hother hid => hnot ⟨other, hother, hid⟩⟩

theorem TwoLevels.insert (h : TwoLevels items) {row : MenuItem}
    (hnew : ∀ other ∈ items, other.id ≠ row.id)
    (hparent : ∀ id ∈ row.parentId, ∃ parent ∈ items, parent.id = id ∧ parent.parentId = none) :
    TwoLevels (items ++ [row]) := by
  refine ⟨?_, fun other hother id hid => ?_⟩
  · rw [List.map_append, List.map_singleton]
    refine List.nodup_append.mpr ⟨h.unique, List.nodup_singleton _, ?_⟩
    rintro id hid _ hrow rfl
    obtain ⟨other, hother, hid⟩ := List.mem_map.mp hid
    exact hnew other hother (hid.trans (List.mem_singleton.mp hrow))
  · rcases List.mem_append.mp hother with hother | hother
    · obtain ⟨parent, hmem, heq⟩ := h.hung other hother id hid
      exact ⟨parent, List.mem_append_left _ hmem, heq⟩
    · obtain rfl := List.mem_singleton.mp hother
      obtain ⟨parent, hmem, heq⟩ := hparent id hid
      exact ⟨parent, List.mem_append_left _ hmem, heq⟩

/-! ### Rewriting entries -/

/-- An entry but for where it hangs and its place there. -/
def MenuItem.bare (row : MenuItem) : MenuItem := { row with parentId := none, sortOrder := 0 }

/-- An entry but for its place. -/
def MenuItem.placeless (row : MenuItem) : MenuItem := { row with sortOrder := 0 }

theorem id_of_bare {a b : MenuItem} (h : a.bare = b.bare) : a.id = b.id :=
  show a.bare.id = b.bare.id from congrArg MenuItem.id h

theorem bare_of_placeless {a b : MenuItem} (h : a.placeless = b.placeless) : a.bare = b.bare :=
  show a.placeless.bare = b.placeless.bare from congrArg MenuItem.bare h

theorem parentId_of_placeless {a b : MenuItem} (h : a.placeless = b.placeless) :
    a.parentId = b.parentId :=
  show a.placeless.parentId = b.placeless.parentId from congrArg MenuItem.parentId h

theorem map_map_of_eq {α β : Type} {f : α → β} {g : α → α} (h : ∀ a, f (g a) = f a) (l : List α) :
    (l.map g).map f = l.map f := by
  rw [List.map_map]
  exact List.map_congr_left fun a _ => h a

/-- Entries that hang where they hung. -/
theorem TwoLevels.map (h : TwoLevels items) {g : MenuItem → MenuItem}
    (hg : ∀ row, (g row).placeless = row.placeless) : TwoLevels (items.map g) := by
  refine ⟨?_, fun row' hrow' id hid => ?_⟩
  · rw [map_map_of_eq fun row => id_of_bare (bare_of_placeless (hg row))]
    exact h.unique
  · obtain ⟨row, hrow, rfl⟩ := List.mem_map.mp hrow'
    rw [parentId_of_placeless (hg row)] at hid
    obtain ⟨parent, hparent, rfl, htop⟩ := h.hung row hrow id hid
    refine ⟨g parent, List.mem_map_of_mem hparent, ?_, ?_⟩
    · exact id_of_bare (bare_of_placeless (hg parent))
    · rw [parentId_of_placeless (hg parent)]
      exact htop

/-- An entry hung where it may be. -/
theorem TwoLevels.writeItem (h : TwoLevels items) {id : String} {f : MenuItem → MenuItem}
    {p : Option String} (hid : ∀ row, (f row).id = row.id) (hparent : ∀ row, (f row).parentId = p)
    (hp : ∀ wanted ∈ p, wanted ≠ id ∧
      (∃ parent ∈ items, parent.id = wanted ∧ parent.parentId = none) ∧
        ∀ row ∈ items, row.parentId ≠ some id) : TwoLevels (writeItem items id f) := by
  have hkept : ∀ {row}, row ∈ items → row.id ≠ id → row ∈ Site.writeItem items id f := by
    intro row hrow hne
    exact List.mem_map.mpr ⟨row, hrow, if_neg hne⟩
  refine ⟨?_, fun row' hrow' wanted hwanted => ?_⟩
  · unfold Site.writeItem
    rw [map_map_of_eq fun row => ?_]
    · exact h.unique
    · split_ifs
      · exact hid row
      · rfl
  · obtain ⟨row, hrow, rfl⟩ := List.mem_map.mp hrow'
    split_ifs at hwanted with heq
    · rw [hparent] at hwanted
      obtain ⟨hne, ⟨parent, hmem, rfl, htop⟩, -⟩ := hp wanted hwanted
      exact ⟨parent, hkept hmem hne, rfl, htop⟩
    · obtain ⟨parent, hmem, rfl, htop⟩ := h.hung row hrow wanted hwanted
      by_cases hparentid : parent.id = id
      · refine ⟨f parent, List.mem_map.mpr ⟨parent, hmem, if_pos hparentid⟩, hid parent, ?_⟩
        rw [hparent]
        by_contra hsome
        obtain ⟨target, htarget⟩ := Option.ne_none_iff_exists'.mp hsome
        refine (hp target htarget).2.2 row hrow ?_
        rw [← hparentid]
        exact hwanted
      · exact ⟨parent, hkept hmem hparentid, rfl, htop⟩

/-- Placing a level moves nothing between levels. -/
theorem placeInLevel_eq {parentId : Option String} : ∀ (places : List (String × ℕ))
    (items : List MenuItem), ∃ g : MenuItem → MenuItem, placeInLevel parentId places items =
      items.map g ∧ ∀ row, (g row).placeless = row.placeless
  | [], items => ⟨id, (List.map_id items).symm, fun _ => rfl⟩
  | (id, index) :: rest, items => by
    unfold placeInLevel
    obtain ⟨g, hg, hplaceless⟩ := @placeInLevel_eq parentId rest (items.map fun row : MenuItem =>
      if row.id = id ∧ row.parentId = parentId then { row with sortOrder := index } else row)
    rw [hg, List.map_map]
    refine ⟨_, rfl, fun row => ?_⟩
    rw [Function.comp_apply, hplaceless]
    split_ifs <;> rfl

/-! ### A whole arrangement -/

/-- What placing a list of entries does to each: it hangs where its placement says, and comes after
those placed before it in its level. -/
structure Places (g : MenuItem → MenuItem) (placements : List MenuPlacement)
    (positions : List (Option String × ℕ)) : Prop where
  bare : ∀ row, (g row).bare = row.bare
  other : ∀ row, row.id ∉ placements.map (·.id) → g row = row
  parent : ∀ placement ∈ placements, ∀ row : MenuItem, row.id = placement.id →
    (g row).parentId = placement.parentId
  atLeast : ∀ placement ∈ placements, ∀ row : MenuItem, row.id = placement.id →
    (((getKey placement.parentId positions).getD 0 : ℕ) : Int) ≤ (g row).sortOrder
  order : placements.Pairwise fun first second => first.parentId = second.parentId →
    ∀ row row' : MenuItem, row.id = first.id → row'.id = second.id →
      (g row).sortOrder < (g row').sortOrder

theorem placeAll_eq : ∀ (placements : List MenuPlacement) (positions : List (Option String × ℕ))
    (items : List MenuItem), (placements.map (·.id)).Nodup →
      ∃ g, placeAll placements positions items = items.map g ∧ Places g placements positions
  | [], positions, items, _ => by
    refine ⟨id, (List.map_id items).symm, fun _ => rfl, fun _ _ => rfl, ?_, ?_, .nil⟩
    · intro placement hplacement
      cases hplacement
    · intro placement hplacement
      cases hplacement
  | placement :: rest, positions, items, hnodup => by
    rw [List.map_cons, List.nodup_cons] at hnodup
    obtain ⟨hnew, hnodup⟩ := hnodup
    obtain ⟨place, hplace⟩ : ∃ place, (getKey placement.parentId positions).getD 0 = place :=
      ⟨_, rfl⟩
    obtain ⟨write, hwrite⟩ : ∃ write : MenuItem → MenuItem, write = fun row =>
        if row.id = placement.id then
          { row with parentId := placement.parentId, sortOrder := place } else row := ⟨_, rfl⟩
    obtain ⟨g, hg, hbare, hother, hparent, hleast, horder⟩ :=
      placeAll_eq rest (setKey placement.parentId (place + 1) positions) (items.map write) hnodup
    have hself : ∀ row : MenuItem, row.id = placement.id → g (write row) =
        { row with parentId := placement.parentId, sortOrder := place } := by
      intro row hid
      have hwritten : write row =
          { row with parentId := placement.parentId, sortOrder := place } := by
        rw [hwrite]
        exact if_pos hid
      rw [hwritten, hother]
      show row.id ∉ _
      rw [hid]
      exact hnew
    have hrest : ∀ later ∈ rest, ∀ row : MenuItem, row.id = later.id → write row = row := by
      intro later hlater row hid
      rw [hwrite]
      refine if_neg fun heq => hnew ?_
      rw [← heq, hid]
      exact List.mem_map_of_mem hlater
    refine ⟨g ∘ write, ?_, fun row => ?_, fun row hid => ?_, ?_, ?_, ?_⟩
    · unfold placeAll
      rw [← List.map_map, ← hg, hplace, hwrite]
      rfl
    · show (g (write row)).bare = row.bare
      rw [hbare, hwrite]
      dsimp only
      split_ifs <;> rfl
    · rw [List.map_cons, List.mem_cons, not_or] at hid
      show g (write row) = row
      have hkept : write row = row := by
        rw [hwrite]
        exact if_neg hid.1
      rw [hkept, hother row hid.2]
    · intro other hplacement row hid
      show (g (write row)).parentId = _
      rcases List.mem_cons.mp hplacement with rfl | hlater
      · rw [hself row hid]
      · rw [hrest other hlater row hid]
        exact hparent other hlater row hid
    · intro other hplacement row hid
      show _ ≤ (g (write row)).sortOrder
      rcases List.mem_cons.mp hplacement with rfl | hlater
      · simp [hself row hid, hplace]
      · rw [hrest other hlater row hid]
        have hle := hleast other hlater row hid
        rw [getKey_setKey] at hle
        split_ifs at hle with hsame
        · rw [hsame, hplace]
          rw [Option.getD_some] at hle
          omega
        · exact hle
    · refine List.Pairwise.cons (fun later hlater hsame row row' hid hid' => ?_) ?_
      · show (g (write row)).sortOrder < (g (write row')).sortOrder
        rw [hself row hid, hrest later hlater row' hid']
        have hle := hleast later hlater row' hid'
        rw [getKey_setKey, if_pos hsame.symm, Option.getD_some] at hle
        show (place : Int) < _
        omega
      · refine horder.imp_of_mem fun {first second} hfirst hsecond hlt hsame row row' hid hid' => ?_
        show (g (write row)).sortOrder < (g (write row')).sortOrder
        rw [hrest first hfirst row hid, hrest second hsecond row' hid']
        exact hlt hsame row row' hid hid'

end OpenBrf.Site
