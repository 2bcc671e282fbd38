import Mathlib.Data.List.Dedup
import Mathlib.Data.List.Perm.Subperm
import OpenBrf.Site.MenuRows

/-!
# Site.MenuEffects — what the writes leave of the menu

Each write keeps the two levels.  An arrangement leaves what was asked for, and taking a page out
keeps the reading order of what remains.
-/

namespace OpenBrf.Site

open Listing Lang

variable {s s' : MenuStore} {urlProtocol : UrlProtocol}

/-! ### One entry -/

theorem create_twoLevels (h : TwoLevels s.items) {input : MenuItemInput} {id : String}
    {createdAt : Int} (hok : create urlProtocol s input id createdAt = .ok s') :
    TwoLevels s'.items := by
  unfold create at hok
  obtain ⟨parentId, hparent, hok⟩ := bind_ok.mp hok
  obtain ⟨target, -, hok⟩ := bind_ok.mp hok
  obtain ⟨rfl, hnew⟩ := insert_ok hok
  obtain ⟨-, hplaceable⟩ := requirePlaceableParent_ok hparent
  exact h.insert hnew fun wanted hwanted => (hplaceable wanted hwanted).2.1

theorem update_twoLevels (h : TwoLevels s.items) {input : MenuItemInput} {id : String}
    (hok : update urlProtocol s id input = .ok s') : TwoLevels s'.items := by
  unfold update at hok
  match hfind : findItem s id with
  | none =>
    rw [hfind] at hok
    cases hok
  | some existing =>
    rw [hfind] at hok
    obtain ⟨-, rfl⟩ := findItem_some hfind
    obtain ⟨parentId, hparent, hok⟩ := bind_ok.mp hok
    obtain ⟨target, -, hok⟩ := bind_ok.mp hok
    obtain rfl := Except.ok.inj hok
    obtain ⟨-, hplaceable⟩ := requirePlaceableParent_ok hparent
    refine h.writeItem (fun _ => rfl) (fun _ => rfl) fun wanted hwanted => ?_
    obtain ⟨hne, hmem, hchildless⟩ := hplaceable wanted hwanted
    refine ⟨fun heq => hne (congrArg some heq), hmem, hchildless ?_⟩
    exact Option.some_ne_none _

theorem showPage_twoLevels (h : TwoLevels s.items) {pageId id : String} {createdAt : Int}
    (hok : showPage s pageId id createdAt = .ok s') : TwoLevels s'.items := by
  unfold showPage at hok
  match hfind : findPage s pageId with
  | none =>
    rw [hfind] at hok
    cases hok
  | some page =>
    rw [hfind] at hok
    dsimp only at hok
    split_ifs at hok with hthere
    · obtain rfl := Except.ok.inj hok
      exact h
    · obtain ⟨rfl, hnew⟩ := insert_ok hok
      refine h.insert hnew fun wanted hwanted => ?_
      cases hwanted

theorem remove_twoLevels (h : TwoLevels s.items) {id : String} (hok : remove s id = .ok s') :
    TwoLevels s'.items := by
  unfold remove at hok
  match hfind : findItem s id with
  | none =>
    rw [hfind] at hok
    cases hok
  | some existing =>
    rw [hfind] at hok
    obtain rfl := Except.ok.inj hok
    exact h.deleteItems _

theorem removePage_twoLevels (h : TwoLevels s.items) {page : MenuPage} {revision : Option ℕ}
    (hok : removePage s page revision = .ok s') : TwoLevels s'.items := by
  unfold removePage at hok
  obtain ⟨_, -, hok⟩ := bind_ok.mp hok
  obtain ⟨_, -, hok⟩ := bind_ok.mp hok
  obtain ⟨_, -, hok⟩ := bind_ok.mp hok
  obtain rfl := Except.ok.inj hok
  exact h.deleteItems _

/-! ### One level -/

/-- **A reorder** moves no entry between levels, and changes nothing else. -/
theorem reorder_ok {parentId : Option String} {ids : List String}
    (hok : reorder s parentId ids = .ok s') :
    s'.pages = s.pages ∧ s'.items.map MenuItem.placeless = s.items.map MenuItem.placeless := by
  unfold reorder at hok
  obtain rfl := Except.ok.inj hok
  obtain ⟨g, hg, hplaceless⟩ := @placeInLevel_eq parentId ids.zipIdx s.items
  refine ⟨rfl, ?_⟩
  dsimp only
  rw [hg]
  exact map_map_of_eq hplaceless _

theorem reorder_twoLevels (h : TwoLevels s.items) {parentId : Option String} {ids : List String}
    (hok : reorder s parentId ids = .ok s') : TwoLevels s'.items := by
  unfold reorder at hok
  obtain rfl := Except.ok.inj hok
  obtain ⟨g, hg, hplaceless⟩ := @placeInLevel_eq parentId ids.zipIdx s.items
  dsimp only
  rw [hg]
  exact h.map hplaceless

/-! ### The whole menu -/

/-- The identifiers a level reads, in order. -/
def levelIds (l : List MenuItem) (level : Option String) : List String :=
  (l.filter fun row => row.parentId = level).map (·.id)

theorem namesMenu_perm {placements : List MenuPlacement}
    (hnames : namesMenu s placements) :
    (placements.map (·.id)).Nodup ∧ (placements.map (·.id)).Perm (s.items.map (·.id)) := by
  obtain ⟨⟨hlength, hcount⟩, hknown⟩ := hnames
  have hdedup : (placements.map (·.id)).dedup = placements.map (·.id) :=
    (List.dedup_sublist _).eq_of_length (by rw [hlength, List.length_map])
  have hnodup : (placements.map (·.id)).Nodup := List.dedup_eq_self.mp hdedup
  refine ⟨hnodup, ?_⟩
  have hsub : (placements.map (·.id)).Subperm (s.items.map (·.id)) := by
    refine List.subperm_of_subset hnodup fun id hid => ?_
    obtain ⟨placement, hplacement, rfl⟩ := List.mem_map.mp hid
    exact hknown placement hplacement
  refine hsub.perm_of_length_le ?_
  rw [List.length_map, List.length_map]
  omega

/-- **An arrangement that is not refused** leaves the order and the parents it asks for. -/
theorem arrange_ok (h : TwoLevels s.items) {placements : List MenuPlacement}
    (hok : arrange s placements = .ok s') :
    TwoLevels s'.items ∧ (s'.pages = s.pages ∧
      s'.items.map MenuItem.bare = s.items.map MenuItem.bare) ∧
      (placements.map (·.id)).Perm (s'.items.map (·.id)) ∧
      (∀ placement ∈ placements, ∀ row ∈ s'.items, row.id = placement.id →
        row.parentId = placement.parentId) ∧
      ∀ l, Reads InOrder s'.items l → ∀ level, levelIds l level =
        (placements.filter fun placement => placement.parentId = level).map (·.id) := by
  unfold arrange at hok
  obtain ⟨_, hnames, hok⟩ := bind_ok.mp hok
  obtain ⟨_, hnested, hok⟩ := bind_ok.mp hok
  obtain ⟨hnodup, hperm⟩ := namesMenu_perm (not_not.mp (refuseIf_ok.mp hnames))
  have htop := refuseIf_ok.mp hnested
  obtain rfl := Except.ok.inj hok
  obtain ⟨g, hg, hbare, -, hparent, -, horder⟩ := placeAll_eq placements [] s.items hnodup
  dsimp only
  rw [hg]
  have hids : (s.items.map g).map (·.id) = s.items.map (·.id) :=
    map_map_of_eq (fun row => id_of_bare (hbare row)) _
  have hplaced : ∀ placement ∈ placements, ∀ row ∈ s.items.map g, row.id = placement.id →
      row.parentId = placement.parentId := by
    intro placement hplacement row' hrow' hid
    obtain ⟨row, hrow, rfl⟩ := List.mem_map.mp hrow'
    exact hparent placement hplacement row ((id_of_bare (hbare row)).symm.trans hid)
  have hnamed : ∀ row ∈ s.items.map g, ∃ placement ∈ placements, placement.id = row.id := by
    intro row hrow
    have hid : row.id ∈ placements.map (·.id) := by
      rw [hperm.mem_iff, ← hids]
      exact List.mem_map_of_mem hrow
    exact List.mem_map.mp hid
  have hrowOf : ∀ placement ∈ placements, ∃ row ∈ s.items.map g, row.id = placement.id := by
    intro placement hplacement
    have hid : placement.id ∈ (s.items.map g).map (·.id) := by
      rw [hids, ← hperm.mem_iff]
      exact List.mem_map_of_mem hplacement
    exact List.mem_map.mp hid
  have hunique : ((s.items.map g).map (·.id)).Nodup := by
    rw [hids]
    exact h.unique
  refine ⟨⟨hunique, ?_⟩, ⟨rfl, map_map_of_eq hbare _⟩, ?_, hplaced, fun l hl level => ?_⟩
  · -- a parent is placed at the top level
    intro row hrow wanted hwanted
    obtain ⟨placement, hplacement, hid⟩ := hnamed row hrow
    rw [hplaced placement hplacement row hrow hid.symm] at hwanted
    by_contra hnone
    refine htop ⟨placement, hplacement, wanted, hwanted, fun hmem => ?_⟩
    obtain ⟨upper, hupper, hupperid⟩ := List.mem_map.mp hmem
    obtain ⟨hupper, hattop⟩ := List.mem_filter.mp hupper
    obtain ⟨parent, hparentrow, hparentid⟩ := hrowOf upper hupper
    refine hnone ⟨parent, hparentrow, hparentid.trans hupperid, ?_⟩
    rw [hplaced upper hupper parent hparentrow hparentid]
    exact of_decide_eq_true hattop
  · rw [hids]
    exact hperm
  · refine (hl.filter _).map_eq MenuItem.sortOrder ?_ ?_ ?_ ?_ ?_
    · rintro a b (hlt | ⟨heq, -⟩) <;> omega
    · exact hunique.sublist (List.filter_sublist.map _)
    · exact hnodup.sublist (List.filter_sublist.map _)
    · intro id
      constructor
      · intro hid
        obtain ⟨placement, hplacement, rfl⟩ := List.mem_map.mp hid
        obtain ⟨hplacement, hlevel⟩ := List.mem_filter.mp hplacement
        obtain ⟨row, hrow, hid⟩ := hrowOf placement hplacement
        refine List.mem_map.mpr ⟨row, List.mem_filter.mpr ⟨hrow, ?_⟩, hid⟩
        rw [hplaced placement hplacement row hrow hid]
        exact hlevel
      · intro hid
        obtain ⟨row, hrow, rfl⟩ := List.mem_map.mp hid
        obtain ⟨hrow, hlevel⟩ := List.mem_filter.mp hrow
        obtain ⟨placement, hplacement, hid⟩ := hnamed row hrow
        rw [hplaced placement hplacement row hrow hid.symm] at hlevel
        exact List.mem_map.mpr ⟨placement, List.mem_filter.mpr ⟨hplacement, hlevel⟩, hid⟩
    · rw [List.pairwise_map]
      refine (horder.filter _).imp_of_mem fun {first second} hfirst hsecond hlt a' ha' b' hb' hid
        hid' => ?_
      obtain ⟨a, ha, rfl⟩ := List.mem_map.mp (List.mem_of_mem_filter ha')
      obtain ⟨b, hb, rfl⟩ := List.mem_map.mp (List.mem_of_mem_filter hb')
      have hlevel := of_decide_eq_true (List.mem_filter.mp hfirst).2
      have hlevel' := of_decide_eq_true (List.mem_filter.mp hsecond).2
      exact hlt (hlevel.trans hlevel'.symm) a b ((id_of_bare (hbare a)).symm.trans hid)
        ((id_of_bare (hbare b)).symm.trans hid')

/-! ### Taking a page out -/

/-- What numbering a list of entries does to each. -/
structure Numbers (g : MenuItem → MenuItem) (ids : List String) (n : ℕ) : Prop where
  placeless : ∀ row, (g row).placeless = row.placeless
  other : ∀ row, row.id ∉ ids → g row = row
  atLeast : ∀ id ∈ ids, ∀ row : MenuItem, row.id = id → (n : Int) ≤ (g row).sortOrder
  order : ids.Pairwise fun id id' => ∀ row row' : MenuItem, row.id = id → row'.id = id' →
    (g row).sortOrder < (g row').sortOrder

theorem numbers_eq : ∀ (ids : List String) (n : ℕ) (items : List MenuItem), ids.Nodup →
    ∃ g, (ids.zipIdx n).foldl (fun items place =>
      writeItem items place.1 fun row => { row with sortOrder := place.2 }) items = items.map g ∧
        Numbers g ids n
  | [], n, items, _ => by
    refine ⟨id, (List.map_id items).symm, fun _ => rfl, fun _ _ => rfl, ?_, .nil⟩
    intro id hid
    cases hid
  | first :: rest, n, items, hnodup => by
    obtain ⟨hnew, hnodup⟩ := List.nodup_cons.mp hnodup
    obtain ⟨write, hwrite⟩ : ∃ write : MenuItem → MenuItem, write = fun row =>
        if row.id = first then { row with sortOrder := n } else row := ⟨_, rfl⟩
    obtain ⟨g, hg, hplaceless, hother, hleast, horder⟩ :=
      numbers_eq rest (n + 1) (items.map write) hnodup
    have hself : ∀ row : MenuItem, row.id = first → g (write row) = { row with sortOrder := n } := by
      intro row hid
      have hwritten : write row = { row with sortOrder := n } := by
        rw [hwrite]
        exact if_pos hid
      rw [hwritten, hother]
      show row.id ∉ rest
      rw [hid]
      exact hnew
    have hrest : ∀ row : MenuItem, row.id ≠ first → write row = row := by
      intro row hid
      rw [hwrite]
      exact if_neg hid
    have hlater : ∀ id ∈ rest, ∀ row : MenuItem, row.id = id → row.id ≠ first := by
      rintro id hid row rfl heq
      exact hnew (heq ▸ hid)
    refine ⟨g ∘ write, ?_, fun row => ?_, fun row hid => ?_, ?_, ?_⟩
    · rw [List.zipIdx_cons, List.foldl_cons, ← List.map_map, ← hg, hwrite]
      rfl
    · show (g (write row)).placeless = row.placeless
      rw [hplaceless, hwrite]
      dsimp only
      split_ifs <;> rfl
    · rw [List.mem_cons, not_or] at hid
      show g (write row) = row
      rw [hrest row hid.1, hother row hid.2]
    · intro id hid row hrow
      show _ ≤ (g (write row)).sortOrder
      rcases List.mem_cons.mp hid with rfl | hid
      · simp [hself row hrow]
      · rw [hrest row (hlater id hid row hrow)]
        have hle := hleast id hid row hrow
        omega
    · refine List.Pairwise.cons (fun id hid row row' hrow hrow' => ?_) ?_
      · show (g (write row)).sortOrder < (g (write row')).sortOrder
        rw [hself row hrow, hrest row' (hlater id hid row' hrow')]
        have hle := hleast id hid row' hrow'
        show (n : Int) < _
        omega
      · refine horder.imp_of_mem fun {id id'} hid hid' hlt row row' hrow hrow' => ?_
        show (g (write row)).sortOrder < (g (write row')).sortOrder
        rw [hrest row (hlater id hid row hrow), hrest row' (hlater id' hid' row' hrow')]
        exact hlt row row' hrow hrow'

/-- The menu as a visitor reads it: a top-level entry, then what hangs under it, then the next. -/
def shownOrder (l : List MenuItem) : List MenuItem :=
  (l.filter fun row => row.parentId = none).flatMap fun row =>
    row :: l.filter fun child => child.parentId = some row.id

theorem shownOrder_ids (l : List MenuItem) : (shownOrder l).map (·.id) =
    (levelIds l none).flatMap fun id => id :: levelIds l (some id) := by
  unfold shownOrder levelIds
  rw [List.map_flatMap, List.flatMap_map]
  rfl

/-- The entries that point at a page. -/
def entriesOf (s : MenuStore) (pageId : String) : List String :=
  (s.items.filter fun row => row.pageId = some pageId).map (·.id)

/-- An entry once those it may hang from are taken out. -/
def MenuItem.releasedFrom (removed : List String) (row : MenuItem) : MenuItem :=
  if ∃ parentId ∈ row.parentId, parentId ∈ removed then { row with parentId := none } else row

/-- What taking a page out leaves, before the top level is numbered. -/
theorem released_eq (h : TwoLevels s.items) {rows : List MenuItem} (hrows : Reads InOrder s.items rows)
    (removed : List String) {promoted : List String} (hpromoted : promoted = (rows.filter fun row =>
      (∃ parentId ∈ row.parentId, parentId ∈ removed) ∧ row.id ∉ removed).map (·.id)) :
    TwoLevels (s.items.map fun row : MenuItem =>
      if row.id ∈ promoted then { row with parentId := none } else row) ∧
    deleteItems (s.items.map fun row : MenuItem =>
      if row.id ∈ promoted then { row with parentId := none } else row) (fun row => row.id ∈ removed) =
      (s.items.filter fun row => row.id ∉ removed).map (MenuItem.releasedFrom removed) := by
  obtain ⟨release, hrelease⟩ : ∃ release : MenuItem → MenuItem, release = fun row =>
      if row.id ∈ promoted then { row with parentId := none } else row := ⟨_, rfl⟩
  rw [← hrelease]
  have hid : ∀ row, (release row).id = row.id := by
    intro row
    rw [hrelease]
    dsimp only
    split_ifs <;> rfl
  have hmoved : ∀ row ∈ s.items, row.id ∈ promoted ↔
      (∃ parentId ∈ row.parentId, parentId ∈ removed) ∧ row.id ∉ removed := by
    intro row hrow
    rw [hpromoted]
    constructor
    · intro hmem
      obtain ⟨other, hother, heq⟩ := List.mem_map.mp hmem
      obtain ⟨hother, hmoves⟩ := List.mem_filter.mp hother
      rw [← h.eq_of_id (hrows.mem.mp hother) hrow heq]
      exact of_decide_eq_true hmoves
    · intro hmoves
      exact List.mem_map_of_mem
        (List.mem_filter.mpr ⟨hrows.mem.mpr hrow, decide_eq_true hmoves⟩)
  have hlevels : TwoLevels (s.items.map release) := by
    refine ⟨?_, fun row' hrow' wanted hwanted => ?_⟩
    · rw [map_map_of_eq hid]
      exact h.unique
    · obtain ⟨row, hrow, rfl⟩ := List.mem_map.mp hrow'
      have hstays : row.parentId = some wanted := by
        rw [hrelease] at hwanted
        dsimp only at hwanted
        split_ifs at hwanted
        · cases hwanted
        · exact hwanted
      obtain ⟨parent, hparent, rfl, htop⟩ := h.hung row hrow wanted hstays
      refine ⟨release parent, List.mem_map_of_mem hparent, hid parent, ?_⟩
      rw [hrelease]
      dsimp only
      split_ifs
      · rfl
      · exact htop
  refine ⟨hlevels, ?_⟩
  rw [deleteItems_eq hlevels, List.filter_map]
  have hkept : ∀ row ∈ s.items, ((fun row : MenuItem => !decide (row.id ∈ removed) &&
      decide (¬ HangsUnder (s.items.map release) (fun row => decide (row.id ∈ removed)) row)) ∘
        release) row = decide (row.id ∉ removed) := by
    intro row hrow
    show (!decide ((release row).id ∈ removed) && decide (¬ HangsUnder _ _ (release row))) = _
    rw [hid]
    by_cases hgone : row.id ∈ removed
    · simp [hgone]
    · have hnot : ¬ HangsUnder (s.items.map release) (fun row => decide (row.id ∈ removed))
          (release row) := by
        rintro ⟨parent, -, hparent, hhangs⟩
        rw [hrelease] at hhangs
        dsimp only at hhangs
        split_ifs at hhangs with hmoves
        exact hmoves ((hmoved row hrow).mpr ⟨⟨_, hhangs, of_decide_eq_true hparent⟩, hgone⟩)
      simp [hgone, hnot]
  rw [List.filter_congr hkept]
  refine List.map_congr_left fun row hrow => ?_
  obtain ⟨hrow, hgone⟩ := List.mem_filter.mp hrow
  rw [hrelease]
  unfold MenuItem.releasedFrom
  refine ite_congr (propext ?_) (fun _ => rfl) fun _ => rfl
  rw [hmoved row hrow, and_iff_left (of_decide_eq_true hgone)]

section TakingOut

variable {rows : List MenuItem} {removed : List String}

@[simp] theorem releasedFrom_id (row : MenuItem) : (row.releasedFrom removed).id = row.id := by
  unfold MenuItem.releasedFrom
  split_ifs <;> rfl

theorem releasedFrom_parentId (row : MenuItem) {parentId : String} :
    (row.releasedFrom removed).parentId = some parentId ↔
      row.parentId = some parentId ∧ parentId ∉ removed := by
  unfold MenuItem.releasedFrom
  split_ifs with hmoves
  · obtain ⟨other, hother, hgone⟩ := hmoves
    constructor
    · intro h
      cases h
    · rintro ⟨hsome, hkept⟩
      rw [Option.mem_def, hsome] at hother
      obtain rfl := Option.some.inj hother
      exact absurd hgone hkept
  · exact ⟨fun h => ⟨h, fun hgone => hmoves ⟨parentId, h, hgone⟩⟩, And.left⟩

theorem mem_promotedUnder (hrows : Reads InOrder s.items rows) {id child : String} :
    child ∈ promotedUnder rows removed id ↔
      ∃ row ∈ s.items, row.id = child ∧ row.id ∉ removed ∧ row.parentId = some id := by
  unfold promotedUnder
  rw [List.mem_map]
  constructor
  · rintro ⟨row, hrow, rfl⟩
    obtain ⟨hrow, hboth⟩ := List.mem_filter.mp hrow
    obtain ⟨hparent, hkept⟩ := of_decide_eq_true hboth
    exact ⟨row, hrows.mem.mp hrow, rfl, hkept, hparent⟩
  · rintro ⟨row, hrow, rfl, hkept, hparent⟩
    exact ⟨row, List.mem_filter.mpr ⟨hrows.mem.mpr hrow, decide_eq_true ⟨hparent, hkept⟩⟩, rfl⟩

/-- The top level as it will read is what stands there once the entries are taken out. -/
theorem mem_topLevelWithout (h : TwoLevels s.items) (hrows : Reads InOrder s.items rows)
    {id : String} : id ∈ topLevelWithout rows removed ↔
      ∃ row ∈ s.items, row.id = id ∧ row.id ∉ removed ∧
        (row.releasedFrom removed).parentId = none := by
  unfold topLevelWithout
  rw [List.mem_flatMap]
  constructor
  · rintro ⟨top, htop, hid⟩
    obtain ⟨htop, hnone⟩ := List.mem_filter.mp htop
    split_ifs at hid with hgone
    · obtain ⟨row, hrow, rfl, hkept, hparent⟩ := (mem_promotedUnder hrows).mp hid
      refine ⟨row, hrow, rfl, hkept, ?_⟩
      unfold MenuItem.releasedFrom
      rw [if_pos ⟨top.id, hparent, hgone⟩]
    · obtain rfl := List.mem_singleton.mp hid
      refine ⟨top, hrows.mem.mp htop, rfl, hgone, ?_⟩
      unfold MenuItem.releasedFrom
      split_ifs
      · rfl
      · exact of_decide_eq_true hnone
  · rintro ⟨row, hrow, rfl, hkept, hnone⟩
    cases hparent : row.parentId with
    | none =>
      refine ⟨row, List.mem_filter.mpr ⟨hrows.mem.mpr hrow, decide_eq_true hparent⟩, ?_⟩
      rw [if_neg hkept]
      exact List.mem_singleton_self _
    | some parentId =>
      obtain ⟨top, htop, rfl, htopnone⟩ := h.hung row hrow parentId hparent
      refine ⟨top, List.mem_filter.mpr ⟨hrows.mem.mpr htop, decide_eq_true htopnone⟩, ?_⟩
      have hgone : top.id ∈ removed := by
        by_contra hstays
        rw [(releasedFrom_parentId row).mpr ⟨hparent, hstays⟩] at hnone
        cases hnone
      rw [if_pos hgone]
      exact (mem_promotedUnder hrows).mpr ⟨row, hrow, rfl, hkept, hparent⟩

theorem nodup_ids_of_reads (h : TwoLevels s.items) (hrows : Reads InOrder s.items rows) :
    (rows.map (·.id)).Nodup := (hrows.perm.map _).nodup_iff.mpr h.unique

theorem nodup_topLevelWithout (h : TwoLevels s.items) (hrows : Reads InOrder s.items rows) :
    (topLevelWithout rows removed).Nodup := by
  have hnodup := nodup_ids_of_reads h hrows
  unfold topLevelWithout
  rw [List.nodup_flatMap]
  refine ⟨fun top _ => ?_, ?_⟩
  · split_ifs
    · exact hnodup.sublist (List.filter_sublist.map _)
    · exact List.nodup_singleton _
  · -- an entry stands in one place: its own, or that of what it hung from
    have hpairs : (rows.filter fun row => row.parentId = none).Pairwise fun a b => a.id ≠ b.id :=
      (List.pairwise_map.mp hnodup).filter _
    refine hpairs.imp_of_mem fun {a b} ha hb hne => ?_
    obtain ⟨ha, htopa⟩ := List.mem_filter.mp ha
    obtain ⟨hb, htopb⟩ := List.mem_filter.mp hb
    have hplace : ∀ {top : MenuItem}, top ∈ rows → ∀ {id : String},
        id ∈ (if top.id ∈ removed then promotedUnder rows removed top.id else [top.id]) →
          ∃ row ∈ s.items, row.id = id ∧ (row = top ∨ row.parentId = some top.id) := by
      intro top htop id hid
      split_ifs at hid
      · obtain ⟨row, hrow, rfl, -, hparent⟩ := (mem_promotedUnder hrows).mp hid
        exact ⟨row, hrow, rfl, .inr hparent⟩
      · obtain rfl := List.mem_singleton.mp hid
        exact ⟨top, hrows.mem.mp htop, rfl, .inl rfl⟩
    intro id hida hidb
    obtain ⟨row, hrow, rfl, hat⟩ := hplace ha hida
    obtain ⟨row', hrow', hid, hat'⟩ := hplace hb hidb
    obtain rfl := h.eq_of_id hrow' hrow hid
    have htopa := of_decide_eq_true htopa
    have htopb := of_decide_eq_true htopb
    rcases hat with rfl | hat <;> rcases hat' with rfl | hat'
    · exact hne rfl
    · rw [htopa] at hat'
      cases hat'
    · rw [htopb] at hat
      cases hat
    · rw [hat] at hat'
      exact hne (Option.some.inj hat')

/-- What is left of the menu once entries are taken out, and its top level numbered. -/
structure TakenOut (s : MenuStore) (rows : List MenuItem) (removed : List String)
    (items : List MenuItem) : Prop where
  twoLevels : TwoLevels items
  rows : ∃ g, items = ((s.items.filter fun row => row.id ∉ removed).map
    (MenuItem.releasedFrom removed)).map g ∧ Numbers g (topLevelWithout rows removed) 0

variable {items l' : List MenuItem}

/-- A row that is left is one that was there, where it hung or moved up. -/
theorem TakenOut.mem (ht : TakenOut s rows removed items) {row' : MenuItem}
    (hrow' : row' ∈ items) : ∃ row ∈ s.items, row.id ∉ removed ∧
      row'.placeless = (row.releasedFrom removed).placeless ∧ row'.id = row.id := by
  obtain ⟨g, rfl, hg⟩ := ht.rows
  obtain ⟨released, hreleased, rfl⟩ := List.mem_map.mp hrow'
  obtain ⟨row, hrow, rfl⟩ := List.mem_map.mp hreleased
  obtain ⟨hrow, hkept⟩ := List.mem_filter.mp hrow
  refine ⟨row, hrow, of_decide_eq_true hkept, hg.placeless _, ?_⟩
  rw [id_of_bare (bare_of_placeless (hg.placeless _)), releasedFrom_id]

theorem TakenOut.exists (ht : TakenOut s rows removed items) {row : MenuItem} (hrow : row ∈ s.items)
    (hkept : row.id ∉ removed) : ∃ row' ∈ items,
      row'.placeless = (row.releasedFrom removed).placeless ∧ row'.id = row.id := by
  obtain ⟨g, rfl, hg⟩ := ht.rows
  refine ⟨g (row.releasedFrom removed), List.mem_map_of_mem (List.mem_map_of_mem
    (List.mem_filter.mpr ⟨hrow, decide_eq_true hkept⟩)), hg.placeless _, ?_⟩
  rw [id_of_bare (bare_of_placeless (hg.placeless _)), releasedFrom_id]

/-- Who stays under a parent that stays is not touched. -/
theorem TakenOut.mem_under (h : TwoLevels s.items) (hrows : Reads InOrder s.items rows)
    (ht : TakenOut s rows removed items) {row : MenuItem} : (row ∈ items ∧ row.parentId ≠ none) ↔
      row ∈ s.items ∧ row.id ∉ removed ∧ ∃ parentId ∈ row.parentId, parentId ∉ removed := by
  obtain ⟨g, hitems, hg⟩ := ht.rows
  -- what does not end up at the top level is not numbered
  have hsame : ∀ old ∈ s.items, ∀ parentId, (old.releasedFrom removed).parentId = some parentId →
      g (old.releasedFrom removed) = old := by
    intro old hold parentId hparent
    have hstays := (releasedFrom_parentId old).mp hparent
    have hnot : (old.releasedFrom removed).id ∉ topLevelWithout rows removed := by
      rw [mem_topLevelWithout h hrows]
      rintro ⟨other, hother, hid, -, hnone⟩
      rw [releasedFrom_id] at hid
      rw [h.eq_of_id hother hold hid, hparent] at hnone
      cases hnone
    rw [hg.other _ hnot]
    unfold MenuItem.releasedFrom
    refine if_neg ?_
    rintro ⟨other, hsome, hgone⟩
    rw [Option.mem_def, hstays.1] at hsome
    obtain rfl := Option.some.inj hsome
    exact hstays.2 hgone
  constructor
  · rintro ⟨hrow, hhangs⟩
    rw [hitems] at hrow
    obtain ⟨released, hreleased, rfl⟩ := List.mem_map.mp hrow
    obtain ⟨old, hold, rfl⟩ := List.mem_map.mp hreleased
    obtain ⟨hold, hkept⟩ := List.mem_filter.mp hold
    rw [parentId_of_placeless (hg.placeless _)] at hhangs
    obtain ⟨parentId, hparent⟩ := Option.ne_none_iff_exists'.mp hhangs
    have hstays := (releasedFrom_parentId old).mp hparent
    rw [hsame old hold parentId hparent]
    exact ⟨hold, of_decide_eq_true hkept, parentId, hstays.1, hstays.2⟩
  · rintro ⟨hrow, hkept, parentId, hparent, hstays⟩
    have hreleased := (releasedFrom_parentId row).mpr ⟨hparent, hstays⟩
    have heq := hsame row hrow parentId hreleased
    refine ⟨?_, by rw [hparent]; exact Option.some_ne_none _⟩
    rw [hitems, ← heq]
    exact List.mem_map_of_mem (List.mem_map_of_mem (List.mem_filter.mpr
      ⟨hrow, decide_eq_true hkept⟩))

theorem TakenOut.levelIds_top (h : TwoLevels s.items) (hrows : Reads InOrder s.items rows)
    (ht : TakenOut s rows removed items) (hl' : Reads InOrder items l') :
    levelIds l' none = topLevelWithout rows removed := by
  refine (hl'.filter _).map_eq MenuItem.sortOrder ?_ ?_ (nodup_topLevelWithout h hrows) ?_ ?_
  · rintro a b (hlt | ⟨heq, -⟩) <;> omega
  · exact ht.twoLevels.unique.sublist (List.filter_sublist.map _)
  · intro id
    rw [mem_topLevelWithout h hrows, List.mem_map]
    constructor
    · rintro ⟨row, hrow, rfl, hkept, hnone⟩
      obtain ⟨row', hrow', hplaceless, hid⟩ := ht.exists hrow hkept
      refine ⟨row', List.mem_filter.mpr ⟨hrow', decide_eq_true ?_⟩, hid⟩
      rw [parentId_of_placeless hplaceless]
      exact hnone
    · rintro ⟨row', hrow', rfl⟩
      obtain ⟨hrow', hnone⟩ := List.mem_filter.mp hrow'
      obtain ⟨row, hrow, hkept, hplaceless, hid⟩ := ht.mem hrow'
      refine ⟨row, hrow, hid.symm, hkept, ?_⟩
      rw [← parentId_of_placeless hplaceless]
      exact of_decide_eq_true hnone
  · obtain ⟨g, hitems, hg⟩ := ht.rows
    refine hg.order.imp fun {id id'} hlt a ha b hb hida hidb => ?_
    have ha := List.mem_of_mem_filter ha
    have hb := List.mem_of_mem_filter hb
    rw [hitems] at ha hb
    obtain ⟨old, -, rfl⟩ := List.mem_map.mp ha
    obtain ⟨old', -, rfl⟩ := List.mem_map.mp hb
    refine hlt old old' ?_ ?_
    · rw [← hida]
      exact (id_of_bare (bare_of_placeless (hg.placeless _))).symm
    · rw [← hidb]
      exact (id_of_bare (bare_of_placeless (hg.placeless _))).symm

theorem inOrder_trans (a b c : MenuItem) (h : InOrder a b) (h' : InOrder b c) : InOrder a c := by
  unfold InOrder at *
  omega

theorem inOrder_total (a b : MenuItem) : InOrder a b ∨ InOrder b a := by
  unfold InOrder
  omega

/-- Whether an entry stays under what it hangs from. -/
def staysUnder (removed : List String) (row : MenuItem) : Bool :=
  row.id ∉ removed ∧ ∃ parentId ∈ row.parentId, parentId ∉ removed

theorem TakenOut.mem_staysUnder (h : TwoLevels s.items) (hrows : Reads InOrder s.items rows)
    (ht : TakenOut s rows removed items) (hl' : Reads InOrder items l') {row : MenuItem} :
    row ∈ l' ∧ row.parentId ≠ none ↔ row ∈ rows ∧ staysUnder removed row := by
  rw [hl'.mem, ht.mem_under h hrows, hrows.mem]
  unfold staysUnder
  rw [decide_eq_true_eq]

/-- The entries as they were read, but for what stays under its parent, which comes as it will be
read. -/
def readBefore (rows : List MenuItem) (removed : List String) (l' : List MenuItem) :
    List MenuItem :=
  (rows.filter fun row => !staysUnder removed row) ++ l'.filter fun row => row.parentId ≠ none

theorem filter_readBefore (p : MenuItem → Bool) : (readBefore rows removed l').filter p =
    (rows.filter fun row => p row && !staysUnder removed row) ++
      l'.filter fun row => p row && decide (row.parentId ≠ none) := by
  unfold readBefore
  rw [List.filter_append, List.filter_filter, List.filter_filter]

theorem TakenOut.readBefore_perm (h : TwoLevels s.items) (hrows : Reads InOrder s.items rows)
    (ht : TakenOut s rows removed items) (hl' : Reads InOrder items l') :
    (readBefore rows removed l').Perm s.items := by
  have hstay : (l'.filter fun row => row.parentId ≠ none).Perm
      (rows.filter fun row => staysUnder removed row) := by
    refine (List.perm_ext_iff_of_nodup ?_ ?_).mpr fun row => ?_
    · exact ((hl'.perm.map (·.id)).nodup_iff.mpr ht.twoLevels.unique).of_map.filter _
    · exact (nodup_ids_of_reads h hrows).of_map.filter _
    · rw [List.mem_filter, List.mem_filter, decide_eq_true_eq]
      exact ht.mem_staysUnder h hrows hl'
  unfold readBefore
  refine ((List.perm_append_comm).trans ?_).trans hrows.perm
  exact (hstay.append_right _).trans (List.filter_append_perm _ _)

/-- What does not stay under its parent comes as it was read. -/
theorem TakenOut.filter_moved (h : TwoLevels s.items) (hrows : Reads InOrder s.items rows)
    (ht : TakenOut s rows removed items) (hl' : Reads InOrder items l') {p : MenuItem → Bool}
    (hp : ∀ row ∈ rows, p row = true → staysUnder removed row = false) :
    (readBefore rows removed l').filter p = rows.filter p := by
  have hnone : (l'.filter fun row => p row && decide (row.parentId ≠ none)) = [] := by
    refine List.filter_eq_nil_iff.mpr fun row hrow hboth => ?_
    rw [Bool.and_eq_true, decide_eq_true_eq] at hboth
    obtain ⟨hmem, hstays⟩ := (ht.mem_staysUnder h hrows hl').mp ⟨hrow, hboth.2⟩
    rw [hp row hmem hboth.1] at hstays
    cases hstays
  rw [filter_readBefore, hnone, List.append_nil]
  refine List.filter_congr fun row hrow => ?_
  cases hrowp : p row with
  | false => rfl
  | true =>
    rw [hp row hrow hrowp]
    rfl

/-- What stays under its parent comes as it will be read. -/
theorem TakenOut.filter_kept (h : TwoLevels s.items) (hrows : Reads InOrder s.items rows)
    (ht : TakenOut s rows removed items) (hl' : Reads InOrder items l') {parentId : String}
    (hstays : parentId ∉ removed) :
    (readBefore rows removed l').filter
        (fun row => decide (row.id ∉ removed ∧ row.parentId = some parentId)) =
      l'.filter fun row => decide (row.parentId = some parentId) := by
  have hnone : (rows.filter fun row => decide (row.id ∉ removed ∧
      row.parentId = some parentId) && !staysUnder removed row) = [] := by
    refine List.filter_eq_nil_iff.mpr fun row _ hboth => ?_
    rw [Bool.and_eq_true, decide_eq_true_eq, Bool.not_eq_true'] at hboth
    obtain ⟨⟨hleft, hparent⟩, hnot⟩ := hboth
    have hunder : staysUnder removed row = true := decide_eq_true ⟨hleft, parentId, hparent, hstays⟩
    rw [hnot] at hunder
    cases hunder
  rw [filter_readBefore, hnone, List.nil_append]
  refine List.filter_congr fun row hrow => ?_
  by_cases hparent : row.parentId = some parentId
  · have hhangs : row.parentId ≠ none := by
      rw [hparent]
      exact Option.some_ne_none _
    have hstay := ((ht.mem_staysUnder h hrows hl').mp ⟨hrow, hhangs⟩).2
    have hleft := (of_decide_eq_true hstay).1
    simp [hparent, hleft]
  · simp [hparent]

/-- A reading from before that goes with the one after: what moved is as it was read then, and what
stays under its parent as it is read now. -/
structure GoesWith (rows : List MenuItem) (removed : List String) (l' l : List MenuItem) : Prop where
  moved : ∀ p : MenuItem → Bool, (∀ row ∈ rows, p row = true → staysUnder removed row = false) →
    l.filter p = rows.filter p
  kept : ∀ parentId, parentId ∉ removed →
    (levelIds l (some parentId)).filter (fun id => id ∉ removed) = levelIds l' (some parentId)

theorem TakenOut.exists_goesWith (h : TwoLevels s.items) (hrows : Reads InOrder s.items rows)
    (ht : TakenOut s rows removed items) (hl' : Reads InOrder items l') :
    ∃ l, Reads InOrder s.items l ∧ GoesWith rows removed l' l := by
  obtain ⟨l, hl, hfilter⟩ := exists_reads inOrder_trans inOrder_total
    (ht.readBefore_perm h hrows hl')
  refine ⟨l, hl, fun p hp => ?_, fun parentId hstays => ?_⟩
  · have hpart := ht.filter_moved h hrows hl' hp
    rw [hfilter p (by rw [hpart]; exact hrows.sorted.filter _), hpart]
  · have hpart := ht.filter_kept h hrows hl' hstays
    have hread := hfilter _ (by rw [hpart]; exact hl'.sorted.filter _)
    rw [hpart] at hread
    unfold levelIds
    rw [← hread, List.filter_map, List.filter_filter]
    refine congrArg _ (List.filter_congr fun row _ => ?_)
    show (decide (row.id ∉ removed) && decide (row.parentId = some parentId)) = _
    rw [Bool.decide_and]

/-- The top level is as it was read, and so is what hung from an entry taken out. -/
theorem GoesWith.levelIds_eq {l : List MenuItem} (hgoes : GoesWith rows removed l' l)
    {parentId : Option String} (hgone : ∀ id ∈ parentId, id ∈ removed) :
    levelIds l parentId = levelIds rows parentId := by
  unfold levelIds
  rw [hgoes.moved]
  intro row _ hparent
  refine decide_eq_false ?_
  rintro ⟨-, id, hsome, hstays⟩
  rw [of_decide_eq_true hparent] at hsome
  exact hstays (hgone id hsome)

/-- What moves up has nothing under it. -/
theorem TakenOut.levelIds_promoted (h : TwoLevels s.items) (hrows : Reads InOrder s.items rows)
    (ht : TakenOut s rows removed items) (hl' : Reads InOrder items l') {id topId : String}
    (hid : id ∈ promotedUnder rows removed topId) : levelIds l' (some id) = [] := by
  obtain ⟨child, hchild, rfl, -, hparent⟩ := (mem_promotedUnder hrows).mp hid
  unfold levelIds
  rw [List.map_eq_nil_iff, List.filter_eq_nil_iff]
  intro row' hrow' hhangs
  obtain ⟨row, hrow, -, hplaceless, -⟩ := ht.mem (hl'.mem.mp hrow')
  have hunder := of_decide_eq_true hhangs
  rw [parentId_of_placeless hplaceless, releasedFrom_parentId] at hunder
  have htop := h.top_of_parent hrow hchild hunder.1
  rw [hparent] at htop
  cases htop

/-- What moves up is what hung there and was not taken out. -/
theorem promotedUnder_eq (topId : String) : promotedUnder rows removed topId =
    (levelIds rows (some topId)).filter fun id => id ∉ removed := by
  unfold promotedUnder levelIds
  rw [List.filter_map, List.filter_filter]
  refine congrArg _ (List.filter_congr fun row _ => ?_)
  show _ = (decide (row.id ∉ removed) && decide (row.parentId = some topId))
  rw [← Bool.decide_and]
  exact decide_eq_decide.mpr and_comm

/-- An entry of the top level and what hangs from it, or what takes its place. -/
theorem TakenOut.read_under (h : TwoLevels s.items) (hrows : Reads InOrder s.items rows)
    (ht : TakenOut s rows removed items) (hl' : Reads InOrder items l') {l : List MenuItem}
    (hgoes : GoesWith rows removed l' l) (topId : String) :
    (if topId ∈ removed then promotedUnder rows removed topId else [topId]).flatMap
        (fun id => id :: levelIds l' (some id)) =
      (topId :: levelIds l (some topId)).filter fun id => id ∉ removed := by
  split_ifs with hgone
  · have hsingle : (promotedUnder rows removed topId).flatMap
        (fun id => id :: levelIds l' (some id)) = promotedUnder rows removed topId := by
      rw [List.flatMap_congr (g := fun id => [id]) fun id hid => by
        rw [ht.levelIds_promoted h hrows hl' hid]]
      exact List.flatMap_singleton' _
    have hunder : levelIds l (some topId) = levelIds rows (some topId) :=
      hgoes.levelIds_eq fun id hid => Option.mem_some.mp hid ▸ hgone
    rw [List.filter_cons_of_neg (by simpa using hgone), hsingle, hunder, promotedUnder_eq]
  · rw [List.filter_cons_of_pos (by simpa using hgone), hgoes.kept topId hgone, List.flatMap_cons,
      List.flatMap_nil, List.append_nil]

/-- **Reading order.**  What is read once entries are taken out is what could be read before,
without them. -/
theorem TakenOut.exists_reading (h : TwoLevels s.items) (hrows : Reads InOrder s.items rows)
    (ht : TakenOut s rows removed items) (hl' : Reads InOrder items l') :
    ∃ l, Reads InOrder s.items l ∧ (shownOrder l').map (·.id) =
      ((shownOrder l).map (·.id)).filter fun id => id ∉ removed := by
  obtain ⟨l, hl, hgoes⟩ := ht.exists_goesWith h hrows hl'
  have htop : levelIds l none = levelIds rows none := hgoes.levelIds_eq nofun
  refine ⟨l, hl, ?_⟩
  rw [shownOrder_ids, shownOrder_ids, ht.levelIds_top h hrows hl', List.filter_flatMap, htop]
  unfold topLevelWithout levelIds
  rw [List.flatMap_assoc, List.flatMap_map]
  exact List.flatMap_congr fun top _ => ht.read_under h hrows hl' hgoes top.id

end TakingOut

/-- **A page taken out of the menu** takes exactly the entries that point at it. -/
theorem hidePage_ok (h : TwoLevels s.items) {pageId : String} {rows : List MenuItem}
    (hrows : Reads InOrder s.items rows) (hok : hidePage s pageId rows = .ok s') :
    s'.pages = s.pages ∧ TwoLevels s'.items ∧
      (s'.items.map MenuItem.placeless = ((s.items.filter fun row => row.id ∉ entriesOf s pageId).map
        (MenuItem.releasedFrom (entriesOf s pageId))).map MenuItem.placeless) ∧
      ∀ l', Reads InOrder s'.items l' → ∃ l, Reads InOrder s.items l ∧
        (shownOrder l').map (·.id) =
          ((shownOrder l).map (·.id)).filter fun id => id ∉ entriesOf s pageId := by
  unfold hidePage at hok
  match hfind : findPage s pageId with
  | none =>
    rw [hfind] at hok
    cases hok
  | some page =>
    rw [hfind] at hok
    dsimp only at hok
    by_cases hempty : (s.items.filter fun row => row.pageId = some pageId) = []
    · rw [if_pos hempty] at hok
      obtain rfl := Except.ok.inj hok
      have hentries : entriesOf s pageId = [] := by
        unfold entriesOf
        rw [hempty, List.map_nil]
      have hreleased : ∀ row : MenuItem, row.releasedFrom [] = row := by
        intro row
        unfold MenuItem.releasedFrom
        exact if_neg (by simp)
      rw [hentries]
      refine ⟨rfl, h, ?_, fun l' hl' => ⟨l', hl', ?_⟩⟩
      · simp [hreleased]
      · simp
    · rw [if_neg hempty] at hok
      obtain rfl := Except.ok.inj hok
      obtain ⟨hlevels, hdeleted⟩ := released_eq h hrows (entriesOf s pageId) rfl
      have hleft := hlevels.deleteItems fun row => row.id ∈ entriesOf s pageId
      rw [hdeleted] at hleft
      obtain ⟨g, hg, hnumbers⟩ := numbers_eq (topLevelWithout rows (entriesOf s pageId)) 0
        ((s.items.filter fun row => row.id ∉ entriesOf s pageId).map
          (MenuItem.releasedFrom (entriesOf s pageId))) (nodup_topLevelWithout h hrows)
      have ht := (TakenOut.mk (hleft.map hnumbers.placeless) ⟨g, rfl, hnumbers⟩ :
        TakenOut s rows (entriesOf s pageId) _)
      have hplaceless := map_map_of_eq hnumbers.placeless
        ((s.items.filter fun row => row.id ∉ entriesOf s pageId).map
          (MenuItem.releasedFrom (entriesOf s pageId)))
      rw [← hg, ← hdeleted] at ht
      rw [← hg] at hplaceless
      refine ⟨rfl, ht.twoLevels, ?_, fun l' hl' => ht.exists_reading h hrows hl'⟩
      rw [← hplaceless, ← hdeleted]
      rfl

end OpenBrf.Site
