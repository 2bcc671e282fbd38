import Mathlib.Logic.Relation
import OpenBrf.Site.SiteMenu

/-!
# Site.MenuRuns — the menu after any sequence of writes
-/

namespace OpenBrf.Site

open Listing

/-- One write that is not refused, whatever it was asked. -/
inductive MenuStep (urlProtocol : UrlProtocol) (s s' : MenuStore) : Prop
  | create (input : MenuItemInput) (id : String) (createdAt : Int) :
      create urlProtocol s input id createdAt = .ok s' → MenuStep urlProtocol s s'
  | update (id : String) (input : MenuItemInput) :
      update urlProtocol s id input = .ok s' → MenuStep urlProtocol s s'
  | reorder (parentId : Option String) (ids : List String) :
      reorder s parentId ids = .ok s' → MenuStep urlProtocol s s'
  | arrange (placements : List MenuPlacement) :
      arrange s placements = .ok s' → MenuStep urlProtocol s s'
  | showPage (pageId id : String) (createdAt : Int) :
      showPage s pageId id createdAt = .ok s' → MenuStep urlProtocol s s'
  | hidePage (pageId : String) (rows : List MenuItem) : Reads InOrder s.items rows →
      hidePage s pageId rows = .ok s' → MenuStep urlProtocol s s'
  | remove (id : String) : remove s id = .ok s' → MenuStep urlProtocol s s'
  | removePage (page : MenuPage) (expectedRevision : Option ℕ) :
      removePage s page expectedRevision = .ok s' → MenuStep urlProtocol s s'
  /-- Pages are written elsewhere, in any way. -/
  | pages : s'.items = s.items → MenuStep urlProtocol s s'

variable {urlProtocol : UrlProtocol} {s s' : MenuStore}

/-- **One write** keeps the two levels. -/
theorem MenuStep.twoLevels (h : TwoLevels s.items) (hstep : MenuStep urlProtocol s s') :
    TwoLevels s'.items := by
  cases hstep with
  | create _ _ _ hok => exact create_twoLevels h hok
  | update _ _ hok => exact update_twoLevels h hok
  | reorder _ _ hok => exact reorder_twoLevels h hok
  | arrange _ hok => exact (arrange_ok h hok).1
  | showPage _ _ _ hok => exact showPage_twoLevels h hok
  | hidePage _ _ hrows hok => exact (hidePage_ok h hrows hok).2.1
  | remove _ hok => exact remove_twoLevels h hok
  | removePage _ _ hok => exact removePage_twoLevels h hok
  | pages hitems => rwa [hitems]

theorem twoLevels_of_run (h : TwoLevels s.items)
    (hrun : Relation.ReflTransGen (MenuStep urlProtocol) s s') : TwoLevels s'.items := by
  induction hrun with
  | refl => exact h
  | tail _ hstep ih => exact hstep.twoLevels ih

/-! ### The two levels -/

/-- One entry hangs from another. -/
def HangsFrom (items : List MenuItem) (child parent : String) : Prop :=
  ∃ row ∈ items, row.id = child ∧ row.parentId = some parent

/-- Nothing hangs from itself, however many steps there are between. -/
theorem TwoLevels.acyclic {items : List MenuItem} (h : TwoLevels items) (id : String) :
    ¬ Relation.TransGen (HangsFrom items) id id := by
  -- what an entry hangs from hangs from nothing, so no chain has two links
  have htwo : ∀ {a b c : String}, HangsFrom items a b → ¬ HangsFrom items b c := by
    rintro a b c ⟨row, hrow, -, hparent⟩ ⟨parent, hmem, rfl, hhangs⟩
    rw [h.top_of_parent hrow hmem hparent] at hhangs
    cases hhangs
  intro hcycle
  obtain ⟨other, hfirst, hrest⟩ := Relation.TransGen.head'_iff.mp hcycle
  rcases hrest.cases_head with heq | ⟨next, hsecond, -⟩
  · rw [heq] at hfirst
    exact htwo hfirst hfirst
  · exact htwo hfirst hsecond

/-- Every entry stands once in the order the menu is read in. -/
theorem shownOrder_perm (h : TwoLevels s.items) {rows : List MenuItem}
    (hrows : Reads InOrder s.items rows) : (shownOrder rows).Perm rows := by
  have hids := nodup_ids_of_reads h hrows
  have htop : ∀ {row : MenuItem},
      row ∈ rows.filter (fun row => row.parentId = none) ↔ row ∈ rows ∧ row.parentId = none := by
    intro row
    rw [List.mem_filter, decide_eq_true_eq]
  have hunder : ∀ {row child : MenuItem},
      child ∈ (row :: rows.filter fun child => child.parentId = some row.id) ↔
        child = row ∨ child ∈ rows ∧ child.parentId = some row.id := by
    intro row child
    rw [List.mem_cons, List.mem_filter, decide_eq_true_eq]
  refine (List.perm_ext_iff_of_nodup ?_ hids.of_map).mpr fun row => ?_
  · unfold shownOrder
    rw [List.nodup_flatMap]
    refine ⟨fun row hrow => List.nodup_cons.mpr ⟨fun hself => ?_, hids.of_map.filter _⟩, ?_⟩
    · have hhangs := of_decide_eq_true (List.mem_filter.mp hself).2
      rw [(htop.mp hrow).2] at hhangs
      cases hhangs
    · have hpairs := (List.pairwise_map.mp hids).filter fun row => decide (row.parentId = none)
      refine hpairs.imp_of_mem fun {a b} ha hb hne row hrowa hrowb => ?_
      have hnonea := (htop.mp ha).2
      have hnoneb := (htop.mp hb).2
      rcases hunder.mp hrowa with rfl | ⟨-, hhangsa⟩ <;>
        rcases hunder.mp hrowb with rfl | ⟨-, hhangsb⟩
      · exact hne rfl
      · rw [hnonea] at hhangsb
        cases hhangsb
      · rw [hnoneb] at hhangsa
        cases hhangsa
      · rw [hhangsa] at hhangsb
        exact hne (Option.some.inj hhangsb)
  · unfold shownOrder
    rw [List.mem_flatMap]
    constructor
    · rintro ⟨top, hmem, hrow⟩
      rcases hunder.mp hrow with rfl | ⟨hrow, -⟩
      · exact (htop.mp hmem).1
      · exact hrow
    · intro hrow
      cases hparent : row.parentId with
      | none => exact ⟨row, htop.mpr ⟨hrow, hparent⟩, List.mem_cons_self⟩
      | some parentId =>
        obtain ⟨top, hmem, rfl, hnone⟩ := h.hung row (hrows.mem.mp hrow) parentId hparent
        exact ⟨top, htop.mpr ⟨hrows.mem.mpr hmem, hnone⟩, hunder.mpr (.inr ⟨hrow, hparent⟩)⟩

/-! ### What the board can rely on -/

/-- The menu has exactly the order and the parents that were asked for, and is otherwise what it
was. -/
structure Arranged (s s' : MenuStore) (placements : List MenuPlacement) : Prop where
  pages : s'.pages = s.pages
  entries : s'.items.map MenuItem.bare = s.items.map MenuItem.bare
  all : (placements.map (·.id)).Perm (s'.items.map (·.id))
  parents : ∀ placement ∈ placements, ∀ row ∈ s'.items, row.id = placement.id →
    row.parentId = placement.parentId
  order : ∀ rows, Reads InOrder s'.items rows → ∀ level, levelIds rows level =
    (placements.filter fun placement => placement.parentId = level).map (·.id)

/-- A page's entries are gone, what hung under them stands at the top level, and all else reads as
it could be read before. -/
structure WithoutPage (s s' : MenuStore) (pageId : String) : Prop where
  pages : s'.pages = s.pages
  entries : s'.items.map MenuItem.placeless =
    ((s.items.filter fun row => row.id ∉ entriesOf s pageId).map
      (MenuItem.releasedFrom (entriesOf s pageId))).map MenuItem.placeless
  order : ∀ rows', Reads InOrder s'.items rows' → ∃ rows, Reads InOrder s.items rows ∧
    (shownOrder rows').map (·.id) =
      ((shownOrder rows).map (·.id)).filter fun id => id ∉ entriesOf s pageId

/-- **The menu after any sequence of writes.** -/
theorem menu_of_run {s₀ : MenuStore} (h₀ : TwoLevels s₀.items)
    (hrun : Relation.ReflTransGen (MenuStep urlProtocol) s₀ s) :
    (Hung s.items ∧ ∀ id, ¬ Relation.TransGen (HangsFrom s.items) id id) ∧
    (∀ placements, (∃ e, arrange s placements = .error e ∧ settle s (arrange s placements) = s) ∨
      ∃ s', arrange s placements = .ok s' ∧ Arranged s s' placements) ∧
    (∀ parentId ids s', reorder s parentId ids = .ok s' →
      s'.items.map MenuItem.placeless = s.items.map MenuItem.placeless) ∧
    (∀ pageId rows s', Reads InOrder s.items rows → hidePage s pageId rows = .ok s' →
      WithoutPage s s' pageId) ∧
    ∀ rows audience, Reads InOrder s.items rows → (shownOrder rows).Perm s.items ∧
      ((siteMenu urlProtocol s audience rows).flatMap fun entry =>
        entry.toSiteMenuLink :: entry.children).map some =
          ((shownOrder rows).filter fun row => Offered urlProtocol s audience rows row).map
            (linkFor urlProtocol s audience) := by
  have h := twoLevels_of_run h₀ hrun
  refine ⟨⟨h.hung, h.acyclic⟩, fun placements => ?_, fun parentId ids s' hok => ?_,
    fun pageId rows s' hrows hok => ?_, fun rows audience hrows => ?_⟩
  · match hok : arrange s placements with
    | .error e => exact .inl ⟨e, rfl, rfl⟩
    | .ok s' =>
      obtain ⟨-, ⟨hpages, hentries⟩, hall, hparents, horder⟩ := arrange_ok h hok
      exact .inr ⟨s', rfl, hpages, hentries, hall, hparents, horder⟩
  · exact (reorder_ok hok).2
  · obtain ⟨hpages, -, hentries, horder⟩ := hidePage_ok h hrows hok
    exact ⟨hpages, hentries, horder⟩
  · exact ⟨(shownOrder_perm h hrows).trans hrows.perm, siteMenu_eq h hrows⟩

section PromotedChild

/-- A page of the association's, under its own name. -/
def titledPage (id title : String) : MenuPage where
  id := id
  slug := id
  title := title
  status := .PUBLIC
  frontPage := false
  builtIn := none
  revision := 1

def pageEntry (pageId label : String) (parentId : Option String) (sortOrder createdAt : Int) :
    MenuItem where
  id := pageId
  label := label
  kind := .PAGE
  pageId := some pageId
  url := none
  parentId := parentId
  membersOnly := false
  sortOrder := sortOrder
  createdAt := createdAt

def threePages : List MenuPage :=
  [titledPage "house" "The house", titledPage "laundry" "Laundry", titledPage "board" "The board"]

/-- Laundry hangs under the house, the board stands beside it. -/
def twoLevelMenu : MenuStore where
  items := [pageEntry "house" "The house" none 0 7, pageEntry "laundry" "Laundry" (some "house") 0 8,
    pageEntry "board" "The board" none 1 8]
  pages := threePages

def withoutHouse : MenuStore where
  items := [pageEntry "laundry" "Laundry" none 0 8, pageEntry "board" "The board" none 1 8]
  pages := threePages

/-- A menu of two levels is put together, and the page is taken out that another hangs under: what
hung there stands in its place. -/
theorem menu_of_promotedChild : Hung twoLevelMenu.items ∧
    hidePage twoLevelMenu "house" twoLevelMenu.items = .ok withoutHouse ∧
    WithoutPage twoLevelMenu withoutHouse "house" := by
  have hempty : TwoLevels (⟨[], threePages⟩ : MenuStore).items := by
    refine ⟨List.nodup_nil, ?_⟩
    intro row hrow
    cases hrow
  have hhouse : MenuStep (fun _ => none) ⟨[], threePages⟩
      ⟨[pageEntry "house" "The house" none 0 7], threePages⟩ :=
    .showPage "house" "house" 7 (by decide +kernel)
  have hlaundry : MenuStep (fun _ => none) ⟨[pageEntry "house" "The house" none 0 7], threePages⟩
      ⟨[pageEntry "house" "The house" none 0 7,
        pageEntry "laundry" "Laundry" (some "house") 0 8], threePages⟩ :=
    .create { kind := .PAGE, label := "", pageId := some "laundry", parentId := some "house" }
      "laundry" 8 (by decide +kernel)
  have hboard : MenuStep (fun _ => none) ⟨[pageEntry "house" "The house" none 0 7,
      pageEntry "laundry" "Laundry" (some "house") 0 8], threePages⟩ twoLevelMenu :=
    .create { kind := .PAGE, label := " The board ", pageId := some "board" } "board" 8
      (by decide +kernel)
  have hrun := ((Relation.ReflTransGen.single hhouse).tail hlaundry).tail hboard
  obtain ⟨⟨hhung, -⟩, -, -, hhide, -⟩ := menu_of_run hempty hrun
  have hok : hidePage twoLevelMenu "house" twoLevelMenu.items = .ok withoutHouse := by
    decide +kernel
  refine ⟨hhung, hok, hhide "house" twoLevelMenu.items withoutHouse ⟨?_, ?_⟩ hok⟩
  · exact .refl _
  · decide

end PromotedChild

end OpenBrf.Site
