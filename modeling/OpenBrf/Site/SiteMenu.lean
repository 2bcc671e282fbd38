import OpenBrf.Site.MenuEffects

/-!
# Site.SiteMenu — the menu as a visitor is shown it (`menu.service.ts`)
-/

namespace OpenBrf.Site

open Listing Lang

structure MenuAudience where
  /-- Whether the visitor carries a session. -/
  hasSession : Bool
  /-- Whether the association takes account requests from its website. -/
  selfSignupEnabled : Bool
  deriving DecidableEq, Repr

structure SiteMenuLink where
  label : String
  href : String
  external : Bool
  deriving DecidableEq, Repr

structure SiteMenuEntry extends SiteMenuLink where
  children : List SiteMenuLink
  deriving DecidableEq, Repr

/-- Whether a built-in page's entry is offered to this visitor. -/
def builtInOffered (builtIn : BuiltInPage) (audience : MenuAudience) : Bool :=
  if builtIn = .REQUEST_ACCOUNT then audience.selfSignupEnabled && !audience.hasSession else true

/-- The rows hanging under each entry, in the order the board put them in. -/
def childrenOf (rows : List MenuItem) : List (String × List MenuItem) :=
  rows.foldl (fun children row => match row.parentId with
    | none => children
    | some parentId => pushKey parentId row children) []

variable (urlProtocol : UrlProtocol) (s : MenuStore) (audience : MenuAudience)

/-- What one row becomes for this visitor, or nothing at all. -/
def linkFor (row : MenuItem) : Option SiteMenuLink :=
  if row.membersOnly && !audience.hasSession then none
  else match row.kind with
    | .PAGE => match row.pageId.bind (findPage s) with
      | none => none
      | some page =>
        if page.status = .DRAFT then none
        else if page.status = .MEMBERS_ONLY && !audience.hasSession then none
        else if page.builtIn.any fun builtIn => !builtInOffered builtIn audience then none
        else some ⟨row.label, "/" ++ page.slug, false⟩
    | .EXTERNAL => match row.url with
      | none => none
      | some url =>
        if isMenuExternalUrl urlProtocol url then some ⟨row.label, url, true⟩ else none

/-- The menu, as this visitor is allowed to see it, from the rows in order. -/
def siteMenu (rows : List MenuItem) : List SiteMenuEntry :=
  rows.filterMap fun row =>
    if row.parentId ≠ none then none
    else (linkFor urlProtocol s audience row).map fun link => { link with
      children := ((getKey row.id (childrenOf rows)).getD []).filterMap
        (linkFor urlProtocol s audience) }

/-! ### Who may follow what -/

/-- Whether a visitor may follow an entry: it is not kept from them, and neither is what it points
at. -/
def MayFollow (row : MenuItem) : Prop :=
  (row.membersOnly = true → audience.hasSession = true) ∧
    match row.kind with
    | .PAGE => ∃ pageId ∈ row.pageId, ∃ page, findPage s pageId = some page ∧
      page.status ≠ .DRAFT ∧ (page.status = .MEMBERS_ONLY → audience.hasSession = true) ∧
        (page.builtIn = some .REQUEST_ACCOUNT →
          audience.selfSignupEnabled = true ∧ audience.hasSession = false)
    | .EXTERNAL => ∃ url ∈ row.url, isMenuExternalUrl urlProtocol url = true

variable {urlProtocol s audience}

theorem builtInOffered_iff {builtIn : Option BuiltInPage} :
    (builtIn.any fun builtIn => !builtInOffered builtIn audience) = false ↔
      (builtIn = some .REQUEST_ACCOUNT →
        audience.selfSignupEnabled = true ∧ audience.hasSession = false) := by
  cases builtIn with
  | none => simp
  | some page => cases page <;> simp [builtInOffered]

theorem linkFor_isSome {row : MenuItem} :
    (linkFor urlProtocol s audience row).isSome = true ↔ MayFollow urlProtocol s audience row := by
  unfold linkFor MayFollow
  by_cases hkept : (row.membersOnly && !audience.hasSession) = true
  · rw [if_pos hkept]
    have hboth : row.membersOnly = true ∧ audience.hasSession = false := by simpa using hkept
    simp [hboth.1, hboth.2]
  · rw [if_neg hkept]
    have hopen : row.membersOnly = true → audience.hasSession = true := by simpa using hkept
    rw [and_iff_right hopen]
    cases row.kind with
    | PAGE =>
      cases row.pageId with
      | none => simp
      | some pageId =>
        cases hfind : findPage s pageId with
        | none => simp [hfind]
        | some page =>
          simp only [Option.bind_some, hfind]
          have hoffered := @builtInOffered_iff audience page.builtIn
          split_ifs with hdraft hmembers hbuiltIn
          · simp [hdraft, hfind]
          · have hboth : page.status = .MEMBERS_ONLY ∧ audience.hasSession = false := by
              simpa using hmembers
            simp [hfind, hboth.1, hboth.2]
          · rw [hbuiltIn] at hoffered
            have hnot : ¬ (page.builtIn = some .REQUEST_ACCOUNT →
                audience.selfSignupEnabled = true ∧ audience.hasSession = false) :=
              fun h => absurd (hoffered.mpr h) (by decide)
            simp [hfind, hnot]
          · rw [Bool.not_eq_true] at hbuiltIn
            have hsession : page.status = .MEMBERS_ONLY → audience.hasSession = true := by
              simpa using hmembers
            simp only [Option.isSome_some, true_iff]
            exact ⟨pageId, rfl, page, hfind, hdraft, hsession, hoffered.mp hbuiltIn⟩
    | EXTERNAL =>
      cases row.url with
      | none => simp
      | some url => by_cases hurl : isMenuExternalUrl urlProtocol url = true <;> simp [hurl]

instance (row : MenuItem) : Decidable (MayFollow urlProtocol s audience row) :=
  decidable_of_iff _ linkFor_isSome

/-- Whether an entry is offered: the visitor may follow it, and what it hangs from. -/
def Offered (urlProtocol : UrlProtocol) (s : MenuStore) (audience : MenuAudience)
    (rows : List MenuItem) (row : MenuItem) : Prop :=
  MayFollow urlProtocol s audience row ∧ ∀ parent ∈ rows, row.parentId = some parent.id →
    MayFollow urlProtocol s audience parent

instance (rows : List MenuItem) : DecidablePred (Offered urlProtocol s audience rows) :=
  fun _ => inferInstanceAs (Decidable (_ ∧ _))

theorem getKey_childrenOf (id : String) : ∀ (rows : List MenuItem)
    (children : List (String × List MenuItem)),
    (getKey id (rows.foldl (fun children row => match row.parentId with
      | none => children
      | some parentId => pushKey parentId row children) children)).getD [] =
      (getKey id children).getD [] ++ rows.filter fun row => row.parentId = some id
  | [], children => by simp
  | row :: rows, children => by
    rw [List.foldl_cons, getKey_childrenOf id rows]
    cases hparent : row.parentId with
    | none => simp [hparent]
    | some parentId =>
      dsimp only
      unfold pushKey
      rw [getKey_setKey]
      by_cases hid : id = parentId
      · rw [if_pos hid, List.filter_cons_of_pos (by simp [hparent, hid]), hid, Option.getD_some,
          List.append_assoc]
        rfl
      · rw [if_neg hid, List.filter_cons_of_neg (by simpa [hparent] using Ne.symm hid)]

/-- **The menu a visitor is shown** is the entries offered, in reading order. -/
theorem siteMenu_eq (h : TwoLevels s.items) {rows : List MenuItem}
    (hrows : Reads InOrder s.items rows) :
    ((siteMenu urlProtocol s audience rows).flatMap fun entry =>
      entry.toSiteMenuLink :: entry.children).map some =
        ((shownOrder rows).filter fun row => Offered urlProtocol s audience rows row).map
          (linkFor urlProtocol s audience) := by
  have hunique := nodup_ids_of_reads h hrows
  unfold siteMenu shownOrder
  rw [flatMap_filterMap, List.filter_flatMap, flatMap_filter, List.map_flatMap, List.map_flatMap]
  refine List.flatMap_congr fun row hrow => ?_
  by_cases htop : row.parentId = none
  · have hchildren : (getKey row.id (childrenOf rows)).getD [] =
        rows.filter fun child => child.parentId = some row.id := by
      unfold childrenOf
      rw [getKey_childrenOf]
      rfl
    have hoffered : Offered urlProtocol s audience rows row ↔
        MayFollow urlProtocol s audience row :=
      and_iff_left fun parent _ hparent => by rw [htop] at hparent; cases hparent
    -- a child hangs from this row alone
    have hchild : ∀ child ∈ rows.filter (fun child => child.parentId = some row.id),
        (Offered urlProtocol s audience rows child ↔
          MayFollow urlProtocol s audience child ∧ MayFollow urlProtocol s audience row) := by
      intro child hchild
      have hhangs := of_decide_eq_true (List.mem_filter.mp hchild).2
      refine and_congr_right fun _ => ⟨fun hall => hall row hrow hhangs, fun hrow' parent hparent
        heq => ?_⟩
      rw [hhangs] at heq
      rw [← List.inj_on_of_nodup_map hunique hrow hparent (Option.some.inj heq)]
      exact hrow'
    rw [if_neg (not_not.mpr htop), if_pos (decide_eq_true htop), hchildren]
    match hlink : linkFor urlProtocol s audience row with
    | none =>
      have hnot : ¬ MayFollow urlProtocol s audience row := by
        rw [← linkFor_isSome, hlink]
        exact Bool.false_ne_true
      have hnone : (row :: rows.filter fun child => child.parentId = some row.id).filter
          (fun row => Offered urlProtocol s audience rows row) = [] := by
        refine List.filter_eq_nil_iff.mpr fun other hother hoffer => ?_
        rcases List.mem_cons.mp hother with rfl | hother
        · exact hnot (hoffered.mp (of_decide_eq_true hoffer))
        · exact hnot ((hchild other hother).mp (of_decide_eq_true hoffer)).2
      rw [hnone]
      rfl
    | some link =>
      have hmay : MayFollow urlProtocol s audience row := by
        rw [← linkFor_isSome, hlink]
        rfl
      have hsame : (rows.filter fun child => child.parentId = some row.id).filter
          (fun row => Offered urlProtocol s audience rows row) =
            (rows.filter fun child => child.parentId = some row.id).filter
              fun child => (linkFor urlProtocol s audience child).isSome := by
        refine List.filter_congr fun child hmem => ?_
        rw [Bool.eq_iff_iff, decide_eq_true_eq, hchild child hmem, linkFor_isSome,
          and_iff_left hmay]
      rw [List.filter_cons, if_pos (decide_eq_true (hoffered.mpr hmay)), hsame, List.map_cons,
        ← map_some_filterMap, hlink]
      rfl
  · simp [htop]

end OpenBrf.Site
