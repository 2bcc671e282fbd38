import OpenBrf.Listing.Reads
import OpenBrf.Site.Page

/-!
# Site.MenuWrite — arranging the site menu (`menu-write.service.ts`, `pages-write.service.ts`)

Every write holds the menu lock from its first statement, so a write is a function of the store it
finds; one that throws leaves it.  What an ordered query answers is given with the write that asks.
The audit log and the views are left out.  `new URL` is a parameter.
-/

namespace OpenBrf.Site

open Lang Listing

inductive MenuItemKind where
  | PAGE
  | EXTERNAL
  deriving DecidableEq, Repr

structure MenuItem where
  id : String
  label : String
  kind : MenuItemKind
  pageId : Option String
  url : Option String
  parentId : Option String
  membersOnly : Bool
  sortOrder : Int
  createdAt : Int
  deriving DecidableEq, Repr

/-- A page, as far as the menu and the removal of a page read it. -/
structure MenuPage where
  id : String
  slug : String
  title : String
  status : PageStatus
  frontPage : Bool
  builtIn : Option BuiltInPage
  revision : ℕ
  deriving DecidableEq, Repr

structure MenuStore where
  items : List MenuItem := []
  pages : List MenuPage := []
  deriving DecidableEq, Repr

inductive MenuWriteReason where
  | notFound
  | parentNotFound
  | pageNotFound
  | invalidUrl
  | labelRequired
  | labelTooLong
  | targetRequired
  | nestingTooDeep
  | menuChanged
  deriving DecidableEq, Repr

inductive MenuFailure where
  | menuWrite (message : String) (reason : MenuWriteReason)
  | pageWrite (message : String) (reason : PageWriteReason)
  | uniqueKey
  deriving DecidableEq, Repr

abbrev MenuTx := Except MenuFailure

def refuse {α : Type} (message : String) (reason : MenuWriteReason) : MenuTx α :=
  throw (.menuWrite message reason)

def refuseIf (c : Prop) [Decidable c] (e : MenuFailure) : MenuTx Unit :=
  if c then throw e else pure ()

/-- A write that throws is rolled back. -/
def settle (s : MenuStore) : MenuTx MenuStore → MenuStore
  | .ok s' => s'
  | .error _ => s

/-! ### The order of the menu -/

/-- `orderBy: [{ sortOrder: "asc" }, { createdAt: "asc" }]` -/
def InOrder (a b : MenuItem) : Prop :=
  a.sortOrder < b.sortOrder ∨ a.sortOrder = b.sortOrder ∧ a.createdAt ≤ b.createdAt

instance : DecidableRel InOrder := fun _ _ => inferInstanceAs (Decidable (_ ∨ _))

/-! ### What an entry may point at -/

/-- `LIMITS.link` -/
def LINK_LIMIT : ℕ := 2000

def hasControlCharacter (value : String) : Bool :=
  value.toList.any fun c => c.toNat ≤ 0x20 || c.toNat = 0x7f

/-- The protocol of an address, as `new URL` reads it, or none when it throws. -/
abbrev UrlProtocol := String → Option String

variable (urlProtocol : UrlProtocol)

/-- The rule `PageBlocks.LinkRule` has over code units, of a text and for any reader of its
protocol. -/
def isPublishableUrl (value : String) : Bool :=
  if value = "" ∨ LINK_LIMIT < lengthOf value then false
  else if value.toList.contains '\\' || hasControlCharacter value then false
  else if value.startsWith "/" then !value.startsWith "//"
  else match urlProtocol value with
    | none => false
    | some protocol => protocol ∈ ["http:", "https:", "mailto:"]

def isMenuExternalUrl (value : String) : Bool :=
  isPublishableUrl urlProtocol value && urlProtocol value = some "https:"

def LABEL_LIMIT : ℕ := 60

def titleAsLabel (title : String) : String := String.ofList (takeUnits LABEL_LIMIT title.toList)

def requireFittingLabel (label : String) : MenuTx String :=
  if LABEL_LIMIT < lengthOf label then
    refuse "A menu label has to fit a menu on a telephone." .labelTooLong
  else pure label

def requireLabel (label : String) : MenuTx String :=
  if label = "" then
    refuse "This menu entry has no title to borrow, so it needs one of its own." .labelRequired
  else pure label

structure MenuItemInput where
  kind : MenuItemKind
  label : String
  pageId : Option String := none
  url : Option String := none
  parentId : Option String := none
  membersOnly : Option Bool := none
  deriving Repr

structure Target where
  label : String
  pageId : Option String
  url : Option String

def findPage (s : MenuStore) (pageId : String) : Option MenuPage :=
  s.pages.find? fun page => page.id = pageId

def findItem (s : MenuStore) (id : String) : Option MenuItem := s.items.find? fun row => row.id = id

def resolveTarget (s : MenuStore) (input : MenuItemInput) : MenuTx Target := do
  let label ← requireFittingLabel (trim input.label)
  match input.kind with
  | .PAGE =>
    let pageId := input.pageId.getD ""
    if pageId = "" then refuse "A page entry has to name a page." .targetRequired
    else match findPage s pageId with
      | none => refuse "There is no such page." .pageNotFound
      | some page =>
        pure ⟨if label = "" then titleAsLabel page.title else label, some page.id, none⟩
  | .EXTERNAL =>
    let url := trim (input.url.getD "")
    if isMenuExternalUrl urlProtocol url = false then
      refuse "A menu entry may only link to an https address." .invalidUrl
    else do
      let label ← requireLabel label
      pure ⟨label, none, some url⟩

/-! ### Where an entry may hang -/

/-- The position at the end of one level. -/
def nextSortOrder (s : MenuStore) (parentId : Option String) : Int :=
  (((s.items.filter fun row => row.parentId = parentId).map (·.sortOrder)).max?.getD (-1)) + 1

/-- The parent an entry may hang from, or nothing for the top level. -/
def requirePlaceableParent (s : MenuStore) (parentId movingId : Option String) :
    MenuTx (Option String) :=
  match parentId with
  | none => pure none
  | some wanted =>
    if some wanted = movingId then
      refuse "A menu entry cannot hang from itself." .nestingTooDeep
    else match findItem s wanted with
      | none => refuse "There is no such menu entry to hang this one from." .parentNotFound
      | some parent =>
        if parent.parentId ≠ none then
          refuse "The menu has a top level and one dropdown level, and no more." .nestingTooDeep
        else if movingId ≠ none ∧ ∃ row ∈ s.items, row.parentId = movingId then
          refuse "This entry has entries of its own, so it cannot be put inside another."
            .nestingTooDeep
        else pure (some wanted)

/-! ### The writes -/

def insert (s : MenuStore) (row : MenuItem) : MenuTx MenuStore := do
  refuseIf (∃ other ∈ s.items, other.id = row.id) .uniqueKey
  pure { s with items := s.items ++ [row] }

/-- Adds an entry at the end of its level. -/
def create (s : MenuStore) (input : MenuItemInput) (id : String) (createdAt : Int) :
    MenuTx MenuStore := do
  let parentId ← requirePlaceableParent s input.parentId none
  let target ← resolveTarget urlProtocol s input
  insert s {
    id, createdAt, parentId
    label := target.label
    kind := input.kind
    pageId := target.pageId
    url := target.url
    membersOnly := input.membersOnly.getD false
    sortOrder := nextSortOrder s parentId }

/-- Writes over the entry that has an identifier. -/
def writeItem (items : List MenuItem) (id : String) (f : MenuItem → MenuItem) : List MenuItem :=
  items.map fun row => if row.id = id then f row else row

/-- Rewrites an entry: what it says, what it points at, and where it hangs. -/
def update (s : MenuStore) (id : String) (input : MenuItemInput) : MenuTx MenuStore :=
  match findItem s id with
  | none => refuse "There is no such menu entry." .notFound
  | some existing => do
    let parentId ← requirePlaceableParent s input.parentId (some existing.id)
    let target ← resolveTarget urlProtocol s input
    pure { s with items := writeItem s.items id fun row => { row with
      label := target.label
      kind := input.kind
      pageId := target.pageId
      url := target.url
      membersOnly := input.membersOnly.getD existing.membersOnly
      parentId := parentId
      sortOrder := if parentId = existing.parentId then row.sortOrder
        else nextSortOrder s parentId } }

/-- Gives each entry of a level the place its identifier has in the list. -/
def placeInLevel (parentId : Option String) : List (String × ℕ) → List MenuItem → List MenuItem
  | [], items => items
  | (id, index) :: rest, items => placeInLevel parentId rest (items.map fun row =>
      if row.id = id ∧ row.parentId = parentId then { row with sortOrder := index } else row)

/-- Puts one level in the order the ids arrive in. -/
def reorder (s : MenuStore) (parentId : Option String) (ids : List String) : MenuTx MenuStore :=
  pure { s with items := placeInLevel parentId ids.zipIdx s.items }

/-- One entry's place in a whole arrangement of the menu. -/
structure MenuPlacement where
  id : String
  parentId : Option String
  deriving DecidableEq, Repr

def placeAll : List MenuPlacement → List (Option String × ℕ) → List MenuItem → List MenuItem
  | [], _, items => items
  | placement :: rest, positions, items =>
    let sortOrder := (getKey placement.parentId positions).getD 0
    placeAll rest (setKey placement.parentId (sortOrder + 1) positions)
      (writeItem items placement.id fun row =>
        { row with parentId := placement.parentId, sortOrder := sortOrder })

/-- Whether the placements name exactly the entries the menu has. -/
def namesMenu (s : MenuStore) (placements : List MenuPlacement) : Prop :=
  ((placements.map (·.id)).dedup.length = placements.length ∧
    (placements.map (·.id)).dedup.length = s.items.length) ∧
      ∀ placement ∈ placements, placement.id ∈ s.items.map (·.id)

instance (s : MenuStore) (placements : List MenuPlacement) : Decidable (namesMenu s placements) :=
  inferInstanceAs (Decidable (_ ∧ _))

/-- Puts the whole menu in the arrangement it arrives in. -/
def arrange (s : MenuStore) (placements : List MenuPlacement) : MenuTx MenuStore := do
  refuseIf (¬ namesMenu s placements) <|
    .menuWrite "The menu has changed since it was read." .menuChanged
  let topLevel := (placements.filter fun placement => placement.parentId = none).map (·.id)
  refuseIf (∃ placement ∈ placements, ∃ parentId ∈ placement.parentId, parentId ∉ topLevel) <|
    .menuWrite "The menu has a top level and one dropdown level, and no more." .nestingTooDeep
  pure { s with items := placeAll placements [] s.items }

/-- Puts a page in the menu, at the end of the top level, named for its title. -/
def showPage (s : MenuStore) (pageId id : String) (createdAt : Int) : MenuTx MenuStore :=
  match findPage s pageId with
  | none => refuse "There is no such page." .pageNotFound
  | some page =>
    if ∃ row ∈ s.items, row.pageId = some pageId then pure s
    else insert s {
      id, createdAt
      label := titleAsLabel page.title
      kind := .PAGE
      pageId := some page.id
      url := none
      parentId := none
      membersOnly := false
      sortOrder := nextSortOrder s none }

/-- What the database deletes with rows: what hangs under them, and what hangs under that. -/
def cascade : ℕ → List MenuItem → List MenuItem → List MenuItem
  | 0, _, kept => kept
  | n + 1, gone, kept =>
    cascade n (kept.filter fun row => ∃ parent ∈ gone, row.parentId = some parent.id)
      (kept.filter fun row => ¬ ∃ parent ∈ gone, row.parentId = some parent.id)

def deleteItems (items : List MenuItem) (p : MenuItem → Bool) : List MenuItem :=
  cascade items.length (items.filter p) (items.filter fun row => !p row)

/-- The entries hanging under one, that are not taken out. -/
def promotedUnder (rows : List MenuItem) (removed : List String) (id : String) : List String :=
  (rows.filter fun child => child.parentId = some id ∧ child.id ∉ removed).map (·.id)

/-- The top level as it will read: where an entry is taken out, what hung under it stands in its
place. -/
def topLevelWithout (rows : List MenuItem) (removed : List String) : List String :=
  (rows.filter fun row => row.parentId = none).flatMap fun row =>
    if row.id ∈ removed then promotedUnder rows removed row.id else [row.id]

/-- Takes a page out of the menu: every entry that points at it.  `rows` is what the ordered query
answers. -/
def hidePage (s : MenuStore) (pageId : String) (rows : List MenuItem) : MenuTx MenuStore :=
  match findPage s pageId with
  | none => refuse "There is no such page." .pageNotFound
  | some _ =>
    let entries := s.items.filter fun row => row.pageId = some pageId
    if entries = [] then pure s
    else
      let removed := entries.map (·.id)
      let topLevel := topLevelWithout rows removed
      let promoted : List String := (rows.filter fun row =>
        (∃ parentId ∈ row.parentId, parentId ∈ removed) ∧ row.id ∉ removed).map (·.id)
      let released := s.items.map fun row : MenuItem =>
        if row.id ∈ promoted then { row with parentId := none } else row
      let kept := deleteItems released fun row => row.id ∈ removed
      pure { s with items := topLevel.zipIdx.foldl (fun items place =>
        writeItem items place.1 fun row => { row with sortOrder := place.2 }) kept }

/-- Removes an entry, and whatever hung under it. -/
def remove (s : MenuStore) (id : String) : MenuTx MenuStore :=
  match findItem s id with
  | none => refuse "There is no such menu entry." .notFound
  | some _ => pure { s with items := deleteItems s.items fun row => row.id = id }

/-- Removes a page (`PagesWriteService.remove`): its entries go with it, by cascade.  The page as it
was read before the lock is given. -/
def removePage (s : MenuStore) (page : MenuPage) (expectedRevision : Option ℕ) :
    MenuTx MenuStore := do
  refuseIf (page.builtIn ≠ none) (.pageWrite "A built-in page is not removed." .builtIn)
  refuseIf (page.frontPage = true) <| .pageWrite
    "The page is the front page. Choose another front page first." .frontPage
  let deleted : MenuPage → Bool := fun row =>
    row.id = page.id && !row.frontPage && expectedRevision.all (row.revision = ·)
  refuseIf (s.pages.all fun row => !deleted row) <|
    .pageWrite "The page changed after it was read." .pageChanged
  pure {
    items := deleteItems s.items fun row => row.pageId = some page.id
    pages := s.pages.filter fun row => !deleted row }

end OpenBrf.Site
