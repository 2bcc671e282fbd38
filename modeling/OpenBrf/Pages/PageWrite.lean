import OpenBrf.Site.Page
import OpenBrf.Txn.Program

/-!
# Pages.PageWrite — writing the website's pages (`pages-write.service.ts`)

A body is the list of its blocks; what a block says and which files it shows is asked of the block
registry, a parameter, and so is the scan for personal identity numbers.  The log stands for the
audit log: an entry also keeps what its request stated.  An identifier is not drawn again once its
page is removed.  The menu's own rows are left out.
-/

namespace OpenBrf.Pages

open Txn
open Site (PageStatus BuiltInPage PageWriteReason isPublished)

/-- What a block of a page says. -/
structure PageTextPart where
  words : String
  addresses : List String
  unreadableAddress : Bool
  deriving Repr

/-- What the writes ask of code of its own: the block registry, the scanner and the rules for
addresses. -/
structure PageRules (β : Type) where
  text : β → PageTextPart
  media : β → List String
  scanForPersonalIdentityNumbers : String → List ℕ
  slugFromTitle : String → String
  isUsableSlug : String → Bool

inductive PagePart where
  | title
  | block
  deriving DecidableEq, Repr

structure PageTextLocation where
  part : PagePart
  index : ℕ
  offset : Option ℕ
  deriving DecidableEq, Repr

structure PageContent (β : Type) where
  blocks : List β
  deriving DecidableEq, Repr

structure Page (β : Type) where
  id : String
  slug : String
  slugFollowsTitle : Bool
  title : String
  content : PageContent β
  status : PageStatus
  publishedAt : Option Int
  frontPage : Bool
  builtIn : Option BuiltInPage
  sortOrder : Int
  createdAt : Int
  revision : ℕ
  deriving DecidableEq, Repr

structure MediaFile where
  id : String
  isPublic : Bool
  showsIdentifiablePersons : Option Bool
  deriving DecidableEq, Repr

/-- An entry of the audit log, with what its request stated. -/
inductive PageEntry where
  /-- `PAGE_CONTENT_CHANGED`, `created` -/
  | created (pageId : String) (typed : Option String)
  /-- `PAGE_CONTENT_CHANGED` -/
  | contentChanged (pageId : String) (typed : Option String) (expectedRevision : Option ℕ)
  /-- `PAGE_PUBLISHED` or `PAGE_VISIBILITY_CHANGED` -/
  | statusChanged (pageId : String) (status : PageStatus) (expectedRevision : Option ℕ)
  /-- `PAGE_FRONT_PAGE_CHANGED` -/
  | frontPageChanged (pageId : String) (previous : Option String) (expectedRevision : Option ℕ)
  /-- `PAGE_PUBLISHED`, `deleted`; a draft's removal leaves no entry in the source. -/
  | removed (pageId : String) (expectedRevision : Option ℕ)
  deriving DecidableEq, Repr

structure PageStore (β : Type) where
  pages : List (Page β) := []
  media : List MediaFile := []
  /-- The identifiers of the pages that have been removed. -/
  retired : List String := []
  /-- The newest entry first. -/
  log : List PageEntry := []
  deriving DecidableEq

/-- The advisory keys, rows of the table, and keys of the index on the address: who writes an
address waits for whoever else is writing it. -/
inductive PageLock where
  /-- `site-front-page` -/
  | frontPage
  /-- `site-menu` -/
  | menu
  /-- `site-page-order` -/
  | pageOrder
  | page (id : String)
  | slug (slug : String)
  deriving DecidableEq, Repr

inductive PageFailure where
  | pageWrite (message : String) (reason : PageWriteReason) (found : List PageTextLocation)
  | uniqueKey
  /-- `P2025` -/
  | recordNotFound
  deriving DecidableEq, Repr

abbrev PageTx (β α : Type) := Prog (PageStore β) PageLock String PageFailure α

variable {β : Type}

def pageError (message : String) (reason : PageWriteReason) : PageFailure :=
  .pageWrite message reason []

def pageChanged : PageFailure := pageError "The page changed after it was read." .pageChanged

def PageStore.record (s : PageStore β) (entry : PageEntry) : PageStore β :=
  { s with log := entry :: s.log }

def findPageById (s : PageStore β) (id : String) : Option (Page β) :=
  s.pages.find? fun page => page.id = id

/-- Writes over the page that has an identifier. -/
def PageStore.writePage (s : PageStore β) (id : String) (f : Page β → Page β) : PageStore β :=
  { s with pages := s.pages.map fun page => if page.id = id then f page else page }

/-! ### The guardrails -/

section Rules

variable (rules : PageRules β)

def identityNumbersInBody (content : PageContent β) : List PageTextLocation :=
  content.blocks.zipIdx.flatMap fun (block, index) =>
    let part := rules.text block
    (rules.scanForPersonalIdentityNumbers part.words).map (⟨.block, index, some ·⟩) ++
      if part.unreadableAddress || part.addresses.any fun address =>
          rules.scanForPersonalIdentityNumbers address ≠ []
      then [⟨.block, index, none⟩] else []

/-- Where a page carries a personal identity number. -/
def identityNumbers (title : String) (content : PageContent β) : List PageTextLocation :=
  (rules.scanForPersonalIdentityNumbers title).map (⟨.title, 0, some ·⟩) ++
    identityNumbersInBody rules content

def refusePersonalIdentityNumbers (title : String) (content : PageContent β) : PageTx β Unit :=
  refuseIf (identityNumbers rules title content ≠ []) <| .pageWrite
    "The page carries a personal identity number and cannot be published."
    .personalIdentityNumber (identityNumbers rules title content)

/-- The stored files a body refers to, with the block each reference sits in. -/
def imageReferences (content : PageContent β) : List (ℕ × String) :=
  content.blocks.zipIdx.flatMap fun (block, index) => (rules.media block).map (index, ·)

def blocksAt (references : List (ℕ × String)) : List PageTextLocation :=
  references.map fun reference => ⟨.block, reference.1, none⟩

def refuseUnconsentedPictures (content : PageContent β) (photoConsentConfirmed : Bool) :
    PageTx β Unit := do
  let references := imageReferences rules content
  let s ← snapshot
  let fileOf := fun (reference : ℕ × String) => s.media.find? fun file => file.id = reference.2
  let missing := references.filter fun reference => (fileOf reference).isNone
  let notPublic := references.filter fun reference => (fileOf reference).any (!·.isPublic)
  let identifiable := references.filter fun reference =>
    (fileOf reference).any fun file => file.isPublic && file.showsIdentifiablePersons = some true
  refuseIf (missing ≠ []) <| .pageWrite
    "The page refers to a picture this instance does not hold." .imageNotFound (blocksAt missing)
  refuseIf (notPublic ≠ []) <| .pageWrite
    "The page refers to a picture that is not served publicly." .imageNotPublic
    (blocksAt notPublic)
  refuseIf (identifiable ≠ [] ∧ photoConsentConfirmed = false) <| .pageWrite
    ("A picture on the page shows identifiable persons, and the publication consents have not " ++
      "been confirmed.") .photoConsentRequired (blocksAt identifiable)

def enforceGuardrails (title : String) (content : PageContent β) (photoConsentConfirmed : Bool) :
    PageTx β Unit := do
  refusePersonalIdentityNumbers rules title content
  refuseUnconsentedPictures rules content photoConsentConfirmed

/-! ### Addresses -/

def require (id : String) : PageTx β (Page β) := do
  let s ← snapshot
  match findPageById s id with
  | none => fail (pageError "There is no such page." .notFound)
  | some page => pure page

def refuseStalePrecondition (page : Page β) (expectedRevision : Option ℕ) : PageTx β Unit :=
  refuseIf (∃ revision ∈ expectedRevision, revision ≠ page.revision) pageChanged

/-- Refuses an address a page may not have, or already has. -/
def requireFreeSlug (slug : String) (exceptPageId : Option String) : PageTx β Unit := do
  refuseIf (rules.isUsableSlug slug = false) <|
    pageError s!"The address /{slug} cannot be used for a page." .invalidSlug
  let s ← snapshot
  refuseIf (∃ page ∈ s.pages, page.slug = slug ∧ some page.id ≠ exceptPageId) <|
    pageError s!"The address /{slug} is already a page." .slugTaken

/-- An address that was sent is one a page may have. -/
def requireFreeTyped (typed : Option String) (exceptPageId : Option String) : PageTx β Unit :=
  match typed with
  | none => pure ()
  | some slug => requireFreeSlug rules slug exceptPageId

def PAGE_SLUG_MAX_LENGTH : ℕ := 80

def SLUG_NUMBERS : ℕ := 1000

def SLUG_ATTEMPTS : ℕ := 3

/-- The `n`th address to try for a slug. -/
def numberedSlug (slug : String) (n : ℕ) : String :=
  if n ≤ 1 then slug
  else
    let suffix := "-" ++ toString n
    let base := (slug.toList.take (PAGE_SLUG_MAX_LENGTH - suffix.length)).reverse.dropWhile (· = '-')
    String.ofList base.reverse ++ suffix

/-- The address a title gives a page: the title's own, or the first numbered one that is usable and
not another page's. -/
def freeSlugFor (title : String) (exceptPageId : Option String) : PageTx β String := do
  let base := rules.slugFromTitle title
  let start := String.ofList (base.toList.take (PAGE_SLUG_MAX_LENGTH - "-1000".length))
  let s ← snapshot
  let taken := (s.pages.filter fun page =>
    page.slug.startsWith start ∧ some page.id ≠ exceptPageId).map (·.slug)
  match ((List.range SLUG_NUMBERS).map fun n => numberedSlug base (n + 1)).find? fun candidate =>
      rules.isUsableSlug candidate ∧ candidate ∉ taken with
  | none => fail (pageError "Every address the title gives is already a page." .slugTaken)
  | some candidate => pure candidate

/-- Runs a write that takes an address.  Where another page took it, nothing was written: one made
from a title is tried again, a few times. -/
def withFreeSlug {α : Type} (slugFor : PageTx β String) (typed : Bool)
    (write : String → PageTx β (Option α)) : ℕ → PageTx β α
  | 0 => fail .uniqueKey
  | attempts + 1 => do
    let slug ← slugFor
    let written ← write slug
    match written with
    | some a => pure a
    | none =>
      if typed = false ∧ 0 < attempts then withFreeSlug slugFor typed write attempts
      else fail (pageError s!"The address /{slug} is already a page." .slugTaken)

/-- Takes an address in the index: whether no other page has it. -/
def takeSlug (slug id : String) : PageTx β Bool := do
  acquire (.slug slug) .exclusive
  let s ← snapshot
  pure (s.pages.all fun page => page.slug ≠ slug || page.id = id)

/-! ### One statement on one row -/

/-- A conditional write finds its row, waits for it, and finds it again as it then stands; one that
finds none is refused. -/
def claimPage (id : String) (matched : Page β → Bool) (missed : PageFailure) : PageTx β Unit := do
  let s ← snapshot
  refuseIf (∀ page ∈ s.pages, page.id = id → matched page = false) missed
  acquire (.page id) .exclusive
  let s ← snapshot
  refuseIf (∀ page ∈ s.pages, page.id = id → matched page = false) missed

/-! ### Create -/

structure CreatePageInput (β : Type) where
  slug : Option String
  title : String
  content : PageContent β

/-- `PRIVACY_NOTICE_SLUG` -/
def PRIVACY_NOTICE_SLUG : String := "integritetspolicy"

/-- A page the product wrote. -/
def Page.ofProduct (page : Page β) : Bool :=
  page.slug = PRIVACY_NOTICE_SLUG || page.builtIn ≠ none

/-- After the last page the board wrote. -/
def lastPlace (s : PageStore β) : Option Int :=
  ((s.pages.filter fun page => !page.ofProduct).map (·.sortOrder)).max?

/-- The product's pages at the end of the list, in order. -/
def pagesAtTheEnd (s : PageStore β) : List (Page β) :=
  (s.pages.filter fun page =>
    page.ofProduct && (lastPlace s).all (decide <| · < page.sortOrder)).mergeSort fun page other =>
      decide (page.sortOrder < other.sortOrder ∨
        page.sortOrder = other.sortOrder ∧ page.createdAt ≤ other.createdAt)

def movePage (place : String × Int) : PageTx β Unit := do
  claimPage place.1 (fun _ => true) .recordNotFound
  update fun s => s.writePage place.1 fun page => { page with sortOrder := place.2 }

/-- The sort order a new page is written with, after moving the pages the product wrote out of its
way when it has to. -/
def placeNewPage : PageTx β Int := do
  let s ← snapshot
  let placed := (lastPlace s).getD 0 + 1
  let s ← snapshot
  let atTheEnd := pagesAtTheEnd s
  let moves := if (atTheEnd.head?.any fun first => decide (first.sortOrder ≤ placed))
    then atTheEnd.zipIdx.map fun (page, index) => (page.id, placed + 1 + index) else []
  moves.forM movePage
  pure placed

/-- The page a request creates. -/
def CreatePageInput.page (input : CreatePageInput β) (now : Int) (id slug : String)
    (sortOrder : Int) : Page β where
  id := id
  slug := slug
  slugFollowsTitle := input.slug.isNone
  title := input.title
  content := input.content
  status := .DRAFT
  publishedAt := none
  frontPage := false
  builtIn := none
  sortOrder := sortOrder
  createdAt := now
  revision := 1

/-- The index is asked before anything is written, so a write that meets another's address leaves
nothing. -/
def createTx (input : CreatePageInput β) (now : Int) (slug : String) :
    PageTx β (Option (Page β)) := do
  acquire .pageOrder .exclusive
  let id ← fresh
  acquire (.page id) .exclusive
  let s ← snapshot
  refuseIf (id ∈ s.pages.map (·.id) ∨ id ∈ s.retired) .uniqueKey
  let free ← takeSlug slug id
  if free = false then pure none
  else do
    let sortOrder ← placeNewPage
    let created := input.page now id slug sortOrder
    update fun s => { s with pages := created :: s.pages }
    update (·.record (.created id input.slug))
    pure (some created)

def slugForNew (input : CreatePageInput β) : PageTx β String :=
  match input.slug with
  | some typed => pure typed
  | none => freeSlugFor rules input.title none

def create (input : CreatePageInput β) : PageTx β (Page β) := do
  let now ← readClock
  requireFreeTyped rules input.slug none
  withFreeSlug (slugForNew rules input) input.slug.isSome
    (fun slug => transaction (createTx input now slug)) SLUG_ATTEMPTS

/-! ### Update -/

structure UpdatePageInput (β : Type) where
  slug : Option String
  title : String
  content : PageContent β
  photoConsentConfirmed : Bool
  expectedRevision : Option ℕ

/-- The address that was typed, and whether the page keeps the one it has. -/
def addressRules (page : Page β) (input : UpdatePageInput β) : Option String × Bool :=
  (if page.builtIn = none then input.slug else none,
    !page.slugFollowsTitle ||
      rules.slugFromTitle input.title = rules.slugFromTitle page.title)

def slugForUpdate (page : Page β) (input : UpdatePageInput β) : PageTx β String :=
  let (typed, keepsSlug) := addressRules rules page input
  match typed with
  | some typed => pure typed
  | none => if keepsSlug then pure page.slug else freeSlugFor rules input.title (some page.id)

/-- The condition of the write: the copy the caller read, the status the guardrails were run for,
and the address state the address was worked out from. -/
def updateMatches (page : Page β) (input : UpdatePageInput β) (row : Page β) : Bool :=
  let (typed, keepsSlug) := addressRules rules page input
  row.status = page.status && input.expectedRevision.all (row.revision = ·) &&
    (typed.isSome || row.slugFollowsTitle = page.slugFollowsTitle &&
      (!keepsSlug || row.slug = page.slug))

/-- The row a save leaves. -/
def UpdatePageInput.writtenOver (input : UpdatePageInput β) (typed : Option String) (slug : String)
    (row : Page β) : Page β := { row with
  slug := slug
  slugFollowsTitle := if typed.isSome then false else row.slugFollowsTitle
  title := input.title
  content := input.content
  revision := row.revision + 1 }

def updateTx (page : Page β) (input : UpdatePageInput β) (slug : String) :
    PageTx β (Option Unit) := do
  let typed := (addressRules rules page input).1
  claimPage page.id (updateMatches rules page input) pageChanged
  let free ← takeSlug slug page.id
  if free = false then pure none
  else do
    update fun s => s.writePage page.id (input.writtenOver typed slug)
    update (·.record (.contentChanged page.id typed input.expectedRevision))
    pure (some ())

def enforceIfPublished (page : Page β) (input : UpdatePageInput β) : PageTx β Unit :=
  if isPublished page.status then
    enforceGuardrails rules input.title input.content input.photoConsentConfirmed
  else pure ()

/-- `PagesWriteService.update` -/
def updatePage (id : String) (input : UpdatePageInput β) : PageTx β Unit := do
  let page ← require id
  refuseIf (page.builtIn ≠ none ∧ (input.content.blocks.length > 0 ∨
      ∃ slug ∈ input.slug, slug ≠ page.slug)) <|
    pageError "What stands on a built-in page, and its address, are the product's." .builtIn
  let typed := (addressRules rules page input).1
  requireFreeTyped rules typed (some id)
  enforceIfPublished rules page input
  withFreeSlug (slugForUpdate rules page input) typed.isSome
    (fun slug => transaction (updateTx rules page input slug)) SLUG_ATTEMPTS

/-! ### Status, front page, removal -/

structure SetStatusInput where
  status : PageStatus
  photoConsentConfirmed : Bool
  expectedRevision : Option ℕ

/-- The row a change of status leaves; `publishedAt` is stamped once. -/
def SetStatusInput.writtenOver (input : SetStatusInput) (page : Page β) (now : Int)
    (row : Page β) : Page β := { row with
  status := input.status
  publishedAt := if isPublished input.status && page.publishedAt.isNone then some now
    else page.publishedAt
  slugFollowsTitle := if isPublished input.status then false else row.slugFollowsTitle
  revision := row.revision + 1 }

def setStatusTx (page : Page β) (input : SetStatusInput) : PageTx β Unit := do
  let now ← readClock
  claimPage page.id (fun row => row.revision = page.revision && row.status = page.status &&
    (input.status = .PUBLIC || !row.frontPage)) pageChanged
  update fun s => s.writePage page.id (input.writtenOver page now)
  update (·.record (.statusChanged page.id input.status input.expectedRevision))

def enforceIfPublishing (page : Page β) (input : SetStatusInput) : PageTx β Unit :=
  if isPublished input.status then
    enforceGuardrails rules page.title page.content input.photoConsentConfirmed
  else pure ()

/-- Gives a page its status; one it already has is not an event. -/
def setStatus (id : String) (input : SetStatusInput) : PageTx β Unit := do
  let page ← require id
  refuseIf (page.builtIn ≠ none ∧ input.status ≠ .PUBLIC)
    (pageError "A built-in page stays public." .builtIn)
  refuseStalePrecondition page input.expectedRevision
  if page.status = input.status then pure ()
  else do
    refuseIf (page.frontPage = true ∧ input.status ≠ .PUBLIC) <| pageError
      "The page is the front page. Choose another front page first." .frontPage
    enforceIfPublishing rules page input
    transaction (setStatusTx page input)

/-- A page with the front-page mark, or without it. -/
def Page.marked (page : Page β) (frontPage : Bool) : Page β := { page with frontPage }

@[simp] theorem Page.marked_id (page : Page β) (b : Bool) : (page.marked b).id = page.id := rfl

@[simp] theorem Page.marked_marked (page : Page β) (a b : Bool) :
    (page.marked a).marked b = page.marked b := rfl

theorem Page.marked_of_eq {page : Page β} {b : Bool} (h : page.frontPage = b) :
    page.marked b = page := by
  rw [← h]
  rfl

/-- The page that is the front page, if there is one. -/
def frontPageOf (s : PageStore β) : Option String := (s.pages.find? (·.frontPage)).map (·.id)

/-- Clears the front page there is. -/
def clearFrontPage (previous : Option String) : PageTx β Unit :=
  match previous with
  | none => pure ()
  | some previous => do
    claimPage previous (fun _ => true) .recordNotFound
    update fun s => s.writePage previous (·.marked false)

def setFrontPageTx (id : String) (expectedRevision : Option ℕ) : PageTx β Unit := do
  acquire .frontPage .exclusive
  let s ← snapshot
  let previous := frontPageOf s
  clearFrontPage previous
  claimPage id (fun row => row.status = .PUBLIC && expectedRevision.all (row.revision = ·))
    pageChanged
  update fun s => s.writePage id (·.marked true)
  update (·.record (.frontPageChanged id previous expectedRevision))

/-- Makes a page the one the root of the website serves. -/
def setFrontPage (id : String) (expectedRevision : Option ℕ) : PageTx β Unit := do
  let page ← require id
  refuseIf (page.builtIn ≠ none)
    (pageError "A built-in page cannot be the front page." .builtIn)
  refuseStalePrecondition page expectedRevision
  if page.frontPage then pure ()
  else do
    refuseIf (page.status ≠ .PUBLIC)
      (pageError "Only a public page can be the front page." .frontPageNotPublic)
    transaction (setFrontPageTx id expectedRevision)

def removeTx (id : String) (expectedRevision : Option ℕ) : PageTx β Unit := do
  acquire .menu .exclusive
  claimPage id (fun row => !row.frontPage && expectedRevision.all (row.revision = ·)) pageChanged
  update fun s => { s with
    pages := s.pages.filter fun page => page.id ≠ id
    retired := id :: s.retired }
  update (·.record (.removed id expectedRevision))

/-- `PagesWriteService.remove` -/
def removePageById (id : String) (expectedRevision : Option ℕ) : PageTx β Unit := do
  let page ← require id
  refuseIf (page.builtIn ≠ none) (pageError "A built-in page is not removed." .builtIn)
  refuseIf (page.frontPage = true) <| pageError
    "The page is the front page. Choose another front page first." .frontPage
  transaction (removeTx id expectedRevision)

end Rules

end OpenBrf.Pages
