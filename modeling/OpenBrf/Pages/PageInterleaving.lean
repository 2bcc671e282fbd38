import OpenBrf.Pages.PageActs
import OpenBrf.Txn.Safe

/-!
# Pages.PageInterleaving — the writes of the pages beside each other

A write reads its page, decides, and then claims the row on a condition.  Who holds a row finds it
as it was claimed, who holds an address finds nobody new on it, and who holds the front page finds
no new one; what was read before any lock is still somewhere behind the page there is.
-/

namespace OpenBrf.Pages

open Txn
open Site (PageStatus BuiltInPage PageWriteReason isPublished)

/-- What is called.  Media files are written by another module, in any way. -/
inductive PageCall {β : Type} (rules : PageRules β) : PageTx β Unit → Prop
  | create (input : CreatePageInput β) : PageCall rules (do let _ ← create rules input)
  | updatePage (id : String) (input : UpdatePageInput β) :
      PageCall rules (updatePage rules id input)
  | setStatus (id : String) (input : SetStatusInput) : PageCall rules (setStatus rules id input)
  | setFrontPage (id : String) (expectedRevision : Option ℕ) :
      PageCall rules (setFrontPage id expectedRevision)
  | removePageById (id : String) (expectedRevision : Option ℕ) :
      PageCall rules (removePageById id expectedRevision)
  | media (f : List MediaFile → List MediaFile) :
      PageCall rules (transaction (update fun s => { s with media := f s.media }))

/-- The calls beside each other. -/
def pageSystem {β : Type} (rules : PageRules β) :
    System (PageStore β) PageLock String PageFailure where
  calls := PageCall rules
  prompt _ := False

inductive PageFact where
  | row (id : String)
  | slug (slug : String)
  | front
  | since
  deriving DecidableEq

variable {β : Type} {rules : PageRules β} {s s' s'' s₀ : PageStore β}

/-- The row of an identifier, or that there is none, is as it was. -/
structure SameRow (id : String) (s s' : PageStore β) : Prop where
  pages : ∀ page : Page β, page.id = id → (page ∈ s'.pages ↔ page ∈ s.pages)
  retired : id ∈ s'.retired ↔ id ∈ s.retired

/-- Nobody new has an address. -/
def NoNewHolder (slug : String) (s s' : PageStore β) : Prop :=
  ∀ page' ∈ s'.pages, page'.slug = slug → ∃ page ∈ s.pages, page.id = page'.id ∧ page.slug = slug

/-- No new page is the front page. -/
def NoNewFront (s s' : PageStore β) : Prop :=
  ∀ page' ∈ s'.pages, page'.frontPage = true →
    ∃ page ∈ s.pages, page.id = page'.id ∧ page.frontPage = true

theorem SameRow.refl (id : String) (s : PageStore β) : SameRow id s s :=
  ⟨fun _ _ => Iff.rfl, Iff.rfl⟩

theorem SameRow.trans {id : String} (h : SameRow id s s') (h' : SameRow id s' s'') :
    SameRow id s s'' :=
  ⟨fun page hid => (h'.pages page hid).trans (h.pages page hid), h'.retired.trans h.retired⟩

theorem NoNewHolder.trans {slug : String} (h : NoNewHolder slug s s')
    (h' : NoNewHolder slug s' s'') : NoNewHolder slug s s'' := by
  intro page'' hpage'' hslug
  obtain ⟨page', hpage', hid', hslug'⟩ := h' page'' hpage'' hslug
  obtain ⟨page, hpage, hid, hslug⟩ := h page' hpage' hslug'
  exact ⟨page, hpage, hid.trans hid', hslug⟩

theorem NoNewFront.trans (h : NoNewFront s s') (h' : NoNewFront s' s'') : NoNewFront s s'' := by
  intro page'' hpage'' hfront
  obtain ⟨page', hpage', hid', hfront'⟩ := h' page'' hpage'' hfront
  obtain ⟨page, hpage, hid, hfront⟩ := h page' hpage' hfront'
  exact ⟨page, hpage, hid.trans hid', hfront⟩

/-- What commits keep of the pages, and for whom. -/
def pageDiscipline (rules : PageRules β) : Discipline (PageStore β) PageLock PageFact where
  inv _ s := Sound rules s
  guards
    | .row id, l, m => l = .page id ∧ m = .exclusive
    | .slug slug, l, m => l = .slug slug ∧ m = .exclusive
    | .front, l, m => l = .frontPage ∧ m = .exclusive
    | .since, _, _ => False
  keeps
    | .row id, s, s' => SameRow id s s'
    | .slug slug, s, s' => NoNewHolder slug s s'
    | .front, s, s' => NoNewFront s s'
    | .since, s, s' => Since s s'
  allowed _ _ s s' := Acted rules s s'
  inv_mono _ h := h
  keeps_refl
    | .row id, s => .refl id s
    | .slug _, _ => fun page hpage hslug => ⟨page, hpage, rfl, hslug⟩
    | .front, _ => fun page hpage hfront => ⟨page, hpage, rfl, hfront⟩
    | .since, s => .refl s
  keeps_trans := by
    rintro (id | slug | _ | _) s₁ s₂ s₃ h h'
    · exact SameRow.trans h h'
    · exact NoNewHolder.trans h h'
    · exact NoNewFront.trans h h'
    · exact Since.trans h h'

section Commits

variable {held : List (PageLock × Mode)} {reads : List (Sight (PageStore β) PageLock)} {t : Int}

theorem sameRow_of_rely {id : String} (hheld : (PageLock.page id, Mode.exclusive) ∈ held)
    (h : (pageDiscipline rules).Rely held s s') : SameRow id s s' := by
  refine h (.row id) fun l m hl => ?_
  obtain ⟨rfl, rfl⟩ := hl
  exact ⟨.exclusive, hheld, fun _ => rfl⟩

theorem noNewHolder_of_rely {slug : String} (hheld : (PageLock.slug slug, Mode.exclusive) ∈ held)
    (h : (pageDiscipline rules).Rely held s s') : NoNewHolder slug s s' := by
  refine h (.slug slug) fun l m hl => ?_
  obtain ⟨rfl, rfl⟩ := hl
  exact ⟨.exclusive, hheld, fun _ => rfl⟩

theorem noNewFront_of_rely (hheld : (PageLock.frontPage, Mode.exclusive) ∈ held)
    (h : (pageDiscipline rules).Rely held s s') : NoNewFront s s' := by
  refine h .front fun l m hl => ?_
  obtain ⟨rfl, rfl⟩ := hl
  exact ⟨.exclusive, hheld, fun _ => rfl⟩

theorem since_of_rely (h : (pageDiscipline rules).Rely held s s') : Since s s' :=
  h .since fun _ _ hl => hl.elim

/-- An act of somebody who holds every row, address and mark it writes. -/
theorem commits_of_acted (hsound : Sound rules s) (hacted : Acted rules s s')
    (hrow : ∀ id, (PageLock.page id, Mode.exclusive) ∉ held → SameRow id s s')
    (hslug : ∀ page' ∈ s'.pages, (PageLock.slug page'.slug, Mode.exclusive) ∈ held ∨
      ∃ page ∈ s.pages, page.id = page'.id ∧ page.slug = page'.slug)
    (hfront : ∀ page' ∈ s'.pages, page'.frontPage = true →
      (PageLock.frontPage, Mode.exclusive) ∈ held ∨
        ∃ page ∈ s.pages, page.id = page'.id ∧ page.frontPage = true) :
    (pageDiscipline rules).Commits held reads t s s' := by
  refine ⟨hacted.sound hsound, hacted, fun k hk => ?_⟩
  cases k with
  | row id =>
    refine hrow id fun hheld => ?_
    obtain ⟨hm, -⟩ := hk (.page id) .exclusive ⟨rfl, rfl⟩ .exclusive hheld
    cases hm
  | slug slug =>
    intro page' hpage' heq
    rcases hslug page' hpage' with hheld | ⟨page, hpage, hid, hsame⟩
    · obtain ⟨hm, -⟩ := hk (.slug slug) .exclusive ⟨rfl, rfl⟩ .exclusive (heq ▸ hheld)
      cases hm
    · exact ⟨page, hpage, hid, hsame.trans heq⟩
  | front =>
    intro page' hpage' hisfront
    rcases hfront page' hpage' hisfront with hheld | hpage
    · obtain ⟨hm, -⟩ := hk .frontPage .exclusive ⟨rfl, rfl⟩ .exclusive hheld
      cases hm
    · exact hpage
  | since => exact hacted.since hsound

theorem commits_untouched (hsound : Sound rules s) (hsame : Untouched s s') :
    (pageDiscipline rules).Commits held reads t s s' := by
  obtain ⟨hpages, hretired, hlog⟩ := hsame
  refine commits_of_acted hsound (.inl ⟨hpages, hretired, hlog⟩) (fun id _ => ?_)
    (fun page' hpage' => ?_) fun page' hpage' hfront => ?_
  · exact ⟨fun page _ => by rw [hpages], by rw [hretired]⟩
  · exact .inr ⟨page', hpages ▸ hpage', rfl, rfl⟩
  · exact .inr ⟨page', hpages ▸ hpage', rfl, hfront⟩

/-- Pages rewritten one by one leave the row they do not write. -/
theorem sameRow_of_map {id : String} {g : Page β → Page β} (hpages : s'.pages = s.pages.map g)
    (hretired : s'.retired = s.retired) (hid : ∀ page ∈ s.pages, (g page).id = page.id)
    (hother : ∀ page ∈ s.pages, page.id = id → g page = page) : SameRow id s s' := by
  refine ⟨fun page hpageid => ?_, by rw [hretired]⟩
  rw [hpages, List.mem_map]
  constructor
  · rintro ⟨row, hrow, rfl⟩
    rw [hother row hrow ((hid row hrow).symm.trans hpageid)]
    exact hrow
  · intro hpage
    exact ⟨page, hpage, hother page hpage hpageid⟩

/-- One page rewritten by somebody who holds its row, and its address where that is new. -/
theorem commits_write {page : Page β} (written : Page β) (hsound : Sound rules s)
    (hact : PageAct rules s s') (hpage : page ∈ s.pages) (hheld : (PageLock.page page.id, Mode.exclusive) ∈ held)
    (hpages : s'.pages = (s.writePage page.id fun _ => written).pages)
    (hretired : s'.retired = s.retired) (hid : written.id = page.id)
    (hslug : written.slug = page.slug ∨ (PageLock.slug written.slug, Mode.exclusive) ∈ held)
    (hfront : written.frontPage = page.frontPage) :
    (pageDiscipline rules).Commits held reads t s s' := by
  refine commits_of_acted hsound (.inr hact) (fun id hnot => ?_) (fun page' hpage' => ?_)
    fun page' hpage' hisfront => ?_
  · refine sameRow_of_map hpages hretired (fun row _ => ?_) fun row _ hrowid => ?_
    · split_ifs with heq
      · exact hid.trans heq.symm
      · rfl
    · refine if_neg fun heq => hnot ?_
      rwa [← hrowid, heq]
  · rw [hpages] at hpage'
    obtain ⟨row, hrow, rfl⟩ := mem_writePage hpage'
    split_ifs with heq
    · rcases hslug with hsame | hslug
      · exact .inr ⟨page, hpage, hid.symm, hsame.symm⟩
      · exact .inl hslug
    · exact .inr ⟨row, hrow, rfl, rfl⟩
  · rw [hpages] at hpage'
    obtain ⟨row, hrow, rfl⟩ := mem_writePage hpage'
    split_ifs at hisfront ⊢ with heq
    · exact .inr ⟨page, hpage, hid.symm, hfront.symm.trans hisfront⟩
    · exact .inr ⟨row, hrow, rfl, hisfront⟩

/-- A page created by somebody who holds its identifier and its address, and the pages it moves. -/
theorem commits_created (page : Page β) (typed : Option String) (hsound : Sound rules s)
    {place : Page β → Int} (hdraft : page.status = .DRAFT) (hfront : page.frontPage = false)
    (hbuilt : page.builtIn = none) (hnew : ∀ row ∈ s.pages, row.id ≠ page.id)
    (halive : page.id ∉ s.retired) (hfresh : ∀ row ∈ s.pages, row.slug ≠ page.slug)
    (hpages : s'.pages = page :: s.pages.map (fun row => { row with sortOrder := place row }))
    (hretired : s'.retired = s.retired) (hlog : s'.log = .created page.id typed :: s.log)
    (hheld : (PageLock.page page.id, Mode.exclusive) ∈ held)
    (hslug : (PageLock.slug page.slug, Mode.exclusive) ∈ held)
    (hmoved : ∀ row, place row ≠ row.sortOrder → (PageLock.page row.id, Mode.exclusive) ∈ held) :
    (pageDiscipline rules).Commits held reads t s s' := by
  have hact : PageAct rules s s' := by
    refine .created hdraft hfront hbuilt ?_ halive ?_ hpages hretired hlog
    · intro hid
      obtain ⟨row, hrow, heq⟩ := List.mem_map.mp hid
      exact hnew row hrow heq
    · intro hmem
      obtain ⟨row, hrow, heq⟩ := List.mem_map.mp hmem
      exact hfresh row hrow heq
  have hback : ∀ page' ∈ s'.pages, page' = page ∨
      ∃ row ∈ s.pages, page' = { row with sortOrder := place row } := by
    intro page' hpage'
    rw [hpages] at hpage'
    rcases List.mem_cons.mp hpage' with rfl | hpage'
    · exact .inl rfl
    · obtain ⟨row, hrow, rfl⟩ := List.mem_map.mp hpage'
      exact .inr ⟨row, hrow, rfl⟩
  refine commits_of_acted hsound (.inr hact) (fun id hnot => ⟨fun other hid => ?_, ?_⟩)
    (fun page' hpage' => ?_) fun page' hpage' hisfront => ?_
  · have hstays : ∀ row : Page β, row.id = id → { row with sortOrder := place row } = row := by
      intro row hrowid
      have hplace : place row = row.sortOrder := by
        by_contra hne
        exact hnot (hrowid ▸ hmoved row hne)
      rw [hplace]
    constructor
    · intro hother
      rcases hback other hother with rfl | ⟨row, hrow, rfl⟩
      · exact absurd (hid ▸ hheld) hnot
      · rwa [hstays row hid]
    · intro hother
      rw [hpages, ← hstays other hid]
      exact List.mem_cons_of_mem _ (List.mem_map_of_mem hother)
  · rw [hretired]
  · rcases hback page' hpage' with rfl | ⟨row, hrow, rfl⟩
    · exact .inl hslug
    · exact .inr ⟨row, hrow, rfl, rfl⟩
  · rcases hback page' hpage' with rfl | ⟨row, hrow, rfl⟩
    · rw [hfront] at hisfront
      cases hisfront
    · exact .inr ⟨row, hrow, rfl, hisfront⟩

theorem writePage_eq (hsound : Sound rules s) {page : Page β} (hpage : page ∈ s.pages)
    (f : Page β → Page β) :
    (s.writePage page.id f).pages = (s.writePage page.id fun _ => f page).pages := by
  refine List.map_congr_left fun row hrow => ?_
  by_cases heq : row.id = page.id
  · rw [hsound.eq_of_id hrow hpage heq]
  · rw [if_neg heq, if_neg heq]

end Commits

/-! ### Reading and claiming -/

section Calls

variable {prompt : PageLock → Prop} {c : Ctx (PageStore β) PageLock}

/-- Nothing is written yet, and the pages have gone onward from those that were read. -/
structure Ready (s₀ : PageStore β) (c : Ctx (PageStore β) PageLock) : Prop where
  pending : c.pending = id
  since : ∀ t s, c.knows t s → Since s₀ s

theorem Ready.later {c' : Ctx (PageStore β) PageLock} (h : Ready s₀ c) (hlater : c.Later c') :
    Ready s₀ c' :=
  ⟨hlater.pending.trans h.pending, fun t s hk => h.since t s (hlater.knows t s hk)⟩

variable (rules) in
theorem Ready.see (h : Ready s₀ c) (t : Int) (s : PageStore β) :
    Ready s₀ (c.see (pageDiscipline rules) t s) := h.later ((Ctx.Later.refl c).see t s)

variable (rules) in
theorem Ready.locked (h : Ready s₀ c) (l : PageLock) (m : Mode) (t : Int) (s : PageStore β) :
    Ready s₀ ((c.acquire l m).observe (pageDiscipline rules) t s) :=
  h.later (((Ctx.Later.refl c).acquire l m).observe t s)

/-- A transaction that wrote nothing. -/
theorem Ready.commit (h : Ready s₀ c) : Ready s₀ (c.commit (pageDiscipline rules)) := by
  refine ⟨rfl, ?_⟩
  rintro t s ⟨t₁, s₁, -, hk, -, hrely⟩
  rw [h.pending] at hrely
  exact (h.since t₁ s₁ hk).trans (since_of_rely hrely)

theorem findPageById_some {id : String} {page : Page β} (h : findPageById s id = some page) :
    page ∈ s.pages ∧ page.id = id := by
  have hid := List.find?_some h
  exact ⟨List.mem_of_find?_eq_some h, of_decide_eq_true hid⟩

theorem safe_require (hp : c.pending = id) {pageId : String}
    {Q : Page β → Ctx (PageStore β) PageLock → Prop}
    (h : ∀ s₀ page c', Sound rules s₀ → page ∈ s₀.pages → page.id = pageId → Ready s₀ c' →
      Q page c') :
    Safe (pageDiscipline rules) prompt (require pageId) Q c := by
  unfold require
  rw [safe_bind, safe_snapshot]
  intro t s hinv _
  rw [hp]
  match hfind : findPageById s pageId with
  | none => exact safe_fail
  | some page =>
    rw [safe_pure]
    obtain ⟨hpage, hid⟩ := findPageById_some hfind
    exact h s page _ hinv hpage hid ⟨hp, fun t' s' hk => since_of_rely hk.2.2⟩

theorem safe_enforceGuardrails {title : String} {content : PageContent β} {confirmed : Bool}
    {Q : Unit → Ctx (PageStore β) PageLock → Prop}
    (h : ∀ c', c.Later c' → identityNumbers rules title content = [] → Q () c') :
    Safe (pageDiscipline rules) prompt (enforceGuardrails rules title content confirmed) Q c := by
  unfold enforceGuardrails refusePersonalIdentityNumbers refuseUnconsentedPictures
  rw [safe_bind, safe_refuseIf]
  intro hnone
  rw [safe_bind, safe_snapshot]
  intro t s _ _
  rw [safe_bind, safe_refuseIf]
  intro _
  rw [safe_bind, safe_refuseIf]
  intro _
  rw [safe_refuseIf]
  intro _
  exact h _ ((Ctx.Later.refl c).see t s) (not_not.mp hnone)

theorem safe_requireFreeTyped {typed exceptPageId : Option String}
    {Q : Unit → Ctx (PageStore β) PageLock → Prop} (h : ∀ c', c.Later c' → Q () c') :
    Safe (pageDiscipline rules) prompt (requireFreeTyped rules typed exceptPageId) Q c := by
  unfold requireFreeTyped
  cases typed with
  | none => exact h c (.refl c)
  | some slug =>
    unfold requireFreeSlug
    rw [safe_bind, safe_refuseIf]
    intro _
    rw [safe_bind, safe_snapshot]
    intro t s _ _
    rw [safe_refuseIf]
    intro _
    exact h _ ((Ctx.Later.refl c).see t s)

/-- **A claimed row** stands as it was matched, for as long as it is held. -/
theorem safe_claimPage {pageId : String} {matched : Page β → Bool} {missed : PageFailure}
    {Q : Unit → Ctx (PageStore β) PageLock → Prop}
    (h : ∀ c' s, c.Later c' → (PageLock.page pageId, Mode.exclusive) ∈ c'.held →
      Sound rules s → (∃ page ∈ (c.pending s).pages, page.id = pageId ∧ matched page = true) →
      (∀ t' s', c'.knows t' s' → SameRow pageId s s') → Q () c') :
    Safe (pageDiscipline rules) prompt (claimPage pageId matched missed) Q c := by
  unfold claimPage
  rw [safe_bind, safe_snapshot]
  intro t₁ s₁ _ _
  rw [safe_bind, safe_refuseIf]
  intro _
  rw [safe_bind, safe_acquire]
  intro t₂ s₂ _ _ _
  rw [safe_bind, safe_snapshot]
  intro t₃ s₃ hinv _
  rw [safe_refuseIf]
  intro hmatched
  push Not at hmatched
  obtain ⟨page, hpage, hid, hmatched⟩ := hmatched
  refine h _ s₃ ?_ List.mem_cons_self hinv ⟨page, hpage, hid, by simpa using hmatched⟩ ?_
  · exact ((((Ctx.Later.refl c).see t₁ s₁).acquire _ _).observe t₂ s₂).see t₃ s₃
  · exact fun t' s' hk => sameRow_of_rely List.mem_cons_self hk.2.2

/-- The row that was claimed, in a store that has it still. -/
theorem mem_of_claimed {page : Page β} (hpage : page ∈ s.pages) (hsame : SameRow page.id s s') :
    page ∈ s'.pages := (hsame.pages page rfl).mpr hpage

/-- **An address that is taken** gets no other holder, for as long as it is held. -/
theorem safe_takeSlug (hp : c.pending = id) {slug pageId : String}
    {Q : Bool → Ctx (PageStore β) PageLock → Prop}
    (h : ∀ free c', c.Later c' → (PageLock.slug slug, Mode.exclusive) ∈ c'.held →
      (free = true → ∀ t s, c'.knows t s → ∀ page ∈ s.pages, page.slug = slug → page.id = pageId) →
      Q free c') :
    Safe (pageDiscipline rules) prompt (takeSlug slug pageId) Q c := by
  unfold takeSlug
  rw [safe_bind, safe_acquire]
  intro t₁ s₁ _ _ _
  rw [safe_bind, safe_snapshot]
  intro t₂ s₂ _ _
  rw [safe_pure]
  refine h _ _ (((Ctx.Later.refl c).acquire _ _).observe t₁ s₁ |>.see t₂ s₂) List.mem_cons_self ?_
  intro hfree t s hk page hpage hslug
  obtain ⟨before, hbefore, hid, hslug⟩ :=
    noNewHolder_of_rely List.mem_cons_self hk.2.2 page hpage hslug
  have hseen : before ∈ (c.pending s₂).pages := by rwa [hp]
  have hown := List.all_eq_true.mp hfree before hseen
  rw [← hid]
  simpa [hslug] using hown

/-- **Trying again** starts over from a transaction that wrote nothing. -/
theorem safe_withFreeSlug {α : Type} {P : String → Prop} {slugFor : PageTx β String} {typed : Bool}
    {write : String → PageTx β (Option α)}
    (hslug : ∀ c, Ready s₀ c →
      Safe (pageDiscipline rules) prompt slugFor (fun slug c' => P slug ∧ Ready s₀ c') c)
    (hwrite : ∀ slug c, P slug → Ready s₀ c → Safe (pageDiscipline rules) prompt (write slug)
      (fun written c' => written = none → Ready s₀ c') c) :
    ∀ (attempts : ℕ) (c : Ctx (PageStore β) PageLock), Ready s₀ c →
      Safe (pageDiscipline rules) prompt (withFreeSlug slugFor typed write attempts)
        (fun _ _ => True) c
  | 0, _, _ => safe_fail
  | attempts + 1, c, hc => by
    unfold withFreeSlug
    rw [safe_bind]
    refine (hslug c hc).mono ?_
    rintro slug c₁ ⟨hP, hc₁⟩
    rw [safe_bind]
    refine (hwrite slug c₁ hP hc₁).mono ?_
    intro written c₂ hc₂
    cases written with
    | some a => exact safe_pure.mpr trivial
    | none =>
      dsimp only
      split_ifs
      · exact safe_withFreeSlug hslug hwrite attempts c₂ (hc₂ rfl)
      · exact safe_fail

theorem safe_freeSlugFor (title : String) (exceptPageId : Option String)
    {Q : String → Ctx (PageStore β) PageLock → Prop} (h : ∀ slug c', c.Later c' → Q slug c') :
    Safe (pageDiscipline rules) prompt (freeSlugFor rules title exceptPageId) Q c := by
  unfold freeSlugFor
  rw [safe_bind, safe_snapshot]
  intro t s _ _
  dsimp only
  split
  · exact safe_fail
  · exact h _ _ ((Ctx.Later.refl c).see t s)

/-! ### Create -/

/-- What a request has written of the places of the pages, whose rows it holds. -/
structure Placing (c : Ctx (PageStore β) PageLock) : Prop where
  placed : ∃ place : Page β → Int, (∀ s, c.pending s = { s with
      pages := s.pages.map fun page => { page with sortOrder := place page } }) ∧
    ∀ page, place page ≠ page.sortOrder → (PageLock.page page.id, Mode.exclusive) ∈ c.held

theorem Placing.of_id (hp : c.pending = id) : Placing c := by
  refine ⟨⟨(·.sortOrder), fun s => ?_, fun page hne => absurd rfl hne⟩⟩
  rw [hp, List.map_id']
  rfl

theorem Placing.later {c' : Ctx (PageStore β) PageLock} (h : Placing c) (hlater : c.Later c') :
    Placing c' := by
  obtain ⟨place, hpending, hheld⟩ := h.placed
  refine ⟨⟨place, ?_, fun page hne => hlater.held _ (hheld page hne)⟩⟩
  rw [hlater.pending]
  exact hpending

/-- A request that went on, and moved pages at most. -/
def Placed (c c' : Ctx (PageStore β) PageLock) : Prop := c.Since c' ∧ Placing c'

theorem safe_movePage {c₀ : Ctx (PageStore β) PageLock} (hc : Placed c₀ c)
    (place : String × Int) :
    Safe (pageDiscipline rules) prompt (movePage place) (fun _ => Placed c₀) c := by
  unfold movePage
  rw [safe_bind]
  apply safe_claimPage
  intro c' s hlater hheld _ _ _
  rw [safe_update]
  obtain ⟨order, hpending, hlocked⟩ := (hc.2.later hlater).placed
  refine ⟨(hc.1.trans hlater.toSince).write _, ⟨fun page =>
    if page.id = place.1 then place.2 else order page, fun s => ?_, fun page hne => ?_⟩⟩
  · show (c'.pending s).writePage _ _ = _
    rw [hpending]
    unfold PageStore.writePage
    dsimp only
    rw [List.map_map]
    refine congrArg (fun pages => ({ s with pages := pages } : PageStore β)) ?_
    refine List.map_congr_left fun page _ => ?_
    show (if page.id = place.1 then _ else _) = _
    split_ifs <;> rfl
  · dsimp only at hne
    show (PageLock.page page.id, Mode.exclusive) ∈ c'.held
    split_ifs at hne with heq
    · rw [heq]
      exact hheld
    · exact hlocked page hne

theorem safe_placeNewPage (hp : c.pending = id) {Q : Int → Ctx (PageStore β) PageLock → Prop}
    (h : ∀ placed c', Placed c c' → Q placed c') :
    Safe (pageDiscipline rules) prompt placeNewPage Q c := by
  unfold placeNewPage
  rw [safe_bind, safe_snapshot]
  intro t₁ s₁ _ _
  rw [safe_bind, safe_snapshot]
  intro t₂ s₂ _ _
  rw [safe_bind]
  have hc : Placed c ((c.see (pageDiscipline rules) t₁ s₁).see (pageDiscipline rules) t₂ s₂) :=
    ⟨((Ctx.Since.refl c).see t₁ s₁).see t₂ s₂, .of_id hp⟩
  refine (safe_forM (Q := Placed c) hc fun place _ c' hc' => safe_movePage hc' place).mono ?_
  intro _ c' hc'
  rw [safe_pure]
  exact h _ c' hc'

theorem safe_createTx (input : CreatePageInput β) (now : Int) (slug : String)
    (hc : Ready s₀ c) :
    Safe (pageDiscipline rules) prompt (transaction (createTx input now slug))
      (fun written c' => written = none → Ready s₀ c') c := by
  rw [safe_transaction]
  unfold createTx
  rw [safe_bind, safe_acquire]
  intro t₁ s₁ _ _ _
  rw [safe_bind, safe_fresh]
  intro id
  rw [safe_bind, safe_acquire]
  intro t₂ s₂ _ _ _
  rw [safe_bind, safe_snapshot]
  intro t₃ s₃ _ _
  rw [safe_bind, safe_refuseIf]
  intro hnew
  rw [not_or] at hnew
  have hc₃ := ((hc.locked rules .pageOrder .exclusive t₁ s₁).locked rules (.page id) .exclusive
    t₂ s₂).see rules t₃ s₃
  rw [safe_bind]
  apply safe_takeSlug hc₃.pending
  intro free c₄ hlater₄ hslugheld hfree
  have hc₄ := hc₃.later hlater₄
  cases free with
  | false =>
    rw [if_pos rfl, safe_pure]
    refine ⟨fun t s hinv _ => ?_, fun _ => hc₄.commit⟩
    rw [hc₄.pending]
    exact commits_untouched hinv ⟨rfl, rfl, rfl⟩
  | true =>
    rw [if_neg (Bool.noConfusion), safe_bind]
    apply safe_placeNewPage hc₄.pending
    rintro placed c₅ ⟨hsince, hplacing⟩
    rw [safe_bind, safe_update, safe_bind, safe_update, safe_pure]
    refine ⟨fun t s hinv hk => ?_, fun hnone => by cases hnone⟩
    have hk₄ := hsince.knows t s hk
    have hk₃ := hlater₄.knows t s hk₄
    have hsame : SameRow id (c.pending s₃) s := by
      rw [hc.pending]
      exact sameRow_of_rely List.mem_cons_self hk₃.2.2
    have hnone : ∀ row ∈ s.pages, row.id ≠ id := fun row hrow hid =>
      hnew.1 (List.mem_map.mpr ⟨row, (hsame.pages row hid).mp hrow, hid⟩)
    obtain ⟨place, hpending, hmoved⟩ := hplacing.placed
    have hfresh : ∀ row ∈ s.pages, row.slug ≠ slug := fun row hrow heq =>
      hnone row hrow (hfree rfl t s hk₄ row hrow heq)
    refine commits_created (input.page now id slug placed) input.slug hinv rfl rfl rfl hnone (fun hgone => hnew.2 (hsame.retired.mp hgone))
      hfresh ?_ ?_ ?_ ?_ ?_ hmoved
    · show _ :: (c₅.pending s).pages = _
      rw [hpending]
    · show (c₅.pending s).retired = _
      rw [hpending]
    · show _ :: (c₅.pending s).log = _
      rw [hpending]
      rfl
    · exact hsince.held _ (hlater₄.held _ List.mem_cons_self)
    · exact hsince.held _ hslugheld

theorem ready_start : Ready ({} : PageStore β) Ctx.start := by
  refine ⟨rfl, fun _ s _ => ⟨List.nil_subset _, fun page hpage => ?_⟩⟩
  cases hpage

set_option maxRecDepth 2000 in
theorem safe_create (input : CreatePageInput β) :
    SafeCall (pageDiscipline rules) prompt (do let _ ← create rules input) := by
  unfold SafeCall create
  rw [safe_bind, safe_bind, safe_readClock]
  intro now s _ _
  rw [safe_bind]
  apply safe_requireFreeTyped
  intro c₁ hlater₁
  have hc₁ : Ready ({} : PageStore β) c₁ := by
    refine ⟨hlater₁.pending, fun t s hk => ?_⟩
    exact ready_start.since t s trivial
  refine (safe_withFreeSlug (P := fun _ => True) ?_ ?_ SLUG_ATTEMPTS c₁ hc₁).mono ?_
  · intro c hc
    unfold slugForNew
    cases input.slug with
    | some typed => exact safe_pure.mpr ⟨trivial, hc⟩
    | none =>
      refine safe_freeSlugFor input.title none ?_
      exact fun _ c' hlater => ⟨trivial, hc.later hlater⟩
  · intro slug c _ hc
    exact safe_createTx input now slug hc
  · exact fun _ _ _ => trivial

/-! ### Update -/

/-- The page a write read, in the store it is committed on. -/
theorem Ready.onward (hc : Ready s₀ c) {t : Int} (hk : c.knows t s) (hsound : Sound rules s)
    {page row : Page β} (hpage : page ∈ s₀.pages) (hrow : row ∈ s.pages) (hid : row.id = page.id) :
    Onward page row := (hc.since t s hk).onward hsound hpage hrow hid

/-- The address a save was given: the one that was typed, the page's own, or one made from the
title. -/
def GivenSlug (rules : PageRules β) (page : Page β) (input : UpdatePageInput β) (slug : String) :
    Prop :=
  (addressRules rules page input).1 = some slug ∨ (addressRules rules page input).1 = none ∧
    ((addressRules rules page input).2 = true → slug = page.slug)

set_option maxRecDepth 2000 in
theorem safe_slugForUpdate (hc : Ready s₀ c) (page : Page β) (input : UpdatePageInput β) :
    Safe (pageDiscipline rules) prompt (slugForUpdate rules page input)
      (fun slug c' => GivenSlug rules page input slug ∧ Ready s₀ c') c := by
  unfold slugForUpdate GivenSlug
  match addressRules rules page input with
  | (some typed, _) => exact safe_pure.mpr ⟨.inl rfl, hc⟩
  | (none, true) => exact safe_pure.mpr ⟨.inr ⟨rfl, fun _ => rfl⟩, hc⟩
  | (none, false) =>
    refine safe_freeSlugFor input.title (some page.id) ?_
    exact fun _ c' hlater => ⟨.inr ⟨rfl, fun hfalse => by cases hfalse⟩, hc.later hlater⟩

/-- What the condition of a save says of the row it claimed. -/
theorem updateMatches_iff {page row : Page β} {input : UpdatePageInput β} :
    updateMatches rules page input row = true ↔ row.status = page.status ∧
      Expects input.expectedRevision row ∧ ((addressRules rules page input).1 = none →
        row.slugFollowsTitle = page.slugFollowsTitle ∧
          ((addressRules rules page input).2 = true → row.slug = page.slug)) := by
  unfold updateMatches Expects
  dsimp only
  cases (addressRules rules page input).1 <;> cases (addressRules rules page input).2 <;>
    cases input.expectedRevision <;> simp [and_assoc]

theorem addressed_of_given {page row : Page β} {input : UpdatePageInput β} {slug : String}
    (hgiven : GivenSlug rules page input slug)
    (hmatched : updateMatches rules page input row = true) :
    Addressed row (addressRules rules page input).1 slug
      (if (addressRules rules page input).1.isSome then false else row.slugFollowsTitle) := by
  obtain ⟨-, -, haddress⟩ := updateMatches_iff.mp hmatched
  rcases hgiven with htyped | ⟨hnone, hkept⟩
  · exact .typed htyped (by rw [htyped]; rfl)
  · obtain ⟨hfollows, hslug⟩ := haddress hnone
    have hown : (if (addressRules rules page input).1.isSome then false
        else row.slugFollowsTitle) = row.slugFollowsTitle := by rw [hnone]; rfl
    rw [hown]
    cases hkeeps : (addressRules rules page input).2 with
    | true => exact .kept ((hkept hkeeps).trans (hslug hkeeps).symm) rfl
    | false =>
      refine .made ?_
      rw [hfollows]
      unfold addressRules at hkeeps
      simpa using (Bool.or_eq_false_iff.mp hkeeps).1

/-- A built-in page keeps the address it has. -/
theorem slug_of_builtIn {page row : Page β} {input : UpdatePageInput β} {slug : String}
    (hgiven : GivenSlug rules page input slug)
    (hmatched : updateMatches rules page input row = true) (hsound : SoundPage rules page)
    (hbuilt : page.builtIn ≠ none) : slug = row.slug := by
  have hpublished : isPublished page.status = true := by rw [(hsound.builtIn hbuilt).1]; rfl
  have htyped : (addressRules rules page input).1 = none := if_neg hbuilt
  have hkeeps : (addressRules rules page input).2 = true := by
    unfold addressRules
    simp [hsound.settled hpublished]
  obtain ⟨-, -, haddress⟩ := updateMatches_iff.mp hmatched
  rcases hgiven with hsome | ⟨-, hkept⟩
  · rw [htyped] at hsome
    cases hsome
  · exact (hkept hkeeps).trans ((haddress htyped).2 hkeeps).symm

/-- A save, on the row as it was matched. -/
theorem commits_updated {held : List (PageLock × Mode)}
    {reads : List (Sight (PageStore β) PageLock)} {t : Int} {page row : Page β}
    {input : UpdatePageInput β} {slug : String} (hsound : Sound rules s) (hrow : row ∈ s.pages)
    (hid : row.id = page.id) (hmatched : updateMatches rules page input row = true)
    (hgiven : GivenSlug rules page input slug)
    (hguard : isPublished page.status = true → identityNumbers rules input.title input.content = [])
    (hbuilt : row.builtIn ≠ none → input.content.blocks = [] ∧ slug = row.slug)
    (hfree : ∀ other ∈ s.pages, other.slug = slug → other.id = page.id)
    (hheld : (PageLock.page page.id, Mode.exclusive) ∈ held)
    (hslug : (PageLock.slug slug, Mode.exclusive) ∈ held)
    (hpages : s'.pages = (s.writePage page.id
      (input.writtenOver (addressRules rules page input).1 slug)).pages)
    (hretired : s'.retired = s.retired)
    (hlog : s'.log = .contentChanged page.id (addressRules rules page input).1
      input.expectedRevision :: s.log) :
    (pageDiscipline rules).Commits held reads t s s' := by
  rw [← hid] at hpages hlog hheld hfree
  rw [writePage_eq hsound hrow] at hpages
  obtain ⟨hstatus, hexpects, -⟩ := updateMatches_iff.mp hmatched
  refine commits_write (input.writtenOver (addressRules rules page input).1 slug row) hsound ?_
    hrow hheld hpages hretired rfl (.inr hslug) rfl
  refine .rewritten hrow hexpects ?_ hbuilt (addressed_of_given hgiven hmatched) hfree hpages
    hretired hlog
  exact fun hpublished => hguard (hstatus ▸ hpublished)

theorem safe_updateTx {page : Page β} {input : UpdatePageInput β} {slug : String}
    (hc : Ready s₀ c) (hsound : Sound rules s₀) (hpage : page ∈ s₀.pages)
    (hguard : isPublished page.status = true → identityNumbers rules input.title input.content = [])
    (hbuilt : page.builtIn ≠ none → input.content.blocks = [])
    (hgiven : GivenSlug rules page input slug) :
    Safe (pageDiscipline rules) prompt (transaction (updateTx rules page input slug))
      (fun written c' => written = none → Ready s₀ c') c := by
  rw [safe_transaction]
  unfold updateTx
  dsimp only
  rw [safe_bind]
  apply safe_claimPage
  intro c₁ s₁ hlater₁ hheld _ hclaimed hsame
  have hc₁ := hc.later hlater₁
  rw [hc.pending] at hclaimed
  obtain ⟨row, hrow, hrowid, hmatched⟩ := hclaimed
  rw [safe_bind]
  apply safe_takeSlug hc₁.pending
  intro free c₂ hlater₂ hslugheld hfree
  have hc₂ := hc₁.later hlater₂
  cases free with
  | false =>
    rw [if_pos rfl, safe_pure]
    refine ⟨fun t s hinv _ => ?_, fun _ => hc₂.commit⟩
    rw [hc₂.pending]
    exact commits_untouched hinv ⟨rfl, rfl, rfl⟩
  | true =>
    rw [if_neg (Bool.noConfusion), safe_bind, safe_update, safe_bind, safe_update, safe_pure]
    refine ⟨fun t s hinv hk => ?_, fun hnone => by cases hnone⟩
    have hrow' := mem_of_claimed hrow (hrowid ▸ hsame t s (hlater₂.knows t s hk))
    have honward := hc₂.onward hk hinv hpage hrow' hrowid
    obtain ⟨hstatus, hexpects, haddress⟩ := updateMatches_iff.mp hmatched
    have hpending : c₂.pending s = s := by
      rw [hc₂.pending]
      rfl
    have hfixed : page.builtIn ≠ none → slug = row.slug := fun hne =>
      slug_of_builtIn hgiven hmatched (hsound.sound page hpage) hne
    refine commits_updated hinv hrow' hrowid hmatched hgiven hguard (fun hne => ?_)
      (hfree rfl t s hk) (hlater₂.held _ hheld) hslugheld ?_ ?_ ?_
    · rw [honward.builtIn] at hne
      exact ⟨hbuilt hne, hfixed hne⟩
    · show ((c₂.pending s).writePage _ _).pages = _
      rw [hpending]
    · show (c₂.pending s).retired = _
      rw [hpending]
    · show _ :: (c₂.pending s).log = _
      rw [hpending]

theorem safe_enforceIfPublished (hc : Ready s₀ c) {page : Page β} {input : UpdatePageInput β}
    {Q : Unit → Ctx (PageStore β) PageLock → Prop}
    (h : ∀ c', Ready s₀ c' → (isPublished page.status = true →
      identityNumbers rules input.title input.content = []) → Q () c') :
    Safe (pageDiscipline rules) prompt (enforceIfPublished rules page input) Q c := by
  unfold enforceIfPublished
  split_ifs with hpublished
  · apply safe_enforceGuardrails
    exact fun c' hlater hnone => h c' (hc.later hlater) fun _ => hnone
  · exact safe_pure.mpr (h c hc fun htrue => absurd htrue hpublished)

theorem safe_updatePage (pageId : String) (input : UpdatePageInput β) :
    SafeCall (pageDiscipline rules) prompt (updatePage rules pageId input) := by
  unfold SafeCall updatePage
  rw [safe_bind]
  apply safe_require rfl
  intro s₀ page c₁ hsound hpage _ hc₁
  rw [safe_bind, safe_refuseIf]
  intro hrefused
  have hbuilt : page.builtIn ≠ none → input.content.blocks = [] := by
    intro hne
    by_contra hblocks
    exact hrefused ⟨hne, .inl (List.length_pos_iff.mpr hblocks)⟩
  rw [safe_bind]
  apply safe_requireFreeTyped
  intro c₂ hlater₂
  rw [safe_bind]
  apply safe_enforceIfPublished (hc₁.later hlater₂)
  intro c₃ hc₃ hguard
  refine safe_withFreeSlug (P := GivenSlug rules page input) ?_ ?_ SLUG_ATTEMPTS c₃ hc₃
  · exact fun c hc => safe_slugForUpdate hc page input
  · exact fun slug c hgiven hc => safe_updateTx hc hsound hpage hguard hbuilt hgiven

/-! ### Status, front page, removal -/

/-- A change of status, on the row as it was matched. -/
theorem commits_statusSet (now : Int) {held : List (PageLock × Mode)}
    {reads : List (Sight (PageStore β) PageLock)} {t : Int} {page row : Page β}
    {input : SetStatusInput} (hsound : Sound rules s) (hrow : row ∈ s.pages)
    (hid : row.id = page.id) (hexpects : Expects input.expectedRevision row)
    (hguard : isPublished input.status = true → identityNumbers rules row.title row.content = [])
    (hstays : input.status ≠ .PUBLIC → row.builtIn = none ∧ row.frontPage = false)
    (hheld : (PageLock.page page.id, Mode.exclusive) ∈ held)
    (hpages : s'.pages = (s.writePage page.id (input.writtenOver page now)).pages)
    (hretired : s'.retired = s.retired)
    (hlog : s'.log = .statusChanged page.id input.status input.expectedRevision :: s.log) :
    (pageDiscipline rules).Commits held reads t s s' := by
  rw [← hid] at hpages hlog hheld
  rw [writePage_eq hsound hrow] at hpages
  refine commits_write (input.writtenOver page now row) hsound ?_ hrow hheld hpages hretired rfl
    (.inl rfl) rfl
  exact .statusSet hrow hexpects hguard hstays hpages hretired hlog

theorem safe_setStatusTx {page : Page β} {input : SetStatusInput} (hc : Ready s₀ c)
    (hpage : page ∈ s₀.pages) (hexpects : Expects input.expectedRevision page)
    (hguard : isPublished input.status = true → identityNumbers rules page.title page.content = [])
    (hbuilt : input.status ≠ .PUBLIC → page.builtIn = none) :
    Safe (pageDiscipline rules) prompt (transaction (setStatusTx page input)) (fun _ _ => True)
      c := by
  rw [safe_transaction]
  unfold setStatusTx
  rw [safe_bind, safe_readClock]
  intro now s₁ _ _
  rw [safe_bind]
  apply safe_claimPage
  intro c₁ s₂ hlater₁ hheld _ hclaimed hsame
  have hpending : c₁.pending = id := hlater₁.pending.trans hc.pending
  have hseen : (Ctx.readAt (Ctx.observe (pageDiscipline rules) c now s₁) now).pending s₂ = s₂ := by
    show c.pending s₂ = s₂
    rw [hc.pending]
    rfl
  rw [hseen] at hclaimed
  obtain ⟨row, hrow, hrowid, hmatched⟩ := hclaimed
  simp only [Bool.and_eq_true, decide_eq_true_eq] at hmatched
  obtain ⟨⟨hrevision, hstatus⟩, hfront⟩ := hmatched
  rw [safe_bind, safe_update, safe_update]
  refine ⟨fun t s hinv hk => ?_, trivial⟩
  have hrow' := mem_of_claimed hrow (hrowid ▸ hsame t s hk)
  have hsince : Since s₀ s := hc.since t s (hlater₁.knows t s hk).1
  have honward := hsince.onward hinv hpage hrow' hrowid
  obtain ⟨htitle, hcontent, -⟩ := honward.text hrevision
  have hwritten : c₁.pending s = s := by
    rw [hpending]
    rfl
  have hexpects' : Expects input.expectedRevision row :=
    fun revision hstated => hrevision.trans (hexpects revision hstated)
  refine commits_statusSet now hinv hrow' hrowid hexpects' ?_ ?_ hheld ?_ ?_ ?_
  · rw [htitle, hcontent]
    exact hguard
  · intro hne
    rw [honward.builtIn]
    refine ⟨hbuilt hne, ?_⟩
    simpa [hne] using hfront
  · show ((c₁.pending s).writePage _ _).pages = _
    rw [hwritten]
  · show (c₁.pending s).retired = _
    rw [hwritten]
  · show _ :: (c₁.pending s).log = _
    rw [hwritten]

theorem expects_of_fresh {page : Page β} {expectedRevision : Option ℕ}
    (h : ¬ ∃ revision ∈ expectedRevision, revision ≠ page.revision) :
    Expects expectedRevision page := by
  intro revision hrevision
  by_contra hne
  exact h ⟨revision, hrevision, fun heq => hne heq.symm⟩

theorem safe_enforceIfPublishing (hc : Ready s₀ c) {page : Page β} {input : SetStatusInput}
    {Q : Unit → Ctx (PageStore β) PageLock → Prop}
    (h : ∀ c', Ready s₀ c' → (isPublished input.status = true →
      identityNumbers rules page.title page.content = []) → Q () c') :
    Safe (pageDiscipline rules) prompt (enforceIfPublishing rules page input) Q c := by
  unfold enforceIfPublishing
  split_ifs with hpublishing
  · apply safe_enforceGuardrails
    exact fun c' hlater hnone => h c' (hc.later hlater) fun _ => hnone
  · exact safe_pure.mpr (h c hc fun htrue => absurd htrue hpublishing)

theorem safe_setStatus (pageId : String) (input : SetStatusInput) :
    SafeCall (pageDiscipline rules) prompt (setStatus rules pageId input) := by
  unfold SafeCall setStatus
  rw [safe_bind]
  apply safe_require rfl
  intro s₀ page c₁ _ hpage _ hc₁
  rw [safe_bind, safe_refuseIf]
  intro hstays
  have hbuilt : input.status ≠ .PUBLIC → page.builtIn = none := by
    intro hne
    by_contra hsome
    exact hstays ⟨hsome, hne⟩
  unfold refuseStalePrecondition
  rw [safe_bind, safe_refuseIf]
  intro hfresh
  split_ifs
  · exact safe_pure.mpr trivial
  · rw [safe_bind, safe_refuseIf]
    intro _
    rw [safe_bind]
    apply safe_enforceIfPublishing hc₁
    exact fun c₂ hc₂ hguard => safe_setStatusTx hc₂ hpage (expects_of_fresh hfresh) hguard hbuilt

/-- The pages with the front page there was cleared. -/
def PageStore.cleared (s : PageStore β) : Option String → PageStore β
  | none => s
  | some previous => s.writePage previous (·.marked false)

theorem mem_cleared {previous : Option String} {page : Page β}
    (h : page ∈ (s.cleared previous).pages) : ∃ row ∈ s.pages, row.id = page.id ∧
      row.status = page.status ∧ row.revision = page.revision := by
  cases previous with
  | none => exact ⟨page, h, rfl, rfl, rfl⟩
  | some previous =>
    obtain ⟨row, hrow, rfl⟩ := mem_writePage h
    refine ⟨row, hrow, ?_⟩
    split_ifs <;> exact ⟨rfl, rfl, rfl⟩

theorem cleared_rest {previous : Option String} :
    (s.cleared previous).retired = s.retired ∧ (s.cleared previous).log = s.log := by
  cases previous <;> exact ⟨rfl, rfl⟩

theorem safe_clearFrontPage (hp : c.pending = id) {previous : Option String}
    {Q : Unit → Ctx (PageStore β) PageLock → Prop}
    (h : ∀ c', c.Since c' → (∀ s, c'.pending s = s.cleared previous) →
      (∀ id ∈ previous, (PageLock.page id, Mode.exclusive) ∈ c'.held) → Q () c') :
    Safe (pageDiscipline rules) prompt (clearFrontPage previous) Q c := by
  unfold clearFrontPage
  cases previous with
  | none =>
    refine safe_pure.mpr (h c (.refl c) (fun s => ?_) fun id hid => by cases hid)
    rw [hp]
    rfl
  | some previous =>
    dsimp only
    rw [safe_bind]
    apply safe_claimPage
    intro c' s hlater hheld _ _ _
    rw [safe_update]
    refine h _ (hlater.toSince.write _) (fun s => ?_) fun id hid => ?_
    · show (c'.pending s).writePage _ _ = _
      rw [hlater.pending, hp]
      rfl
    · obtain rfl := Option.some.inj hid
      exact hheld

/-- The front page set, by somebody who holds the mark, the page and the one that had it. -/
theorem commits_frontPageSet {held : List (PageLock × Mode)}
    {reads : List (Sight (PageStore β) PageLock)} {t : Int} {row : Page β}
    {previous : Option String} {expectedRevision : Option ℕ} (hsound : Sound rules s)
    (hrow : row ∈ s.pages) (hexpects : Expects expectedRevision row)
    (hpublic : row.status = .PUBLIC) (hbuilt : row.builtIn = none)
    (hfronts : ∀ page ∈ s.pages, page.frontPage = true → some page.id = previous)
    (hfront : (PageLock.frontPage, Mode.exclusive) ∈ held)
    (hheld : (PageLock.page row.id, Mode.exclusive) ∈ held)
    (hprevious : ∀ id ∈ previous, (PageLock.page id, Mode.exclusive) ∈ held)
    (hpages : s'.pages = ((s.cleared previous).writePage row.id (·.marked true)).pages)
    (hretired : s'.retired = s.retired)
    (hlog : s'.log = .frontPageChanged row.id previous expectedRevision :: s.log) :
    (pageDiscipline rules).Commits held reads t s s' := by
  have hnot : ∀ page ∈ s.pages, some page.id ≠ previous → page.frontPage = false := by
    intro page hpage hne
    by_contra htrue
    exact hne (hfronts page hpage (by simpa using htrue))
  have hmap : s'.pages = s.pages.map fun page => page.marked (page.id = row.id) := by
    have hcleared : (s.cleared previous).pages =
        s.pages.map fun page => page.marked (page.frontPage && some page.id ≠ previous) := by
      cases previous with
      | none => 
        refine (List.map_id' s.pages).symm.trans (List.map_congr_left fun page hpage => ?_)
        exact (Page.marked_of_eq (by simp)).symm
      | some previous =>
        refine List.map_congr_left fun page hpage => ?_
        by_cases heq : page.id = previous
        · simp [heq]
        · rw [if_neg heq]
          exact (Page.marked_of_eq (by simp [heq])).symm
    rw [hpages]
    show (s.cleared previous).pages.map _ = _
    rw [hcleared, List.map_map]
    refine List.map_congr_left fun page hpage => ?_
    show (if page.id = row.id then page.marked true else page.marked _) = _
    by_cases heq : page.id = row.id
    · rw [if_pos heq, decide_eq_true heq]
    · rw [if_neg heq, decide_eq_false heq]
      by_cases hprevious : some page.id = previous
      · simp [hprevious]
      · simp [hnot page hpage hprevious]
  refine commits_of_acted hsound (.inr ?_) (fun id hfree => ?_) (fun page' hpage' => ?_)
    fun _ _ _ => .inl hfront
  · exact .frontPageSet hrow hexpects hpublic hbuilt hmap hretired hlog
  · refine sameRow_of_map hmap hretired (fun _ _ => rfl) fun page hpage hid => ?_
    have hother : page.id ≠ row.id := fun heq => hfree (hid ▸ heq ▸ hheld)
    have hfalse := hnot page hpage fun heq => hfree (hid ▸ hprevious _ heq.symm)
    rw [decide_eq_false hother, Page.marked_of_eq hfalse]
  · rw [hmap] at hpage'
    obtain ⟨page, hpage, rfl⟩ := List.mem_map.mp hpage'
    exact .inr ⟨page, hpage, rfl, rfl⟩

theorem Sound.frontPageOf_eq (hsound : Sound rules s) {page : Page β} (hpage : page ∈ s.pages)
    (hfront : page.frontPage = true) : frontPageOf s = some page.id := by
  unfold frontPageOf
  match hfind : s.pages.find? (·.frontPage) with
  | none => exact absurd hfront (List.find?_eq_none.mp hfind page hpage)
  | some found =>
    have hfound := List.find?_some hfind
    rw [hfind, Option.map_some, hsound.oneFront page hpage found (List.mem_of_find?_eq_some hfind) hfront
      hfound]

theorem safe_setFrontPageTx {page : Page β} {expectedRevision : Option ℕ} (hc : Ready s₀ c)
    (hpage : page ∈ s₀.pages) (hbuilt : page.builtIn = none) :
    Safe (pageDiscipline rules) prompt (transaction (setFrontPageTx page.id expectedRevision))
      (fun _ _ => True) c := by
  rw [safe_transaction]
  unfold setFrontPageTx
  rw [safe_bind, safe_acquire]
  intro t₁ s₁ _ _ _
  have hc₁ := hc.locked rules .frontPage .exclusive t₁ s₁
  rw [safe_bind, safe_snapshot]
  intro t₂ s₂ hsound₂ _
  have hc₂ := hc₁.see rules t₂ s₂
  rw [hc₁.pending]
  generalize hprev : frontPageOf (id s₂) = previous
  rw [safe_bind]
  apply safe_clearFrontPage hc₂.pending
  intro c₃ hsince hcleared hprevious
  rw [safe_bind]
  apply safe_claimPage
  intro c₄ s₄ hlater₄ hheld _ hclaimed hsame
  rw [hcleared] at hclaimed
  obtain ⟨cleared, hmem, hclearedid, hmatched⟩ := hclaimed
  rw [Bool.and_eq_true, decide_eq_true_eq] at hmatched
  obtain ⟨row, hrow, hrowid, hstatus, hrevision⟩ := mem_cleared hmem
  have hid : row.id = page.id := hrowid.trans hclearedid
  rw [← hid] at hheld hsame
  rw [safe_bind, safe_update, safe_update, ← hid]
  refine ⟨fun t s hinv hk => ?_, trivial⟩
  have hk₃ := hsince.knows t s (hlater₄.knows t s hk)
  have hrow' := mem_of_claimed hrow (hsame t s hk)
  have honward := hc₂.onward hk₃ hinv hpage hrow' hid
  have hwritten : c₄.pending s = s.cleared previous := by
    rw [hlater₄.pending]
    exact hcleared s
  have hnew : NoNewFront s₂ s := noNewFront_of_rely List.mem_cons_self hk₃.2.2
  have hexpects : Expects expectedRevision row := by
    intro revision hrev
    rw [hrevision]
    have hall := hmatched.2
    rw [Option.mem_def.mp hrev] at hall
    exact of_decide_eq_true hall
  have hfronts : ∀ other ∈ s.pages, other.frontPage = true → some other.id = previous := by
    intro other hother hfront
    obtain ⟨before, hbefore, hbeforeid, hwasfront⟩ := hnew other hother hfront
    rw [← hprev, ← hbeforeid]
    exact (hsound₂.frontPageOf_eq hbefore hwasfront).symm
  refine commits_frontPageSet hinv hrow' hexpects (hstatus.trans hmatched.1)
    (honward.builtIn.trans hbuilt) hfronts (hlater₄.held _ (hsince.held _ List.mem_cons_self))
    hheld (fun id hid => hlater₄.held _ (hprevious id hid)) ?_ ?_ ?_
  · show ((c₄.pending s).writePage _ _).pages = _
    rw [hwritten]
  · show (c₄.pending s).retired = _
    rw [hwritten, cleared_rest.1]
  · show _ :: (c₄.pending s).log = _
    rw [hwritten, cleared_rest.2]

theorem safe_setFrontPage (pageId : String) (expectedRevision : Option ℕ) :
    SafeCall (pageDiscipline rules) prompt (setFrontPage pageId expectedRevision) := by
  unfold SafeCall setFrontPage
  rw [safe_bind]
  apply safe_require rfl
  rintro s₀ page c₁ _ hpage rfl hc₁
  rw [safe_bind, safe_refuseIf]
  intro hbuilt
  unfold refuseStalePrecondition
  rw [safe_bind, safe_refuseIf]
  intro _
  split_ifs
  · exact safe_pure.mpr trivial
  · rw [safe_bind, safe_refuseIf]
    intro _
    exact safe_setFrontPageTx hc₁ hpage (not_not.mp hbuilt)

/-- A page removed, by somebody who holds its row. -/
theorem commits_removed {held : List (PageLock × Mode)}
    {reads : List (Sight (PageStore β) PageLock)} {t : Int} {row : Page β}
    {expectedRevision : Option ℕ} (hsound : Sound rules s) (hrow : row ∈ s.pages)
    (hexpects : Expects expectedRevision row) (hbuilt : row.builtIn = none)
    (hfront : row.frontPage = false) (hheld : (PageLock.page row.id, Mode.exclusive) ∈ held)
    (hpages : s'.pages = s.pages.filter fun page => page.id ≠ row.id)
    (hretired : s'.retired = row.id :: s.retired)
    (hlog : s'.log = .removed row.id expectedRevision :: s.log) :
    (pageDiscipline rules).Commits held reads t s s' := by
  have hmem : ∀ page, page ∈ s'.pages ↔ page ∈ s.pages ∧ page.id ≠ row.id := by
    intro page
    rw [hpages, List.mem_filter, decide_eq_true_eq]
  refine commits_of_acted hsound (.inr ?_) (fun id hnot => ?_) (fun page' hpage' => ?_)
    fun page' hpage' hisfront => ?_
  · exact .removed hrow hexpects hbuilt hfront hpages hretired hlog
  · have hother : id ≠ row.id := fun heq => hnot (heq ▸ hheld)
    refine ⟨fun page hid => ?_, ?_⟩
    · rw [hmem page, hid]
      exact and_iff_left hother
    · rw [hretired, List.mem_cons]
      exact or_iff_right hother
  · exact .inr ⟨page', ((hmem page').mp hpage').1, rfl, rfl⟩
  · exact .inr ⟨page', ((hmem page').mp hpage').1, rfl, hisfront⟩

theorem safe_removeTx {page : Page β} {expectedRevision : Option ℕ} (hc : Ready s₀ c)
    (hpage : page ∈ s₀.pages) (hbuilt : page.builtIn = none) :
    Safe (pageDiscipline rules) prompt (transaction (removeTx page.id expectedRevision))
      (fun _ _ => True) c := by
  rw [safe_transaction]
  unfold removeTx
  rw [safe_bind, safe_acquire]
  intro t₁ s₁ _ _ _
  have hc₁ := hc.locked rules .menu .exclusive t₁ s₁
  rw [safe_bind]
  apply safe_claimPage
  intro c₂ s₂ hlater₂ hheld _ hclaimed hsame
  have hc₂ := hc₁.later hlater₂
  rw [hc₁.pending] at hclaimed
  obtain ⟨row, hrow, hid, hmatched⟩ := hclaimed
  rw [Bool.and_eq_true] at hmatched
  rw [← hid] at hheld hsame
  rw [safe_bind, safe_update, safe_update, ← hid]
  refine ⟨fun t s hinv hk => ?_, trivial⟩
  have hrow' := mem_of_claimed hrow (hsame t s hk)
  have honward := hc₂.onward hk hinv hpage hrow' hid
  have hwritten : c₂.pending s = s := by
    rw [hc₂.pending]
    rfl
  have hexpects : Expects expectedRevision row := by
    intro revision hrev
    have hall := hmatched.2
    rw [Option.mem_def.mp hrev] at hall
    exact of_decide_eq_true hall
  refine commits_removed hinv hrow' hexpects (honward.builtIn.trans hbuilt)
    (by simpa using hmatched.1) hheld ?_ ?_ ?_
  · show (c₂.pending s).pages.filter _ = _
    rw [hwritten]
  · show _ :: (c₂.pending s).retired = _
    rw [hwritten]
  · show _ :: (c₂.pending s).log = _
    rw [hwritten]

theorem safe_removePageById (pageId : String) (expectedRevision : Option ℕ) :
    SafeCall (pageDiscipline rules) prompt (removePageById pageId expectedRevision) := by
  unfold SafeCall removePageById
  rw [safe_bind]
  apply safe_require rfl
  rintro s₀ page c₁ _ hpage rfl hc₁
  rw [safe_bind, safe_refuseIf]
  intro hbuilt
  rw [safe_bind, safe_refuseIf]
  intro _
  exact safe_removeTx hc₁ hpage (not_not.mp hbuilt)

theorem safe_media (f : List MediaFile → List MediaFile) :
    SafeCall (pageDiscipline rules) prompt
      (transaction (update fun s => { s with media := f s.media }) : PageTx β Unit) := by
  unfold SafeCall
  rw [safe_transaction, safe_update]
  exact ⟨fun t s hinv _ => commits_untouched hinv ⟨rfl, rfl, rfl⟩, trivial⟩

/-- **Every call** keeps what commits keep. -/
theorem safe_pageCall {p : PageTx β Unit} (h : PageCall rules p) :
    SafeCall (pageDiscipline rules) prompt p := by
  cases h with
  | create input => exact safe_create input
  | updatePage id input => exact safe_updatePage id input
  | setStatus id input => exact safe_setStatus id input
  | setFrontPage id expectedRevision => exact safe_setFrontPage id expectedRevision
  | removePageById id expectedRevision => exact safe_removePageById id expectedRevision
  | media f => exact safe_media f

end Calls

end OpenBrf.Pages
