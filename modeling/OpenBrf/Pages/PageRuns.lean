import OpenBrf.Pages.PageInterleaving

/-!
# Pages.PageRuns — the website's pages in every history

Whatever the board members' requests do beside each other: what is published passed the guardrail,
the front page stays up, built-in pages stay what they are, a published address changes only to a
typed one, and a request that states a revision writes over nobody.
-/

namespace OpenBrf.Pages

open Txn
open Site (PageStatus BuiltInPage PageWriteReason isPublished)

variable {β : Type} {rules : PageRules β}

/-- A front page stays where it is, and public. -/
def KeepsFrontPage (s s' : PageStore β) : Prop :=
  ∀ page ∈ s.pages, page.frontPage = true →
    ∃ page' ∈ s'.pages, page'.id = page.id ∧ page'.status = .PUBLIC

/-- A built-in page stays public, under its own address, and empty. -/
def KeepsBuiltIn (s s' : PageStore β) : Prop :=
  ∀ page ∈ s.pages, page.builtIn ≠ none → ∃ page' ∈ s'.pages, page'.id = page.id ∧
    page'.builtIn = page.builtIn ∧ page'.slug = page.slug ∧ page'.status = .PUBLIC ∧
      page'.content.blocks = []

/-- A page that was published in `s₀` gets no address between `s` and `s'` but the one that the
entry of the write says was typed. -/
def KeepsAddresses (s₀ s s' : PageStore β) : Prop :=
  ∀ page₀ ∈ s₀.pages, isPublished page₀.status = true → ∀ page ∈ s.pages, page.id = page₀.id →
    ∀ page' ∈ s'.pages, page'.id = page₀.id → page'.slug ≠ page.slug →
      ∃ expectedRevision,
        s'.log = .contentChanged page₀.id (some page'.slug) expectedRevision :: s.log

/-- The page stands, and says what it said. -/
def Unwritten (page : Page β) (s : PageStore β) : Prop :=
  ∃ page' ∈ s.pages, page'.id = page.id ∧ page'.revision = page.revision ∧
    page'.title = page.title ∧ page'.content = page.content ∧ page'.status = page.status

/-! ### Runs -/

section Runs

variable {s : PageStore β} {t : Int} {c₀ c₁ c c' : Config (PageStore β) PageLock String PageFailure}

theorem sound_of_reaches (hsound : Sound rules s)
    (hrun : Reaches (pageSystem rules) (.quiet s t) c) : Sound rules c.store :=
  inv_of_reaches (D := pageDiscipline rules) (fun _ hp => safe_pageCall hp) hsound hrun

theorem acted_of_reaches (hsound : Sound rules s)
    (hrun : Reaches (pageSystem rules) (.quiet s t) c) (hstep : Step (pageSystem rules) c c') :
    Acted rules c.store c'.store := by
  rcases allowed_of_reaches (D := pageDiscipline rules) (fun _ hp => safe_pageCall hp) hsound hrun
    hstep with hsame | ⟨_, _, _, hacted⟩
  · rw [hsame]
    exact .inl ⟨rfl, rfl, rfl⟩
  · exact hacted

theorem since_of_reaches (hsound : Sound rules s)
    (hrun₀ : Reaches (pageSystem rules) (.quiet s t) c₀)
    (hrun : Reaches (pageSystem rules) c₀ c) : Since c₀.store c.store := by
  induction hrun with
  | refl => exact .refl _
  | tail hrun hstep ih =>
    have hfrom := hrun₀.trans hrun
    exact ih.trans ((acted_of_reaches hsound hfrom hstep).since (sound_of_reaches hsound hfrom))

theorem keepsBuiltIn_of_reaches (hsound : Sound rules s)
    (hrun₀ : Reaches (pageSystem rules) (.quiet s t) c₀)
    (hrun : Reaches (pageSystem rules) c₀ c) : KeepsBuiltIn c₀.store c.store := by
  intro page hpage hbuilt
  induction hrun with
  | refl =>
    obtain ⟨hpublic, hempty⟩ := ((sound_of_reaches hsound hrun₀).sound page hpage).builtIn hbuilt
    exact ⟨page, hpage, rfl, rfl, rfl, hpublic, hempty⟩
  | tail hrun hstep ih =>
    obtain ⟨page₁, hpage₁, hid, hsame, hslug, -, -⟩ := ih
    have hfrom := hrun₀.trans hrun
    have hacted := acted_of_reaches hsound hfrom hstep
    have hbuilt₁ : page₁.builtIn ≠ none := by
      rw [hsame]
      exact hbuilt
    obtain ⟨page₂, hpage₂, hid₂, honward⟩ :=
      hacted.stays (sound_of_reaches hsound hfrom) hpage₁ (.inr hbuilt₁)
    have hbuilt₂ : page₂.builtIn ≠ none := by
      rw [honward.builtIn]
      exact hbuilt₁
    obtain ⟨hpublic, hempty⟩ :=
      ((sound_of_reaches hsound (hfrom.tail hstep)).sound page₂ hpage₂).builtIn hbuilt₂
    exact ⟨page₂, hpage₂, hid₂.trans hid, honward.builtIn.trans hsame,
      (honward.address hbuilt₁).trans hslug, hpublic, hempty⟩

/-- A page whose revision stands was written by nobody in between. -/
theorem unwritten_of_reaches (hsound : Sound rules s)
    (hrun₀ : Reaches (pageSystem rules) (.quiet s t) c₀)
    (hrun₁ : Reaches (pageSystem rules) c₀ c₁) (hrun : Reaches (pageSystem rules) c₁ c)
    {page₀ page : Page β} (hpage₀ : page₀ ∈ c₀.store.pages) (hpage : page ∈ c.store.pages)
    (hid : page.id = page₀.id) (hrevision : page.revision = page₀.revision) :
    Unwritten page₀ c₁.store := by
  have hsince := since_of_reaches hsound (hrun₀.trans hrun₁) hrun
  have hsoundc := sound_of_reaches hsound ((hrun₀.trans hrun₁).trans hrun)
  rcases (since_of_reaches hsound hrun₀ hrun₁).pages page₀ hpage₀ with
    hgone | ⟨page₁, hpage₁, hid₁, honward⟩
  · have hgone' := hsince.retired hgone
    rw [← hid] at hgone'
    exact absurd hgone' (hsoundc.alive page hpage)
  · have honward' := hsince.onward hsoundc hpage₁ hpage (hid.trans hid₁.symm)
    have hle := honward.revision
    have hle' := honward'.revision
    have heq : page₁.revision = page₀.revision := by omega
    obtain ⟨htitle, hcontent, hstatus⟩ := honward.text heq
    exact ⟨page₁, hpage₁, hid₁, heq, htitle, hcontent, hstatus⟩

theorem keepsAddresses_of_reaches (hsound : Sound rules s)
    (hrun₀ : Reaches (pageSystem rules) (.quiet s t) c₀)
    (hrun : Reaches (pageSystem rules) c₀ c) (hstep : Step (pageSystem rules) c c') :
    KeepsAddresses c₀.store c.store c'.store := by
  intro page₀ hpage₀ hpublished page hpage hid page' hpage' hid' hne
  have hfrom := hrun₀.trans hrun
  have hsound₀ := sound_of_reaches hsound hrun₀
  have hsoundc := sound_of_reaches hsound hfrom
  have honward := (since_of_reaches hsound hrun₀ hrun).onward hsoundc hpage₀ hpage hid
  have hsettled := honward.fixed ((hsound₀.sound page₀ hpage₀).settled hpublished)
  obtain ⟨expectedRevision, hlog⟩ := (acted_of_reaches hsound hfrom hstep).typed hsoundc hpage
    hpage' (hid'.trans hid.symm) hsettled hne
  exact ⟨expectedRevision, hid ▸ hlog⟩

/-- **The pages in every history**, of any number of requests beside each other.  An entry of the
log that states a revision was written over the page that had it, as it was read. -/
theorem pages_of_run (hsound : Sound rules s)
    (hrun₀ : Reaches (pageSystem rules) (.quiet s t) c₀)
    (hrun : Reaches (pageSystem rules) c₀ c) (hstep : Step (pageSystem rules) c c') :
    Sound rules c.store ∧ KeepsFrontPage c.store c'.store ∧ KeepsBuiltIn c₀.store c'.store ∧
      KeepsAddresses c₀.store c.store c'.store ∧
      (c'.store.pages = c.store.pages ∨ ∃ entry, c'.store.log = entry :: c.store.log) ∧
      ∀ entry id revision, c'.store.log = entry :: c.store.log →
        entry.stated = some (id, revision) →
          (∃ page ∈ c.store.pages, page.id = id ∧ page.revision = revision) ∧
          ∀ page₀ ∈ c₀.store.pages, page₀.id = id → page₀.revision = revision →
            ∀ c₁, Reaches (pageSystem rules) c₀ c₁ → Reaches (pageSystem rules) c₁ c →
              Unwritten page₀ c₁.store := by
  have hfrom := hrun₀.trans hrun
  have hsoundc := sound_of_reaches hsound hfrom
  have hacted := acted_of_reaches hsound hfrom hstep
  refine ⟨hsoundc, fun page hpage hfront => hacted.front_stays hsoundc hpage hfront,
    keepsBuiltIn_of_reaches hsound hrun₀ (hrun.tail hstep),
    keepsAddresses_of_reaches hsound hrun₀ hrun hstep, hacted.logged, ?_⟩
  intro entry id revision hlog hstated
  obtain ⟨page, hpage, hid, hrevision⟩ := hacted.expected hlog hstated
  refine ⟨⟨page, hpage, hid, hrevision⟩, ?_⟩
  intro page₀ hpage₀ hid₀ hrevision₀ c₁ hrun₁ hrun₂
  exact unwritten_of_reaches hsound hrun₀ hrun₁ hrun₂ hpage₀ hpage (hid.trans hid₀.symm)
    (hrevision.trans hrevision₀.symm)

end Runs

section Welcome

def plainText : PageRules String where
  text words := ⟨words, [], false⟩
  media _ := []
  scanForPersonalIdentityNumbers _ := []
  slugFromTitle title := title
  isUsableSlug _ := true

def welcome : Page String where
  id := "welcome"
  slug := "valkommen"
  slugFollowsTitle := false
  title := "Välkommen"
  content := ⟨["Hej"]⟩
  status := .PUBLIC
  publishedAt := some 7
  frontPage := true
  builtIn := none
  sortOrder := 1
  createdAt := 5
  revision := 3

def greeting : UpdatePageInput String where
  slug := some "hej"
  title := "Hej"
  content := ⟨["Välkommen till oss"]⟩
  photoConsentConfirmed := false
  expectedRevision := some 3

def welcomed : PageStore String := { pages := [welcome] }

theorem sound_welcomed : Sound plainText welcomed := by
  refine ⟨List.nodup_singleton _, List.nodup_singleton _, ?_, ?_, ?_⟩
  · intro page _ hgone
    cases hgone
  · intro page hpage
    obtain rfl := List.mem_singleton.mp hpage
    exact ⟨fun _ => rfl, fun _ => rfl, fun _ => ⟨rfl, rfl⟩, fun hbuilt => absurd rfl hbuilt⟩
  · intro page hpage other hother _ _
    rw [List.mem_singleton.mp hpage, List.mem_singleton.mp hother]

def greeted : PageStore String where
  pages := [greeting.writtenOver (some "hej") "hej" welcome]
  log := [.contentChanged "welcome" (some "hej") (some 3)]

theorem firstCommit_greeting : firstCommit (updatePage plainText "welcome" greeting)
    ⟨9, fun _ => "", welcomed, welcomed⟩ = some greeted := by
  decide +kernel

/-- The front page saved under another address, by somebody who read revision three. -/
theorem pages_of_greeting : ∃ c c' : Config (PageStore String) PageLock String PageFailure,
    Reaches (pageSystem plainText) (.quiet welcomed 9) c ∧ Step (pageSystem plainText) c c' ∧
      KeepsFrontPage c.store c'.store ∧ KeepsAddresses welcomed c.store c'.store ∧
      c'.store.log = [.contentChanged "welcome" (some "hej") (some 3)] ∧
      Unwritten welcome c.store := by
  have hcall : (pageSystem plainText).calls (updatePage plainText "welcome" greeting) :=
    .updatePage "welcome" greeting
  obtain ⟨c, c', hrun, hstep, -, hstore, hstore', -⟩ :=
    reaches_call hcall (fun _ => "") firstCommit_greeting
  obtain ⟨-, hfront, -, haddresses, -, hstated⟩ :=
    pages_of_run (t := 9) sound_welcomed .refl hrun hstep
  have hlog : c'.store.log = .contentChanged "welcome" (some "hej") (some 3) :: c.store.log := by
    rw [hstore', hstore]
    rfl
  refine ⟨c, c', hrun, hstep, hfront, haddresses, ?_, ?_⟩
  · rw [hlog, hstore]
    rfl
  · exact (hstated _ _ _ hlog rfl).2 welcome List.mem_cons_self rfl rfl c hrun .refl

end Welcome

end OpenBrf.Pages
