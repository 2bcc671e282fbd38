import Mathlib.Data.List.Nodup
import OpenBrf.Pages.PageWrite

/-!
# Pages.PageActs — what a commit does to the pages

One act for each write, on the pages as they stand when it is committed.  Every act keeps the pages
sound, and what it changes of a page moves its revision.
-/

namespace OpenBrf.Pages

open Txn
open Site (PageStatus BuiltInPage PageWriteReason isPublished)

variable {β : Type} {rules : PageRules β} {s s' : PageStore β}

/-- A page as it may be committed: published text passed the guardrail as it stands and its address
is settled, a front page is public and the board's, and a built-in page is public and empty. -/
structure SoundPage (rules : PageRules β) (page : Page β) : Prop where
  guarded : isPublished page.status = true → identityNumbers rules page.title page.content = []
  settled : isPublished page.status = true → page.slugFollowsTitle = false
  front : page.frontPage = true → page.status = .PUBLIC ∧ page.builtIn = none
  builtIn : page.builtIn ≠ none → page.status = .PUBLIC ∧ page.content.blocks = []

/-- What every committed state has: sound pages, one front page at most, and identifiers and
addresses that tell pages apart. -/
structure Sound (rules : PageRules β) (s : PageStore β) : Prop where
  unique : (s.pages.map (·.id)).Nodup
  slugs : (s.pages.map (·.slug)).Nodup
  alive : ∀ page ∈ s.pages, page.id ∉ s.retired
  sound : ∀ page ∈ s.pages, SoundPage rules page
  oneFront : ∀ page ∈ s.pages, ∀ other ∈ s.pages, page.frontPage = true →
    other.frontPage = true → page.id = other.id

theorem Sound.eq_of_id (h : Sound rules s) {a b : Page β} (ha : a ∈ s.pages) (hb : b ∈ s.pages)
    (hid : a.id = b.id) : a = b := List.inj_on_of_nodup_map h.unique ha hb hid

/-- What a page keeps as it is written: what it is, its settled address, and what it says while its
revision stands. -/
structure Onward (page page' : Page β) : Prop where
  builtIn : page'.builtIn = page.builtIn
  revision : page.revision ≤ page'.revision
  text : page'.revision = page.revision →
    page'.title = page.title ∧ page'.content = page.content ∧ page'.status = page.status
  fixed : page.slugFollowsTitle = false → page'.slugFollowsTitle = false
  address : page.builtIn ≠ none → page'.slug = page.slug

theorem Onward.refl (page : Page β) : Onward page page :=
  ⟨rfl, Nat.le_refl _, fun _ => ⟨rfl, rfl, rfl⟩, id, fun _ => rfl⟩

theorem Onward.trans {a b c : Page β} (h : Onward a b) (h' : Onward b c) : Onward a c := by
  refine ⟨h'.builtIn.trans h.builtIn, Nat.le_trans h.revision h'.revision, fun heq => ?_,
    fun hfixed => h'.fixed (h.fixed hfixed), fun hbuilt => ?_⟩
  · have hle := h.revision
    have hle' := h'.revision
    obtain ⟨htitle, hcontent, hstatus⟩ := h.text (by omega)
    obtain ⟨htitle', hcontent', hstatus'⟩ := h'.text (by omega)
    exact ⟨htitle'.trans htitle, hcontent'.trans hcontent, hstatus'.trans hstatus⟩
  · refine (h'.address ?_).trans (h.address hbuilt)
    rw [h.builtIn]
    exact hbuilt

/-- Pages go onward, or are removed for good. -/
structure Since (s s' : PageStore β) : Prop where
  retired : s.retired ⊆ s'.retired
  pages : ∀ page ∈ s.pages,
    page.id ∈ s'.retired ∨ ∃ page' ∈ s'.pages, page'.id = page.id ∧ Onward page page'

theorem Since.refl (s : PageStore β) : Since s s :=
  ⟨List.Subset.refl _, fun page hpage => .inr ⟨page, hpage, rfl, .refl page⟩⟩

theorem Since.trans {s₁ s₂ s₃ : PageStore β} (h : Since s₁ s₂) (h' : Since s₂ s₃) :
    Since s₁ s₃ := by
  refine ⟨List.Subset.trans h.retired h'.retired, fun page hpage => ?_⟩
  rcases h.pages page hpage with hgone | ⟨page', hpage', hid, honward⟩
  · exact .inl (h'.retired hgone)
  · rcases h'.pages page' hpage' with hgone | ⟨page'', hpage'', hid', honward'⟩
    · exact .inl (hid ▸ hgone)
    · exact .inr ⟨page'', hpage'', hid'.trans hid, honward.trans honward'⟩

/-- A page that is still there has gone onward. -/
theorem Since.onward (h : Since s s') (hsound : Sound rules s') {page page' : Page β}
    (hpage : page ∈ s.pages) (hpage' : page' ∈ s'.pages) (hid : page'.id = page.id) :
    Onward page page' := by
  rcases h.pages page hpage with hgone | ⟨other, hother, hotherid, honward⟩
  · rw [← hid] at hgone
    exact absurd hgone (hsound.alive page' hpage')
  · rwa [hsound.eq_of_id hpage' hother (hid.trans hotherid.symm)]

/-! ### The acts -/

/-- The copy a request stated is the one there is. -/
def Expects (expectedRevision : Option ℕ) (page : Page β) : Prop :=
  ∀ revision ∈ expectedRevision, page.revision = revision

/-- How a save leaves the address: the one that was typed, the one there was, or one made from the
title of a page that was never published. -/
inductive Addressed (page : Page β) (typed : Option String) (slug : String) (follows : Bool) : Prop
  | typed : typed = some slug → follows = false → Addressed page typed slug follows
  | kept : slug = page.slug → follows = page.slugFollowsTitle → Addressed page typed slug follows
  | made : page.slugFollowsTitle = true → Addressed page typed slug follows

/-- One write, on the pages as they stand. -/
inductive PageAct (rules : PageRules β) (s : PageStore β) : PageStore β → Prop
  | created {s' : PageStore β} {page : Page β} {place : Page β → Int} {typed : Option String} :
      page.status = .DRAFT → page.frontPage = false → page.builtIn = none →
      page.id ∉ s.pages.map (·.id) → page.id ∉ s.retired → page.slug ∉ s.pages.map (·.slug) →
      s'.pages = page :: s.pages.map (fun other => { other with sortOrder := place other }) →
      s'.retired = s.retired → s'.log = .created page.id typed :: s.log → PageAct rules s s'
  | rewritten {s' : PageStore β} {page : Page β} {slug title : String} {follows : Bool}
      {content : PageContent β} {typed : Option String} {expectedRevision : Option ℕ} :
      page ∈ s.pages → Expects expectedRevision page →
      (isPublished page.status = true → identityNumbers rules title content = []) →
      (page.builtIn ≠ none → content.blocks = [] ∧ slug = page.slug) →
      Addressed page typed slug follows →
      (∀ other ∈ s.pages, other.slug = slug → other.id = page.id) →
      s'.pages = (s.writePage page.id fun _ => { page with
        slug := slug
        slugFollowsTitle := follows
        title := title
        content := content
        revision := page.revision + 1 }).pages →
      s'.retired = s.retired →
      s'.log = .contentChanged page.id typed expectedRevision :: s.log → PageAct rules s s'
  | statusSet {s' : PageStore β} {page : Page β} {status : PageStatus} {publishedAt : Option Int}
      {expectedRevision : Option ℕ} :
      page ∈ s.pages → Expects expectedRevision page →
      (isPublished status = true → identityNumbers rules page.title page.content = []) →
      (status ≠ .PUBLIC → page.builtIn = none ∧ page.frontPage = false) →
      s'.pages = (s.writePage page.id fun _ => { page with
        status := status
        publishedAt := publishedAt
        slugFollowsTitle := if isPublished status then false else page.slugFollowsTitle
        revision := page.revision + 1 }).pages →
      s'.retired = s.retired →
      s'.log = .statusChanged page.id status expectedRevision :: s.log → PageAct rules s s'
  | frontPageSet {s' : PageStore β} {page : Page β} {previous : Option String}
      {expectedRevision : Option ℕ} :
      page ∈ s.pages → Expects expectedRevision page → page.status = .PUBLIC →
      page.builtIn = none →
      s'.pages = s.pages.map (fun other => other.marked (other.id = page.id)) →
      s'.retired = s.retired →
      s'.log = .frontPageChanged page.id previous expectedRevision :: s.log → PageAct rules s s'
  | removed {s' : PageStore β} {page : Page β} {expectedRevision : Option ℕ} :
      page ∈ s.pages → Expects expectedRevision page → page.builtIn = none →
      page.frontPage = false → s'.pages = s.pages.filter (fun other => other.id ≠ page.id) →
      s'.retired = page.id :: s.retired →
      s'.log = .removed page.id expectedRevision :: s.log → PageAct rules s s'

/-- Nothing happens to the pages. -/
def Untouched (s s' : PageStore β) : Prop :=
  s'.pages = s.pages ∧ s'.retired = s.retired ∧ s'.log = s.log

/-- What a commit makes of the pages. -/
def Acted (rules : PageRules β) (s s' : PageStore β) : Prop := Untouched s s' ∨ PageAct rules s s'

/-! ### Every act is onward -/

theorem mem_writePage {id : String} {f : Page β → Page β} {page' : Page β}
    (h : page' ∈ (s.writePage id f).pages) :
    ∃ page ∈ s.pages, page' = if page.id = id then f page else page := by
  obtain ⟨page, hpage, rfl⟩ := List.mem_map.mp h
  exact ⟨page, hpage, rfl⟩

theorem mem_writePage_of_mem {id : String} {f : Page β → Page β} {page : Page β}
    (h : page ∈ s.pages) : (if page.id = id then f page else page) ∈ (s.writePage id f).pages :=
  List.mem_map_of_mem h

theorem since_of_map {g : Page β → Page β} (hpages : s'.pages = s.pages.map g)
    (hretired : s'.retired = s.retired)
    (hg : ∀ page ∈ s.pages, (g page).id = page.id ∧ Onward page (g page)) : Since s s' := by
  refine ⟨fun _ hid => hretired ▸ hid, fun page hpage => .inr ⟨g page, ?_, hg page hpage⟩⟩
  rw [hpages]
  exact List.mem_map_of_mem hpage

/-- One page rewritten. -/
theorem since_of_write (hsound : Sound rules s) {page written : Page β} (hpage : page ∈ s.pages)
    (hpages : s'.pages = (s.writePage page.id fun _ => written).pages)
    (hretired : s'.retired = s.retired) (hid : written.id = page.id)
    (honward : Onward page written) : Since s s' := by
  refine since_of_map hpages hretired fun other hother => ?_
  by_cases heq : other.id = page.id
  · rw [if_pos heq, hsound.eq_of_id hother hpage heq]
    exact ⟨hid, honward⟩
  · rw [if_neg heq]
    exact ⟨rfl, .refl other⟩

theorem Acted.since (hsound : Sound rules s) (h : Acted rules s s') : Since s s' := by
  rcases h with ⟨hpages, hretired, -⟩ | hact
  · refine ⟨fun _ hid => hretired ▸ hid, fun page hpage => .inr ⟨page, ?_, rfl, .refl page⟩⟩
    rwa [hpages]
  · cases hact with
    | created hdraft hfront hbuilt hid halive hslug hpages hretired hlog =>
      rename_i created place typed
      refine ⟨fun _ hid => hretired ▸ hid, fun page hpage =>
        .inr ⟨{ page with sortOrder := place page }, ?_, rfl, ?_⟩⟩
      · rw [hpages]
        exact List.mem_cons_of_mem _ (List.mem_map_of_mem hpage)
      · exact ⟨rfl, Nat.le_refl _, fun _ => ⟨rfl, rfl, rfl⟩, id, fun _ => rfl⟩
    | rewritten hpage _ _ hbuiltIn haddress _ hpages hretired _ =>
      refine since_of_write hsound hpage hpages hretired rfl ⟨rfl, Nat.le_succ _, ?_, ?_, ?_⟩
      · intro heq
        exact absurd heq (Nat.succ_ne_self _)
      · intro hfixed
        cases haddress with
        | typed _ hfollows => exact hfollows
        | kept _ hfollows => exact hfollows.trans hfixed
        | made hfollows =>
          rw [hfixed] at hfollows
          cases hfollows
      · exact fun hbuilt => (hbuiltIn hbuilt).2
    | statusSet hpage _ _ _ hpages hretired _ =>
      refine since_of_write hsound hpage hpages hretired rfl ⟨rfl, Nat.le_succ _, ?_, ?_, ?_⟩
      · intro heq
        exact absurd heq (Nat.succ_ne_self _)
      · intro hfixed
        dsimp only
        split_ifs
        · rfl
        · exact hfixed
      · exact fun _ => rfl
    | frontPageSet _ _ _ _ hpages hretired _ =>
      refine since_of_map hpages hretired fun page _ => ⟨rfl, ?_⟩
      exact ⟨rfl, Nat.le_refl _, fun _ => ⟨rfl, rfl, rfl⟩, id, fun _ => rfl⟩
    | removed hgone hrevision hbuilt hfront hpages hretired hlog =>
      rename_i gone expected
      refine ⟨fun _ hid => hretired ▸ List.mem_cons_of_mem _ hid, fun page hmem => ?_⟩
      by_cases hid : page.id = gone.id
      · left
        rw [hretired, hid]
        exact List.mem_cons_self
      · refine .inr ⟨page, ?_, rfl, .refl page⟩
        rw [hpages]
        exact List.mem_filter.mpr ⟨hmem, decide_eq_true hid⟩

/-! ### Every act keeps the pages sound -/

theorem Sound.of_same (h : Sound rules s) (hpages : s'.pages = s.pages)
    (hretired : s'.retired = s.retired) : Sound rules s' := by
  obtain ⟨hunique, hslugs, halive, hsound, hfront⟩ := h
  rw [← hpages] at hunique hslugs halive hsound hfront
  rw [← hretired] at halive
  exact ⟨hunique, hslugs, halive, hsound, hfront⟩

/-- Pages rewritten one by one. -/
theorem Sound.map (h : Sound rules s) {g : Page β → Page β} (hpages : s'.pages = s.pages.map g)
    (hretired : s'.retired = s.retired) (hid : ∀ page ∈ s.pages, (g page).id = page.id)
    (hslugs : ∀ page ∈ s.pages, ∀ other ∈ s.pages, (g page).slug = (g other).slug → page = other)
    (hsound : ∀ page ∈ s.pages, SoundPage rules (g page))
    (hfront : ∀ page ∈ s.pages, ∀ other ∈ s.pages, (g page).frontPage = true →
      (g other).frontPage = true → page.id = other.id) : Sound rules s' := by
  have hids : s'.pages.map (·.id) = s.pages.map (·.id) := by
    rw [hpages, List.map_map]
    exact List.map_congr_left hid
  have hmem : ∀ page' ∈ s'.pages, ∃ page ∈ s.pages, g page = page' := by
    intro page' hpage'
    rw [hpages] at hpage'
    exact List.mem_map.mp hpage'
  refine ⟨?_, ?_, fun page' hpage' => ?_, fun page' hpage' => ?_,
    fun page' hpage' other' hother' hpagefront hotherfront => ?_⟩
  · rw [hids]
    exact h.unique
  · rw [hpages, List.map_map]
    exact h.unique.of_map.map_on hslugs
  · obtain ⟨page, hpage, rfl⟩ := hmem page' hpage'
    rw [hid page hpage, hretired]
    exact h.alive page hpage
  · obtain ⟨page, hpage, rfl⟩ := hmem page' hpage'
    exact hsound page hpage
  · obtain ⟨page, hpage, rfl⟩ := hmem page' hpage'
    obtain ⟨other, hother, rfl⟩ := hmem other' hother'
    rw [hid page hpage, hid other hother]
    exact hfront page hpage other hother hpagefront hotherfront

/-- One page rewritten, under an address that is no other's. -/
theorem Sound.write (h : Sound rules s) {page written : Page β} (hpage : page ∈ s.pages)
    (hpages : s'.pages = (s.writePage page.id fun _ => written).pages)
    (hretired : s'.retired = s.retired) (hid : written.id = page.id)
    (hslug : ∀ other ∈ s.pages, other.slug = written.slug → other.id = page.id)
    (hsound : SoundPage rules written) (hfront : written.frontPage = page.frontPage) :
    Sound rules s' := by
  refine h.map hpages hretired (fun other _ => ?_) (fun a ha b hb heq => ?_)
    (fun other hother => ?_) (fun a ha b hb hfronta hfrontb => ?_)
  · split_ifs with heq
    · exact hid.trans heq.symm
    · rfl
  · refine h.eq_of_id ha hb ?_
    split_ifs at heq with ha' hb' hb'
    · exact ha'.trans hb'.symm
    · exact ha'.trans (hslug b hb heq.symm).symm
    · exact (hslug a ha heq).trans hb'.symm
    · exact congrArg Page.id (List.inj_on_of_nodup_map h.slugs ha hb heq)
  · split_ifs
    · exact hsound
    · exact h.sound other hother
  · have hback : ∀ other ∈ s.pages, (if other.id = page.id then written else other).frontPage =
        other.frontPage := by
      intro other hother
      split_ifs with heq
      · rw [hfront, h.eq_of_id hother hpage heq]
      · rfl
    rw [hback a ha] at hfronta
    rw [hback b hb] at hfrontb
    exact h.oneFront a ha b hb hfronta hfrontb

theorem Sound.created (h : Sound rules s) {page : Page β} {place : Page β → Int}
    (hdraft : page.status = .DRAFT) (hfront : page.frontPage = false) (hbuilt : page.builtIn = none)
    (hid : page.id ∉ s.pages.map (·.id)) (halive : page.id ∉ s.retired)
    (hslug : page.slug ∉ s.pages.map (·.slug))
    (hpages : s'.pages = page :: s.pages.map (fun other => { other with sortOrder := place other }))
    (hretired : s'.retired = s.retired) : Sound rules s' := by
  obtain ⟨moved, hmoved⟩ : ∃ moved, moved = s.pages.map
      fun other => { other with sortOrder := place other } := ⟨_, rfl⟩
  obtain ⟨rest, hrest⟩ : ∃ rest : PageStore β, rest = { s with pages := moved } := ⟨_, rfl⟩
  have hsound : Sound rules rest := by
    rw [hrest, hmoved]
    refine h.map rfl rfl (fun _ _ => rfl) (fun a ha b hb heq => ?_) (fun other hother => ?_)
      fun a ha b hb => h.oneFront a ha b hb
    · exact List.inj_on_of_nodup_map h.slugs ha hb heq
    · obtain ⟨hguarded, hsettled, hfront, hbuiltIn⟩ := h.sound other hother
      exact ⟨hguarded, hsettled, hfront, hbuiltIn⟩
  have hcons : s'.pages = page :: rest.pages := by rw [hpages, hrest, hmoved]
  have hids : rest.pages.map (·.id) = s.pages.map (·.id) := by
    rw [hrest, hmoved, List.map_map]
    rfl
  have hslugs : rest.pages.map (·.slug) = s.pages.map (·.slug) := by
    rw [hrest, hmoved, List.map_map]
    rfl
  refine ⟨?_, ?_, ?_, ?_, ?_⟩
  · rw [hcons, List.map_cons, List.nodup_cons, hids]
    exact ⟨hid, h.unique⟩
  · rw [hcons, List.map_cons, List.nodup_cons, hslugs]
    exact ⟨hslug, h.slugs⟩
  · intro other hother
    rw [hcons] at hother
    rw [hretired]
    rcases List.mem_cons.mp hother with rfl | hother
    · exact halive
    · have halive' := hsound.alive other hother
      rwa [hrest] at halive'
  · intro other hother
    rw [hcons] at hother
    rcases List.mem_cons.mp hother with rfl | hother
    · refine ⟨?_, ?_, ?_, ?_⟩
      · rw [hdraft]
        intro hpublished
        cases hpublished
      · rw [hdraft]
        intro hpublished
        cases hpublished
      · rw [hfront]
        intro hfalse
        cases hfalse
      · exact fun hne => absurd hbuilt hne
    · exact hsound.sound other hother
  · intro a ha b hb hfronta hfrontb
    rw [hcons] at ha hb
    rcases List.mem_cons.mp ha with rfl | ha
    · rw [hfront] at hfronta
      cases hfronta
    · rcases List.mem_cons.mp hb with rfl | hb
      · rw [hfront] at hfrontb
        cases hfrontb
      · exact hsound.oneFront a ha b hb hfronta hfrontb

/-- **Every act** keeps the pages sound. -/
theorem Acted.sound (h : Sound rules s) (hacted : Acted rules s s') : Sound rules s' := by
  rcases hacted with ⟨hpages, hretired, -⟩ | hact
  · exact h.of_same hpages hretired
  · cases hact with
    | created hdraft hfront hbuilt hid halive hslug hpages hretired _ =>
      exact h.created hdraft hfront hbuilt hid halive hslug hpages hretired
    | rewritten hpage hexpects hguard hbuiltIn haddress hslug hpages hretired hlog =>
      rename_i page slug title follows content typed expected
      obtain ⟨-, hsettled, hfront, hbuilt⟩ := h.sound page hpage
      refine h.write hpage hpages hretired rfl hslug ⟨hguard, fun hpublished => ?_, hfront, ?_⟩ rfl
      · show follows = false
        cases haddress with
        | typed _ hfollows => exact hfollows
        | kept _ hfollows => exact hfollows.trans (hsettled hpublished)
        | made hfollows =>
          rw [hsettled hpublished] at hfollows
          cases hfollows
      · exact fun hne => ⟨(hbuilt hne).1, (hbuiltIn hne).1⟩
    | statusSet hpage hexpects hguard hstays hpages hretired hlog =>
      rename_i page status publishedAt expected
      obtain ⟨-, hsettled, hfront, hbuilt⟩ := h.sound page hpage
      refine h.write hpage hpages hretired rfl (fun other hother heq => ?_) ⟨hguard, ?_, ?_, ?_⟩ rfl
      · exact congrArg Page.id (List.inj_on_of_nodup_map h.slugs hother hpage heq)
      · exact fun hpublished => if_pos hpublished
      · intro hisfront
        refine ⟨?_, (hfront hisfront).2⟩
        by_contra hne
        have hnot := (hstays hne).2
        rw [show page.frontPage = true from hisfront] at hnot
        cases hnot
      · intro hne
        refine ⟨?_, (hbuilt hne).2⟩
        by_contra hpublic
        exact hne (hstays hpublic).1
    | frontPageSet hpage hexpects hpublic hbuilt hpages hretired hlog =>
      rename_i page previous expected
      refine h.map hpages hretired (fun _ _ => rfl) (fun a ha b hb heq => ?_)
        (fun other hother => ?_) fun a _ b _ hfronta hfrontb => ?_
      · exact List.inj_on_of_nodup_map h.slugs ha hb heq
      · obtain ⟨hguarded, hsettled, -, hbuiltIn⟩ := h.sound other hother
        refine ⟨hguarded, hsettled, fun hisfront => ?_, hbuiltIn⟩
        rw [h.eq_of_id hother hpage (of_decide_eq_true hisfront)]
        exact ⟨hpublic, hbuilt⟩
      · exact (of_decide_eq_true hfronta).trans (of_decide_eq_true hfrontb).symm
    | removed hgone hexpects hbuilt hfront hpages hretired hlog =>
      rename_i gone expected
      have hmem : ∀ page ∈ s'.pages, page ∈ s.pages ∧ page.id ≠ gone.id := by
        intro page hpage
        rw [hpages] at hpage
        obtain ⟨hpage, hne⟩ := List.mem_filter.mp hpage
        exact ⟨hpage, of_decide_eq_true hne⟩
      refine ⟨?_, ?_, fun page hpage => ?_, fun page hpage => h.sound page (hmem page hpage).1,
        fun a ha b hb => h.oneFront a (hmem a ha).1 b (hmem b hb).1⟩
      · rw [hpages]
        exact h.unique.sublist (List.filter_sublist.map _)
      · rw [hpages]
        exact h.slugs.sublist (List.filter_sublist.map _)
      · rw [hretired, List.mem_cons, not_or]
        exact ⟨(hmem page hpage).2, h.alive page (hmem page hpage).1⟩

/-- **Every act** leaves a front page where it is, and public. -/
theorem Acted.front_stays (h : Sound rules s) (hacted : Acted rules s s') {page : Page β}
    (hpage : page ∈ s.pages) (hfront : page.frontPage = true) :
    ∃ page' ∈ s'.pages, page'.id = page.id ∧ page'.status = .PUBLIC := by
  have hpublic := ((h.sound page hpage).front hfront).1
  rcases hacted with ⟨hpages, -, -⟩ | hact
  · exact ⟨page, hpages ▸ hpage, rfl, hpublic⟩
  · cases hact with
    | created _ _ _ _ _ _ hpages _ _ =>
      rw [hpages]
      exact ⟨_, List.mem_cons_of_mem _ (List.mem_map_of_mem hpage), rfl, hpublic⟩
    | rewritten hwritten _ _ _ _ _ hpages _ _ =>
      rw [hpages]
      refine ⟨_, mem_writePage_of_mem hpage, ?_⟩
      split_ifs with hid
      · rw [h.eq_of_id hpage hwritten hid] at hpublic
        exact ⟨hid.symm, hpublic⟩
      · exact ⟨rfl, hpublic⟩
    | statusSet hwritten hexpects hguard hstays hpages hretired hlog =>
      rename_i row status publishedAt expected
      rw [hpages]
      refine ⟨_, mem_writePage_of_mem hpage, ?_⟩
      by_cases hid : page.id = row.id
      · rw [if_pos hid]
        refine ⟨hid.symm, ?_⟩
        by_contra hne
        have hnot := (hstays hne).2
        rw [← h.eq_of_id hpage hwritten hid, hfront] at hnot
        cases hnot
      · rw [if_neg hid]
        exact ⟨rfl, hpublic⟩
    | frontPageSet _ _ _ _ hpages _ _ =>
      rw [hpages]
      exact ⟨_, List.mem_map_of_mem hpage, rfl, hpublic⟩
    | removed hgone _ _ hnotfront hpages _ _ =>
      refine ⟨page, ?_, rfl, hpublic⟩
      rw [hpages]
      refine List.mem_filter.mpr ⟨hpage, decide_eq_true fun hid => ?_⟩
      rw [h.eq_of_id hpage hgone hid, hnotfront] at hfront
      cases hfront

/-- A front page and a built-in page are not removed. -/
theorem Acted.stays (h : Sound rules s) (hacted : Acted rules s s') {page : Page β}
    (hpage : page ∈ s.pages) (hkept : page.frontPage = true ∨ page.builtIn ≠ none) :
    ∃ page' ∈ s'.pages, page'.id = page.id ∧ Onward page page' := by
  rcases (hacted.since h).pages page hpage with hgone | hstays
  · exfalso
    rcases hacted with ⟨-, hretired, -⟩ | hact
    · exact h.alive page hpage (hretired ▸ hgone)
    · cases hact with
      | created _ _ _ _ _ _ _ hretired _ => exact h.alive page hpage (hretired ▸ hgone)
      | rewritten _ _ _ _ _ _ _ hretired _ => exact h.alive page hpage (hretired ▸ hgone)
      | statusSet _ _ _ _ _ hretired _ => exact h.alive page hpage (hretired ▸ hgone)
      | frontPageSet _ _ _ _ _ hretired _ => exact h.alive page hpage (hretired ▸ hgone)
      | removed hmem _ hbuilt hfront _ hretired _ =>
        rw [hretired] at hgone
        rcases List.mem_cons.mp hgone with hid | hgone
        · rw [h.eq_of_id hpage hmem hid, hbuilt, hfront] at hkept
          rcases hkept with hfalse | hne
          · cases hfalse
          · exact hne rfl
        · exact h.alive page hpage hgone
  · exact hstays

/-- **An address that is settled** changes only to the one a save typed. -/
theorem Acted.typed (h : Sound rules s) (hacted : Acted rules s s') {page page' : Page β}
    (hpage : page ∈ s.pages) (hpage' : page' ∈ s'.pages) (hid : page'.id = page.id)
    (hsettled : page.slugFollowsTitle = false) (hne : page'.slug ≠ page.slug) :
    ∃ expectedRevision,
      s'.log = .contentChanged page.id (some page'.slug) expectedRevision :: s.log := by
  -- any other write leaves the address as it was
  have hsame : ∀ {g : Page β → Page β}, s'.pages = s.pages.map g →
      (∀ row ∈ s.pages, (g row).id = row.id ∧ (g row).slug = row.slug) → False := by
    intro g hpages hg
    rw [hpages] at hpage'
    obtain ⟨row, hrow, rfl⟩ := List.mem_map.mp hpage'
    rw [h.eq_of_id hrow hpage ((hg row hrow).1.symm.trans hid)] at hne
    exact hne (hg page hpage).2
  rcases hacted with ⟨hpages, -, -⟩ | hact
  · rw [hpages] at hpage'
    rw [h.eq_of_id hpage' hpage hid] at hne
    exact absurd rfl hne
  · cases hact with
    | created _ _ _ hnew _ _ hpages _ _ =>
      rw [hpages] at hpage'
      rcases List.mem_cons.mp hpage' with rfl | hpage'
      · exact absurd (hid ▸ List.mem_map_of_mem hpage) hnew
      · obtain ⟨row, hrow, rfl⟩ := List.mem_map.mp hpage'
        rw [h.eq_of_id hrow hpage hid] at hne
        exact absurd rfl hne
    | rewritten hrow hexpects hguard hbuiltIn haddress hslug hpages hretired hlog =>
      rename_i row slug title follows content typed expected
      rw [hpages] at hpage'
      obtain ⟨other, hother, rfl⟩ := mem_writePage hpage'
      by_cases heq : other.id = row.id
      · rw [if_pos heq] at hid hne ⊢
        obtain rfl := h.eq_of_id hrow hpage hid
        refine ⟨expected, ?_⟩
        rw [hlog]
        cases haddress with
        | typed htyped _ => rw [htyped]
        | kept hkept _ => exact absurd hkept hne
        | made hfollows =>
          rw [hsettled] at hfollows
          cases hfollows
      · rw [if_neg heq] at hid hne
        rw [h.eq_of_id hother hpage hid] at hne
        exact absurd rfl hne
    | statusSet hrow hexpects hguard hstays hpages hretired hlog =>
      rename_i row status publishedAt expected
      refine (hsame hpages fun other hother => ?_).elim
      by_cases heq : other.id = row.id
      · rw [if_pos heq, h.eq_of_id hother hrow heq]
        exact ⟨rfl, rfl⟩
      · rw [if_neg heq]
        exact ⟨rfl, rfl⟩
    | frontPageSet _ _ _ _ hpages _ _ => exact (hsame hpages fun _ _ => ⟨rfl, rfl⟩).elim
    | removed _ _ _ _ hpages _ _ =>
      rw [hpages] at hpage'
      rw [h.eq_of_id (List.mem_of_mem_filter hpage') hpage hid] at hne
      exact absurd rfl hne

/-- What is written of the pages has its entry. -/
theorem Acted.logged (hacted : Acted rules s s') :
    s'.pages = s.pages ∨ ∃ entry, s'.log = entry :: s.log := by
  rcases hacted with ⟨hpages, -, -⟩ | hact
  · exact .inl hpages
  · right
    cases hact with
    | created _ _ _ _ _ _ _ _ hlog => exact ⟨_, hlog⟩
    | rewritten _ _ _ _ _ _ _ _ hlog => exact ⟨_, hlog⟩
    | statusSet _ _ _ _ _ _ hlog => exact ⟨_, hlog⟩
    | frontPageSet _ _ _ _ _ _ hlog => exact ⟨_, hlog⟩
    | removed _ _ _ _ _ _ hlog => exact ⟨_, hlog⟩

/-- The page and the revision of it that a request stated. -/
def PageEntry.stated : PageEntry → Option (String × ℕ)
  | .created _ _ => none
  | .contentChanged pageId _ expectedRevision => expectedRevision.map (pageId, ·)
  | .statusChanged pageId _ expectedRevision => expectedRevision.map (pageId, ·)
  | .frontPageChanged pageId _ expectedRevision => expectedRevision.map (pageId, ·)
  | .removed pageId expectedRevision => expectedRevision.map (pageId, ·)

theorem Expects.of_stated {page : Page β} {expectedRevision : Option ℕ}
    (h : Expects expectedRevision page) {id : String} {revision : ℕ}
    (hstated : expectedRevision.map (page.id, ·) = some (id, revision)) :
    page.id = id ∧ page.revision = revision := by
  obtain ⟨stated, hsome, heq⟩ := Option.map_eq_some_iff.mp hstated
  obtain ⟨rfl, rfl⟩ := Prod.mk.inj heq
  exact ⟨rfl, h stated hsome⟩

/-- **A request that states a revision** writes the page that has it. -/
theorem Acted.expected (hacted : Acted rules s s') {entry : PageEntry}
    (hlog : s'.log = entry :: s.log) {id : String} {revision : ℕ}
    (hstated : entry.stated = some (id, revision)) :
    ∃ page ∈ s.pages, page.id = id ∧ page.revision = revision := by
  rcases hacted with ⟨-, -, hsame⟩ | hact
  · rw [hlog] at hsame
    exact absurd hsame (List.cons_ne_self _ _)
  · cases hact with
    | created _ _ _ _ _ _ _ _ hentry =>
      obtain ⟨rfl, -⟩ := List.cons.inj (hlog.symm.trans hentry)
      cases hstated
    | rewritten hpage hexpects _ _ _ _ _ _ hentry =>
      obtain ⟨rfl, -⟩ := List.cons.inj (hlog.symm.trans hentry)
      exact ⟨_, hpage, hexpects.of_stated hstated⟩
    | statusSet hpage hexpects _ _ _ _ hentry =>
      obtain ⟨rfl, -⟩ := List.cons.inj (hlog.symm.trans hentry)
      exact ⟨_, hpage, hexpects.of_stated hstated⟩
    | frontPageSet hpage hexpects _ _ _ _ hentry =>
      obtain ⟨rfl, -⟩ := List.cons.inj (hlog.symm.trans hentry)
      exact ⟨_, hpage, hexpects.of_stated hstated⟩
    | removed hpage hexpects _ _ _ _ hentry =>
      obtain ⟨rfl, -⟩ := List.cons.inj (hlog.symm.trans hentry)
      exact ⟨_, hpage, hexpects.of_stated hstated⟩

end OpenBrf.Pages
