import OpenBrf.Feed.AnswerInterleaving

/-!
# Feed.ModerationInterleaving — edits and erasures beside reports and answers

An edit holds the row whose text it replaces.  The purge takes the rows it erases before it takes
what hangs on them, and finds every report that was made before.
-/

namespace OpenBrf.Feed

open Txn
open Retention (Instant RangeError)

variable {s s' s'' : FeedStore} {x y : ReportSubject} {prompt : FeedLock → Prop}
  {c c' : Ctx FeedStore FeedLock}

/-! ### Editing -/

/-- The text of one post or comment replaced, the text before it kept. -/
structure Replaces (x : ReportSubject) (write : FeedStore → FeedStore) : Prop where
  other : ∀ s y, y ≠ x → words (write s) y = words s y
  stands : ∀ s, Standing s x → Standing (write s) x
  reports : ∀ s, (write s).reports = s.reports
  issued : ∀ s, (write s).issued = s.issued
  log : ∀ s, (write s).log = s.log

theorem standing_of_map {g : Words → Words} (hwords : words s' x = (words s x).map g)
    (hstruck : ∀ w, (g w).struckAt = w.struckAt) (herased : ∀ w, (g w).erasedAt = w.erasedAt)
    (h : Standing s x) : Standing s' x := by
  obtain ⟨w, hw, hnone, hunerased⟩ := h
  rw [hw] at hwords
  exact ⟨g w, hwords, (hstruck w).trans hnone, (herased w).trans hunerased⟩

theorem replaces_post {postId : String} {f : Post → Post} {body : String}
    (hid : ∀ post, (f post).id = post.id)
    (hf : ∀ post earlier, (f post).words earlier =
      { post.words earlier with body := some body }) :
    Replaces (.post postId) fun s => s.writePosts [postId] f := by
  refine ⟨fun s y hy => ?_, fun s hstands => ?_, fun _ => rfl, fun _ => rfl, fun _ => rfl⟩
  · refine words_writePosts_other hid fun hmem => hy ?_
    obtain ⟨id, hid, rfl⟩ := List.mem_map.mp hmem
    rw [List.mem_singleton.mp hid]
  · exact standing_of_map (words_writePosts_mem (g := fun w => { w with body := some body }) hid hf
      List.mem_cons_self) (fun _ => rfl) (fun _ => rfl) hstands

theorem replaces_comment {commentId : String} {f : PostComment → PostComment} {body : String}
    (hid : ∀ comment, (f comment).id = comment.id)
    (hf : ∀ comment earlier, (f comment).words earlier =
      { comment.words earlier with body := some body }) :
    Replaces (.comment commentId) fun s => s.writeComments [commentId] f := by
  refine ⟨fun s y hy => ?_, fun s hstands => ?_, fun _ => rfl, fun _ => rfl, fun _ => rfl⟩
  · refine words_writeComments_other hid fun hmem => hy ?_
    obtain ⟨id, hid, rfl⟩ := List.mem_map.mp hmem
    rw [List.mem_singleton.mp hid]
  · exact standing_of_map (words_writeComments_mem (g := fun w => { w with body := some body }) hid
      hf List.mem_cons_self) (fun _ => rfl) (fun _ => rfl) hstands

/-- An earlier version kept of `x` is nobody else's. -/
theorem replaces_revision (revision : Revision) : Replaces revision.subject fun s =>
    { s with revisions := revision :: s.revisions } := by
  have hother : ∀ (s : FeedStore) y, y ≠ revision.subject →
      revisionsOf { s with revisions := revision :: s.revisions } y = revisionsOf s y := by
    intro s y hy
    unfold revisionsOf
    exact List.filter_cons_of_neg (by simpa using hy.symm)
  refine ⟨fun s y hy => ?_, fun s hstands => ?_, fun _ => rfl, fun _ => rfl, fun _ => rfl⟩
  · have hrevisions := hother s y hy
    cases y with
    | post id =>
      show (findPost s id).map _ = (findPost s id).map _
      rw [hrevisions]
    | comment id =>
      show (findComment s id).map _ = (findComment s id).map _
      rw [hrevisions]
  · obtain ⟨w, hw, hnone, hunerased⟩ := hstands
    obtain ⟨subject, body, writtenAt, replacedAt⟩ := revision
    cases subject with
    | post id =>
      obtain ⟨post, hfind, rfl⟩ := Option.map_eq_some_iff.mp hw
      exact ⟨_, words_post hfind, hnone, hunerased⟩
    | comment id =>
      obtain ⟨comment, hfind, rfl⟩ := Option.map_eq_some_iff.mp hw
      exact ⟨_, words_comment hfind, hnone, hunerased⟩

theorem safe_keepRevision (hp : c.pending = id) (hstands : Stands x c)
    (hheld : (FeedLock.row x, Mode.exclusive) ∈ c.held) (was : String) (writtenAt : Int)
    {write : Int → FeedStore → FeedStore} (hwrite : ∀ edited, Replaces x (write edited)) :
    Safe feedDiscipline prompt (keepRevision x was writtenAt write) (fun _ => Owes) c := by
  unfold keepRevision refuseFullHistory
  rw [safe_bind, safe_snapshot]
  intro t₀ s₀ _ _
  rw [safe_bind, safe_refuseIf]
  intro _
  rw [safe_bind, safe_readClock]
  intro edited s₁ _ _
  rw [safe_bind, safe_update, safe_update]
  intro t s hsound hk
  have hstood := hstands t s hk.1.1
  have hkept := replaces_revision ⟨x, was, writtenAt, edited⟩
  have hreplaced := hwrite edited
  show feedDiscipline.Commits c.held _ t s (write edited { c.pending s with
    revisions := _ :: (c.pending s).revisions })
  rw [hp]
  refine commits_of_act hsound (.edited hstood ?_ ?_ ?_ ?_ ?_) (fun y hy => ?_)
    (fun y _ report hreport _ => ?_) (fun y _ report hreport hy => ⟨report, ?_, rfl, hy⟩)
    fun id _ hid => ?_
  · exact fun y hy => (hreplaced.other _ y hy).trans (hkept.other s y hy)
  · exact hreplaced.stands _ (hkept.stands s hstood)
  · exact hreplaced.reports _
  · exact hreplaced.issued _
  · exact hreplaced.log _
  · have hne : y ≠ x := fun heq => hy (heq ▸ hheld)
    exact (hreplaced.other _ y hne).trans (hkept.other s y hne)
  · rwa [hreplaced.reports] at hreport
  · rwa [hreplaced.reports] at hreport
  · rwa [hreplaced.issued]

theorem safe_editPostTx (hp : c.pending = id) (personId postId body : String) :
    Safe feedDiscipline prompt (editPostTx personId postId body) (fun _ => Owes) c := by
  unfold editPostTx
  rw [safe_bind]
  refine safe_readPost hp (fun _ _ => safe_fail) fun c₁ s row hlater hrow hfind hsame => ?_
  have hp₁ := hlater.pending.trans hp
  dsimp only
  rw [safe_bind, safe_refuseIf]
  intro herased
  rw [safe_bind, safe_refuseIf]
  intro heditable
  have hunstruck : row.struckAt = none := by
    unfold editable at heditable
    simp only [Bool.not_eq_false, Bool.and_eq_true, Option.isNone_iff_eq_none] at heditable
    exact heditable.1.2
  split
  · exact safe_fail
  next was _ =>
    split_ifs
    · exact safe_pure.mpr (owes_of_unwritten hp₁)
    · refine safe_keepRevision hp₁ (stands_of_post hfind (not_not.mp herased) hunstruck hsame) hrow
        was _ fun edited => ?_
      exact replaces_post (fun _ => rfl) fun _ _ => rfl

theorem safe_editPost (scan : String → List ℕ) (reader : FeedReader) (postId body : String) :
    SafeCall feedDiscipline prompt (editPost scan reader postId body) := by
  unfold SafeCall editPost
  rw [safe_bind, safe_snapshot]
  intro t s _ _
  split
  · exact safe_fail
  · unfold refusePersonalIdentityNumbers
    rw [safe_bind, safe_refuseIf]
    intro _
    exact safe_owed (safe_editPostTx rfl _ _ _) fun _ _ => trivial

theorem safe_editCommentTx (hp : c.pending = id) (personId commentId body : String) :
    Safe feedDiscipline prompt (editCommentTx personId commentId body) (fun _ => Owes) c := by
  unfold editCommentTx
  rw [safe_bind]
  refine safe_readComment hp (fun _ _ => safe_fail) fun c₁ s row hlater hrow hfind hsame => ?_
  have hp₁ := hlater.pending.trans hp
  dsimp only
  rw [safe_bind, safe_refuseIf]
  intro heditable
  have hunstruck : row.struckAt = none := by
    by_contra hstruck
    exact heditable (.inr hstruck)
  split_ifs
  · exact safe_pure.mpr (owes_of_unwritten hp₁)
  · refine safe_keepRevision hp₁ (stands_of_comment hfind hunstruck hsame) hrow _ _
      fun edited => ?_
    exact replaces_comment (fun _ => rfl) fun _ _ => rfl

theorem safe_editComment (scan : String → List ℕ) (reader : FeedReader)
    (commentId body : String) :
    SafeCall feedDiscipline prompt (editComment scan reader commentId body) := by
  unfold SafeCall editComment
  rw [safe_bind, safe_snapshot]
  intro t s _ _
  split
  · exact safe_fail
  · unfold refusePersonalIdentityNumbers
    rw [safe_bind, safe_refuseIf]
    intro _
    exact safe_owed (safe_editCommentTx rfl _ _ _) fun _ _ => trivial

/-! ### The purge -/

section Taking

variable {held : List (FeedLock × Mode)} {ids : List String}

theorem taken_deleteReports : TakenFrom held s (s.deleteReports ids) where
  purged x := .inl (words_deleteReports ids x)
  rows x _ := words_deleteReports ids x
  kept report _ := words_deleteReports ids report.subject
  reports := List.filter_sublist
  issued := rfl
  log _ := rfl

theorem taken_deletePosts (hlocks : ∀ id ∈ ids, (FeedLock.row (.post id), Mode.exclusive) ∈ held) :
    TakenFrom held s (s.deletePosts ids) where
  purged x := by
    rw [words_deletePosts]
    split_ifs
    · exact .inr (.inl rfl)
    · exact .refl _
  rows x hx := by
    rw [words_deletePosts, if_neg]
    intro hmem
    obtain ⟨id, hid, rfl⟩ := List.mem_map.mp hmem
    exact hx (hlocks id hid)
  kept report hreport := by
    rw [words_deletePosts, if_neg (of_decide_eq_true (List.mem_filter.mp hreport).2)]
  reports := List.filter_sublist
  issued := rfl
  log _ := rfl

theorem taken_deleteComments
    (hlocks : ∀ id ∈ ids, (FeedLock.row (.comment id), Mode.exclusive) ∈ held) :
    TakenFrom held s (s.deleteComments ids) where
  purged x := by
    rw [words_deleteComments]
    split_ifs
    · exact .inr (.inl rfl)
    · exact .refl _
  rows x hx := by
    rw [words_deleteComments, if_neg]
    intro hmem
    obtain ⟨id, hid, rfl⟩ := List.mem_map.mp hmem
    exact hx (hlocks id hid)
  kept report hreport := by
    rw [words_deleteComments, if_neg (of_decide_eq_true (List.mem_filter.mp hreport).2)]
  reports := List.filter_sublist
  issued := rfl
  log _ := rfl

theorem taken_purged (personId : String) (posts comments kept reports : ℕ) :
    TakenFrom held s (s.record (.purged personId posts comments kept reports)) where
  purged x := .inl (words_record _ x)
  rows x _ := words_record _ x
  kept report _ := words_record _ report.subject
  reports := .refl _
  issued := rfl
  log _ := rfl

/-- What the erasure of posts leaves before it deletes any row. -/
def FeedStore.eraseText (s : FeedStore) (rows postIds : List String) (now : Int) : FeedStore :=
  { s.writePosts rows (·.erased now) with
    revisions := s.revisions.filter fun revision => revision.subject ∉ postIds.map .post }

theorem words_eraseText_other {rows postIds : List String} {now : Int} (hx : x ∉ postIds.map .post)
    (hrows : ∀ id ∈ rows, id ∈ postIds) : words (s.eraseText rows postIds now) x = words s x := by
  have hrevisions : revisionsOf (s.eraseText rows postIds now) x = revisionsOf s x :=
    revisionsOf_cascade hx
  cases x with
  | post id =>
    have hid : id ∉ rows := fun hid => hx (List.mem_map_of_mem (hrows id hid))
    have hfind : findPost (s.eraseText rows postIds now) id = findPost s id :=
      (findPost_writePosts (s := s) (f := (·.erased now)) (fun _ => rfl) id).trans (if_neg hid)
    simp only [words, hfind, hrevisions]
  | comment id =>
    have hfind : findComment (s.eraseText rows postIds now) id = findComment s id := rfl
    simp only [words, hfind, hrevisions]

theorem purged_eraseText {rows postIds : List String} {now : Int} {id : String}
    (hid : id ∈ postIds) (hgone : id ∉ rows → findPost s id = none) :
    Purged (words s (.post id)) (words (s.eraseText rows postIds now) (.post id)) := by
  have hrevisions : revisionsOf (s.eraseText rows postIds now) (.post id) = [] := by
    refine List.filter_eq_nil_iff.mpr fun revision hrevision heq => ?_
    have hnot := of_decide_eq_true (List.mem_filter.mp hrevision).2
    exact hnot (of_decide_eq_true heq ▸ List.mem_map_of_mem hid)
  have hfind : findPost (s.writePosts rows (·.erased now)) id =
      if id ∈ rows then (findPost s id).map (·.erased now) else findPost s id :=
    findPost_writePosts (fun post : Post => show (post.erased now).id = post.id from rfl) id
  have hview : words (s.eraseText rows postIds now) (.post id) =
      (findPost (s.writePosts rows (·.erased now)) id).map (·.words []) := by
    rw [← hrevisions]
    rfl
  rw [hview, hfind]
  split_ifs with hrow
  · cases hpost : findPost s id with
    | none => exact .inr (.inl rfl)
    | some post =>
      exact .inr (.inr ⟨_, _, words_post hpost, rfl, ⟨rfl, rfl, rfl, rfl, rfl, nofun⟩⟩)
  · rw [hgone hrow]
    exact .inr (.inl rfl)

/-- Posts erased by somebody who holds their rows and found every report of them. -/
theorem taken_erased {rows postIds closed : List String} {now : Int}
    (hlocks : ∀ id ∈ rows, (FeedLock.row (.post id), Mode.exclusive) ∈ held)
    (hrows : ∀ id ∈ rows, id ∈ postIds)
    (hgone : ∀ id ∈ postIds, id ∉ rows → findPost s id = none)
    (hreports : ∀ report ∈ s.reports, ∀ id ∈ rows, report.subject = .post id →
      report.id ∈ closed) :
    TakenFrom held s ((s.eraseText rows postIds now).deleteReports closed) := by
  have hwords : ∀ x, (∀ id ∈ rows, x ≠ .post id) →
      words (s.eraseText rows postIds now) x = words s x := by
    intro x hx
    by_cases hmem : x ∈ postIds.map ReportSubject.post
    · obtain ⟨id, hid, rfl⟩ := List.mem_map.mp hmem
      have hnone := hgone id hid fun hrow => hx id hrow rfl
      have hsame : words s (.post id) = none := by
        show (findPost s id).map _ = none
        rw [hnone]
        rfl
      rw [hsame]
      exact (purged_eraseText hid fun _ => hnone).gone hsame
    · exact words_eraseText_other hmem hrows
  refine ⟨fun x => ?_, fun x hx => ?_, fun report hreport => ?_, List.filter_sublist, rfl,
    fun _ => rfl⟩
  · rw [words_deleteReports]
    by_cases hmem : x ∈ postIds.map ReportSubject.post
    · obtain ⟨id, hid, rfl⟩ := List.mem_map.mp hmem
      exact purged_eraseText hid (hgone id hid)
    · exact .inl (words_eraseText_other hmem hrows)
  · rw [words_deleteReports]
    refine hwords x fun id hid heq => hx ?_
    rw [heq]
    exact hlocks id hid
  · rw [words_deleteReports]
    obtain ⟨hmem, hkept⟩ := List.mem_filter.mp hreport
    refine hwords _ fun id hid heq => ?_
    exact of_decide_eq_true hkept (hreports report hmem id hid heq)

end Taking

/-- What is written so far is what a purge takes, of rows that are held. -/
def Taking (c : Ctx FeedStore FeedLock) : Prop :=
  ∀ t s, Sound s → c.knows t s → TakenFrom c.held s (c.pending s)

theorem Taking.of_id (hp : c.pending = id) : Taking c := by
  intro t s _ _
  rw [hp]
  exact .refl s

theorem Taking.owes (h : Taking c) : Owes c :=
  fun t s hsound hk => commits_of_taken hsound (h t s hsound hk)

theorem Taking.since (h : Taking c) (hsince : c.Since c') (hpending : c'.pending = c.pending) :
    Taking c' := by
  intro t s hsound hk
  rw [hpending]
  exact (h t s hsound (hsince.knows t s hk)).mono hsince.held

theorem Taking.write (h : Taking c) {f : FeedStore → FeedStore}
    (hf : ∀ s, TakenFrom c.held s (f s)) : Taking (c.write f) :=
  fun t s hsound hk => (h t s hsound hk).trans (hf _)

/-- An update that takes nothing but rows it has locked. -/
theorem safe_takeRows (hc : Taking c) {key : String → FeedLock} {matched : FeedStore → List String}
    {f : List String → FeedStore → FeedStore}
    (hf : ∀ held rows, (∀ row ∈ rows, (key row, Mode.exclusive) ∈ held) → ∀ s,
      TakenFrom held s (f rows s)) :
    Safe feedDiscipline prompt (updateRows key matched f : FeedTx (List String))
      (fun _ => Taking) c := by
  refine safe_updateRows fun c' t₁ s₁ t₂ s₂ hlater hlocks _ _ _ _ _ _ => ?_
  refine (hc.since hlater.toSince hlater.pending).write (hf _ _ fun row hrow => ?_)
  exact hlocks row (List.mem_filter.mp hrow).1

/-- **The erasure of posts.**  The rows first: who reports one after that finds it erased, and who
reported one before is found. -/
theorem safe_erasePosts (hc : Taking c) (hposts : ∀ s, (c.pending s).posts = s.posts)
    (hreports : ∀ s, ∀ report ∈ s.reports, ∀ id, report.subject = .post id →
      report ∈ (c.pending s).reports) (postIds : List String) (now : Int) :
    Safe feedDiscipline prompt (erasePosts postIds now) (fun _ => Taking) c := by
  have hfind : ∀ s id, findPost (c.pending s) id = findPost s id := by
    intro s id
    unfold findPost
    rw [hposts]
  unfold erasePosts
  split_ifs
  · exact safe_pure.mpr hc
  rw [safe_bind]
  refine safe_updateRows fun c₁ t₁ s₁ t₂ s₂ hlater₁ hlocks₁ _ _ _ _ hrely₁ hrely₂ => ?_
  generalize hrows : (List.filter (fun id => (findPost (c.pending s₁) id).isSome) postIds).filter
    (· ∈ List.filter (fun id => (findPost (c.pending s₂) id).isSome) postIds) = rows
  have hmem : ∀ id ∈ rows, id ∈ postIds := by
    intro id hid
    rw [← hrows] at hid
    exact (List.mem_filter.mp (List.mem_filter.mp hid).1).1
  have hlocked : ∀ id ∈ rows, (FeedLock.row (.post id), Mode.exclusive) ∈ c₁.held := by
    intro id hid
    rw [← hrows] at hid
    exact hlocks₁ id (List.mem_filter.mp hid).1
  have hgone : ∀ t s, c₁.knows t s → ∀ id ∈ postIds, id ∉ rows → findPost s id = none := by
    intro t s hk id hid hrow
    have hsince₂ := since_of_rely (hrely₂ t s hk)
    have hnone : ∀ u : FeedStore, Since u s → (findPost (c.pending u) id).isSome ≠ true →
        findPost s id = none := by
      intro u hsince hnot
      rw [hfind, ne_eq, Bool.not_eq_true, Option.isSome_eq_false_iff,
        Option.isNone_iff_eq_none] at hnot
      have hwords : words u (.post id) = none := by
        show (findPost u id).map _ = none
        rw [hnot]
        rfl
      exact Option.map_eq_none_iff.mp (hsince.gone _ hwords)
    by_cases h₁ : (findPost (c.pending s₁) id).isSome = true
    · refine hnone s₂ hsince₂ fun h₂ => hrow ?_
      rw [← hrows]
      exact List.mem_filter.mpr ⟨List.mem_filter.mpr ⟨hid, h₁⟩,
        decide_eq_true (List.mem_filter.mpr ⟨hid, h₂⟩)⟩
    · exact hnone s₁ ((since_of_rely hrely₁).trans hsince₂) h₁
  rw [safe_bind, safe_update, safe_bind]
  refine safe_updateRows fun c₃ t₃ s₃ t₄ s₄ hlater₃ _ _ _ _ _ hrely₃ hrely₄ => ?_
  have hwritten : ∀ s, ((c₁.write fun s => s.writePosts rows (·.erased now)).write fun s =>
      { s with revisions := s.revisions.filter fun revision =>
        revision.subject ∉ postIds.map ReportSubject.post }).pending s =
      (c.pending s).eraseText rows postIds now := by
    intro s
    show FeedStore.eraseText (c₁.pending s) rows postIds now = _
    rw [hlater₁.pending]
  rw [hwritten, hwritten]
  generalize hclosed : List.filter _ (List.map (·.id) (List.filter _
    ((c.pending s₃).eraseText rows postIds now).reports)) = closed
  have htaking : Taking (c₃.write fun s => s.deleteReports closed) := by
    intro t s hsound hk
    have hk₃ : c₃.knows t s := hk
    have hk₁ : c₁.knows t s := hlater₃.knows t s hk₃
    have hbase := (hc t s hsound (hlater₁.knows t s hk₁)).mono
      fun l hl => hlater₃.held l (hlater₁.held l hl)
    refine hbase.trans ?_
    show TakenFrom c₃.held _ ((c₃.pending s).deleteReports closed)
    rw [hlater₃.pending, hwritten]
    refine taken_erased (fun id hid => hlater₃.held _ (hlocked id hid)) hmem ?_ ?_
    · intro id hid hrow
      rw [hfind]
      exact hgone t s hk₁ id hid hrow
    · intro report hreport id hid hsubject
      have hheld : (FeedLock.row (.post id), Mode.exclusive) ∈ c₁.held := hlocked id hid
      have hnew₄ : NobodyReported (.post id) s₄ s :=
        nobodyReported_of_rely (hlater₃.held _ hheld) (hrely₄ t s hk₃)
      have hnew₃ : NobodyReported (.post id) s₃ s₄ := nobodyReported_of_rely hheld hrely₃
      have hfound : ∀ u : FeedStore, NobodyReported (.post id) u s → report.id ∈
          List.map (·.id) (List.filter (fun report : PostReport =>
            decide (report.subject ∈ postIds.map ReportSubject.post))
              ((c.pending u).eraseText rows postIds now).reports) := by
        intro u hnew
        obtain ⟨was, hwas, hwasid, hx⟩ := hnew report (hbase.reports.subset hreport) hsubject
        rw [← hwasid]
        refine List.mem_map_of_mem (List.mem_filter.mpr ⟨hreports u was hwas id hx, ?_⟩)
        rw [hx]
        exact decide_eq_true (List.mem_map_of_mem (hmem id hid))
      rw [← hclosed]
      exact List.mem_filter.mpr ⟨hfound s₃ (hnew₃.trans hnew₄), decide_eq_true (hfound s₄ hnew₄)⟩
  rw [safe_bind]
  refine (safe_takeRows htaking fun held rows hlocks s => taken_deletePosts hlocks).mono
    fun _ c₅ hc₅ => ?_
  rw [safe_bind, safe_snapshot]
  intro t s _ _
  rw [safe_pure]
  exact hc₅.since ((Ctx.Since.refl c₅).see t s) rfl

theorem safe_eraseTraces (hc : Taking c) (personId : String) :
    Safe feedDiscipline prompt (eraseTraces personId) (fun _ => Taking) c :=
  safe_takeRows hc fun _ _ _ _ => taken_deleteReports

theorem safe_purgeWritten (hp : c.pending = id) (personId : String) (latest now : Int)
    (onRequest : Bool) :
    Safe feedDiscipline prompt (purgeWritten personId latest now onRequest) (fun _ => Owes) c := by
  unfold purgeWritten
  rw [safe_bind]
  refine safe_updateRows fun c₁ t₁ s₁ t₂ s₂ hlater hlocks _ _ _ _ _ _ => ?_
  generalize hrows : List.filter _ (List.map (·.id) (List.filter _ (c.pending s₁).comments)) = rows
  have hlocked : ∀ id ∈ rows, (FeedLock.row (.comment id), Mode.exclusive) ∈ c₁.held := by
    intro id hid
    rw [← hrows] at hid
    exact hlocks id (List.mem_filter.mp hid).1
  have hpending : ∀ s, (c₁.write fun s => s.deleteComments rows).pending s =
      s.deleteComments rows := by
    intro s
    show FeedStore.deleteComments (c₁.pending s) rows = _
    rw [hlater.pending, hp]
    rfl
  have hc₁ : Taking (c₁.write fun s => s.deleteComments rows) :=
    (Taking.of_id (hlater.pending.trans hp)).write fun s => taken_deleteComments hlocked
  generalize (c₁.write fun s => s.deleteComments rows) = c₂ at hpending hc₁ ⊢
  rw [safe_bind, safe_snapshot]
  intro t₃ s₃ _ _
  have hc₃ := hc₁.since ((Ctx.Since.refl c₂).see (D := feedDiscipline) t₃ s₃) rfl
  rw [safe_bind]
  refine (safe_erasePosts hc₃ (fun s => ?_) (fun s report hreport id hsubject => ?_) _ _).mono
    fun outcome c₄ hc₄ => ?_
  · show (c₂.pending s).posts = _
    rw [hpending]
    rfl
  · show report ∈ (c₂.pending s).reports
    rw [hpending]
    refine List.mem_filter.mpr ⟨hreport, decide_eq_true fun hmem => ?_⟩
    obtain ⟨id', -, heq⟩ := List.mem_map.mp hmem
    rw [hsubject] at heq
    cases heq
  have hended : ∀ (traces : List String) (c₅ : Ctx FeedStore FeedLock), Taking c₅ →
      Safe feedDiscipline prompt
        (if outcome.erased + rows.length + traces.length = 0 then pure ()
          else update fun s => s.record
            (.purged personId outcome.erased rows.length outcome.kept traces.length) : FeedTx Unit)
        (fun _ => Owes) c₅ := by
    intro traces c₅ hc₅
    split_ifs
    · exact safe_pure.mpr hc₅.owes
    · rw [safe_update]
      exact (hc₅.write fun s => taken_purged ..).owes
  split_ifs
  · rw [safe_bind]
    exact (safe_eraseTraces hc₄ personId).mono fun traces c₅ hc₅ => hended traces c₅ hc₅
  · rw [safe_bind, safe_pure]
    exact hended [] c₄ hc₄

theorem safe_purgePerson (ground : PurgeGround) (personId : String) (now : Instant)
    (retentionDays : Option ℚ) :
    SafeCall feedDiscipline prompt (purgePerson ground personId now retentionDays) := by
  unfold SafeCall purgePerson
  split
  · exact safe_fail
  refine safe_owed ?_ fun _ _ => trivial
  unfold purgePersonTx
  rw [safe_bind, safe_acquire]
  intro t₁ s₁ _ _ _
  rw [safe_bind, safe_acquire]
  intro t₂ s₂ _ _ _
  split_ifs
  · exact safe_pure.mpr (owes_of_unwritten rfl)
  · split
    · exact safe_fail
    · exact safe_purgeWritten rfl _ _ _ _

theorem safe_purgeErasedPosts : SafeCall feedDiscipline prompt purgeErasedPosts := by
  unfold SafeCall purgeErasedPosts
  refine safe_owed ?_ fun _ _ => trivial
  rw [safe_bind]
  refine (safe_takeRows (.of_id rfl) fun held rows hlocks s => taken_deletePosts hlocks).mono
    fun _ c₁ hc₁ => ?_
  exact safe_pure.mpr hc₁.owes

/-- **Every call** keeps what commits keep. -/
theorem safe_feedCall {p : FeedTx Unit} (h : FeedCall p) : SafeCall feedDiscipline prompt p := by
  cases h with
  | report scan reporter subject note => exact safe_report scan reporter subject note
  | strike actor reportId => exact safe_strike actor reportId
  | dismiss actor reportId => exact safe_dismiss actor reportId
  | strikePost actor postId => exact safe_strikePost actor postId
  | strikeComment actor commentId => exact safe_strikeComment actor commentId
  | editPost scan reader postId body => exact safe_editPost scan reader postId body
  | editComment scan reader commentId body => exact safe_editComment scan reader commentId body
  | purgePerson ground personId now retentionDays =>
    exact safe_purgePerson ground personId now retentionDays
  | purgeErasedPosts => exact safe_purgeErasedPosts

end OpenBrf.Feed
