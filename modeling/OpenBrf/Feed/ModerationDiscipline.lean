import OpenBrf.Feed.ModerationActs

/-!
# Feed.ModerationDiscipline — what moderation keeps while others write

Who holds the key of a post or a comment finds no new report of it and no new answer; who holds its
row finds its words as they were, and who holds its row alone finds no new report of it either.
Everybody who decides about it holds what makes the decision stand until it is committed.
-/

namespace OpenBrf.Feed

open Txn
open Retention (Instant RangeError)

/-- What is called, whatever the register answers about the caller. -/
inductive FeedCall : FeedTx Unit → Prop
  | report (scan : String → List ℕ) (reporter : FeedReader) (subject : ReportSubject)
      (note : Option String) : FeedCall (do let _ ← report scan reporter subject note)
  | strike (actor : FeedReader) (reportId : String) : FeedCall (do let _ ← strike actor reportId)
  | dismiss (actor : FeedReader) (reportId : String) :
      FeedCall (do let _ ← dismiss actor reportId)
  | strikePost (actor : FeedReader) (postId : String) :
      FeedCall (do let _ ← strikePost actor postId)
  | strikeComment (actor : FeedReader) (commentId : String) :
      FeedCall (do let _ ← strikeComment actor commentId)
  | editPost (scan : String → List ℕ) (reader : FeedReader) (postId body : String) :
      FeedCall (editPost scan reader postId body)
  | editComment (scan : String → List ℕ) (reader : FeedReader) (commentId body : String) :
      FeedCall (editComment scan reader commentId body)
  | purgePerson (ground : PurgeGround) (personId : String) (now : Instant)
      (retentionDays : Option ℚ) : FeedCall (purgePerson ground personId now retentionDays)
  | purgeErasedPosts : FeedCall purgeErasedPosts

/-- The calls beside each other. -/
def feedSystem : System FeedStore FeedLock String FeedFailure where
  calls := FeedCall
  prompt _ := False

inductive FeedFact where
  | words (x : ReportSubject)
  | reports (x : ReportSubject)
  | unreported (x : ReportSubject)
  | issue (id : String)
  | since

variable {s s' s'' : FeedStore} {x y : ReportSubject}

/-- Every report of `x` was there, as it is. -/
def NoNewReport (x : ReportSubject) (s s' : FeedStore) : Prop :=
  ∀ report ∈ s'.reports, report.subject = x → report ∈ s.reports

/-- Every report of `x` was there, whatever the answer to it. -/
def NobodyReported (x : ReportSubject) (s s' : FeedStore) : Prop :=
  ∀ report' ∈ s'.reports, report'.subject = x →
    ∃ report ∈ s.reports, report.id = report'.id ∧ report.subject = x

theorem NoNewReport.trans (h : NoNewReport x s s') (h' : NoNewReport x s' s'') :
    NoNewReport x s s'' :=
  fun report hreport hx => h report (h' report hreport hx) hx

theorem NobodyReported.trans (h : NobodyReported x s s') (h' : NobodyReported x s' s'') :
    NobodyReported x s s'' := by
  intro report'' hreport'' hx
  obtain ⟨report', hreport', hid', hx'⟩ := h' report'' hreport'' hx
  obtain ⟨report, hreport, hid, hsubject⟩ := h report' hreport' hx'
  exact ⟨report, hreport, hid.trans hid', hsubject⟩

/-- What commits keep of the feed, and for whom. -/
def feedDiscipline : Discipline FeedStore FeedLock FeedFact where
  inv _ s := Sound s
  guards
    | .words x, l, m => l = .row x ∧ m = .shared
    | .reports x, l, m => l = .subject x ∧ m = .exclusive
    | .unreported x, l, m => l = .row x ∧ m = .exclusive
    | .issue id, l, m => l = .reportId id ∧ m = .exclusive
    | .since, _, _ => False
  keeps
    | .words x, s, s' => words s' x = words s x
    | .reports x, s, s' => NoNewReport x s s'
    | .unreported x, s, s' => NobodyReported x s s'
    | .issue id, s, s' => id ∉ s.issued → id ∉ s'.issued
    | .since, s, s' => Since s s'
  allowed _ _ s s' := FeedAct s s'
  inv_mono _ h := h
  keeps_refl
    | .words _, _ => rfl
    | .reports _, _ => fun _ hreport _ => hreport
    | .unreported _, _ => fun report hreport hx => ⟨report, hreport, rfl, hx⟩
    | .issue _, _ => fun hid => hid
    | .since, s => .refl s
  keeps_trans := by
    rintro (x | x | x | id | _) s₁ s₂ s₃ h h'
    · exact Eq.trans h' h
    · exact NoNewReport.trans h h'
    · exact NobodyReported.trans h h'
    · exact fun hid => h' (h hid)
    · exact Since.trans h h'

section Commits

variable {held held' : List (FeedLock × Mode)} {reads reads' : List (Sight FeedStore FeedLock)}
  {t : Int}

theorem words_of_rely {m : Mode} (hheld : (FeedLock.row x, m) ∈ held)
    (h : feedDiscipline.Rely held s s') : words s' x = words s x := by
  refine h (.words x) fun l m' hl => ?_
  obtain ⟨rfl, rfl⟩ := hl
  exact ⟨m, hheld, nofun⟩

theorem noNewReport_of_rely (hheld : (FeedLock.subject x, Mode.exclusive) ∈ held)
    (h : feedDiscipline.Rely held s s') : NoNewReport x s s' := by
  refine h (.reports x) fun l m hl => ?_
  obtain ⟨rfl, rfl⟩ := hl
  exact ⟨.exclusive, hheld, fun _ => rfl⟩

theorem nobodyReported_of_rely (hheld : (FeedLock.row x, Mode.exclusive) ∈ held)
    (h : feedDiscipline.Rely held s s') : NobodyReported x s s' := by
  refine h (.unreported x) fun l m hl => ?_
  obtain ⟨rfl, rfl⟩ := hl
  exact ⟨.exclusive, hheld, fun _ => rfl⟩

theorem unissued_of_rely {id : String} (hheld : (FeedLock.reportId id, Mode.exclusive) ∈ held)
    (h : feedDiscipline.Rely held s s') (hid : id ∉ s.issued) : id ∉ s'.issued := by
  refine h (.issue id) (fun l m hl => ?_) hid
  obtain ⟨rfl, rfl⟩ := hl
  exact ⟨.exclusive, hheld, fun _ => rfl⟩

theorem since_of_rely (h : feedDiscipline.Rely held s s') : Since s s' :=
  h .since fun _ _ hl => hl.elim

/-- An act of somebody who holds every key and row it takes. -/
theorem commits_of_act (hsound : Sound s) (hact : FeedAct s s')
    (hwords : ∀ x, (FeedLock.row x, Mode.exclusive) ∉ held → words s' x = words s x)
    (hreports : ∀ x, (FeedLock.subject x, Mode.exclusive) ∉ held → NoNewReport x s s')
    (hunreported : ∀ x, (∀ m, (FeedLock.row x, m) ∉ held) → NobodyReported x s s')
    (hissue : ∀ id, (FeedLock.reportId id, Mode.exclusive) ∉ held → id ∉ s.issued →
      id ∉ s'.issued) : feedDiscipline.Commits held reads t s s' := by
  refine ⟨hact.sound hsound, hact, fun k hk => ?_⟩
  cases k with
  | words x =>
    refine hwords x fun hheld => ?_
    obtain ⟨-, hm⟩ := hk (.row x) .shared ⟨rfl, rfl⟩ .exclusive hheld
    cases hm
  | reports x =>
    refine hreports x fun hheld => ?_
    obtain ⟨hm, -⟩ := hk (.subject x) .exclusive ⟨rfl, rfl⟩ .exclusive hheld
    cases hm
  | unreported x =>
    refine hunreported x fun m hheld => ?_
    obtain ⟨hm, -⟩ := hk (.row x) .exclusive ⟨rfl, rfl⟩ m hheld
    cases hm
  | issue id =>
    refine hissue id fun hheld => ?_
    obtain ⟨hm, -⟩ := hk (.reportId id) .exclusive ⟨rfl, rfl⟩ .exclusive hheld
    cases hm
  | since => exact hact.since

/-- Reports answered by somebody who holds the key they are about. -/
theorem commits_of_closes {actorPersonId : String} {upheld : Bool} (hsound : Sound s)
    (hact : FeedAct s s') (hcloses : Closes x actorPersonId upheld s s')
    (hissued : s'.issued = s.issued) (hheld : (FeedLock.subject x, Mode.exclusive) ∈ held)
    (hwords : ∀ y, (FeedLock.row y, Mode.exclusive) ∉ held → words s' y = words s y) :
    feedDiscipline.Commits held reads t s s' := by
  refine commits_of_act hsound hact hwords (fun y hnot report' hreport' hy => ?_)
    (fun y _ report' hreport' hy => ?_) fun id _ hid => hissued ▸ hid
  · obtain ⟨report, hreport, hsame, ⟨hasks, -, -⟩ | ⟨-, rfl⟩⟩ := hcloses.mem hreport'
    · rw [← hy, hsame.subject, hasks.1] at hnot
      exact absurd hheld hnot
    · exact hreport
  · obtain ⟨report, hreport, hsame, -⟩ := hcloses.mem hreport'
    exact ⟨report, hreport, hsame.id.symm, hsame.subject.symm.trans hy⟩

/-- What a purge may have made of the feed, by somebody who holds the rows it took. -/
structure TakenFrom (held : List (FeedLock × Mode)) (s s' : FeedStore) : Prop where
  purged : ∀ x, Purged (words s x) (words s' x)
  rows : ∀ x, (FeedLock.row x, Mode.exclusive) ∉ held → words s' x = words s x
  kept : ∀ report ∈ s'.reports, words s' report.subject = words s report.subject
  reports : s'.reports.Sublist s.reports
  issued : s'.issued = s.issued
  log : ∀ x, strikes s' x = strikes s x

theorem TakenFrom.refl (s : FeedStore) : TakenFrom held s s :=
  ⟨fun _ => .refl _, fun _ _ => rfl, fun _ _ => rfl, .refl _, rfl, fun _ => rfl⟩

theorem TakenFrom.trans (h : TakenFrom held s s') (h' : TakenFrom held s' s'') :
    TakenFrom held s s'' where
  purged x := (h.purged x).trans (h'.purged x)
  rows x hx := (h'.rows x hx).trans (h.rows x hx)
  kept report hreport :=
    (h'.kept report hreport).trans (h.kept report (h'.reports.subset hreport))
  reports := h'.reports.trans h.reports
  issued := h'.issued.trans h.issued
  log x := (h'.log x).trans (h.log x)

theorem TakenFrom.mono (hsub : ∀ l ∈ held, l ∈ held') (h : TakenFrom held s s') :
    TakenFrom held' s s' :=
  { h with rows := fun x hx => h.rows x fun hheld => hx (hsub _ hheld) }

theorem commits_of_taken (hsound : Sound s) (h : TakenFrom held s s') :
    feedDiscipline.Commits held reads t s s' := by
  refine commits_of_act hsound (.purged h.purged h.kept h.reports h.issued h.log) h.rows
    (fun x _ report hreport _ => h.reports.subset hreport)
    (fun x _ report hreport hx => ⟨report, h.reports.subset hreport, rfl, hx⟩) fun id _ hid => ?_
  rw [h.issued]
  exact hid

theorem commits_refl (hsound : Sound s) : feedDiscipline.Commits held reads t s s :=
  commits_of_taken hsound (.refl s)

/-- Locks more are held than what a commit needs. -/
theorem commits_mono (hsub : ∀ l ∈ held, l ∈ held') (h : feedDiscipline.Commits held reads t s s') :
    feedDiscipline.Commits held' reads' t s s' :=
  ⟨h.inv, h.allowed, fun k hk => h.keeps k fun l m hl m' hm' => hk l m hl m' (hsub _ hm')⟩

end Commits

/-! ### Reading -/

section Calls

variable {prompt : FeedLock → Prop} {c c' : Ctx FeedStore FeedLock}

/-- The transaction may be committed as it stands. -/
def Owes (c : Ctx FeedStore FeedLock) : Prop :=
  ∀ t s, Sound s → c.knows t s → feedDiscipline.Commits c.held c.reads t s (c.pending s)

theorem Owes.since (h : Owes c) (hsince : c.Since c') (hpending : c'.pending = c.pending) :
    Owes c' := by
  intro t s hsound hk
  rw [hpending]
  exact commits_mono hsince.held (h t s hsound (hsince.knows t s hk))

theorem owes_of_unwritten (hp : c.pending = id) : Owes c := by
  intro t s hsound _
  rw [hp]
  exact commits_refl hsound

theorem findReport_some {id : String} {report : PostReport} (h : findReport s id = some report) :
    report ∈ s.reports ∧ report.id = id := by
  have hid := List.find?_some h
  exact ⟨List.mem_of_find?_eq_some h, of_decide_eq_true hid⟩

theorem findPost_id {id : String} {post : Post} (h : findPost s id = some post) : post.id = id := by
  have hid := List.find?_some h
  exact of_decide_eq_true hid

theorem findComment_id {id : String} {comment : PostComment} (h : findComment s id = some comment) :
    comment.id = id := by
  have hid := List.find?_some h
  exact of_decide_eq_true hid

theorem reading_requireReportable (subject : ReportSubject) (reporter : FeedReader) :
    Reading (requireReportable subject reporter) := by
  cases subject with
  | post postId =>
    refine Within.bind Within.snapshot fun s => ?_
    split
    · exact .fail _
    · exact .bind .refuseIf fun _ => .bind .refuseIf fun _ => .bind .refuseIf fun _ =>
        .bind .refuseIf fun _ => .refuseIf
  | comment commentId =>
    refine Within.bind Within.snapshot fun s => ?_
    split
    · exact .fail _
    · exact .bind .refuseIf fun _ => .bind .refuseIf fun _ => .refuseIf

theorem reading_refuseTooManyReports (reporterPersonId : String) :
    Reading (refuseTooManyReports reporterPersonId) :=
  .bind .readClock fun _ => .bind .snapshot fun _ => .refuseIf

theorem reading_refuseNote (scan : String → List ℕ) (note : Option String) :
    Reading (refuseNote scan note) := by
  cases note with
  | none => exact .pure ()
  | some note => exact .refuseIf

theorem reading_answeredRow (reportId : String) : Reading (answeredRow reportId) := by
  refine Within.bind Within.snapshot fun s => ?_
  split
  · exact .fail _
  · exact .pure _

/-! ### Locking what is reported -/

/-- Its key is held, and its row. -/
structure Holds (x : ReportSubject) (c : Ctx FeedStore FeedLock) : Prop where
  subject : (FeedLock.subject x, Mode.exclusive) ∈ c.held
  row : ∃ m, (FeedLock.row x, m) ∈ c.held

theorem Holds.since (h : Holds x c) (hsince : c.Since c') : Holds x c' := by
  obtain ⟨m, hm⟩ := h.row
  exact ⟨hsince.held _ h.subject, m, hsince.held _ hm⟩

/-- It is there, and was not erased, at every commit of others from here on. -/
def There (x : ReportSubject) (c : Ctx FeedStore FeedLock) : Prop :=
  ∀ t s, c.knows t s → ∃ w, words s x = some w ∧ w.erasedAt = none

/-- It stands, at every commit of others from here on. -/
def Stands (x : ReportSubject) (c : Ctx FeedStore FeedLock) : Prop :=
  ∀ t s, c.knows t s → Standing s x

theorem Stands.since (h : Stands x c) (hsince : c.Since c') : Stands x c' :=
  fun t s hk => h t s (hsince.knows t s hk)

theorem There.since (h : There x c) (hsince : c.Since c') : There x c' :=
  fun t s hk => h t s (hsince.knows t s hk)

theorem words_post {id : String} {post : Post} (h : findPost s id = some post) :
    words s (.post id) = some (post.words (revisionsOf s (.post id))) := by
  simp only [words, h, Option.map_some]

theorem words_comment {id : String} {comment : PostComment} (h : findComment s id = some comment) :
    words s (.comment id) = some (comment.words (revisionsOf s (.comment id))) := by
  simp only [words, h, Option.map_some]

/-- A post read under its row's lock. -/
theorem safe_readPost (hp : c.pending = id) {m : Mode} {postId : String}
    {Q : Option Post → Ctx FeedStore FeedLock → Prop} (hgone : ∀ c', c.Later c' → Q none c')
    (h : ∀ c' s post, c.Later c' → (FeedLock.row (.post postId), m) ∈ c'.held →
      findPost s postId = some post →
      (∀ t' s', c'.knows t' s' → words s' (.post postId) = words s (.post postId)) →
      Q (some post) c') :
    Safe feedDiscipline prompt
      (readLocked (.row (.post postId)) m (findPost · postId) : FeedTx (Option Post)) Q c := by
  refine safe_readLocked hgone fun c' t s post hlater hheld _ _ hfind hrely => ?_
  rw [hp] at hfind
  exact h c' s post hlater hheld hfind fun t' s' hk =>
    words_of_rely List.mem_cons_self (hrely t' s' hk)

theorem safe_readComment (hp : c.pending = id) {m : Mode} {commentId : String}
    {Q : Option PostComment → Ctx FeedStore FeedLock → Prop} (hgone : ∀ c', c.Later c' → Q none c')
    (h : ∀ c' s comment, c.Later c' → (FeedLock.row (.comment commentId), m) ∈ c'.held →
      findComment s commentId = some comment →
      (∀ t' s', c'.knows t' s' → words s' (.comment commentId) = words s (.comment commentId)) →
      Q (some comment) c') :
    Safe feedDiscipline prompt (readLocked (.row (.comment commentId)) m
      (findComment · commentId) : FeedTx (Option PostComment)) Q c := by
  refine safe_readLocked hgone fun c' t s comment hlater hheld _ _ hfind hrely => ?_
  rw [hp] at hfind
  exact h c' s comment hlater hheld hfind fun t' s' hk =>
    words_of_rely List.mem_cons_self (hrely t' s' hk)

theorem there_of_post {postId : String} {post : Post} (hfind : findPost s postId = some post)
    (herased : post.erasedAt = none)
    (hsame : ∀ t' s', c.knows t' s' → words s' (.post postId) = words s (.post postId)) :
    There (.post postId) c :=
  fun t' s' hk => ⟨_, (hsame t' s' hk).trans (words_post hfind), herased⟩

theorem stands_of_post {postId : String} {post : Post} (hfind : findPost s postId = some post)
    (herased : post.erasedAt = none) (hstruck : post.struckAt = none)
    (hsame : ∀ t' s', c.knows t' s' → words s' (.post postId) = words s (.post postId)) :
    Stands (.post postId) c :=
  fun t' s' hk => ⟨_, (hsame t' s' hk).trans (words_post hfind), hstruck, herased⟩

theorem there_of_comment {commentId : String} {comment : PostComment}
    (hfind : findComment s commentId = some comment)
    (hsame : ∀ t' s', c.knows t' s' → words s' (.comment commentId) = words s (.comment commentId)) :
    There (.comment commentId) c :=
  fun t' s' hk => ⟨_, (hsame t' s' hk).trans (words_comment hfind), rfl⟩

theorem stands_of_comment {commentId : String} {comment : PostComment}
    (hfind : findComment s commentId = some comment) (hstruck : comment.struckAt = none)
    (hsame : ∀ t' s', c.knows t' s' → words s' (.comment commentId) = words s (.comment commentId)) :
    Stands (.comment commentId) c :=
  fun t' s' hk => ⟨_, (hsame t' s' hk).trans (words_comment hfind), hstruck, rfl⟩

/-- A post that was not erased when its row was locked. -/
theorem safe_refuseErasedPost (hp : c.pending = id) {postId : String}
    {Q : Post → Ctx FeedStore FeedLock → Prop}
    (h : ∀ c' s post, c.Later c' → (FeedLock.row (.post postId), Mode.shared) ∈ c'.held →
      findPost s postId = some post → post.erasedAt = none →
      (∀ t' s', c'.knows t' s' → words s' (.post postId) = words s (.post postId)) → Q post c') :
    Safe feedDiscipline prompt (refuseErasedPost postId) Q c := by
  unfold refuseErasedPost readPostForShare
  rw [safe_bind]
  refine safe_readPost hp (fun _ _ => safe_fail) fun c' s post hlater hheld hfind hsame => ?_
  show Safe feedDiscipline prompt (refuseIf _ _ >>= _) Q c'
  rw [safe_bind, safe_refuseIf]
  intro hnot
  rw [safe_pure]
  exact h c' s post hlater hheld hfind (not_not.mp hnot) hsame

/-- The key of a post or a comment, taken. -/
theorem safe_acquireSubject {Q : Unit → Ctx FeedStore FeedLock → Prop}
    (h : ∀ c', c.Later c' → (FeedLock.subject x, Mode.exclusive) ∈ c'.held → Q () c') :
    Safe feedDiscipline prompt (acquire (.subject x) .exclusive : FeedTx Unit) Q c := by
  rw [safe_acquire]
  intro t s _ _ _
  exact h _ (((Ctx.Later.refl c).acquire _ _).observe t s) List.mem_cons_self

theorem safe_lockReportable (hp : c.pending = id) {Q : Unit → Ctx FeedStore FeedLock → Prop}
    (h : ∀ c', c.Later c' → Holds x c' → Stands x c' → Q () c') :
    Safe feedDiscipline prompt (lockReportable x) Q c := by
  unfold lockReportable
  rw [safe_bind]
  refine safe_acquireSubject fun c₁ hlater₁ hsubject => ?_
  have hp₁ : c₁.pending = id := hlater₁.pending.trans hp
  cases x with
  | post postId =>
    show Safe feedDiscipline prompt (refuseErasedPost postId >>= _) Q c₁
    rw [safe_bind]
    refine safe_refuseErasedPost hp₁ fun c₂ s post hlater₂ hrow hfind herased hsame => ?_
    rw [safe_refuseIf]
    intro hnot
    exact h c₂ (hlater₁.trans hlater₂) ⟨hlater₂.held _ hsubject, .shared, hrow⟩
      (stands_of_post hfind herased (not_not.mp hnot) hsame)
  | comment commentId =>
    show Safe feedDiscipline prompt (readCommentLocked commentId >>= _) Q c₁
    unfold readCommentLocked
    rw [safe_bind]
    refine safe_readComment hp₁ (fun _ _ => safe_fail) fun c₂ s comment hlater₂ hrow hfind hsame => ?_
    show Safe feedDiscipline prompt (refuseIf _ _) Q c₂
    rw [safe_refuseIf]
    intro hnot
    exact h c₂ (hlater₁.trans hlater₂) ⟨hlater₂.held _ hsubject, .exclusive, hrow⟩
      (stands_of_comment hfind (not_not.mp hnot) hsame)

theorem safe_lockReported (hp : c.pending = id) {Q : Unit → Ctx FeedStore FeedLock → Prop}
    (h : ∀ c', c.Later c' → Holds x c' → There x c' → Q () c') :
    Safe feedDiscipline prompt (lockReported x) Q c := by
  unfold lockReported
  rw [safe_bind]
  refine safe_acquireSubject fun c₁ hlater₁ hsubject => ?_
  have hp₁ : c₁.pending = id := hlater₁.pending.trans hp
  cases x with
  | post postId =>
    show Safe feedDiscipline prompt (readPostForShare postId >>= _) Q c₁
    unfold readPostForShare
    rw [safe_bind]
    refine safe_readPost hp₁ (fun c₂ _ => ?_) fun c₂ s post hlater₂ hrow hfind hsame => ?_
    · rw [safe_refuseIf]
      exact fun hnot => absurd rfl hnot
    · rw [safe_refuseIf]
      intro hnot
      exact h c₂ (hlater₁.trans hlater₂) ⟨hlater₂.held _ hsubject, .shared, hrow⟩
        (there_of_post hfind (by simpa using hnot) hsame)
  | comment commentId =>
    show Safe feedDiscipline prompt (readCommentLocked commentId >>= _) Q c₁
    unfold readCommentLocked
    rw [safe_bind]
    refine safe_readComment hp₁ (fun c₂ _ => ?_) fun c₂ s comment hlater₂ hrow hfind hsame => ?_
    · rw [safe_refuseIf]
      exact fun hnot => absurd rfl hnot
    · rw [safe_refuseIf]
      intro _
      exact h c₂ (hlater₁.trans hlater₂) ⟨hlater₂.held _ hsubject, .exclusive, hrow⟩
        (there_of_comment hfind hsame)

end Calls

end OpenBrf.Feed
