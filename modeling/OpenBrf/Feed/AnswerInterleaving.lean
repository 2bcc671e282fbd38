import OpenBrf.Feed.ModerationDiscipline

/-!
# Feed.AnswerInterleaving — reports and answers beside each other

A report is claimed under its row's lock and what it is about under its key and its row's: the claim
finds it open, so that what it asks about stands, and the answer finds every other that was open.
-/

namespace OpenBrf.Feed

open Txn

variable {s s' s'' : FeedStore} {x y : ReportSubject} {prompt : FeedLock → Prop}
  {c c' : Ctx FeedStore FeedLock}

/-! ### Reporting -/

/-- A report inserted by somebody who holds what it is about and its identifier. -/
theorem commits_reported {held : List (FeedLock × Mode)} {reads : List (Sight FeedStore FeedLock)}
    {t : Int} (report : PostReport) (hsound : Sound s) (hstands : Standing s report.subject)
    (hopen : report.resolvedAt = none) (hunanswered : report.upheld = none)
    (hfirst : ∀ other ∈ s.reports, other.subject = report.subject →
      other.reporterPersonId ≠ report.reporterPersonId) (hfresh : report.id ∉ s.issued)
    (hsubject : (FeedLock.subject report.subject, Mode.exclusive) ∈ held)
    (hrow : ∃ m, (FeedLock.row report.subject, m) ∈ held)
    (hid : (FeedLock.reportId report.id, Mode.exclusive) ∈ held) :
    feedDiscipline.Commits held reads t s
      { s with reports := report :: s.reports, issued := report.id :: s.issued } := by
  have hwords : ∀ x, words { s with reports := report :: s.reports, issued := report.id :: s.issued }
      x = words s x := words_congr rfl rfl rfl
  have hact := FeedAct.reported hstands hopen hunanswered hfirst hfresh hwords rfl rfl rfl
  refine commits_of_act hsound hact (fun x _ => hwords x) (fun x hnot other hother hx => ?_)
    (fun x hnot other hother hx => ?_) fun id hnot hfree hissued => ?_
  · rcases List.mem_cons.mp hother with rfl | hother
    · exact absurd (hx ▸ hsubject) hnot
    · exact hother
  · rcases List.mem_cons.mp hother with rfl | hother
    · obtain ⟨m, hm⟩ := hrow
      exact absurd (hx ▸ hm) (hnot m)
    · exact ⟨other, hother, rfl, hx⟩
  · rcases List.mem_cons.mp hissued with rfl | hissued
    · exact hnot hid
    · exact hfree hissued

theorem safe_createReport (hp : c.pending = id) (hholds : Holds x c) (hstands : Stands x c)
    (reporterPersonId : String) (note : Option String) :
    Safe feedDiscipline prompt (createReport x reporterPersonId note) (fun _ => Owes) c := by
  unfold createReport
  rw [safe_bind, safe_readClock]
  intro t₁ s₁ _ _
  rw [safe_bind, safe_fresh]
  intro reportId
  rw [safe_bind, safe_acquire]
  intro t₂ s₂ _ _ _
  rw [safe_bind, safe_snapshot]
  intro t₃ s₃ _ _
  rw [safe_bind, safe_refuseIf]
  intro hfresh
  rw [safe_bind, safe_acquire]
  intro t₄ s₄ _ _ _
  rw [safe_bind, safe_snapshot]
  intro t₅ s₅ _ _
  rw [safe_bind, safe_refuseIf]
  intro hfirst
  rw [safe_bind, safe_update, safe_pure]
  intro t s hsound hk
  have hold : ∀ l ∈ c.held, l ∈ (FeedLock.reportOf x reporterPersonId, Mode.exclusive) ::
      (FeedLock.reportId reportId, Mode.exclusive) :: c.held :=
    fun l hl => List.mem_cons_of_mem _ (List.mem_cons_of_mem _ hl)
  -- what was seen last, what was seen under the identifier's key, and what was known before
  obtain ⟨⟨⟨⟨⟨hknown, -, -⟩, -, -⟩, -, hrely₃⟩, -, -⟩, -, hrely₅⟩ := hk
  have hknows : Standing s x := hstands t s hknown
  have hunissued : reportId ∉ s.issued := by
    refine unissued_of_rely List.mem_cons_self hrely₃ ?_
    have hseen : reportId ∉ (c.pending s₃).issued := hfresh
    rwa [hp] at hseen
  have hnew : NoNewReport x s₅ s := noNewReport_of_rely (hold _ hholds.subject) hrely₅
  obtain ⟨m, hrow⟩ := hholds.row
  show feedDiscipline.Commits _ _ t s { c.pending s with
    reports := _ :: (c.pending s).reports, issued := reportId :: (c.pending s).issued }
  rw [hp]
  refine commits_reported ⟨reportId, x, reporterPersonId, note, t₁, none, none, none⟩ hsound
    hknows rfl rfl ?_ hunissued (hold _ hholds.subject) ⟨m, hold _ hrow⟩ ?_
  · intro other hother hx hreporter
    have hseen : ¬ ∃ report ∈ (c.pending s₅).reports, report.subject = x ∧
      report.reporterPersonId = reporterPersonId := hfirst
    rw [hp] at hseen
    exact hseen ⟨other, hnew other hother hx, hx, hreporter⟩
  · exact List.mem_cons_of_mem _ List.mem_cons_self

/-- A body that leaves what it owes, as a transaction. -/
theorem safe_owed {α : Type} {p : FeedTx α} {Q : α → Ctx FeedStore FeedLock → Prop}
    (h : Safe feedDiscipline prompt p (fun _ => Owes) c) (hQ : ∀ a c', Q a c') :
    Safe feedDiscipline prompt (transaction p) Q c := by
  rw [safe_transaction]
  exact h.mono fun a c' howes => ⟨howes, hQ a _⟩

theorem safe_reportTx (hp : c.pending = id) (reporterPersonId : String) (note : Option String) :
    Safe feedDiscipline prompt (reportTx reporterPersonId x note) (fun _ => Owes) c := by
  unfold reportTx
  rw [safe_bind, safe_acquire]
  intro t₁ s₁ _ _ _
  rw [safe_bind]
  refine safe_reading (reading_refuseTooManyReports _) fun _ c₂ _ hp₂ => ?_
  have hpending : c₂.pending = id := hp₂.trans hp
  rw [safe_bind]
  refine safe_lockReportable hpending fun c₃ hlater hholds hstands => ?_
  exact safe_createReport (hlater.pending.trans hpending) hholds hstands reporterPersonId note

theorem safe_report (scan : String → List ℕ) (reporter : FeedReader) (subject : ReportSubject)
    (note : Option String) :
    SafeCall feedDiscipline prompt (do let _ ← report scan reporter subject note) := by
  unfold SafeCall report
  rw [safe_bind, safe_bind]
  refine safe_reading (reading_requireReportable _ _) fun _ c₁ _ hp₁ => ?_
  rw [safe_bind]
  refine safe_reading (reading_refuseNote _ _) fun _ c₂ _ hp₂ => ?_
  rw [safe_bind, safe_snapshot]
  intro t s _ _
  rw [safe_bind, safe_refuseIf]
  intro _
  rw [safe_bind]
  refine safe_reading (reading_refuseTooManyReports _) fun _ c₃ _ hp₃ => ?_
  have hpending : c₃.pending = id := hp₃.trans (hp₂.trans hp₁)
  exact safe_owed (safe_reportTx hpending reporter.personId note) fun _ _ => trivial

/-! ### Answering -/

/-- Some reports of `x` that were open are answered, and nothing else is written. -/
structure Answering (x : ReportSubject) (ids : List String) (now : Int) (actorPersonId : String)
    (upheld : Bool) (c : Ctx FeedStore FeedLock) : Prop where
  holds : Holds x c
  there : There x c
  pending : ∀ s, c.pending s = s.answer ids now actorPersonId upheld
  asks : ∀ t s, Sound s → c.knows t s → ∀ report ∈ s.reports, report.id ∈ ids →
    AsksAbout x report

section Answers

variable {ids : List String} {now : Int} {actorPersonId : String} {upheld : Bool}

theorem Answering.since (h : Answering x ids now actorPersonId upheld c) (hsince : c.Since c')
    (hpending : c'.pending = c.pending) : Answering x ids now actorPersonId upheld c' where
  holds := h.holds.since hsince
  there := h.there.since hsince
  pending s := by
    rw [hpending]
    exact h.pending s
  asks t s hsound hk := h.asks t s hsound (hsince.knows t s hk)

/-- Before any report is answered. -/
theorem Answering.none (hp : c.pending = id) (hholds : Holds x c) (hthere : There x c) (now : Int)
    (actorPersonId : String) (upheld : Bool) : Answering x [] now actorPersonId upheld c where
  holds := hholds
  there := hthere
  pending s := by
    rw [hp, answer_nil]
    rfl
  asks t s _ _ report _ hid := by cases hid

theorem mem_openReports {p : PostReport → Bool} {id : String} (h : id ∈ openReports p s) :
    ∃ report ∈ s.reports, report.id = id ∧ p report = true ∧ report.resolvedAt = none := by
  obtain ⟨report, hreport, hid⟩ := List.mem_map.mp h
  obtain ⟨hmem, hboth⟩ := List.mem_filter.mp hreport
  rw [Bool.and_eq_true] at hboth
  exact ⟨report, hmem, hid, hboth.1, Option.isNone_iff_eq_none.mp hboth.2⟩

theorem openReports_mem {p : PostReport → Bool} {report : PostReport} (hreport : report ∈ s.reports)
    (hp : p report = true) (hopen : report.resolvedAt = none) : report.id ∈ openReports p s := by
  refine List.mem_map_of_mem (List.mem_filter.mpr ⟨hreport, ?_⟩)
  rw [hp, Bool.true_and]
  exact Option.isNone_iff_eq_none.mpr hopen

/-- A report that an answer passed over. -/
theorem mem_answer {report : PostReport} (hreport : report ∈ s.reports) (hid : report.id ∉ ids) :
    report ∈ (s.answer ids now actorPersonId upheld).reports := by
  have hmem := List.mem_map_of_mem (f := fun report : PostReport =>
    if report.id ∈ ids then report.answered now actorPersonId upheld else report) hreport
  rwa [if_neg hid] at hmem

/-- A report that is still open was passed over. -/
theorem open_of_mem_answer {report : PostReport}
    (hreport : report ∈ (s.answer ids now actorPersonId upheld).reports)
    (hopen : report.resolvedAt = none) : report ∈ s.reports := by
  obtain ⟨was, hwas, rfl⟩ := List.mem_map.mp hreport
  split_ifs at hopen ⊢
  · cases hopen
  · exact hwas

/-- What the report row's own lock and the key settle: who claims a report of `x` finds it open, and
nobody answers it until the claim is committed. -/
theorem safe_claimReport (hp : c.pending = id) (hholds : Holds x c) (hthere : There x c)
    {s₀ : FeedStore} {report : PostReport} (hsound₀ : Sound s₀) (hreport : report ∈ s₀.reports)
    (hx : report.subject = x) (hsince : ∀ t s, c.knows t s → Since s₀ s)
    {Q : List String → Ctx FeedStore FeedLock → Prop}
    (h : ∀ rows c', Answering x rows now actorPersonId upheld c' →
      (rows ≠ [] → Stands x c') → Q rows c') :
    Safe feedDiscipline prompt (updateRows .report (openReports fun other => other.id = report.id)
      (fun ids s => s.answer ids now actorPersonId upheld) : FeedTx (List String)) Q c := by
  refine safe_updateRows fun c' t₁ s₁ t₂ s₂ hlater _ hsound₁ hk₁ hsound₂ hk₂ _ hrely => ?_
  rw [hp]
  have hfound : ∀ id' ∈ (openReports (fun other => decide (other.id = report.id)) s₁).filter
      (· ∈ openReports (fun other => decide (other.id = report.id)) s₂),
      ∃ other ∈ s₂.reports, other.id = id' ∧ id' = report.id ∧ AsksAbout x other := by
    intro id' hid'
    obtain ⟨other, hother, hid, hsame, hopen⟩ :=
      mem_openReports (of_decide_eq_true (List.mem_filter.mp hid').2)
    have heq : other.id = report.id := of_decide_eq_true hsame
    refine ⟨other, hother, hid, hid.symm.trans heq, ?_, hopen⟩
    exact ((hsince t₂ s₂ hk₂).subject hsound₀ hreport hother heq).trans hx
  have hheld : (FeedLock.subject x, Mode.exclusive) ∈ c'.held := hlater.held _ hholds.subject
  refine h _ _ ⟨hholds.since (hlater.toSince.write _), hthere.since (hlater.toSince.write _), ?_, ?_⟩ ?_
  · intro s
    show FeedStore.answer (c'.pending s) _ _ _ _ = _
    rw [hlater.pending, hp]
    rfl
  · intro t s _ hk other hother hid
    obtain ⟨was, hwas, hwasid, -, hasks⟩ := hfound _ hid
    have hrelied : feedDiscipline.Rely c'.held s₂ s := hrely t s hk
    have hsubject : other.subject = x :=
      ((since_of_rely hrelied).subject hsound₂ hwas hother hwasid.symm).trans hasks.1
    have hmem := noNewReport_of_rely hheld hrelied other hother hsubject
    rw [hsound₂.eq_of_id hmem hwas hwasid.symm]
    exact hasks
  · intro hrows t s hk
    obtain ⟨id', hid'⟩ := List.exists_mem_of_ne_nil _ hrows
    obtain ⟨was, hwas, -, -, hasks⟩ := hfound id' hid'
    have hstood := hsound₂.asks was hwas hasks.2
    rw [hasks.1] at hstood
    obtain ⟨m, hrow⟩ := hholds.row
    exact hstood.congr (words_of_rely (hlater.held _ hrow) (hrely t s hk))

theorem struckThing_subject {thing : StruckThing} (h : struckThing s x = some thing) :
    thing.subject = x := by
  cases x with
  | post postId =>
    obtain ⟨post, hfind, rfl⟩ := Option.map_eq_some_iff.mp h
    exact congrArg ReportSubject.post (findPost_id hfind)
  | comment commentId =>
    obtain ⟨comment, hfind, h⟩ := Option.bind_eq_some_iff.mp h
    obtain ⟨post, -, h⟩ := Option.bind_eq_some_iff.mp h
    obtain rfl := Option.some.inj h
    exact congrArg ReportSubject.comment (findComment_id hfind)

theorem safe_claim (hp : c.pending = id) (reportId : String)
    {Q : StruckThing → Ctx FeedStore FeedLock → Prop}
    (h : ∀ claimed ids now c', Answering claimed.subject ids now actorPersonId upheld c' →
      Stands claimed.subject c' → Q claimed c') :
    Safe feedDiscipline prompt (claim reportId actorPersonId upheld) Q c := by
  unfold claim
  rw [safe_bind, safe_snapshot]
  intro t₀ s₀ hsound₀ _
  have hlater₀ := (Ctx.Later.refl c).see (D := feedDiscipline) t₀ s₀
  have hsince₀ : ∀ t s, (c.see feedDiscipline t₀ s₀).knows t s → Since s₀ s :=
    fun t s hk => since_of_rely hk.2.2
  generalize c.see feedDiscipline t₀ s₀ = c₀ at hlater₀ hsince₀ ⊢
  split
  · exact safe_fail
  next claimed hclaimed =>
    obtain ⟨report, hfind, hthing⟩ := Option.bind_eq_some_iff.mp hclaimed
    rw [hp] at hfind
    obtain ⟨hreport, rfl⟩ := findReport_some hfind
    have hsubject := struckThing_subject hthing
    rw [safe_bind]
    refine safe_lockReported (hlater₀.pending.trans hp) fun c₁ hlater₁ hholds hthere => ?_
    rw [safe_bind, safe_readClock]
    intro t₁ s₁ _ _
    have hsince₁ : c₁.Since ((c₁.observe feedDiscipline t₁ s₁).readAt t₁) := by
      have hseen := (Ctx.Since.refl c₁).observe (D := feedDiscipline) t₁ s₁
      exact ⟨hseen.held, hseen.knows, hseen.reads⟩
    have hp₁ : ((c₁.observe feedDiscipline t₁ s₁).readAt t₁).pending = id :=
      hlater₁.pending.trans (hlater₀.pending.trans hp)
    generalize (c₁.observe feedDiscipline t₁ s₁).readAt t₁ = c₁' at hsince₁ hp₁ ⊢
    rw [safe_bind]
    refine safe_claimReport hp₁
      (hholds.since hsince₁) (hthere.since hsince₁) hsound₀ hreport hsubject.symm
      (fun t s hk => hsince₀ t s (hlater₁.knows t s (hsince₁.knows t s hk)))
      fun rows c₂ hanswering hstands => ?_
    rw [safe_bind, safe_refuseIf]
    intro hrows
    rw [safe_pure]
    exact h claimed rows t₁ c₂ hanswering (hstands hrows)

/-- **Every open report** of it is answered alike, once the key has been held throughout. -/
theorem closes_of_answers {rows : List String} {at' : Int} {s₁ s₂ : FeedStore} (hsound₂ : Sound s₂)
    (hnew₁ : NoNewReport x s₁ s) (hnew₂ : NoNewReport x s₂ s) (hsince : Since s₂ s)
    (hasks : ∀ report ∈ s.reports, report.id ∈ ids → AsksAbout x report)
    (hrows : ∀ id, id ∈ rows ↔
      id ∈ openReports (fun report => decide (report.subject = x))
        (s₁.answer ids at' actorPersonId upheld) ∧
      id ∈ openReports (fun report => decide (report.subject = x))
        (s₂.answer ids at' actorPersonId upheld)) :
    Closes x actorPersonId upheld s
      ((s.answer ids at' actorPersonId upheld).answer rows now actorPersonId upheld) := by
  refine ⟨fun report =>
    let first := if report.id ∈ ids then report.answered at' actorPersonId upheld else report
    if first.id ∈ rows then first.answered now actorPersonId upheld else first,
    List.map_map, fun report hreport => ⟨fun hasking => ?_, fun hnot => ?_⟩⟩
  · by_cases hid : report.id ∈ ids
    · simp only [if_pos hid]
      split_ifs
      · exact ⟨now, rfl⟩
      · exact ⟨at', rfl⟩
    · have hrow : report.id ∈ rows := by
        refine (hrows report.id).mpr ⟨?_, ?_⟩
        · exact openReports_mem (mem_answer (hnew₁ report hreport hasking.1) hid)
            (decide_eq_true hasking.1) hasking.2
        · exact openReports_mem (mem_answer (hnew₂ report hreport hasking.1) hid)
            (decide_eq_true hasking.1) hasking.2
      simp only [if_neg hid, if_pos hrow]
      exact ⟨now, rfl⟩
  · have hid : report.id ∉ ids := fun hid => hnot (hasks report hreport hid)
    have hrow : report.id ∉ rows := by
      intro hrow
      obtain ⟨was, hwas, hwasid, hsubject, hopen⟩ := mem_openReports ((hrows _).mp hrow).2
      have hwas₂ := open_of_mem_answer hwas hopen
      have hx : report.subject = x := (hsince.subject hsound₂ hwas₂ hreport hwasid.symm).trans
        (of_decide_eq_true hsubject)
      have hsame := hsound₂.eq_of_id (hnew₂ report hreport hx) hwas₂ hwasid.symm
      exact hnot ⟨hx, hsame ▸ hopen⟩
    simp only [if_neg hid, if_neg hrow]

theorem openReports_congr {p : PostReport → Bool} (h : s'.reports = s.reports) :
    openReports p s' = openReports p s := by
  unfold openReports
  rw [h]

/-- Answering every open report, after some were answered and other tables were written. -/
theorem safe_closeReports {at' : Int} {c₀ : Ctx FeedStore FeedLock}
    (hanswering : Answering x ids at' actorPersonId upheld c₀) (hsince₀ : c₀.Since c)
    (hreports : ∀ s, (c.pending s).reports = (s.answer ids at' actorPersonId upheld).reports)
    {Q : List String → Ctx FeedStore FeedLock → Prop}
    (h : ∀ rows c', c.Later c' → (∀ t s, Sound s → c'.knows t s → Closes x actorPersonId upheld s
      ((s.answer ids at' actorPersonId upheld).answer rows now actorPersonId upheld)) →
      Q rows (c'.write fun s => s.answer rows now actorPersonId upheld)) :
    Safe feedDiscipline prompt (closeReports x now actorPersonId upheld) Q c := by
  unfold closeReports
  refine safe_updateRows fun c' t₁ s₁ t₂ s₂ hlater _ _ _ hsound₂ _ hrely₁ hrely => ?_
  refine h _ c' hlater fun t s hsound hk => ?_
  have hheld := hsince₀.held _ hanswering.holds.subject
  have hnew₁ : NoNewReport x s₁ s₂ := noNewReport_of_rely hheld hrely₁
  have hnew₂ : NoNewReport x s₂ s :=
    noNewReport_of_rely (hlater.held _ hheld) (hrely t s hk)
  have hknown := hsince₀.knows t s (hlater.knows t s hk)
  refine closes_of_answers hsound₂ (hnew₁.trans hnew₂) hnew₂ (since_of_rely (hrely t s hk))
    (hanswering.asks t s hsound hknown) fun id => ?_
  rw [List.mem_filter, decide_eq_true_iff, openReports_congr (hreports s₁),
    openReports_congr (hreports s₂)]

/-! ### Striking -/

/-- A strike on words. -/
def Words.strike (w : Words) (now : Int) (actorPersonId : String) : Words :=
  { w with struckAt := some now, struckByPersonId := some actorPersonId }

/-- What setting the strike writes: nothing where it was struck, and the strike where it stood. -/
structure Striking (x : ReportSubject) (now : Int) (actorPersonId : String) (rows : List String)
    (f : FeedStore → FeedStore) (c : Ctx FeedStore FeedLock) : Prop where
  reports : ∀ s, (f s).reports = s.reports
  issued : ∀ s, (f s).issued = s.issued
  log : ∀ s, (f s).log = s.log
  none : rows = [] → ∀ s, f s = s
  held : rows ≠ [] → (FeedLock.row x, Mode.exclusive) ∈ c.held
  words : rows ≠ [] → ∀ s, words (f s) x = (words s x).map (·.strike now actorPersonId)
  other : ∀ s y, y ≠ x → Feed.words (f s) y = Feed.words s y
  stands : ∀ t s, c.knows t s → (Standing s x ↔ rows ≠ [])

theorem mem_strikeable_post {id postId : String} :
    id ∈ ((findPost s postId).filter fun post =>
      post.struckAt.isNone && post.erasedAt.isNone).toList.map (·.id) ↔
      id = postId ∧ Standing s (.post postId) := by
  unfold Standing words
  cases hfind : findPost s postId with
  | none => simp [hfind]
  | some post =>
    have hid := findPost_id hfind
    by_cases hstands : post.struckAt = none ∧ post.erasedAt = none
    · simp [hfind, Option.filter, hstands, hid, Post.words]
    · have hnot : (post.struckAt.isNone && post.erasedAt.isNone) = false := by
        rw [Bool.eq_false_iff, ne_eq, Bool.and_eq_true, Option.isNone_iff_eq_none,
          Option.isNone_iff_eq_none]
        exact hstands
      simpa [hfind, Option.filter, hnot, Post.words] using fun _ : id = postId => not_and.mp hstands

theorem mem_strikeable_comment {id commentId : String} :
    id ∈ ((findComment s commentId).filter (·.struckAt.isNone)).toList.map (·.id) ↔
      id = commentId ∧ Standing s (.comment commentId) := by
  unfold Standing words
  cases hfind : findComment s commentId with
  | none => simp [hfind]
  | some comment =>
    have hid := findComment_id hfind
    by_cases hstands : comment.struckAt = none
    · simp [hfind, Option.filter, hstands, hid, PostComment.words]
    · simp [hfind, Option.filter, hstands, PostComment.words]

/-- Which rows a strike writes, by somebody who holds the row from before it looked. -/
theorem strikeable_rows (key : String) {m : Mode} {found : FeedStore → List String}
    (hfound : ∀ s id, id ∈ found s ↔ id = key ∧ Standing s x) {s₁ s₂ : FeedStore}
    (hrow : (FeedLock.row x, m) ∈ c.held) (hlater : c.Later c')
    (hrely₁ : feedDiscipline.Rely c.held s₁ s₂)
    (hrely : ∀ t s, c'.knows t s → feedDiscipline.Rely c'.held s₂ s) :
    (∀ id ∈ (found s₁).filter (· ∈ found s₂), id = key) ∧
      ∀ t s, c'.knows t s → (Standing s x ↔ (found s₁).filter (· ∈ found s₂) ≠ []) := by
  refine ⟨fun id hid => ((hfound _ _).mp (List.mem_filter.mp hid).1).1, fun t s hk => ?_⟩
  have hwords₂ : words s x = words s₂ x := words_of_rely (hlater.held _ hrow) (hrely t s hk)
  have hwords₁ : words s x = words s₁ x := hwords₂.trans (words_of_rely hrow hrely₁)
  constructor
  · intro hstands
    refine List.ne_nil_of_mem (a := key) (List.mem_filter.mpr ⟨?_, ?_⟩)
    · exact (hfound _ _).mpr ⟨rfl, hstands.congr hwords₁.symm⟩
    · exact decide_eq_true ((hfound _ _).mpr ⟨rfl, hstands.congr hwords₂.symm⟩)
  · intro hne
    obtain ⟨id, hid⟩ := List.exists_mem_of_ne_nil _ hne
    exact ((hfound _ _).mp (List.mem_filter.mp hid).1).2.congr hwords₁

theorem mem_of_all_eq {rows : List String} {key : String} (hall : ∀ id ∈ rows, id = key)
    (hne : rows ≠ []) : key ∈ rows := by
  obtain ⟨id, hid⟩ := List.exists_mem_of_ne_nil _ hne
  exact hall id hid ▸ hid

theorem safe_strikeRow {at' : Int} (hholds : Holds x c)
    (hpending : ∀ s, c.pending s = s.answer ids at' actorPersonId upheld)
    {Q : List String → Ctx FeedStore FeedLock → Prop}
    (h : ∀ rows f c', c.Later c' → Striking x now actorPersonId rows f c' →
      Q rows (c'.write f)) :
    Safe feedDiscipline prompt (strikeRow x now actorPersonId) Q c := by
  obtain ⟨m, hrow⟩ := hholds.row
  cases x with
  | post postId =>
    unfold strikeRow
    dsimp only
    refine safe_updateRows fun c' t₁ s₁ t₂ s₂ hlater hlocks _ _ _ _ hrely₁ hrely => ?_
    rw [hpending, hpending]
    rw [hpending] at hlocks
    obtain ⟨hall, hstands⟩ := strikeable_rows postId (fun s id => mem_strikeable_post)
      hrow hlater hrely₁ hrely
    refine h _ _ c' hlater ⟨fun _ => rfl, fun _ => rfl, fun _ => rfl, fun hnil s => ?_,
      fun hne => ?_, fun hne s => ?_, fun s y hy => ?_, hstands⟩
    · show FeedStore.writePosts s (List.filter _ _) _ = s
      rw [hnil]
      simp [FeedStore.writePosts]
    · exact hlocks postId (List.mem_filter.mp (mem_of_all_eq hall hne)).1
    · exact words_writePosts_mem (fun _ => rfl) (fun _ _ => rfl) (mem_of_all_eq hall hne)
    · refine words_writePosts_other (fun _ => rfl) fun hmem => hy ?_
      obtain ⟨id, hid, rfl⟩ := List.mem_map.mp hmem
      rw [hall id hid]
  | comment commentId =>
    unfold strikeRow
    dsimp only
    refine safe_updateRows fun c' t₁ s₁ t₂ s₂ hlater hlocks _ _ _ _ hrely₁ hrely => ?_
    rw [hpending, hpending]
    rw [hpending] at hlocks
    obtain ⟨hall, hstands⟩ := strikeable_rows commentId
      (fun s id => mem_strikeable_comment) hrow hlater hrely₁ hrely
    refine h _ _ c' hlater ⟨fun _ => rfl, fun _ => rfl, fun _ => rfl, fun hnil s => ?_,
      fun hne => ?_, fun hne s => ?_, fun s y hy => ?_, hstands⟩
    · show FeedStore.writeComments s (List.filter _ _) _ = s
      rw [hnil]
      simp [FeedStore.writeComments]
    · exact hlocks commentId (List.mem_filter.mp (mem_of_all_eq hall hne)).1
    · exact words_writeComments_mem (fun _ => rfl) (fun _ _ => rfl) (mem_of_all_eq hall hne)
    · refine words_writeComments_other (fun _ => rfl) fun hmem => hy ?_
      obtain ⟨id, hid, rfl⟩ := List.mem_map.mp hmem
      rw [hall id hid]

/-- Where it no longer stands nobody asks, and an answer changes nothing. -/
theorem Closes.unchanged (h : Closes x actorPersonId upheld s s') (hsound : Sound s)
    (hnot : ¬ Standing s x) : s'.reports = s.reports := by
  obtain ⟨g, hreports, hg⟩ := h
  rw [hreports]
  refine (List.map_congr_left fun report hreport => ?_).trans (List.map_id _)
  exact (hg report hreport).2 fun hasks => hnot (hasks.1 ▸ hsound.asks report hreport hasks.2)

theorem safe_strikeIn {at' : Int} {thing : StruckThing}
    (hanswering : Answering thing.subject ids at' actorPersonId true c) :
    Safe feedDiscipline prompt (strikeIn thing actorPersonId) (fun _ => Owes) c := by
  unfold strikeIn
  rw [safe_bind, safe_readClock]
  intro now s₀ _ _
  have hsince₀ : c.Since ((c.observe feedDiscipline now s₀).readAt now) := by
    have hseen := (Ctx.Since.refl c).observe (D := feedDiscipline) now s₀
    exact ⟨hseen.held, hseen.knows, hseen.reads⟩
  have hanswering₁ := hanswering.since hsince₀ rfl
  generalize (c.observe feedDiscipline now s₀).readAt now = c₁ at hsince₀ hanswering₁ ⊢
  rw [safe_bind]
  refine safe_strikeRow hanswering₁.holds hanswering₁.pending
    fun rows f c₂ hlater₂ hstriking => ?_
  have hpending₂ : ∀ s, (c₂.write f).pending s = f (s.answer ids at' actorPersonId true) := by
    intro s
    show f (c₂.pending s) = _
    rw [hlater₂.pending, hanswering₁.pending]
  rw [safe_bind]
  refine safe_closeReports hanswering₁ (hlater₂.toSince.write f) (fun s => ?_)
    fun closed c₃ hlater₃ hcloses => ?_
  · rw [hpending₂]
    exact hstriking.reports _
  have hwritten : ∀ s, (c₃.write fun s : FeedStore => s.answer closed now actorPersonId true).pending s =
      (f (s.answer ids at' actorPersonId true)).answer closed now actorPersonId true := by
    intro s
    show FeedStore.answer (c₃.pending s) _ _ _ _ = _
    rw [hlater₃.pending, hpending₂]
  have hreports : ∀ s : FeedStore, ((f (s.answer ids at' actorPersonId true)).answer closed now actorPersonId
      true).reports =
      ((s.answer ids at' actorPersonId true).answer closed now actorPersonId true).reports := by
    intro s
    show (f _).reports.map _ = List.map _ _
    rw [hstriking.reports]
  have hknows : ∀ t s, c₃.knows t s → c₂.knows t s := fun t s hk => hlater₃.knows t s hk
  by_cases hrows : rows = []
  · rw [if_pos hrows, safe_pure]
    intro t s hsound hk
    rw [hwritten]
    have hnot : ¬ Standing s thing.subject := fun hstands =>
      (hstriking.stands t s (hknows t s hk)).mp hstands hrows
    have hsame := (hcloses t s hsound hk).unchanged hsound hnot
    rw [← hreports] at hsame
    rw [hstriking.none hrows] at hsame ⊢
    refine commits_of_taken hsound ⟨fun x => .inl ?_, fun x _ => ?_, fun _ _ => ?_, ?_, rfl,
      fun _ => rfl⟩
    · rw [words_answer, words_answer]
    · rw [words_answer, words_answer]
    · rw [words_answer, words_answer]
    · rw [hsame]
  · rw [if_neg hrows, safe_bind, safe_update, safe_pure]
    intro t s hsound hk
    have hstands := (hstriking.stands t s (hknows t s hk)).mpr hrows
    have hclosed : Closes thing.subject actorPersonId true s
        (((f (s.answer ids at' actorPersonId true)).answer closed now actorPersonId true).record
          (.struck actorPersonId thing.authorPersonId thing.subject thing.audienceId)) := by
      obtain ⟨g, hg, hall⟩ := hcloses t s hsound hk
      exact ⟨g, (hreports s).trans hg, hall⟩
    have hother : ∀ y, y ≠ thing.subject → words
        (((f (s.answer ids at' actorPersonId true)).answer closed now actorPersonId true).record
          (.struck actorPersonId thing.authorPersonId thing.subject thing.audienceId)) y =
        words s y := by
      intro y hy
      rw [words_record, words_answer, hstriking.other _ y hy, words_answer]
    have hissued : (((f (s.answer ids at' actorPersonId true)).answer closed now actorPersonId
        true).record (.struck actorPersonId thing.authorPersonId thing.subject
          thing.audienceId)).issued = s.issued := by
      show (f _).issued = _
      rw [hstriking.issued]
      rfl
    have hheld : (FeedLock.row thing.subject, Mode.exclusive) ∈ c₃.held :=
      hlater₃.held _ (hstriking.held hrows)
    show feedDiscipline.Commits _ _ t s (((c₃.write fun s : FeedStore =>
      s.answer closed now actorPersonId true).pending s).record _)
    rw [hwritten]
    have hstruck : words
        (((f (s.answer ids at' actorPersonId true)).answer closed now actorPersonId true).record
          (.struck actorPersonId thing.authorPersonId thing.subject thing.audienceId))
          thing.subject = (words s thing.subject).map (·.strike now actorPersonId) := by
      rw [words_record, words_answer, hstriking.words hrows, words_answer]
    have hlog : (((f (s.answer ids at' actorPersonId true)).answer closed now actorPersonId
        true).record (.struck actorPersonId thing.authorPersonId thing.subject
          thing.audienceId)).log =
        .struck actorPersonId thing.authorPersonId thing.subject thing.audienceId :: s.log := by
      show _ :: (f _).log = _
      rw [hstriking.log]
      rfl
    refine commits_of_closes hsound ?_ hclosed hissued ?_ fun y hy => hother y ?_
    · exact .struck hstands hother hstruck hclosed hissued hlog
    · exact hlater₃.held _ (hlater₂.held _ hanswering₁.holds.subject)
    · rintro rfl
      exact hy hheld

theorem safe_strikeTx (hp : c.pending = id) (reportId : String) :
    Safe feedDiscipline prompt (strikeTx reportId actorPersonId) (fun _ => Owes) c := by
  unfold strikeTx
  rw [safe_bind]
  refine safe_claim hp reportId fun claimed ids now c₁ hanswering _ => ?_
  rw [safe_bind]
  refine (safe_strikeIn hanswering).mono fun _ c₂ howes => ?_
  exact safe_reading (reading_answeredRow _) fun _ c₃ hsince hpending => howes.since hsince hpending

theorem safe_strike (actor : FeedReader) (reportId : String) :
    SafeCall feedDiscipline prompt (do let _ ← strike actor reportId) := by
  unfold SafeCall strike
  rw [safe_bind, safe_bind, safe_refuseIf]
  intro _
  exact safe_owed (safe_strikeTx rfl reportId) fun _ _ => trivial

theorem safe_dismissTx (hp : c.pending = id) (reportId : String) :
    Safe feedDiscipline prompt (dismissTx reportId actorPersonId) (fun _ => Owes) c := by
  unfold dismissTx
  rw [safe_bind]
  refine safe_claim hp reportId fun claimed ids at' c₁ hanswering hstands => ?_
  rw [safe_bind, safe_readClock]
  intro now s₀ _ _
  have hsince₀ : c₁.Since ((c₁.observe feedDiscipline now s₀).readAt now) := by
    have hseen := (Ctx.Since.refl c₁).observe (D := feedDiscipline) now s₀
    exact ⟨hseen.held, hseen.knows, hseen.reads⟩
  have hanswering₂ := hanswering.since hsince₀ rfl
  have hstands₂ := hstands.since hsince₀
  generalize (c₁.observe feedDiscipline now s₀).readAt now = c₂ at hanswering₂ hstands₂ ⊢
  rw [safe_bind]
  refine safe_closeReports hanswering₂ (.refl c₂) (fun s => by rw [hanswering₂.pending])
    fun closed c₃ hlater₃ hcloses => ?_
  refine safe_reading (reading_answeredRow _) fun _ c₄ hsince hpending => ?_
  refine Owes.since (fun t s hsound hk => ?_) hsince hpending
  have hwritten : (c₃.write fun s : FeedStore => s.answer closed now actorPersonId false).pending s =
      (s.answer ids at' actorPersonId false).answer closed now actorPersonId false := by
    show FeedStore.answer (c₃.pending s) _ _ _ _ = _
    rw [hlater₃.pending, hanswering₂.pending]
  rw [hwritten]
  have hclosed := hcloses t s hsound hk
  have hwords : ∀ y, words ((s.answer ids at' actorPersonId false).answer closed now actorPersonId
      false) y = words s y := fun y => by rw [words_answer, words_answer]
  refine commits_of_closes hsound ?_ hclosed rfl ?_ fun y _ => hwords y
  · exact .dismissed (hstands₂ t s (hlater₃.knows t s hk)) hwords hclosed rfl rfl
  · exact hlater₃.held _ hanswering₂.holds.subject

theorem safe_dismiss (actor : FeedReader) (reportId : String) :
    SafeCall feedDiscipline prompt (do let _ ← dismiss actor reportId) := by
  unfold SafeCall dismiss
  rw [safe_bind, safe_bind, safe_refuseIf]
  intro _
  exact safe_owed (safe_dismissTx rfl reportId) fun _ _ => trivial

theorem safe_strikePostTx (hp : c.pending = id) {thing : StruckThing} {postId : String}
    (hthing : thing.subject = .post postId) :
    Safe feedDiscipline prompt (strikePostTx thing postId actorPersonId) (fun _ => Owes) c := by
  unfold strikePostTx
  rw [safe_bind]
  refine safe_acquireSubject fun c₁ hlater₁ hsubject => ?_
  have hp₁ := hlater₁.pending.trans hp
  rw [safe_bind]
  refine safe_refuseErasedPost hp₁ fun c₂ s post hlater₂ hrow hfind herased hsame => ?_
  have hanswering : Answering (.post postId) [] 0 actorPersonId true c₂ :=
    .none (hlater₂.pending.trans hp₁) ⟨hlater₂.held _ hsubject, .shared, hrow⟩
      (there_of_post hfind herased hsame) 0 actorPersonId true
  rw [← hthing] at hanswering
  exact safe_strikeIn hanswering

theorem safe_strikePost (actor : FeedReader) (postId : String) :
    SafeCall feedDiscipline prompt (do let _ ← strikePost actor postId) := by
  unfold SafeCall strikePost
  rw [safe_bind, safe_bind, safe_snapshot]
  intro t s _ _
  split
  · exact safe_fail
  next post hpost =>
    unfold requireBoard
    rw [safe_bind, safe_refuseIf]
    intro _
    rw [safe_bind, safe_refuseIf]
    intro _
    rw [safe_bind, safe_refuseIf]
    intro _
    exact safe_owed (safe_strikePostTx rfl rfl) fun _ _ => trivial

theorem safe_strikeCommentTx (hp : c.pending = id) {thing : StruckThing} {commentId : String}
    (hthing : thing.subject = .comment commentId) :
    Safe feedDiscipline prompt (strikeCommentTx thing commentId actorPersonId)
      (fun _ => Owes) c := by
  unfold strikeCommentTx readCommentLocked
  rw [safe_bind]
  refine safe_acquireSubject fun c₁ hlater₁ hsubject => ?_
  have hp₁ := hlater₁.pending.trans hp
  rw [safe_bind]
  refine safe_readComment hp₁ (fun c₂ _ => ?_) fun c₂ s comment hlater₂ hrow hfind hsame => ?_
  · rw [safe_bind, safe_refuseIf]
    exact fun hnot => absurd rfl hnot
  · rw [safe_bind, safe_refuseIf]
    intro _
    have hanswering : Answering (.comment commentId) [] 0 actorPersonId true c₂ :=
      .none (hlater₂.pending.trans hp₁) ⟨hlater₂.held _ hsubject, .exclusive, hrow⟩
        (there_of_comment hfind hsame) 0 actorPersonId true
    rw [← hthing] at hanswering
    exact safe_strikeIn hanswering

theorem safe_strikeComment (actor : FeedReader) (commentId : String) :
    SafeCall feedDiscipline prompt (do let _ ← strikeComment actor commentId) := by
  unfold SafeCall strikeComment
  rw [safe_bind, safe_bind, safe_snapshot]
  intro t s _ _
  split
  · exact safe_fail
  next comment post hcomment =>
    unfold requireBoard
    rw [safe_bind, safe_refuseIf]
    intro _
    rw [safe_bind, safe_refuseIf]
    intro _
    exact safe_owed (safe_strikeCommentTx rfl rfl) fun _ _ => trivial

end Answers

end OpenBrf.Feed
