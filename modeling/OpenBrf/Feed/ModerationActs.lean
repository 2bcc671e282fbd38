import Mathlib.Data.List.Nodup
import OpenBrf.Feed.Moderation

/-!
# Feed.ModerationActs — what a commit does to what was said and to the reports of it

A post or a comment is read as its words: its text with its earlier versions, its strike and its
erasure.  Every commit reports, strikes, leaves standing, edits or erases, and each of these keeps
the feed sound.
-/

namespace OpenBrf.Feed

open Txn

variable {s s' s'' : FeedStore} {x y : ReportSubject}

/-- What a post or a comment says, and what became of it. -/
structure Words where
  authorPersonId : Option String
  body : Option String
  earlier : List Revision
  struckAt : Option Int
  struckByPersonId : Option String
  erasedAt : Option Int

def Post.words (post : Post) (earlier : List Revision) : Words :=
  ⟨post.authorPersonId, post.body, earlier, post.struckAt, post.struckByPersonId, post.erasedAt⟩

def PostComment.words (comment : PostComment) (earlier : List Revision) : Words :=
  ⟨some comment.authorPersonId, some comment.body, earlier, comment.struckAt,
    comment.struckByPersonId, none⟩

/-- The words of a post or a comment, none where it is gone. -/
def words (s : FeedStore) : ReportSubject → Option Words
  | .post id => (findPost s id).map (·.words (revisionsOf s (.post id)))
  | .comment id => (findComment s id).map (·.words (revisionsOf s (.comment id)))

/-- It is there, neither struck nor erased. -/
def Standing (s : FeedStore) (x : ReportSubject) : Prop :=
  ∃ w, words s x = some w ∧ w.struckAt = none ∧ w.erasedAt = none

/-- It is there, and struck. -/
def StruckThrough (s : FeedStore) (x : ReportSubject) : Prop :=
  ∃ w, words s x = some w ∧ w.struckAt ≠ none

/-- Nothing is left of it but that it was there. -/
structure Words.Erased (w : Words) : Prop where
  author : w.authorPersonId = none
  body : w.body = none
  earlier : w.earlier = []
  struckAt : w.struckAt = none
  struckBy : w.struckByPersonId = none
  erasedAt : w.erasedAt ≠ none

/-- What the purge makes of words: nothing, or an erased row, or it leaves them. -/
def Purged (w w' : Option Words) : Prop :=
  w' = w ∨ w' = none ∨ ∃ v v', w = some v ∧ w' = some v' ∧ v'.Erased

/-- The entry is a strike of `x`. -/
def FeedEntry.strikes (x : ReportSubject) : FeedEntry → Bool
  | .struck _ _ target _ => target = x
  | .purged .. => false

/-- How often the log says `x` was struck. -/
def strikes (s : FeedStore) (x : ReportSubject) : ℕ := s.log.countP (FeedEntry.strikes x)

/-- What every committed state has: a report that is open asks about something that stands, one that
was upheld is about something struck, and each strike is in the log once. -/
structure Sound (s : FeedStore) : Prop where
  ids : (s.reports.map (·.id)).Nodup
  issued : ∀ report ∈ s.reports, report.id ∈ s.issued
  once : (s.reports.map fun report => (report.subject, report.reporterPersonId)).Nodup
  asks : ∀ report ∈ s.reports, report.resolvedAt = none → Standing s report.subject
  answered : ∀ report ∈ s.reports, report.resolvedAt = none ↔ report.upheld = none
  upheld : ∀ report ∈ s.reports, report.upheld = some true → StruckThrough s report.subject
  atMostOnce : ∀ x, strikes s x ≤ 1
  logged : ∀ x, StruckThrough s x → strikes s x = 1
  unlogged : ∀ x, Standing s x → strikes s x = 0

theorem Standing.not_struck (h : Standing s x) : ¬ StruckThrough s x := by
  rintro ⟨w, hw, hstruck⟩
  obtain ⟨v, hv, hnone, -⟩ := h
  rw [hw] at hv
  cases hv
  exact hstruck hnone

theorem Standing.congr (h : Standing s x) (hwords : words s' x = words s x) : Standing s' x := by
  obtain ⟨w, hw, hstands⟩ := h
  exact ⟨w, hwords.trans hw, hstands⟩

theorem StruckThrough.congr (h : StruckThrough s x) (hwords : words s' x = words s x) :
    StruckThrough s' x := by
  obtain ⟨w, hw, hstruck⟩ := h
  exact ⟨w, hwords.trans hw, hstruck⟩

theorem Sound.eq_of_id (h : Sound s) {a b : PostReport} (ha : a ∈ s.reports) (hb : b ∈ s.reports)
    (hid : a.id = b.id) : a = b := List.inj_on_of_nodup_map h.ids ha hb hid

theorem Purged.refl (w : Option Words) : Purged w w := .inl rfl

theorem Purged.trans {w w' w'' : Option Words} (h : Purged w w') (h' : Purged w' w'') :
    Purged w w'' := by
  rcases h' with rfl | rfl | ⟨v, v', hv, hv', herased⟩
  · exact h
  · exact .inr (.inl rfl)
  · rcases h with rfl | rfl | ⟨u, u', hu, -, -⟩
    · exact .inr (.inr ⟨v, v', hv, hv', herased⟩)
    · cases hv
    · exact .inr (.inr ⟨u, v', hu, hv', herased⟩)

/-! ### Reports over time -/

/-- An identifier is given once, a report stays about what it was about, and what is gone stays
gone. -/
structure Since (s s' : FeedStore) : Prop where
  gone : ∀ x, words s x = none → words s' x = none
  issued : s.issued ⊆ s'.issued
  reports : ∀ report' ∈ s'.reports, report'.id ∈ s.issued →
    ∃ report ∈ s.reports, report.id = report'.id ∧ report.subject = report'.subject

theorem Since.refl (s : FeedStore) : Since s s :=
  ⟨fun _ hnone => hnone, List.Subset.refl _, fun report hreport _ => ⟨report, hreport, rfl, rfl⟩⟩

theorem Since.trans (h : Since s s') (h' : Since s' s'') : Since s s'' := by
  refine ⟨fun x hnone => h'.gone x (h.gone x hnone), List.Subset.trans h.issued h'.issued,
    fun report'' hreport'' hid => ?_⟩
  obtain ⟨report', hreport', hid', hsubject'⟩ := h'.reports report'' hreport'' (h.issued hid)
  rw [← hid'] at hid
  obtain ⟨report, hreport, hsame, hsubject⟩ := h.reports report' hreport' hid
  exact ⟨report, hreport, hsame.trans hid', hsubject.trans hsubject'⟩

/-- A report that is still there is about what it was about. -/
theorem Since.subject (h : Since s s') (hsound : Sound s) {report report' : PostReport}
    (hreport : report ∈ s.reports) (hreport' : report' ∈ s'.reports)
    (hid : report'.id = report.id) : report'.subject = report.subject := by
  obtain ⟨other, hother, hsame, hsubject⟩ :=
    h.reports report' hreport' (hid ▸ hsound.issued report hreport)
  rw [← hsubject, hsound.eq_of_id hother hreport (hsame.trans hid)]

/-! ### The acts -/

/-- The report is open, and about `x`. -/
def AsksAbout (x : ReportSubject) (report : PostReport) : Prop :=
  report.subject = x ∧ report.resolvedAt = none

instance (x : ReportSubject) : DecidablePred (AsksAbout x) :=
  fun report => inferInstanceAs (Decidable (report.subject = x ∧ report.resolvedAt = none))

/-- Every open report of `x` gets one answer, and no other report changes. -/
def Closes (x : ReportSubject) (actorPersonId : String) (upheld : Bool) (s s' : FeedStore) : Prop :=
  ∃ g : PostReport → PostReport, s'.reports = s.reports.map g ∧ ∀ report ∈ s.reports,
    (AsksAbout x report → ∃ now, g report = report.answered now actorPersonId upheld) ∧
      (¬ AsksAbout x report → g report = report)

/-- One commit, on the feed as it stands. -/
inductive FeedAct (s : FeedStore) : FeedStore → Prop
  | reported {s' : FeedStore} {report : PostReport} : Standing s report.subject →
      report.resolvedAt = none → report.upheld = none →
      (∀ other ∈ s.reports, other.subject = report.subject →
        other.reporterPersonId ≠ report.reporterPersonId) →
      report.id ∉ s.issued → (∀ x, words s' x = words s x) → s'.reports = report :: s.reports →
      s'.issued = report.id :: s.issued → s'.log = s.log → FeedAct s s'
  | dismissed {s' : FeedStore} {x : ReportSubject} {actorPersonId : String} : Standing s x →
      (∀ y, words s' y = words s y) → Closes x actorPersonId false s s' → s'.issued = s.issued →
      s'.log = s.log → FeedAct s s'
  | struck {s' : FeedStore} {x : ReportSubject} {now : Int} {actorPersonId audienceId : String}
      {authorPersonId : Option String} : Standing s x →
      (∀ y, y ≠ x → words s' y = words s y) →
      words s' x = (words s x).map (fun w =>
        { w with struckAt := some now, struckByPersonId := some actorPersonId }) →
      Closes x actorPersonId true s s' → s'.issued = s.issued →
      s'.log = .struck actorPersonId authorPersonId x audienceId :: s.log → FeedAct s s'
  | edited {s' : FeedStore} {x : ReportSubject} : Standing s x →
      (∀ y, y ≠ x → words s' y = words s y) → Standing s' x → s'.reports = s.reports →
      s'.issued = s.issued → s'.log = s.log → FeedAct s s'
  /-- Nothing, or what the purge takes: a report stays only where what it is about does. -/
  | purged {s' : FeedStore} : (∀ x, Purged (words s x) (words s' x)) →
      (∀ report ∈ s'.reports, words s' report.subject = words s report.subject) →
      s'.reports.Sublist s.reports → s'.issued = s.issued →
      (∀ x, strikes s' x = strikes s x) → FeedAct s s'

theorem FeedAct.refl (s : FeedStore) : FeedAct s s :=
  .purged (fun _ => .refl _) (fun _ _ => rfl) (List.Sublist.refl _) rfl fun _ => rfl

section Closing

variable {actorPersonId : String} {upheld : Bool}

/-- What answering leaves of a report. -/
structure SameReport (report report' : PostReport) : Prop where
  id : report'.id = report.id
  subject : report'.subject = report.subject
  reporter : report'.reporterPersonId = report.reporterPersonId

/-- A report after an answer: answered with the others, or as it was. -/
theorem Closes.mem (h : Closes x actorPersonId upheld s s') {report' : PostReport}
    (hreport' : report' ∈ s'.reports) : ∃ report ∈ s.reports, SameReport report report' ∧
      (AsksAbout x report ∧ report'.resolvedAt ≠ none ∧ report'.upheld = some upheld ∨
        ¬ AsksAbout x report ∧ report' = report) := by
  obtain ⟨g, hreports, hg⟩ := h
  rw [hreports] at hreport'
  obtain ⟨report, hreport, rfl⟩ := List.mem_map.mp hreport'
  by_cases hasks : AsksAbout x report
  · obtain ⟨now, hnow⟩ := (hg report hreport).1 hasks
    rw [hnow]
    exact ⟨report, hreport, ⟨rfl, rfl, rfl⟩, .inl ⟨hasks, nofun, rfl⟩⟩
  · rw [(hg report hreport).2 hasks]
    exact ⟨report, hreport, ⟨rfl, rfl, rfl⟩, .inr ⟨hasks, rfl⟩⟩

theorem Closes.same (h : Closes x actorPersonId upheld s s') {α : Type} (view : PostReport → α)
    (hview : ∀ report now, view (report.answered now actorPersonId upheld) = view report) :
    s'.reports.map view = s.reports.map view := by
  obtain ⟨g, hreports, hg⟩ := h
  rw [hreports, List.map_map]
  refine List.map_congr_left fun report hreport => ?_
  show view (g report) = view report
  by_cases hasks : AsksAbout x report
  · obtain ⟨now, hnow⟩ := (hg report hreport).1 hasks
    rw [hnow, hview]
  · rw [(hg report hreport).2 hasks]

/-- No report of it is open after an answer. -/
theorem Closes.none_open (h : Closes x actorPersonId upheld s s') {report' : PostReport}
    (hreport' : report' ∈ s'.reports) (hopen : report'.resolvedAt = none) :
    report'.subject ≠ x ∧ report' ∈ s.reports := by
  obtain ⟨report, hreport, hsame, ⟨-, hresolved, -⟩ | ⟨hnot, rfl⟩⟩ := h.mem hreport'
  · exact absurd hopen hresolved
  · exact ⟨fun hsubject => hnot ⟨hsubject, hopen⟩, hreport⟩

/-- Every report that was open gets the answer. -/
theorem Closes.closed (h : Closes x actorPersonId upheld s s') {report : PostReport}
    (hreport : report ∈ s.reports) (hasks : AsksAbout x report) :
    ∃ report' ∈ s'.reports, report'.id = report.id ∧ report'.resolvedAt ≠ none ∧
      report'.upheld = some upheld := by
  obtain ⟨g, hreports, hg⟩ := h
  obtain ⟨now, hnow⟩ := (hg report hreport).1 hasks
  refine ⟨g report, ?_, ?_⟩
  · rw [hreports]
    exact List.mem_map_of_mem hreport
  · rw [hnow]
    exact ⟨rfl, nofun, rfl⟩

end Closing

/-! ### Every act keeps the feed sound -/

theorem strikes_of_log {log : List FeedEntry} (h : s'.log = log) (x : ReportSubject) :
    strikes s' x = log.countP (FeedEntry.strikes x) := by
  unfold strikes
  rw [h]

/-- What says of the log that it names each strike once, where no words were struck. -/
theorem Sound.of_words (h : Sound s) (ids : (s'.reports.map (·.id)).Nodup)
    (issued : ∀ report ∈ s'.reports, report.id ∈ s'.issued)
    (once : (s'.reports.map fun report => (report.subject, report.reporterPersonId)).Nodup)
    (asks : ∀ report ∈ s'.reports, report.resolvedAt = none → Standing s' report.subject)
    (answered : ∀ report ∈ s'.reports, report.resolvedAt = none ↔ report.upheld = none)
    (upheld : ∀ report ∈ s'.reports, report.upheld = some true → StruckThrough s' report.subject)
    (hstruck : ∀ x, StruckThrough s' x → StruckThrough s x)
    (hstanding : ∀ x, Standing s' x → Standing s x) (hlog : ∀ x, strikes s' x = strikes s x) :
    Sound s' where
  ids := ids
  issued := issued
  once := once
  asks := asks
  answered := answered
  upheld := upheld
  atMostOnce x := by
    rw [hlog]
    exact h.atMostOnce x
  logged x hx := by
    rw [hlog]
    exact h.logged x (hstruck x hx)
  unlogged x hx := by
    rw [hlog]
    exact h.unlogged x (hstanding x hx)

theorem Sound.reported (h : Sound s) {report : PostReport} (hstands : Standing s report.subject)
    (hopen : report.resolvedAt = none) (hunanswered : report.upheld = none)
    (hfirst : ∀ other ∈ s.reports, other.subject = report.subject →
      other.reporterPersonId ≠ report.reporterPersonId)
    (hfresh : report.id ∉ s.issued) (hwords : ∀ x, words s' x = words s x)
    (hreports : s'.reports = report :: s.reports) (hissued : s'.issued = report.id :: s.issued)
    (hlog : s'.log = s.log) : Sound s' := by
  have hmem : ∀ other ∈ s'.reports, other = report ∨ other ∈ s.reports := by
    intro other hother
    rw [hreports] at hother
    exact List.mem_cons.mp hother
  refine h.of_words ?_ ?_ ?_ ?_ ?_ ?_ ?_ ?_ fun x => strikes_of_log hlog x
  · rw [hreports, List.map_cons, List.nodup_cons]
    refine ⟨fun hid => ?_, h.ids⟩
    obtain ⟨other, hother, heq⟩ := List.mem_map.mp hid
    exact hfresh (heq ▸ h.issued other hother)
  · intro other hother
    rw [hissued]
    rcases hmem other hother with rfl | hother
    · exact List.mem_cons_self
    · exact List.mem_cons_of_mem _ (h.issued other hother)
  · rw [hreports, List.map_cons, List.nodup_cons]
    refine ⟨fun hkey => ?_, h.once⟩
    obtain ⟨other, hother, heq⟩ := List.mem_map.mp hkey
    exact hfirst other hother (congrArg Prod.fst heq) (congrArg Prod.snd heq)
  · intro other hother hasks
    rcases hmem other hother with rfl | hother
    · exact hstands.congr (hwords _)
    · exact (h.asks other hother hasks).congr (hwords _)
  · intro other hother
    rcases hmem other hother with rfl | hother
    · exact ⟨fun _ => hunanswered, fun _ => hopen⟩
    · exact h.answered other hother
  · intro other hother hupheld
    rcases hmem other hother with rfl | hother
    · rw [hunanswered] at hupheld
      cases hupheld
    · exact (h.upheld other hother hupheld).congr (hwords _)
  · exact fun x hx => hx.congr (hwords x).symm
  · exact fun x hx => hx.congr (hwords x).symm

/-- The fields of soundness that an answer keeps whatever it is. -/
theorem Sound.keys_of_closes (h : Sound s) {actorPersonId : String} {upheld : Bool}
    (hcloses : Closes x actorPersonId upheld s s') (hissued : s'.issued = s.issued) :
    (s'.reports.map (·.id)).Nodup ∧ (∀ report ∈ s'.reports, report.id ∈ s'.issued) ∧
      (s'.reports.map fun report => (report.subject, report.reporterPersonId)).Nodup ∧
      ∀ report ∈ s'.reports, report.resolvedAt = none ↔ report.upheld = none := by
  refine ⟨?_, fun report' hreport' => ?_, ?_, fun report' hreport' => ?_⟩
  · rw [hcloses.same (·.id) fun _ _ => rfl]
    exact h.ids
  · obtain ⟨report, hreport, hsame, -⟩ := hcloses.mem hreport'
    rw [hissued, hsame.id]
    exact h.issued report hreport
  · rw [hcloses.same (fun report => (report.subject, report.reporterPersonId)) fun _ _ => rfl]
    exact h.once
  · obtain ⟨report, hreport, -, ⟨-, hresolved, hupheld⟩ | ⟨-, rfl⟩⟩ := hcloses.mem hreport'
    · rw [hupheld]
      exact ⟨fun hnone => absurd hnone hresolved, nofun⟩
    · exact h.answered report' hreport

theorem Sound.dismissed (h : Sound s) {actorPersonId : String}
    (hwords : ∀ y, words s' y = words s y) (hcloses : Closes x actorPersonId false s s')
    (hissued : s'.issued = s.issued) (hlog : s'.log = s.log) : Sound s' := by
  obtain ⟨hids, hknown, honce, hanswered⟩ := h.keys_of_closes hcloses hissued
  refine h.of_words hids hknown honce ?_ hanswered ?_ ?_ ?_ fun x => strikes_of_log hlog x
  · intro report' hreport' hopen
    obtain ⟨-, hreport⟩ := hcloses.none_open hreport' hopen
    exact (h.asks report' hreport hopen).congr (hwords _)
  · intro report' hreport' hupheld
    obtain ⟨report, hreport, -, ⟨-, -, hfalse⟩ | ⟨-, rfl⟩⟩ := hcloses.mem hreport'
    · rw [hupheld] at hfalse
      cases hfalse
    · exact (h.upheld report' hreport hupheld).congr (hwords _)
  · exact fun x hx => hx.congr (hwords x).symm
  · exact fun x hx => hx.congr (hwords x).symm

theorem Sound.struck (h : Sound s) {now : Int} {actorPersonId audienceId : String}
    {authorPersonId : Option String} (hstands : Standing s x)
    (hother : ∀ y, y ≠ x → words s' y = words s y)
    (hwords : words s' x = (words s x).map fun w =>
      { w with struckAt := some now, struckByPersonId := some actorPersonId })
    (hcloses : Closes x actorPersonId true s s') (hissued : s'.issued = s.issued)
    (hlog : s'.log = .struck actorPersonId authorPersonId x audienceId :: s.log) : Sound s' := by
  obtain ⟨hids, hknown, honce, hanswered⟩ := h.keys_of_closes hcloses hissued
  have hstruck : StruckThrough s' x := by
    obtain ⟨w, hw, -, -⟩ := hstands
    rw [hw] at hwords
    exact ⟨_, hwords, nofun⟩
  have hcount : ∀ y, strikes s' y = if y = x then 1 else strikes s y := by
    intro y
    rw [strikes_of_log hlog, List.countP_cons]
    show strikes s y + _ = _
    split_ifs with hstrikes heq heq
    · rw [heq, h.unlogged x hstands]
    · exact absurd (of_decide_eq_true hstrikes).symm heq
    · exact absurd (decide_eq_true heq.symm) hstrikes
    · rfl
  refine ⟨hids, hknown, honce, ?_, hanswered, ?_, ?_, ?_, ?_⟩
  · intro report' hreport' hopen
    obtain ⟨hne, hreport⟩ := hcloses.none_open hreport' hopen
    exact (h.asks report' hreport hopen).congr (hother _ hne)
  · intro report' hreport' hupheld
    by_cases hx : report'.subject = x
    · rw [hx]
      exact hstruck
    · obtain ⟨report, hreport, hsame, ⟨hasks, -, -⟩ | ⟨-, rfl⟩⟩ := hcloses.mem hreport'
      · exact absurd (hsame.subject.trans hasks.1) hx
      · exact (h.upheld report' hreport hupheld).congr (hother _ hx)
  · intro y
    rw [hcount]
    split_ifs
    · exact Nat.le_refl 1
    · exact h.atMostOnce y
  · intro y hy
    rw [hcount]
    split_ifs with heq
    · rfl
    · exact h.logged y (hy.congr (hother y heq).symm)
  · intro y hy
    rw [hcount]
    split_ifs with heq
    · exact absurd (heq ▸ hstruck) hy.not_struck
    · exact h.unlogged y (hy.congr (hother y heq).symm)

theorem Sound.edited (h : Sound s) (hstands : Standing s x)
    (hother : ∀ y, y ≠ x → words s' y = words s y) (hstands' : Standing s' x)
    (hreports : s'.reports = s.reports) (hissued : s'.issued = s.issued) (hlog : s'.log = s.log) :
    Sound s' := by
  have hstanding : ∀ y, Standing s' y ↔ Standing s y := by
    intro y
    by_cases heq : y = x
    · rw [heq]
      exact ⟨fun _ => hstands, fun _ => hstands'⟩
    · exact ⟨fun hy => hy.congr (hother y heq).symm, fun hy => hy.congr (hother y heq)⟩
  have hstruck : ∀ y, StruckThrough s' y ↔ StruckThrough s y := by
    intro y
    by_cases heq : y = x
    · rw [heq]
      exact ⟨fun hy => absurd hy hstands'.not_struck, fun hy => absurd hy hstands.not_struck⟩
    · exact ⟨fun hy => hy.congr (hother y heq).symm, fun hy => hy.congr (hother y heq)⟩
  refine h.of_words ?_ ?_ ?_ ?_ ?_ ?_ (fun y => (hstruck y).mp) (fun y => (hstanding y).mp)
    fun y => strikes_of_log hlog y
  · rw [hreports]
    exact h.ids
  · rw [hreports, hissued]
    exact h.issued
  · rw [hreports]
    exact h.once
  · rw [hreports]
    exact fun report hreport hopen => (hstanding _).mpr (h.asks report hreport hopen)
  · rw [hreports]
    exact h.answered
  · rw [hreports]
    exact fun report hreport hupheld => (hstruck _).mpr (h.upheld report hreport hupheld)

theorem Purged.standing (h : Purged (words s x) (words s' x)) (hstands : Standing s' x) :
    Standing s x := by
  rcases h with hsame | hnone | ⟨v, v', -, hv', herased⟩
  · exact hstands.congr hsame.symm
  · obtain ⟨w, hw, -⟩ := hstands
    rw [hnone] at hw
    cases hw
  · obtain ⟨w, hw, -, hunerased⟩ := hstands
    rw [hv'] at hw
    cases hw
    exact absurd hunerased herased.erasedAt

theorem Purged.struckThrough (h : Purged (words s x) (words s' x)) (hstruck : StruckThrough s' x) :
    StruckThrough s x := by
  rcases h with hsame | hnone | ⟨v, v', -, hv', herased⟩
  · exact hstruck.congr hsame.symm
  · obtain ⟨w, hw, -⟩ := hstruck
    rw [hnone] at hw
    cases hw
  · obtain ⟨w, hw, hstruck⟩ := hstruck
    rw [hv'] at hw
    cases hw
    exact absurd herased.struckAt hstruck

theorem Sound.purged (h : Sound s) (hwords : ∀ x, Purged (words s x) (words s' x))
    (hkept : ∀ report ∈ s'.reports, words s' report.subject = words s report.subject)
    (hreports : s'.reports.Sublist s.reports) (hissued : s'.issued = s.issued)
    (hlog : ∀ x, strikes s' x = strikes s x) : Sound s' := by
  have hmem : ∀ report ∈ s'.reports, report ∈ s.reports := fun report => (hreports.subset ·)
  refine h.of_words ((hreports.map _).nodup h.ids) ?_ ((hreports.map _).nodup h.once) ?_ ?_ ?_ ?_ ?_
    hlog
  · intro report hreport
    rw [hissued]
    exact h.issued report (hmem report hreport)
  · exact fun report hreport hopen =>
      (h.asks report (hmem report hreport) hopen).congr (hkept report hreport)
  · exact fun report hreport => h.answered report (hmem report hreport)
  · exact fun report hreport hupheld =>
      (h.upheld report (hmem report hreport) hupheld).congr (hkept report hreport)
  · exact fun x hx => (hwords x).struckThrough hx
  · exact fun x hx => (hwords x).standing hx

theorem FeedAct.sound (hact : FeedAct s s') (h : Sound s) : Sound s' := by
  cases hact with
  | reported hstands hopen hunanswered hfirst hfresh hwords hreports hissued hlog =>
    exact h.reported hstands hopen hunanswered hfirst hfresh hwords hreports hissued hlog
  | dismissed _ hwords hcloses hissued hlog => exact h.dismissed hwords hcloses hissued hlog
  | struck hstands hother hwords hcloses hissued hlog =>
    exact h.struck hstands hother hwords hcloses hissued hlog
  | edited hstands hother hstands' hreports hissued hlog =>
    exact h.edited hstands hother hstands' hreports hissued hlog
  | purged hwords hkept hreports hissued hlog =>
    exact h.purged hwords hkept hreports hissued hlog

/-! ### What every act leaves -/

theorem Closes.reports_since {actorPersonId : String} {upheld : Bool}
    (h : Closes x actorPersonId upheld s s') : ∀ report' ∈ s'.reports, report'.id ∈ s.issued →
      ∃ report ∈ s.reports, report.id = report'.id ∧ report.subject = report'.subject := by
  intro report' hreport' _
  obtain ⟨report, hreport, hsame, -⟩ := h.mem hreport'
  exact ⟨report, hreport, hsame.id.symm, hsame.subject.symm⟩

theorem Purged.gone {w w' : Option Words} (h : Purged w w') (hnone : w = none) : w' = none := by
  rcases h with rfl | hnone' | ⟨v, v', hv, -, -⟩
  · exact hnone
  · exact hnone'
  · rw [hnone] at hv
    cases hv

theorem FeedAct.gone (hact : FeedAct s s') (x : ReportSubject) (hnone : words s x = none) :
    words s' x = none := by
  cases hact with
  | reported _ _ _ _ _ hwords _ _ _ => exact (hwords x).trans hnone
  | dismissed _ hwords _ _ _ => exact (hwords x).trans hnone
  | @struck y _ _ _ _ _ hother hwords _ _ _ =>
    by_cases heq : x = y
    · rw [heq] at hnone ⊢
      rw [hwords, hnone]
      rfl
    · exact (hother x heq).trans hnone
  | @edited y hstands hother _ _ _ _ =>
    by_cases heq : x = y
    · obtain ⟨w, hw, -⟩ := hstands
      rw [← heq, hnone] at hw
      cases hw
    · exact (hother x heq).trans hnone
  | purged hwords _ _ _ _ => exact (hwords x).gone hnone

theorem FeedAct.since (hact : FeedAct s s') : Since s s' := by
  have hgone := hact.gone
  cases hact with
  | @reported report _ _ _ _ hfresh _ hreports hissued _ =>
    refine ⟨hgone, fun id hid => ?_, fun report' hreport' hid => ?_⟩
    · rw [hissued]
      exact List.mem_cons_of_mem _ hid
    · rw [hreports] at hreport'
      rcases List.mem_cons.mp hreport' with rfl | hreport'
      · exact absurd hid hfresh
      · exact ⟨report', hreport', rfl, rfl⟩
  | dismissed _ _ hcloses hissued _ =>
    exact ⟨hgone, fun _ hid => hissued ▸ hid, hcloses.reports_since⟩
  | struck _ _ _ hcloses hissued _ =>
    exact ⟨hgone, fun _ hid => hissued ▸ hid, hcloses.reports_since⟩
  | edited _ _ _ hreports hissued _ =>
    refine ⟨hgone, fun _ hid => hissued ▸ hid, fun report hreport _ => ?_⟩
    rw [hreports] at hreport
    exact ⟨report, hreport, rfl, rfl⟩
  | purged _ _ hreports hissued _ =>
    exact ⟨hgone, fun _ hid => hissued ▸ hid,
      fun report hreport _ => ⟨report, hreports.subset hreport, rfl, rfl⟩⟩

/-! ### What a write changes of the words -/

theorem words_congr (hposts : s'.posts = s.posts) (hcomments : s'.comments = s.comments)
    (hrevisions : s'.revisions = s.revisions) (x : ReportSubject) : words s' x = words s x := by
  cases x <;> simp only [words, findPost, findComment, revisionsOf, hposts, hcomments, hrevisions]

@[simp] theorem words_answer (ids : List String) (now : Int) (actorPersonId : String)
    (upheld : Bool) (x : ReportSubject) :
    words (s.answer ids now actorPersonId upheld) x = words s x := words_congr rfl rfl rfl x

@[simp] theorem words_deleteReports (ids : List String) (x : ReportSubject) :
    words (s.deleteReports ids) x = words s x := words_congr rfl rfl rfl x

@[simp] theorem words_record (entry : FeedEntry) (x : ReportSubject) :
    words (s.record entry) x = words s x := words_congr rfl rfl rfl x

@[simp] theorem answer_nil (now : Int) (actorPersonId : String) (upheld : Bool) :
    s.answer [] now actorPersonId upheld = s := by
  simp [FeedStore.answer]

/-- The row of an identifier, after a write over the rows of some identifiers. -/
theorem find?_map_write {α : Type} (key : α → String) (ids : List String) (id : String)
    {f : α → α} (hf : ∀ a, key (f a) = key a) :
    ∀ l : List α, (l.map fun a => if key a ∈ ids then f a else a).find? (fun a => key a = id) =
      if id ∈ ids then (l.find? fun a => key a = id).map f else l.find? fun a => key a = id
  | [] => by simp
  | a :: l => by
    have ih := find?_map_write key ids id hf l
    have hkey : key (if key a ∈ ids then f a else a) = key a := by
      split_ifs
      · exact hf a
      · rfl
    rw [List.map_cons]
    by_cases hid : key a = id
    · rw [List.find?_cons_of_pos (by simpa [hkey] using hid),
        List.find?_cons_of_pos (by simpa using hid), hid]
      split_ifs <;> rfl
    · rw [List.find?_cons_of_neg (by simpa [hkey] using hid),
        List.find?_cons_of_neg (by simpa using hid)]
      exact ih

theorem findPost_writePosts {ids : List String} {f : Post → Post}
    (hf : ∀ post, (f post).id = post.id) (id : String) :
    findPost (s.writePosts ids f) id =
      if id ∈ ids then (findPost s id).map f else findPost s id :=
  find?_map_write Post.id ids id hf s.posts

theorem findComment_writeComments {ids : List String} {f : PostComment → PostComment}
    (hf : ∀ comment, (f comment).id = comment.id) (id : String) :
    findComment (s.writeComments ids f) id =
      if id ∈ ids then (findComment s id).map f else findComment s id :=
  find?_map_write PostComment.id ids id hf s.comments

/-- The row of an identifier, after the rows of some identifiers are deleted. -/
theorem find?_filter_notMem {α : Type} (key : α → String) (ids : List String) (id : String) :
    ∀ l : List α, (l.filter fun a => key a ∉ ids).find? (fun a => key a = id) =
      if id ∈ ids then none else l.find? fun a => key a = id
  | [] => by simp
  | a :: l => by
    have ih := find?_filter_notMem key ids id l
    by_cases hmem : key a ∈ ids
    · rw [List.filter_cons_of_neg (by simpa using hmem), ih]
      split_ifs with hid
      · rfl
      · rw [List.find?_cons_of_neg]
        simp only [decide_eq_true_eq]
        rintro rfl
        exact hid hmem
    · rw [List.filter_cons_of_pos (by simpa using hmem)]
      by_cases hkey : key a = id
      · rw [if_neg (hkey ▸ hmem), List.find?_cons_of_pos (by simpa using hkey),
          List.find?_cons_of_pos (by simpa using hkey)]
      · rw [List.find?_cons_of_neg (by simpa using hkey), ih]
        split_ifs
        · rfl
        · rw [List.find?_cons_of_neg (by simpa using hkey)]

theorem words_writePosts_other {ids : List String} {f : Post → Post}
    (hf : ∀ post, (f post).id = post.id) (hx : x ∉ ids.map .post) :
    words (s.writePosts ids f) x = words s x := by
  cases x with
  | post id =>
    have hid : id ∉ ids := fun hid => hx (List.mem_map_of_mem hid)
    have hfind : findPost (s.writePosts ids f) id = findPost s id :=
      (findPost_writePosts hf id).trans (if_neg hid)
    show (findPost (s.writePosts ids f) id).map _ = _
    rw [hfind]
    rfl
  | comment id => rfl

theorem words_writePosts_mem {ids : List String} {id : String} {f : Post → Post} {g : Words → Words}
    (hf : ∀ post, (f post).id = post.id)
    (hg : ∀ post earlier, (f post).words earlier = g (post.words earlier)) (hid : id ∈ ids) :
    words (s.writePosts ids f) (.post id) = (words s (.post id)).map g := by
  have hfind : findPost (s.writePosts ids f) id = (findPost s id).map f :=
    (findPost_writePosts hf id).trans (if_pos hid)
  show (findPost (s.writePosts ids f) id).map _ = ((findPost s id).map _).map g
  rw [hfind, Option.map_map, Option.map_map]
  refine congrArg (fun view => (findPost s id).map view) ?_
  ext1 post
  exact hg post _

theorem words_writeComments_other {ids : List String} {f : PostComment → PostComment}
    (hf : ∀ comment, (f comment).id = comment.id) (hx : x ∉ ids.map .comment) :
    words (s.writeComments ids f) x = words s x := by
  cases x with
  | post id => rfl
  | comment id =>
    have hid : id ∉ ids := fun hid => hx (List.mem_map_of_mem hid)
    have hfind : findComment (s.writeComments ids f) id = findComment s id :=
      (findComment_writeComments hf id).trans (if_neg hid)
    show (findComment (s.writeComments ids f) id).map _ = _
    rw [hfind]
    rfl

theorem words_writeComments_mem {ids : List String} {id : String} {f : PostComment → PostComment}
    {g : Words → Words} (hf : ∀ comment, (f comment).id = comment.id)
    (hg : ∀ comment earlier, (f comment).words earlier = g (comment.words earlier))
    (hid : id ∈ ids) :
    words (s.writeComments ids f) (.comment id) = (words s (.comment id)).map g := by
  have hfind : findComment (s.writeComments ids f) id = (findComment s id).map f :=
    (findComment_writeComments hf id).trans (if_pos hid)
  show (findComment (s.writeComments ids f) id).map _ = ((findComment s id).map _).map g
  rw [hfind, Option.map_map, Option.map_map]
  refine congrArg (fun view => (findComment s id).map view) ?_
  ext1 comment
  exact hg comment _

theorem revisionsOf_cascade {subjects : List ReportSubject} (hx : x ∉ subjects) :
    revisionsOf (s.cascade subjects) x = revisionsOf s x := by
  unfold revisionsOf FeedStore.cascade
  dsimp only
  rw [List.filter_filter]
  refine List.filter_congr fun revision _ => ?_
  by_cases heq : revision.subject = x
  · simp [heq, hx]
  · simp [heq]

theorem words_deletePosts (ids : List String) (x : ReportSubject) :
    words (s.deletePosts ids) x = if x ∈ ids.map .post then none else words s x := by
  split_ifs with hx
  · obtain ⟨id, hid, rfl⟩ := List.mem_map.mp hx
    show (findPost (s.deletePosts ids) id).map _ = none
    have hfind : findPost (s.deletePosts ids) id = none :=
      (find?_filter_notMem Post.id ids id s.posts).trans (if_pos hid)
    rw [hfind]
    rfl
  · have hrevisions : revisionsOf (s.deletePosts ids) x = revisionsOf s x :=
      revisionsOf_cascade hx
    cases x with
    | post id =>
      have hid : id ∉ ids := fun hid => hx (List.mem_map_of_mem hid)
      have hfind : findPost (s.deletePosts ids) id = findPost s id :=
        (find?_filter_notMem Post.id ids id s.posts).trans (if_neg hid)
      simp only [words, hfind, hrevisions]
    | comment id =>
      have hfind : findComment (s.deletePosts ids) id = findComment s id := rfl
      simp only [words, hfind, hrevisions]

theorem words_deleteComments (ids : List String) (x : ReportSubject) :
    words (s.deleteComments ids) x = if x ∈ ids.map .comment then none else words s x := by
  split_ifs with hx
  · obtain ⟨id, hid, rfl⟩ := List.mem_map.mp hx
    show (findComment (s.deleteComments ids) id).map _ = none
    have hfind : findComment (s.deleteComments ids) id = none :=
      (find?_filter_notMem PostComment.id ids id s.comments).trans (if_pos hid)
    rw [hfind]
    rfl
  · have hrevisions : revisionsOf (s.deleteComments ids) x = revisionsOf s x :=
      revisionsOf_cascade hx
    cases x with
    | post id =>
      have hfind : findPost (s.deleteComments ids) id = findPost s id := rfl
      simp only [words, hfind, hrevisions]
    | comment id =>
      have hid : id ∉ ids := fun hid => hx (List.mem_map_of_mem hid)
      have hfind : findComment (s.deleteComments ids) id = findComment s id :=
        (find?_filter_notMem PostComment.id ids id s.comments).trans (if_neg hid)
      simp only [words, hfind, hrevisions]

end OpenBrf.Feed
