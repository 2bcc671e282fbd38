import OpenBrf.Feed.ModerationInterleaving

/-!
# Feed.ModerationRuns — the board's moderation in every history

Whatever residents, the board and the purge do beside each other: nothing that is open asks about
something struck or erased, an answer closes every report that was open, each strike is made and
recorded once, and struck text stands as it was struck until it is erased.
-/

namespace OpenBrf.Feed

open Txn

variable {s s' s'' : FeedStore} {x : ReportSubject}

/-- A report that is answered is answered with every other that was open about the same thing, which
stands where the answer left it standing and is struck where it was upheld. -/
def ClosesTogether (s s' : FeedStore) : Prop :=
  ∀ report ∈ s.reports, report.resolvedAt = none → ∀ report' ∈ s'.reports,
    report'.id = report.id → report'.resolvedAt ≠ none →
      ∃ upheld, report'.upheld = some upheld ∧
        (upheld = false → Standing s report.subject ∧ Standing s' report.subject) ∧
        (upheld = true → StruckThrough s' report.subject) ∧
        ∀ other ∈ s.reports, other.subject = report.subject → other.resolvedAt = none →
          ∃ other' ∈ s'.reports, other'.id = other.id ∧ other'.resolvedAt ≠ none ∧
            other'.upheld = some upheld

/-- An answer that was given stands for as long as its report does. -/
def KeepsAnswers (s s' : FeedStore) : Prop :=
  ∀ report ∈ s.reports, report.resolvedAt ≠ none → ∀ report' ∈ s'.reports,
    report'.id = report.id → report' = report

/-- What is struck stood, and its strike is the one entry the log gains. -/
def RecordsStrikes (s s' : FeedStore) : Prop :=
  ∀ x, ¬ StruckThrough s x → StruckThrough s' x →
    Standing s x ∧ ∃ actorPersonId authorPersonId audienceId,
      s'.log = .struck actorPersonId authorPersonId x audienceId :: s.log

/-- Struck words stand as they are, or are gone or erased. -/
def KeepsStruck (s s' : FeedStore) : Prop :=
  ∀ x w, words s x = some w → w.struckAt ≠ none → Purged (some w) (words s' x)

/-! ### One commit -/

theorem Closes.together {actorPersonId : String} {upheld : Bool} (hsound : Sound s)
    (hcloses : Closes x actorPersonId upheld s s')
    (hstands : upheld = false → Standing s x ∧ Standing s' x)
    (hstruck : upheld = true → StruckThrough s' x) : ClosesTogether s s' := by
  intro report hreport hopen report' hreport' hid hresolved
  obtain ⟨was, hwas, hsame, ⟨hasks, -, hupheld⟩ | ⟨-, rfl⟩⟩ := hcloses.mem hreport'
  · obtain rfl := hsound.eq_of_id hwas hreport (hsame.id.symm.trans hid)
    refine ⟨upheld, hupheld, ?_, ?_, fun other hother hsubject hopen => ?_⟩
    · rw [hasks.1]
      exact hstands
    · rw [hasks.1]
      exact hstruck
    · exact hcloses.closed hother ⟨hsubject.trans hasks.1, hopen⟩
  · obtain rfl := hsound.eq_of_id hwas hreport hid
    exact absurd hopen hresolved

/-- A commit that answers nothing. -/
theorem closesTogether_of_kept (hsound : Sound s)
    (hkept : ∀ report' ∈ s'.reports, report'.resolvedAt = none ∨ report' ∈ s.reports) :
    ClosesTogether s s' := by
  intro report hreport hopen report' hreport' hid hresolved
  rcases hkept report' hreport' with hnone | hmem
  · exact absurd hnone hresolved
  · obtain rfl := hsound.eq_of_id hmem hreport hid
    exact absurd hopen hresolved

theorem FeedAct.closesTogether (hsound : Sound s) (hact : FeedAct s s') : ClosesTogether s s' := by
  cases hact with
  | reported _ hopen _ _ _ _ hreports _ _ =>
    refine closesTogether_of_kept hsound fun report' hreport' => ?_
    rw [hreports] at hreport'
    rcases List.mem_cons.mp hreport' with rfl | hmem
    · exact .inl hopen
    · exact .inr hmem
  | dismissed hstands hwords hcloses _ _ =>
    exact hcloses.together hsound (fun _ => ⟨hstands, hstands.congr (hwords _)⟩) nofun
  | struck hstands _ hwords hcloses _ _ =>
    refine hcloses.together hsound nofun fun _ => ?_
    obtain ⟨w, hw, -, -⟩ := hstands
    rw [hw] at hwords
    exact ⟨_, hwords, nofun⟩
  | edited _ _ _ hreports _ _ =>
    refine closesTogether_of_kept hsound fun report' hreport' => .inr ?_
    rwa [hreports] at hreport'
  | purged _ _ hreports _ _ =>
    exact closesTogether_of_kept hsound fun report' hreport' => .inr (hreports.subset hreport')

theorem Closes.keepsAnswers {actorPersonId : String} {upheld : Bool} (hsound : Sound s)
    (hcloses : Closes x actorPersonId upheld s s') : KeepsAnswers s s' := by
  intro report hreport hresolved report' hreport' hid
  obtain ⟨was, hwas, hsame, ⟨hasks, -, -⟩ | ⟨-, rfl⟩⟩ := hcloses.mem hreport'
  · obtain rfl := hsound.eq_of_id hwas hreport (hsame.id.symm.trans hid)
    exact absurd hasks.2 hresolved
  · exact hsound.eq_of_id hwas hreport hid

theorem FeedAct.keepsAnswers (hsound : Sound s) (hact : FeedAct s s') : KeepsAnswers s s' := by
  cases hact with
  | reported _ _ _ _ hfresh _ hreports _ _ =>
    intro report hreport _ report' hreport' hid
    rw [hreports] at hreport'
    rcases List.mem_cons.mp hreport' with rfl | hmem
    · exact absurd (hid ▸ hsound.issued report hreport) hfresh
    · exact hsound.eq_of_id hmem hreport hid
  | dismissed _ _ hcloses _ _ => exact hcloses.keepsAnswers hsound
  | struck _ _ _ hcloses _ _ => exact hcloses.keepsAnswers hsound
  | edited _ _ _ hreports _ _ =>
    intro report hreport _ report' hreport' hid
    rw [hreports] at hreport'
    exact hsound.eq_of_id hreport' hreport hid
  | purged _ _ hreports _ _ =>
    intro report hreport _ report' hreport' hid
    exact hsound.eq_of_id (hreports.subset hreport') hreport hid

theorem FeedAct.recordsStrikes (hact : FeedAct s s') : RecordsStrikes s s' := by
  intro x hnot hstruck
  cases hact with
  | reported _ _ _ _ _ hwords _ _ _ => exact absurd (hstruck.congr (hwords x).symm) hnot
  | dismissed _ hwords _ _ _ => exact absurd (hstruck.congr (hwords x).symm) hnot
  | @struck y _ _ _ _ hstands hother _ _ _ hlog =>
    by_cases heq : x = y
    · rw [heq]
      exact ⟨hstands, _, _, _, hlog⟩
    · exact absurd (hstruck.congr (hother x heq).symm) hnot
  | @edited y _ hother hstands' _ _ _ =>
    by_cases heq : x = y
    · exact absurd hstruck (heq ▸ hstands'.not_struck)
    · exact absurd (hstruck.congr (hother x heq).symm) hnot
  | purged hwords _ _ _ _ => exact absurd ((hwords x).struckThrough hstruck) hnot

/-- Words no commit changes any more but to erase them: struck ones, and erased ones. -/
def Words.Fixed (w : Words) : Prop := w.struckAt ≠ none ∨ w.Erased

theorem Words.Fixed.not_standing {w : Words} (h : w.Fixed) (hw : words s x = some w) :
    ¬ Standing s x := by
  rintro ⟨v, hv, hnone, hunerased⟩
  rw [hw] at hv
  cases hv
  rcases h with hstruck | herased
  · exact hstruck hnone
  · exact herased.erasedAt hunerased

theorem FeedAct.fixed (hact : FeedAct s s') {w : Words} (hw : words s x = some w)
    (hfixed : w.Fixed) : Purged (words s x) (words s' x) := by
  have hnot := hfixed.not_standing hw
  cases hact with
  | reported _ _ _ _ _ hwords _ _ _ => exact .inl (hwords x)
  | dismissed _ hwords _ _ _ => exact .inl (hwords x)
  | @struck y _ _ _ _ hstands hother _ _ _ _ =>
    exact .inl (hother x fun heq => hnot (heq ▸ hstands))
  | @edited y hstands hother _ _ _ _ => exact .inl (hother x fun heq => hnot (heq ▸ hstands))
  | purged hwords _ _ _ _ => exact hwords x

theorem KeepsStruck.tail (h : KeepsStruck s s') (hact : FeedAct s' s'') : KeepsStruck s s'' := by
  intro x w hw hstruck
  rcases h x w hw hstruck with hsame | hnone | ⟨v, v', hv, hv', herased⟩
  · have hstep := hact.fixed hsame (.inl hstruck)
    rw [hsame] at hstep
    exact hstep
  · exact .inr (.inl (hact.gone x hnone))
  · have hstep := hact.fixed hv' (.inr herased)
    have hkept := Purged.trans (.inr (.inr ⟨v, v', hv, hv', herased⟩)) hstep
    exact hkept

/-! ### Every run -/

section Runs

variable {t : Int} {c₀ c c' : Config FeedStore FeedLock String FeedFailure}

theorem sound_of_reaches (hsound : Sound s) (hrun : Reaches feedSystem (.quiet s t) c) :
    Sound c.store :=
  inv_of_reaches (D := feedDiscipline) (fun _ hp => safe_feedCall hp) hsound hrun

theorem act_of_reaches (hsound : Sound s) (hrun : Reaches feedSystem (.quiet s t) c)
    (hstep : Step feedSystem c c') : FeedAct c.store c'.store := by
  rcases allowed_of_reaches (D := feedDiscipline) (fun _ hp => safe_feedCall hp) hsound hrun hstep
    with hsame | ⟨_, _, _, hact⟩
  · rw [hsame]
    exact .refl _
  · exact hact

theorem keepsStruck_of_reaches (hsound : Sound s) (hrun₀ : Reaches feedSystem (.quiet s t) c₀)
    (hrun : Reaches feedSystem c₀ c) : KeepsStruck c₀.store c.store := by
  induction hrun with
  | refl => exact fun x w hw _ => .inl hw
  | tail hrun hstep ih => exact ih.tail (act_of_reaches hsound (hrun₀.trans hrun) hstep)

/-- **Moderation in every history**, of any number of calls beside each other. -/
theorem moderation_of_run (hsound : Sound s) (hrun₀ : Reaches feedSystem (.quiet s t) c₀)
    (hrun : Reaches feedSystem c₀ c) (hstep : Step feedSystem c c') :
    Sound c.store ∧ ClosesTogether c.store c'.store ∧ KeepsAnswers c.store c'.store ∧
      RecordsStrikes c.store c'.store ∧ KeepsStruck c₀.store c'.store := by
  have hfrom := hrun₀.trans hrun
  have hsoundc := sound_of_reaches hsound hfrom
  have hact := act_of_reaches hsound hfrom hstep
  exact ⟨hsoundc, hact.closesTogether hsoundc, hact.keepsAnswers hsoundc, hact.recordsStrikes,
    keepsStruck_of_reaches hsound hrun₀ (hrun.tail hstep)⟩

end Runs

section Reported

/-- A post in Alla, reported by two neighbours. -/
def reportedPost : Post where
  id := "p1"
  audience := ⟨"alla", .ALL⟩
  authorPersonId := some "anna"
  byBoard := false
  body := some "Hej"
  createdAt := 1
  editedAt := none
  struckAt := none
  struckByPersonId := none
  erasedAt := none

def openReport (id reporterPersonId : String) : PostReport :=
  ⟨id, .post "p1", reporterPersonId, none, 2, none, none, none⟩

def twiceReported : FeedStore where
  posts := [reportedPost]
  reports := [openReport "r1" "bo", openReport "r2" "cia"]
  issued := ["r1", "r2"]

def boardMember : FeedReader := ⟨"dag", fun _ => true, true⟩

def answeredReport (id reporterPersonId : String) : PostReport :=
  (openReport id reporterPersonId).answered 9 "dag" true

def struckOnce : FeedStore where
  posts := [{ reportedPost with struckAt := some 9, struckByPersonId := some "dag" }]
  reports := [answeredReport "r1" "bo", answeredReport "r2" "cia"]
  issued := ["r1", "r2"]
  log := [.struck "dag" (some "anna") (.post "p1") "alla"]

theorem sound_twiceReported : Sound twiceReported := by
  have hstands : Standing twiceReported (.post "p1") := ⟨_, rfl, rfl, rfl⟩
  have hreports : ∀ report ∈ twiceReported.reports,
      report = openReport "r1" "bo" ∨ report = openReport "r2" "cia" := by
    intro report hreport
    simpa [twiceReported] using hreport
  refine ⟨by decide, by decide, by decide, ?_, ?_, ?_, fun _ => Nat.zero_le 1, ?_, fun _ _ => rfl⟩
  · intro report hreport _
    rcases hreports report hreport with rfl | rfl <;> exact hstands
  · intro report hreport
    rcases hreports report hreport with rfl | rfl <;> exact ⟨fun _ => rfl, fun _ => rfl⟩
  · intro report hreport hupheld
    rcases hreports report hreport with rfl | rfl <;> cases hupheld
  · rintro x ⟨w, hw, hstruck⟩
    cases x with
    | post id =>
      obtain ⟨post, hfind, rfl⟩ := Option.map_eq_some_iff.mp hw
      have hmem := List.mem_of_find?_eq_some hfind
      obtain rfl := List.mem_singleton.mp hmem
      exact absurd rfl hstruck
    | comment id => cases hw

theorem firstCommit_strike : firstCommit (do let _ ← strike boardMember "r1" : FeedTx Unit)
    ⟨9, fun _ => "", twiceReported, twiceReported⟩ = some struckOnce := by
  decide +kernel

/-- The board answers one report of a post, and both are upheld with it. -/
theorem moderation_of_strike : ∃ c c' : Config FeedStore FeedLock String FeedFailure,
    Reaches feedSystem (.quiet twiceReported 9) c ∧ Step feedSystem c c' ∧
      c'.store.reports = [answeredReport "r1" "bo", answeredReport "r2" "cia"] ∧
      ClosesTogether c.store c'.store ∧ RecordsStrikes c.store c'.store ∧
      KeepsStruck c.store c'.store := by
  have hcall : feedSystem.calls (do let _ ← strike boardMember "r1") := .strike boardMember "r1"
  obtain ⟨c, c', hrun, hstep, -, hstore, hstore', -⟩ :=
    reaches_call hcall (fun _ => "") firstCommit_strike
  obtain ⟨-, hcloses, -, hrecords, hkeeps⟩ :=
    moderation_of_run (t := 9) sound_twiceReported hrun .refl hstep
  exact ⟨c, c', hrun, hstep, by rw [hstore']; rfl, hcloses, hrecords, hkeeps⟩

end Reported

end OpenBrf.Feed
