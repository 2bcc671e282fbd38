import OpenBrf.Moves.HoldingRuns
import OpenBrf.Retention.HoldingPeriods

/-!
# Retention.DataSubjectReport — whose lien notes and terminations an access report carries
(`data-subject-report.service.ts`)

The report reads a person's holdings from the member register and bounds the apartment register's
rows by them.  Along moves that keep rows paired the holdings are the residencies, so the report
carries no other holder's pledge and leaves out no termination.
-/

namespace OpenBrf.Retention

open Registers Moves Timeline

/-! ### The report -/

inductive TerminationKind where
  | GENERAL_MEETING_DECISION
  | BUILDING_TRANSFERRED
  deriving DecidableEq, Repr

structure LienNote extends DatedLienNote where
  id : String
  creditor : String
  amount : Option String

structure Termination extends DatedTermination where
  id : String
  kind : TerminationKind
  reference : String
  deriving DecidableEq, Repr

instance : LienNoteRow LienNote := ⟨LienNote.toDatedLienNote⟩

instance : TerminationRow Termination := ⟨Termination.toDatedTermination⟩

/-- The tables keyed by apartment. -/
structure ApartmentRegister where
  lienNotes : List LienNote
  terminations : List Termination

/-- What a report carries of them. -/
structure HoldingsReport where
  holdings : List HoldingPeriod
  lienNotes : List LienNote
  terminations : List Termination

/-- A person's archive rows, `orderBy: [{ eventOn: "asc" }]`. -/
def memberRegisterEntriesOf (s : Store) (personId : String) : List MemberRegisterArchiveRow :=
  (s.memberRegisterEntries.filter fun row => row.personId = personId).insertionSort
    (·.eventOn ≤ ·.eventOn)

/-- The part of `build` that reads the holdings and what is bounded by them. -/
def build (s : Store) (register : ApartmentRegister) (personId : String) : HoldingsReport :=
  let holdings := holdingPeriods (resolveRegisterEvents (memberRegisterEntriesOf s personId))
  let heldApartmentIds := (holdings.map HoldingPeriod.apartmentId).eraseDups
  { holdings
    terminations :=
      if heldApartmentIds = [] then []
      else terminationsDuringHolding
        ((register.terminations.filter fun t => t.apartmentId ∈ heldApartmentIds).insertionSort
          (·.tookEffectOn ≤ ·.tookEffectOn)) holdings
    lienNotes :=
      if heldApartmentIds = [] then []
      else lienNotesDuringHolding
        ((register.lienNotes.filter fun n => n.apartmentId ∈ heldApartmentIds).insertionSort
          (·.notedOn ≤ ·.notedOn)) holdings }

/-- Rows of the apartments held, when there are any. -/
theorem mem_of_heldApartmentIds {Row : Type} (apartment : Row → String)
    {holdings : List HoldingPeriod} {Bounded : HoldingPeriod → Prop} {rows bounded : List Row} {row : Row}
    (hbounded : row ∈ bounded ↔ (row ∈ rows ∧
        apartment row ∈ (holdings.map HoldingPeriod.apartmentId).eraseDups) ∧
      ∃ period ∈ holdings, period.apartmentId = apartment row ∧ Bounded period) :
    row ∈ (if (holdings.map HoldingPeriod.apartmentId).eraseDups = [] then [] else bounded) ↔
      row ∈ rows ∧ ∃ period ∈ holdings, period.apartmentId = apartment row ∧ Bounded period := by
  have hheld : ∀ period ∈ holdings,
      period.apartmentId ∈ (holdings.map HoldingPeriod.apartmentId).eraseDups := fun period hp =>
    List.mem_eraseDups.mpr (List.mem_map_of_mem hp)
  split_ifs with hnil
  · simp only [List.not_mem_nil, false_iff]
    rintro ⟨-, period, hperiod, -⟩
    have := hheld period hperiod
    rw [hnil] at this
    cases this
  · rw [hbounded]
    constructor
    · rintro ⟨⟨hrow, -⟩, hperiod⟩
      exact ⟨hrow, hperiod⟩
    · rintro ⟨hrow, period, hperiod, hapt, hbound⟩
      exact ⟨⟨hrow, hapt ▸ hheld period hperiod⟩, period, hperiod, hapt, hbound⟩

theorem mem_build_lienNotes {s : Store} {register : ApartmentRegister} {personId : String}
    {n : LienNote} : n ∈ (build s register personId).lienNotes ↔ n ∈ register.lienNotes ∧
      ∃ period ∈ (build s register personId).holdings, period.apartmentId = n.apartmentId ∧
        (∀ day ∈ period.heldUntil, n.notedOn < day) ∧
          ∀ day ∈ n.releasedOn, period.heldFrom < day := by
  refine mem_of_heldApartmentIds (fun n : LienNote => n.apartmentId) ?_
  rw [mem_lienNotesDuringHolding, List.mem_insertionSort, List.mem_filter, decide_eq_true_eq]
  rfl

theorem mem_build_terminations {s : Store} {register : ApartmentRegister} {personId : String}
    {t : Termination} : t ∈ (build s register personId).terminations ↔
      t ∈ register.terminations ∧
      ∃ period ∈ (build s register personId).holdings, period.apartmentId = t.apartmentId ∧
        period.heldFrom ≤ t.tookEffectOn ∧ ∀ day ∈ period.heldUntil, t.tookEffectOn ≤ day := by
  refine mem_of_heldApartmentIds (fun t : Termination => t.apartmentId) ?_
  rw [mem_terminationsDuringHolding, List.mem_insertionSort, List.mem_filter, decide_eq_true_eq]
  rfl

/-! ### What the report owes -/

/-- A note that stood, strictly between transfer days, on some day a residency was held. -/
structure StoodDuring (note : DatedLienNote) (x : Residency) : Prop where
  apartmentId : x.apartmentId = note.apartmentId
  day : ∃ d, Holds x d ∧ note.notedOn ≤ d ∧ ∀ day ∈ note.releasedOn, d ≤ day
  /-- Not released by the day the residency began. -/
  released : ∀ day ∈ note.releasedOn, x.movedInOn < day
  /-- Not noted on the day it ended. -/
  noted : ∀ m ∈ x.movedOutOn, note.notedOn < m

/-- A termination within a residency, its first and last day included. -/
structure FellDuring (termination : DatedTermination) (x : Residency) : Prop where
  apartmentId : x.apartmentId = termination.apartmentId
  first : x.movedInOn ≤ termination.tookEffectOn
  last : ∀ m ∈ x.movedOutOn, termination.tookEffectOn ≤ m

/-- **What a report may disclose and must carry**, for every person. -/
structure ReportsHeld (s : Store) (register : ApartmentRegister) : Prop where
  lienNotes : ∀ personId, ∀ n ∈ (build s register personId).lienNotes,
    ∃ x, MemberOf s personId x ∧ StoodDuring n.toDatedLienNote x
  terminations : ∀ personId x, MemberOf s personId x → ∀ t ∈ register.terminations,
    FellDuring t.toDatedTermination x → t ∈ (build s register personId).terminations

/-! ### Paired rows -/

theorem mem_memberRegisterEntriesOf {s : Store} {personId : String}
    {row : MemberRegisterArchiveRow} :
    row ∈ memberRegisterEntriesOf s personId ↔ RowOf s personId row := by
  unfold memberRegisterEntriesOf RowOf
  rw [List.mem_insertionSort, List.mem_filter, decide_eq_true_eq]

/-- A person's events are their rows, where nothing is corrected. -/
theorem mem_resolveRegisterEvents {s : Store} (hsound : Sound s) {personId : String}
    {e : RegisterEvent} : e ∈ resolveRegisterEvents (memberRegisterEntriesOf s personId) ↔
      ∃ row, RowOf s personId row ∧ e = plainEvent row := by
  have happ : AppendedTo [] (memberRegisterEntriesOf s personId) := by
    refine ⟨fun row hrow => ?_, fun row hrow => ?_, by simp [superseded], by simp⟩
    · exact hsound.entries.eventType row (mem_memberRegisterEntriesOf.mp hrow).1
    · exact hsound.entries.correctsEntryId row (mem_memberRegisterEntriesOf.mp hrow).1
  have hplain : ∀ row ∈ memberRegisterEntriesOf s personId,
      resolveRow (memberRegisterEntriesOf s personId) row = some (plainEvent row) :=
    fun row hrow => happ.resolveRow_new hrow
  unfold resolveRegisterEvents
  rw [mem_chronologically, List.mem_filterMap]
  constructor
  · rintro ⟨row, hrow, hres⟩
    rw [hplain row hrow] at hres
    exact ⟨row, mem_memberRegisterEntriesOf.mp hrow, (Option.some.inj hres).symm⟩
  · rintro ⟨row, hrow, rfl⟩
    have hrow := mem_memberRegisterEntriesOf.mpr hrow
    exact ⟨row, hrow, hplain row hrow⟩

theorem isEntry_plainEvent {row : MemberRegisterArchiveRow} :
    (plainEvent row).isEntry = true ↔ row.eventType = .ENTRY := by
  unfold plainEvent ResolvedRegisterEvent.isEntry
  by_cases h : row.eventType = .ENTRY <;> simp [h, RegisterRow.event]

/-- The stretch of a residency, from the instant it was opened to the one it was closed. -/
def stretch (member : Residency → Prop) (st : Stamps) (apartmentId : String)
    (first : Int ×ₗ Int) (last : Option (Int ×ₗ Int)) : Prop :=
  ∃ x, member x ∧ x.apartmentId = apartmentId ∧ toLex (x.movedInOn, st.opened x.id) = first ∧
    x.movedOutOn.map (fun m => toLex (m, st.closed x.id)) = last

/-- Paired rows of an apartment tell of the residencies on it. -/
theorem tells_of_paired {s : Store} (hsound : Sound s) {personId : String} {st : Stamps}
    (hp : Paired (MemberOf s personId) (RowOf s personId) st) (apartmentId : String) :
    Tells eventKey ResolvedRegisterEvent.isEntry (stretch (MemberOf s personId) st apartmentId)
      (chronologically ((resolveRegisterEvents (memberRegisterEntriesOf s personId)).filter
        fun e => e.row.apartmentId = some apartmentId)) := by
  have hmem : ∀ e : RegisterEvent, e ∈ chronologically ((resolveRegisterEvents
      (memberRegisterEntriesOf s personId)).filter fun e => e.row.apartmentId = some apartmentId) ↔
        ∃ row, RowOf s personId row ∧ e = plainEvent row ∧ row.apartmentId = some apartmentId := by
    intro e
    rw [mem_chronologically, List.mem_filter, mem_resolveRegisterEvents hsound, decide_eq_true_eq]
    constructor
    · rintro ⟨⟨row, hrow, rfl⟩, hapt⟩
      exact ⟨row, hrow, rfl, hapt⟩
    · rintro ⟨row, hrow, rfl, hapt⟩
      exact ⟨⟨row, hrow, rfl⟩, hapt⟩
  have hkey : ∀ row : MemberRegisterArchiveRow,
      eventKey (plainEvent row) = toLex (row.eventOn, row.createdAt) := fun _ => rfl
  have hclose : ∀ row : MemberRegisterArchiveRow, RowOf s personId row →
      ((plainEvent row).isEntry = false ↔ row.eventType = .EXIT) := by
    intro row hrow
    have hplain := hsound.entries.eventType row hrow.1
    rw [← Bool.not_eq_true, isEntry_plainEvent]
    cases htype : row.eventType <;> simp_all
  refine ⟨?_, ?_, ?_, ?_, ?_, ?_⟩
  · rintro e he hopen
    obtain ⟨row, hrow, rfl, hapt⟩ := (hmem e).mp he
    obtain ⟨x, hx, hname, hin⟩ := hp.entry row hrow (isEntry_plainEvent.mp hopen)
    refine ⟨_, _, ⟨x, hx, Option.some.inj (hname.symm.trans hapt), rfl, rfl⟩, ?_, ?_⟩
    · rw [hkey, Prod.Lex.toLex_le_toLex]
      exact hin.after
    · intro k hk
      obtain ⟨m, hm, rfl⟩ := Option.map_eq_some_iff.mp hk
      rw [hkey, Prod.Lex.toLex_lt_toLex]
      exact hin.before m hm
  · rintro e he hclosed
    obtain ⟨row, hrow, rfl, hapt⟩ := (hmem e).mp he
    obtain ⟨x, hx, hname, hout, hstamp⟩ := hp.exit row hrow ((hclose row hrow).mp hclosed)
    refine ⟨_, x, hx, Option.some.inj (hname.symm.trans hapt), rfl, ?_⟩
    rw [hout, hkey, ← hstamp]
    rfl
  · rintro first last ⟨x, hx, rfl, rfl, -⟩
    obtain ⟨row, hrow, htype, hapt, hon, hstamp⟩ := hp.opened x hx
    refine ⟨plainEvent row, (hmem _).mpr ⟨row, hrow, rfl, hapt⟩, isEntry_plainEvent.mpr htype, ?_⟩
    rw [hkey, hon, hstamp]
  · rintro first last ⟨x, hx, rfl, -, hlast⟩
    obtain ⟨m, hm, rfl⟩ := Option.map_eq_some_iff.mp hlast
    obtain ⟨row, hrow, htype, hapt, hon, hstamp⟩ := hp.closed x hx m hm
    refine ⟨plainEvent row, (hmem _).mpr ⟨row, hrow, rfl, hapt⟩, (hclose row hrow).mpr htype, ?_⟩
    rw [hkey, hon, hstamp]
  · rintro first last ⟨x, hx, -, rfl, hlast⟩
    obtain ⟨m, hm, rfl⟩ := Option.map_eq_some_iff.mp hlast
    rw [Prod.Lex.toLex_lt_toLex]
    exact .inl (hp.lt x hx m hm)
  · rintro first last first' last' ⟨x, hx, hxapt, rfl, rfl⟩ ⟨y, hy, hyapt, rfl, rfl⟩
    have hbefore : ∀ {x y : Residency}, ClosedBefore st x y →
        ∃ k ∈ x.movedOutOn.map (fun m => toLex (m, st.closed x.id)),
          k < toLex (y.movedInOn, st.opened y.id) := by
      rintro x y ⟨m, hm, hlt⟩
      refine ⟨_, Option.mem_map_of_mem _ hm, ?_⟩
      rw [Prod.Lex.toLex_lt_toLex]
      exact hlt
    by_cases hid : x.id = y.id
    · obtain rfl : x = y := List.inj_on_of_nodup_map hsound.ids hx.1 hy.1 hid
      exact .inl ⟨rfl, rfl⟩
    · exact .inr ((hp.apart x y hx hy hid (hxapt.trans hyapt.symm)).imp hbefore hbefore)

/-- **Where rows are paired the holdings are the residencies.** -/
theorem mem_holdings_iff {s : Store} (hsound : Sound s) (hpaired : HoldingsPaired s)
    {register : ApartmentRegister} {personId : String} {period : HoldingPeriod} :
    period ∈ (build s register personId).holdings ↔ ∃ x, MemberOf s personId x ∧
      x.apartmentId = period.apartmentId ∧ x.movedInOn = period.heldFrom ∧
        x.movedOutOn = period.heldUntil := by
  obtain ⟨st, hp⟩ := hpaired personId
  have hiff := mem_holdingPeriods_iff_spell (tells_of_paired hsound hp period.apartmentId)
    period.heldFrom period.heldUntil
  have hspan : ∀ x : Residency, (x.movedOutOn.map fun m => toLex (m, st.closed x.id)).map
      (fun l => (ofLex l).1) = x.movedOutOn := by
    intro x
    cases x.movedOutOn <;> rfl
  refine hiff.trans ?_
  constructor
  · rintro ⟨first, last, ⟨x, hx, hapt, rfl, rfl⟩, hfrom, huntil⟩
    exact ⟨x, hx, hapt, hfrom, (hspan x).symm.trans huntil⟩
  · rintro ⟨x, hx, hapt, hfrom, huntil⟩
    exact ⟨_, _, ⟨x, hx, hapt, rfl, rfl⟩, hfrom, (hspan x).trans huntil⟩

theorem reportsHeld_of_paired {s : Store} (hsound : Sound s) (hpaired : HoldingsPaired s)
    (register : ApartmentRegister) : ReportsHeld s register := by
  refine ⟨?_, ?_⟩
  · intro personId n hn
    obtain ⟨-, period, hperiod, hapt, huntil, hreleased⟩ := mem_build_lienNotes.mp hn
    obtain ⟨x, hx, hxapt, hfrom, hout⟩ := (mem_holdings_iff hsound hpaired).mp hperiod
    obtain ⟨st, hp⟩ := hpaired personId
    rw [← hout] at huntil
    rw [← hfrom] at hreleased
    refine ⟨x, hx, hxapt.trans hapt, ⟨max x.movedInOn n.notedOn, ⟨le_max_left _ _, ?_⟩,
      le_max_right _ _, ?_⟩, hreleased, huntil⟩
    · exact fun m hm => max_lt (hp.lt x hx m hm) (huntil m hm)
    · exact fun day hday => max_le (hreleased day hday).le (n.released_ge day hday)
  · intro personId x hx t ht hfell
    refine mem_build_terminations.mpr ⟨ht, ⟨t.apartmentId, x.movedInOn, x.movedOutOn⟩, ?_, rfl,
      hfell.first, hfell.last⟩
    exact (mem_holdings_iff hsound hpaired).mpr ⟨x, hx, hfell.apartmentId, rfl, rfl⟩

/-! ### Every run of moves -/

/-- **Reports along moves.**  However the moves are dated and whoever they are about, a report
discloses only notes that stood while the person held the apartment and carries every termination
that fell within it, after every move of a run whose recorded moves pair up. -/
theorem reports_held {s : Store} (hs : NothingRecorded s) (ms : List Recording)
    (hstamps : ∀ t ∈ trace s ms, ∀ e ∈ t.1.memberRegisterEntries, e.createdAt < t.2.time)
    (hpairs : ∀ t ∈ trace s ms, t.2.IsRecorded t.1 → t.2.move.PairsUp t.1) :
    ∀ t ∈ trace s ms, ∀ register, ReportsHeld (t.2.after t.1) register := by
  intro t ht register
  obtain ⟨hsound, hpaired⟩ := trace_paired hs ms hstamps hpairs t ht
  exact reportsHeld_of_paired hsound hpaired register

/-- A pledge the next holder of 1001 makes on day 40. -/
def nextHoldersPledge : LienNote where
  apartmentId := "1001"
  notedOn := 40
  releasedOn := none
  released_ge := by simp
  id := "n1"
  creditor := "bank"
  amount := none

/-- Into 1001 on day 10. -/
def intoFirst : Recording :=
  ⟨.enter ⟨"board", "anna", "1001", .MEMBER, 10, []⟩, 1, fun n => ["r1", "e1"].getD n "",
    by decide⟩

/-- Out of 1001 on day 20. -/
def outOfFirst : Recording :=
  ⟨.out ⟨"board", "r1", 20, none⟩, 2, fun n => ["e2"].getD n "", by decide⟩

/-- Into 1002 on day 20, which is granted to her. -/
def intoSecond : Recording :=
  ⟨.moveIn ⟨"board", "anna", "1002", .MEMBER, 20, some ⟨⟨20, none, some "upplatelse 12"⟩, .GRANT, none⟩⟩,
    3, fun n => ["r2", "e3", "t1"].getD n "", by decide⟩

theorem reports_held_changedFlats :
    ((intoSecond.after (outOfFirst.after (intoFirst.after twoFlats))).residencies.map fun r =>
      (r.apartmentId, r.movedInOn, r.movedOutOn)) = [("1001", 10, some 20), ("1002", 20, none)] ∧
    ReportsHeld (intoSecond.after (outOfFirst.after (intoFirst.after twoFlats)))
      ⟨[nextHoldersPledge], []⟩ := by
  refine ⟨by decide +kernel, ?_⟩
  -- one residency before the move out, so nothing is held besides it
  have hres : (intoFirst.after twoFlats).residencies =
      [⟨"r1", "anna", "1001", .MEMBER, 10, none⟩] := by
    decide +kernel
  have hnone : ∀ d, heldByOthers (intoFirst.after twoFlats) "r1" "anna" d = false := by
    intro d
    unfold heldByOthers
    rw [hres]
    rfl
  have hpairs : outOfFirst.move.PairsUp (intoFirst.after twoFlats) := by
    intro r hr _
    rw [hres] at hr
    obtain rfl : (⟨"r1", "anna", "1001", .MEMBER, 10, none⟩ : Residency) = r := by
      simpa [findResidency] using hr
    exact ⟨by decide, hnone 20, fun d _ h => by rw [hnone] at h; cases h⟩
  have hall := reports_held ⟨rfl, rfl⟩ [intoFirst, outOfFirst, intoSecond] (by decide +kernel)
    (List.forall_mem_cons.mpr ⟨fun _ _ => rfl, List.forall_mem_cons.mpr ⟨fun _ => hpairs,
      List.forall_mem_cons.mpr ⟨fun _ _ => by decide +kernel, by simp [trace]⟩⟩⟩)
  simp only [trace, List.forall_mem_cons] at hall
  exact hall.2.2.1 _

/-- Into 1001 on day 10 and into 1002 on day 20, then out of 1001 on day 30. -/
def keptSecondFlat : List Recording :=
  [⟨.enter ⟨"board", "anna", "1001", .MEMBER, 10, []⟩, 1, fun n => ["r1", "e1"].getD n "",
      by decide⟩,
    ⟨.enter ⟨"board", "anna", "1002", .MEMBER, 20, []⟩, 2, fun n => ["r2"].getD n "",
      by decide⟩,
    ⟨.out ⟨"board", "r1", 30, none⟩, 3, fun _ => "", by decide⟩]

/-- Anna never stops being a member, so no row says she left 1001, and her report discloses the
pledge its next holder makes. -/
theorem keptSecondFlat_discloses :
    ¬ ∀ (s : Store) (ms : List Recording), NothingRecorded s →
      (∀ t ∈ trace s ms, ∀ e ∈ t.1.memberRegisterEntries, e.createdAt < t.2.time) →
      ∀ t ∈ trace s ms, ∀ register, ReportsHeld (t.2.after t.1) register := by
  intro h
  have hall := h twoFlats keptSecondFlat ⟨rfl, rfl⟩ (by decide +kernel)
  have hlast : ∃ t ∈ trace twoFlats keptSecondFlat,
      (t.2.after t.1).residencies = [⟨"r1", "anna", "1001", .MEMBER, 10, some 30⟩,
        ⟨"r2", "anna", "1002", .MEMBER, 20, none⟩] ∧
      ⟨"1001", 10, none⟩ ∈ (build (t.2.after t.1) ⟨[], []⟩ "anna").holdings := by
    decide +kernel
  obtain ⟨t, ht, hres, hheld⟩ := hlast
  obtain ⟨x, hx, hstood⟩ := (hall t ht ⟨[nextHoldersPledge], []⟩).lienNotes "anna"
    nextHoldersPledge (mem_build_lienNotes.mpr ⟨by simp, _, hheld, rfl, by simp, by simp
      [nextHoldersPledge]⟩)
  have hmem := hx.1
  rw [hres] at hmem
  have hapt := hstood.apartmentId
  rcases List.mem_cons.mp hmem with rfl | hmem
  · have := hstood.noted 30 rfl
    simp [nextHoldersPledge] at this
  · obtain rfl := List.mem_singleton.mp hmem
    simp [nextHoldersPledge] at hapt

end OpenBrf.Retention
