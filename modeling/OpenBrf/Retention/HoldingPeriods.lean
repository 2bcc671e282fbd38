import Mathlib.Data.Prod.Lex
import OpenBrf.Registers.Reading
import OpenBrf.Timeline.Pairing

/-!
# Retention.HoldingPeriods — which tenant-ownership a person held, and what was theirs
(`holding-periods.ts`)

A lien note and a termination are recorded against an apartment and carry no person.  Whose they
are is inferred from the member register, paired per apartment.
-/

namespace OpenBrf.Retention

open Registers Timeline

/-- One period during which a person held one tenant-ownership. -/
structure HoldingPeriod where
  apartmentId : String
  /-- The source's `from`. -/
  heldFrom : Int
  /-- The source's `until`: none while they still hold it. -/
  heldUntil : Option Int
  deriving DecidableEq, Repr

/-- A lien note, as much of it as the bounding needs. -/
structure DatedLienNote where
  apartmentId : String
  notedOn : Int
  releasedOn : Option Int
  /-- `releaseLien` refuses a day before the one the note was made. -/
  released_ge : ∀ day ∈ releasedOn, notedOn ≤ day

/-- A termination, as much of it as the bounding needs. -/
structure DatedTermination where
  apartmentId : String
  tookEffectOn : Int
  deriving DecidableEq, Repr

/-- A selection of lien note columns that holds those of `DatedLienNote`. -/
class LienNoteRow (Note : Type) where
  dated : Note → DatedLienNote

/-- A selection of termination columns that holds those of `DatedTermination`. -/
class TerminationRow (Event : Type) where
  dated : Event → DatedTermination

abbrev RegisterEvent : Type := ResolvedRegisterEvent MemberRegisterArchiveRow

/-- The loop over one apartment's events, with the entry that is open. -/
def pairHoldings (apartmentId : String) : Option RegisterEvent → List RegisterEvent →
    List HoldingPeriod
  | opened, [] => opened.toList.map fun entry => ⟨apartmentId, entry.eventOn, none⟩
  | opened, e :: es =>
    match e.eventType, opened with
    | .ENTRY, none => pairHoldings apartmentId (some e) es
    | .ENTRY, some entry => pairHoldings apartmentId (some entry) es
    | .EXIT, none => pairHoldings apartmentId none es
    | .EXIT, some entry =>
      ⟨apartmentId, entry.eventOn, some e.eventOn⟩ :: pairHoldings apartmentId none es

/-- The apartments a person held, paired from their events: per apartment, in the order the
apartments first appear.  Events with no apartment are left out. -/
def holdingPeriods (events : List RegisterEvent) : List HoldingPeriod :=
  (events.filterMap fun e => e.row.apartmentId).eraseDups.flatMap fun apartmentId =>
    pairHoldings apartmentId none
      (chronologically (events.filter fun e => e.row.apartmentId = some apartmentId))

/-- The notes that stood against a tenant-ownership while it was held: both boundaries open. -/
def lienNotesDuringHolding {Note : Type} [LienNoteRow Note] (notes : List Note)
    (periods : List HoldingPeriod) : List Note :=
  notes.filter fun n =>
    let note := LienNoteRow.dated n
    periods.any fun period =>
      period.apartmentId = note.apartmentId && period.heldUntil.all (note.notedOn < ·) &&
        note.releasedOn.all (period.heldFrom < ·)

/-- The terminations that ended, or fell inside, a tenant-ownership: both boundaries closed. -/
def terminationsDuringHolding {Event : Type} [TerminationRow Event] (terminations : List Event)
    (periods : List HoldingPeriod) : List Event :=
  terminations.filter fun t =>
    let termination := TerminationRow.dated t
    periods.any fun period =>
      period.apartmentId = termination.apartmentId &&
        period.heldFrom ≤ termination.tookEffectOn &&
        period.heldUntil.all (termination.tookEffectOn ≤ ·)

/-! ### Pairing per apartment -/

theorem pairHoldings_eq (apartmentId : String) : ∀ (es : List RegisterEvent)
    (opened : Option RegisterEvent), pairHoldings apartmentId opened es =
      (pairUp ResolvedRegisterEvent.isEntry opened es).map fun pair =>
        ⟨apartmentId, pair.1.eventOn, pair.2.map ResolvedRegisterEvent.eventOn⟩
  | [], opened => by cases opened <;> rfl
  | e :: es, opened => by
    have hentry : e.isEntry = decide (e.eventType = .ENTRY) := rfl
    unfold pairHoldings pairUp
    rw [hentry]
    cases e.eventType <;> cases opened <;> simp [pairHoldings_eq apartmentId es]

theorem mem_holdingPeriods {events : List RegisterEvent} {period : HoldingPeriod} :
    period ∈ holdingPeriods events ↔ ∃ pair ∈ pairUp ResolvedRegisterEvent.isEntry none
        (chronologically (events.filter fun e => e.row.apartmentId = some period.apartmentId)),
      pair.1.eventOn = period.heldFrom ∧
        pair.2.map ResolvedRegisterEvent.eventOn = period.heldUntil := by
  unfold holdingPeriods
  simp only [List.mem_flatMap, pairHoldings_eq, List.mem_map, List.mem_eraseDups]
  constructor
  · rintro ⟨apartmentId, -, pair, hpair, rfl⟩
    exact ⟨pair, hpair, rfl, rfl⟩
  · rintro ⟨⟨entry, exit⟩, hpair, hfrom, huntil⟩
    refine ⟨period.apartmentId, ?_, _, hpair, ?_⟩
    · -- the entry of the pair is one of the apartment's events
      obtain ⟨before, after, heq, -⟩ := mem_pairUp.mp hpair
      have hentry : entry ∈ chronologically (events.filter fun e =>
          e.row.apartmentId = some period.apartmentId) := by
        rw [heq]
        simp
      obtain ⟨hmem, hapt⟩ := List.mem_filter.mp (mem_chronologically.mp hentry)
      exact List.mem_filterMap.mpr ⟨entry, hmem, of_decide_eq_true hapt⟩
    · cases period
      simp_all

/-- Where an event stands among those of its apartment: by day, then by when it was written. -/
def eventKey (e : RegisterEvent) : Int ×ₗ Int := toLex (e.eventOn, e.createdAt)

theorem eventKey_le_iff {e e' : RegisterEvent} : eventKey e ≤ eventKey e' ↔ Chronological e e' :=
  Prod.Lex.toLex_le_toLex

/-- **Holding periods read off spells.**  When an apartment's events tell of spells, the periods
paired from them are the spells, from the day each opens to the day it closes. -/
theorem mem_holdingPeriods_iff_spell {events : List RegisterEvent} {apartmentId : String}
    {spell : Int ×ₗ Int → Option (Int ×ₗ Int) → Prop}
    (h : Tells eventKey ResolvedRegisterEvent.isEntry spell
      (chronologically (events.filter fun e => e.row.apartmentId = some apartmentId)))
    (heldFrom : Int) (heldUntil : Option Int) :
    ⟨apartmentId, heldFrom, heldUntil⟩ ∈ holdingPeriods events ↔
      ∃ first last, spell first last ∧ (ofLex first).1 = heldFrom ∧
        last.map (fun l => (ofLex l).1) = heldUntil := by
  rw [mem_holdingPeriods]
  have hs : (chronologically (events.filter fun e =>
      e.row.apartmentId = some apartmentId)).Pairwise (eventKey · ≤ eventKey ·) :=
    (pairwise_chronologically _).imp eventKey_le_iff.mpr
  constructor
  · rintro ⟨⟨entry, exit⟩, hpair, rfl, rfl⟩
    refine ⟨_, _, (mem_pairUp_iff_spell h hs).mp ⟨_, hpair, rfl, rfl⟩, rfl, ?_⟩
    cases exit <;> rfl
  · rintro ⟨first, last, hspell, rfl, rfl⟩
    obtain ⟨⟨entry, exit⟩, hpair, rfl, rfl⟩ := (mem_pairUp_iff_spell h hs).mpr hspell
    refine ⟨_, hpair, rfl, ?_⟩
    cases exit <;> rfl

theorem mem_lienNotesDuringHolding {Note : Type} [LienNoteRow Note] {notes : List Note}
    {periods : List HoldingPeriod} {n : Note} : n ∈ lienNotesDuringHolding notes periods ↔
      n ∈ notes ∧ ∃ period ∈ periods, period.apartmentId = (LienNoteRow.dated n).apartmentId ∧
        (∀ day ∈ period.heldUntil, (LienNoteRow.dated n).notedOn < day) ∧
        ∀ day ∈ (LienNoteRow.dated n).releasedOn, period.heldFrom < day := by
  simp [lienNotesDuringHolding, and_assoc, Option.all_eq_true]

theorem mem_terminationsDuringHolding {Event : Type} [TerminationRow Event] {terminations : List Event}
    {periods : List HoldingPeriod} {t : Event} :
    t ∈ terminationsDuringHolding terminations periods ↔ t ∈ terminations ∧
      ∃ period ∈ periods, period.apartmentId = (TerminationRow.dated t).apartmentId ∧
        period.heldFrom ≤ (TerminationRow.dated t).tookEffectOn ∧
        ∀ day ∈ period.heldUntil, (TerminationRow.dated t).tookEffectOn ≤ day := by
  simp [terminationsDuringHolding, and_assoc, Option.all_eq_true]

end OpenBrf.Retention
