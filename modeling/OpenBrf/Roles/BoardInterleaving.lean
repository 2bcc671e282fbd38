import OpenBrf.Roles.BoardTerms
import OpenBrf.Txn.Safe

/-!
# Roles.BoardInterleaving — elections, recoveries and ends of terms beside each other

Whoever writes a seat holds the register, so an act is committed on the register it was judged on.
The clock it was judged by was read before the lock was waited for.
-/

namespace OpenBrf.Roles

open Txn Shared

/-- What is called.  Persons are written by other modules, in any way. -/
inductive BoardCall (zone : Zone) : RoleTx Unit → Prop
  | elect (input : ElectInput) : BoardCall zone (do let _ ← elect zone input)
  | recoverBoard (input : RecoverBoardInput) : BoardCall zone (do let _ ← recoverBoard zone input)
  | endTerm (input : EndTermInput) : BoardCall zone (do let _ ← endTerm zone input)
  | persons (f : List String → List String) :
      BoardCall zone (transaction (update fun s => { s with personIds := f s.personIds }))

/-- The calls beside each other. -/
def boardSystem (zone : Zone) : System BoardStore BoardLock String RoleFailure where
  calls := BoardCall zone
  prompt _ := False

inductive BoardFact where
  | register
  | rows
  deriving DecidableEq

/-- The same seat, whatever its end date. -/
structure SameSeat (a b : BoardPosition) : Prop where
  id : b.id = a.id
  personId : b.personId = a.personId
  position : b.position = a.position
  electedOn : b.electedOn = a.electedOn

theorem SameSeat.refl (a : BoardPosition) : SameSeat a a := ⟨rfl, rfl, rfl, rfl⟩

theorem SameSeat.trans {a b c : BoardPosition} (h : SameSeat a b) (h' : SameSeat b c) :
    SameSeat a c :=
  ⟨h'.id.trans h.id, h'.personId.trans h.personId, h'.position.trans h.position,
    h'.electedOn.trans h.electedOn⟩

/-- No seat is deleted, and none is given to somebody else. -/
def KeepsSeats (terms terms' : List BoardPosition) : Prop :=
  ∀ row ∈ terms, ∃ row' ∈ terms', SameSeat row row'

theorem keepsSeats_of_subset {terms terms' : List BoardPosition} (h : terms ⊆ terms') :
    KeepsSeats terms terms' := fun row hrow => ⟨row, h hrow, .refl row⟩

theorem KeepsSeats.trans {terms terms' terms'' : List BoardPosition} (h : KeepsSeats terms terms')
    (h' : KeepsSeats terms' terms'') : KeepsSeats terms terms'' := by
  intro row hrow
  obtain ⟨row', hrow', hsame⟩ := h row hrow
  obtain ⟨row'', hrow'', hsame'⟩ := h' row' hrow'
  exact ⟨row'', hrow'', hsame.trans hsame'⟩

theorem keepsSeats_withTermEnd (terms : List BoardPosition) (id : String) (endedOn : Int) :
    KeepsSeats terms (withTermEnd terms id endedOn) := by
  intro row hrow
  refine ⟨_, List.mem_map_of_mem hrow, ?_⟩
  split_ifs
  · exact ⟨rfl, rfl, rfl, rfl⟩
  · exact .refl row

variable {zone : Zone}

theorem Acted.keepsSeats {t : Int} {s s' : BoardStore} (h : Acted zone t s s') :
    KeepsSeats s.positions s'.positions := by
  rcases h with ⟨hsame, -⟩ | ⟨now, hnow, hact⟩
  · rw [hsame]
    exact keepsSeats_of_subset (List.Subset.refl _)
  · cases hact with
    | elected _ _ hpositions _ =>
      rw [hpositions]
      exact keepsSeats_of_subset (List.subset_cons_self ..)
    | recovered _ hrecords _ => exact keepsSeats_of_subset hrecords.subset
    | ended _ _ _ hpositions _ =>
      rw [hpositions]
      exact keepsSeats_withTermEnd _ _ _

/-- What commits keep of the register: somebody who holds it finds it as it was. -/
def boardDiscipline (zone : Zone) : Discipline BoardStore BoardLock BoardFact where
  inv t s := Registered t s.positions
  guards k l m := k = .register ∧ l = .register ∧ m = .exclusive
  keeps
    | .register, s, s' => s'.positions = s.positions
    | .rows, s, s' => KeepsSeats s.positions s'.positions
  allowed _ t s s' := Acted zone t s s'
  inv_mono ht h := h.later ht
  keeps_refl
    | .register, _ => rfl
    | .rows, _ => keepsSeats_of_subset (List.Subset.refl _)
  keeps_trans := by
    rintro (_ | _) s₁ s₂ s₃ h h'
    · exact h'.trans h
    · exact KeepsSeats.trans h h'

section Commits

variable {held : List (BoardLock × Mode)} {reads : List (Sight BoardStore BoardLock)} {t : Int}
  {s s' : BoardStore}

theorem same_of_rely (hheld : (BoardLock.register, Mode.exclusive) ∈ held)
    (h : (boardDiscipline zone).Rely held s s') : s'.positions = s.positions := by
  refine h .register fun l m hl => ?_
  obtain ⟨-, rfl, rfl⟩ := hl
  exact ⟨.exclusive, hheld, fun _ => rfl⟩

theorem keepsSeats_of_rely (h : (boardDiscipline zone).Rely held s s') :
    KeepsSeats s.positions s'.positions :=
  h .rows fun _ _ hl => by cases hl.1

/-- An act of somebody who holds the register. -/
theorem commits_of_acted (hheld : (BoardLock.register, Mode.exclusive) ∈ held)
    (hinv : Registered t s.positions) (hacted : Acted zone t s s') :
    (boardDiscipline zone).Commits held reads t s s' := by
  refine ⟨hinv.acted hacted, hacted, fun k hk => ?_⟩
  cases k with
  | register =>
    obtain ⟨hm, -⟩ := hk .register .exclusive ⟨rfl, rfl, rfl⟩ .exclusive hheld
    cases hm
  | rows => exact hacted.keepsSeats

end Commits

/-! ### Under the register's lock -/

section Calls

variable {prompt : BoardLock → Prop} {c : Ctx BoardStore BoardLock} {now : Int}
  {terms own : List BoardPosition}

/-- What a request that holds the register knows: what is committed, what it has written, and that
its clock is not ahead. -/
structure Under (now : Int) (terms own : List BoardPosition) (c : Ctx BoardStore BoardLock) :
    Prop where
  held : (BoardLock.register, Mode.exclusive) ∈ c.held
  since : ∀ t s, c.knows t s → now ≤ t
  same : ∀ t s, c.knows t s → s.positions = terms
  own : ∀ s, s.positions = terms → (c.pending s).positions = own
  log : ∀ s, (c.pending s).log = s.log

theorem Under.later {c' : Ctx BoardStore BoardLock} (h : Under now terms own c)
    (hlater : c.Later c') : Under now terms own c' := by
  refine ⟨hlater.held _ h.held, ?_, ?_, ?_, ?_⟩
  · exact fun t s hk => h.since t s (hlater.knows t s hk)
  · exact fun t s hk => h.same t s (hlater.knows t s hk)
  · rw [hlater.pending]
    exact h.own
  · rw [hlater.pending]
    exact h.log

variable (now) in
theorem safe_lockBoardRegister (hp : c.pending = id) (hsince : ∀ t s, c.knows t s → now ≤ t)
    {Q : Unit → Ctx BoardStore BoardLock → Prop}
    (h : ∀ t s c', Registered t s.positions → c.knows t s →
      Under now s.positions s.positions c' → Q () c') :
    Safe (boardDiscipline zone) prompt lockBoardRegister Q c := by
  unfold lockBoardRegister
  rw [safe_acquire]
  intro t s hinv hk _
  refine h t s _ hinv hk ⟨List.mem_cons_self, ?_, ?_, ?_, ?_⟩
  · exact fun t' s' hk' => hsince t' s' hk'.1
  · exact fun t' s' hk' => same_of_rely List.mem_cons_self hk'.2.2
  · intro s' hs'
    show (c.pending s').positions = _
    rw [hp]
    exact hs'
  · intro s'
    show (c.pending s').log = _
    rw [hp]
    rfl

theorem safe_lockBoardPositions (hc : Under now terms own c) {personId : String}
    {Q : Unit → Ctx BoardStore BoardLock → Prop} (h : ∀ c', Under now terms own c' → Q () c') :
    Safe (boardDiscipline zone) prompt (lockBoardPositions personId) Q c := by
  unfold lockBoardPositions
  rw [safe_acquire]
  intro t s _ _ _
  exact h _ (hc.later (((Ctx.Later.refl c).acquire _ _).observe t s))

/-- What somebody who holds the register reads of it. -/
theorem safe_snapshot_under (hc : Under now terms own c)
    {Q : BoardStore → Ctx BoardStore BoardLock → Prop}
    (h : ∀ s c', s.positions = own → Under now terms own c' → Q s c') :
    Safe (boardDiscipline zone) prompt (snapshot : RoleTx BoardStore) Q c := by
  rw [safe_snapshot]
  intro t s _ hk
  exact h _ _ (hc.own s (hc.same t s hk)) (hc.later ((Ctx.Later.refl c).see t s))

theorem holdsBoardSeat_congr {s s' : BoardStore} (h : s'.positions = s.positions)
    (actorPersonId : String) :
    holdsBoardSeat zone s' actorPersonId now = holdsBoardSeat zone s actorPersonId now := by
  unfold holdsBoardSeat
  rw [h]

theorem isRegisterVacant_congr {s s' : BoardStore} (h : s'.positions = s.positions) :
    isRegisterVacant zone s' now = isRegisterVacant zone s now := by
  unfold isRegisterVacant
  rw [h]

theorem safe_refuseUnseatedActor (hc : Under now terms own c) {actorPersonId targetPersonId : String}
    {Q : Unit → Ctx BoardStore BoardLock → Prop}
    (h : ∀ c', (∀ s : BoardStore, s.positions = own → holdsBoardSeat zone s actorPersonId now = true) →
      Under now terms own c' → Q () c') :
    Safe (boardDiscipline zone) prompt
      (refuseUnseatedActor zone actorPersonId targetPersonId now) Q c := by
  unfold refuseUnseatedActor
  rw [safe_bind]
  apply safe_snapshot_under hc
  intro s c' hs hc'
  split_ifs with hholds
  · refine h c' (fun s' hs' => ?_) hc'
    rw [holdsBoardSeat_congr (hs'.trans hs.symm)]
    exact hholds
  · exact safe_fail
  · exact safe_fail

theorem safe_recordSeat (hc : Under now terms own c) {seat : Seat}
    (hstated : ∃ text day, parseLocalDay text = some day ∧ day.number = seat.electedOn)
    (hhorizon : seat.electedOn ≤ latestElection now)
    {Q : BoardPosition → Ctx BoardStore BoardLock → Prop}
    (h : ∀ created c', Recordable zone now own created → Under now terms (created :: own) c' →
      Q created c') :
    Safe (boardDiscipline zone) prompt (recordSeat zone seat now) Q c := by
  unfold recordSeat
  rw [safe_bind]
  apply safe_snapshot_under hc
  intro s₁ c₁ _ hc₁
  rw [safe_bind, safe_refuseIf]
  intro _
  rw [safe_bind]
  apply safe_snapshot_under hc₁
  intro s₂ c₂ hs₂ hc₂
  rw [safe_bind, safe_refuseIf]
  intro hover
  rw [safe_bind, safe_refuseIf]
  intro hoverlaps
  rw [safe_bind, safe_fresh]
  intro id
  rw [safe_bind]
  apply safe_snapshot_under hc₂
  intro s₃ c₃ hs₃ hc₃
  rw [safe_bind, safe_refuseIf]
  intro hid
  rw [safe_bind, safe_update, safe_pure]
  have hterms : ∀ row ∈ own, SameOffice row ⟨id, seat.personId, seat.position, seat.electedOn, none⟩ →
      row ∈ termsOf s₂ seat.personId seat.position := by
    intro row hrow hsame
    rw [← hs₂] at hrow
    exact List.mem_filter.mpr ⟨hrow, decide_eq_true hsame⟩
  have hrecordable : Recordable zone now own
      ⟨id, seat.personId, seat.position, seat.electedOn, none⟩ := by
    refine ⟨?_, rfl, ?_, ?_, hstated, hhorizon⟩
    · intro row hrow heq
      rw [← hs₃] at hrow
      exact hid ⟨row, hrow, heq⟩
    · intro row hrow hsame
      rw [← over_iff]
      by_contra hnot
      refine hover (List.any_eq_true.mpr ⟨row, hterms row hrow hsame, ?_⟩)
      simpa using hnot
    · intro row hrow hsame ended hended
      by_contra hnot
      push Not at hnot
      refine hoverlaps (List.any_eq_true.mpr ⟨row, hterms row hrow hsame, ?_⟩)
      rw [Option.mem_def] at hended
      rw [hended]
      simpa using hnot
  refine h _ _ hrecordable ⟨hc₃.held, hc₃.since, hc₃.same, fun s hs => ?_, hc₃.log⟩
  show _ :: (c₃.pending s).positions = _
  rw [hc₃.own s hs]

theorem safe_recordSeats :
    ∀ {seats : List Seat} {own : List BoardPosition} {c : Ctx BoardStore BoardLock}
      {Q : List BoardPosition → Ctx BoardStore BoardLock → Prop}, Under now terms own c →
      (∀ seat ∈ seats, (∃ text day, parseLocalDay text = some day ∧ day.number = seat.electedOn) ∧
        seat.electedOn ≤ latestElection now) →
      (∀ created own' c', Records zone now own created own' → Under now terms own' c' →
        Q created c') →
      Safe (boardDiscipline zone) prompt (recordSeats zone now seats) Q c
  | [], own, c, Q, hc, _, h => h [] own c (.none own) hc
  | seat :: rest, own, c, Q, hc, hseats, h => by
    unfold recordSeats
    rw [safe_bind]
    obtain ⟨hstated, hhorizon⟩ := hseats seat List.mem_cons_self
    apply safe_recordSeat hc hstated hhorizon
    intro created c₁ hcreated hc₁
    rw [safe_bind]
    apply safe_recordSeats hc₁ fun other hother => hseats other (List.mem_cons_of_mem _ hother)
    intro others own' c₂ hothers hc₂
    rw [safe_pure]
    exact h _ own' c₂ (.one hcreated hothers) hc₂

/-- What is committed of an act once its entry is written. -/
theorem commits_recorded (hc : Under now terms own c) {entry : BoardEntry}
    (hact : ∀ s s' : BoardStore, s.positions = terms → s'.positions = own →
      s'.log = entry :: s.log → Act zone now s s') {t : Int} {s : BoardStore}
    (hinv : Registered t s.positions) (hk : c.knows t s) :
    (boardDiscipline zone).Commits (c.write (·.record entry)).held (c.write (·.record entry)).reads
      t s ((c.write (·.record entry)).pending s) := by
  refine commits_of_acted hc.held hinv (.inr ⟨now, hc.since t s hk, ?_⟩)
  refine hact s _ (hc.same t s hk) (hc.own s (hc.same t s hk)) ?_
  show entry :: (c.pending s).log = entry :: s.log
  rw [hc.log]

/-! ### The calls -/

theorem safe_parseElectionDate {value : String} {Q : Int → Ctx BoardStore BoardLock → Prop}
    (h : ∀ electedOn, (∃ text day, parseLocalDay text = some day ∧ day.number = electedOn) →
      electedOn ≤ latestElection now → Q electedOn c) :
    Safe (boardDiscipline zone) prompt (parseElectionDate value now) Q c := by
  unfold parseElectionDate parseCalendarDate
  rw [safe_bind]
  match hparse : parseLocalDay value with
  | none => exact safe_fail
  | some day =>
    rw [safe_pure, safe_bind, safe_refuseIf]
    intro hahead
    rw [safe_bind, safe_refuseIf]
    intro _
    rw [safe_pure]
    exact h _ ⟨value, day, hparse, rfl⟩ (not_lt.mp hahead)

/-- The seats as they were stated: days of the calendar, none beyond the horizon. -/
def Stated (now : Int) (seats : List Seat) : Prop :=
  ∀ seat ∈ seats, (∃ text day, parseLocalDay text = some day ∧ day.number = seat.electedOn) ∧
    seat.electedOn ≤ latestElection now

theorem safe_parseSeats :
    ∀ {stated : List StatedSeat} {Q : List Seat → Ctx BoardStore BoardLock → Prop},
      (∀ seats, Stated now seats → Q seats c) →
      Safe (boardDiscipline zone) prompt (parseSeats zone now stated) Q c
  | [], Q, h => h [] fun _ hseat => by cases hseat
  | seat :: rest, Q, h => by
    unfold parseSeats parseRecoveredElectionDate
    rw [safe_bind, safe_bind]
    apply safe_parseElectionDate
    intro electedOn hstated hhorizon
    rw [safe_bind, safe_refuseIf]
    intro _
    rw [safe_pure, safe_bind]
    apply safe_parseSeats
    intro others hothers
    rw [safe_pure]
    refine h _ fun other hother => ?_
    rcases List.mem_cons.mp hother with rfl | hother
    · exact ⟨hstated, hhorizon⟩
    · exact hothers other hother

theorem safe_elect (input : ElectInput) :
    SafeCall (boardDiscipline zone) prompt (do let _ ← elect zone input) := by
  unfold SafeCall elect
  rw [safe_bind, safe_bind, safe_readClock]
  intro now s₀ _ _
  rw [safe_bind]
  apply safe_parseElectionDate
  intro electedOn hstated hhorizon
  rw [safe_transaction]
  unfold electTx
  rw [safe_bind]
  apply safe_lockBoardRegister now rfl
  · intro t s hk
    exact hk.2.1
  intro t₁ s₁ c₁ _ _ hc₁
  rw [safe_bind]
  apply safe_lockBoardPositions hc₁
  intro c₂ hc₂
  rw [safe_bind]
  apply safe_refuseUnseatedActor hc₂
  intro c₃ hholds hc₃
  rw [safe_bind]
  apply safe_recordSeat hc₃ hstated hhorizon
  intro created c₄ hcreated hc₄
  rw [safe_bind, safe_update, safe_pure]
  refine ⟨fun t s hinv hk => commits_recorded hc₄ (fun s s' hs hs' hlog => ?_) hinv hk, trivial⟩
  refine .elected (hholds s hs) ?_ ?_ hlog
  · rwa [hs]
  · rw [hs', hs]

theorem safe_recoverBoard (input : RecoverBoardInput) :
    SafeCall (boardDiscipline zone) prompt (do let _ ← recoverBoard zone input) := by
  unfold SafeCall recoverBoard
  rw [safe_bind, safe_bind, safe_readClock]
  intro now s₀ _ _
  rw [safe_bind, safe_refuseIf]
  intro _
  rw [safe_bind, safe_refuseIf]
  intro _
  rw [safe_bind]
  apply safe_parseSeats
  intro seats hseats
  rw [safe_transaction]
  unfold recoverTx
  rw [safe_bind]
  apply safe_lockBoardRegister now rfl
  · intro t s hk
    exact hk.2.1
  intro t₁ s₁ c₁ _ _ hc₁
  rw [safe_bind]
  refine (safe_forM (Q := Under now s₁.positions s₁.positions) hc₁ fun personId _ c hc =>
    safe_lockBoardPositions hc fun c' hc' => hc').mono ?_
  intro _ c₂ hc₂
  rw [safe_bind]
  apply safe_snapshot_under hc₂
  intro s₃ c₃ hs₃ hc₃
  rw [safe_bind, safe_refuseIf]
  intro hvacant
  rw [safe_bind]
  apply safe_recordSeats hc₃ hseats
  intro created own c₄ hrecords hc₄
  rw [safe_bind, safe_update, safe_pure]
  refine ⟨fun t s hinv hk => commits_recorded hc₄ (fun s s' hs hs' hlog => ?_) hinv hk, trivial⟩
  refine .recovered ?_ ?_ hlog
  · rw [isRegisterVacant_congr (hs.trans hs₃.symm)]
    simpa using hvacant
  · rwa [hs, hs']

theorem safe_persons (f : List String → List String) :
    SafeCall (boardDiscipline zone) prompt
      (transaction (update fun s => { s with personIds := f s.personIds }) : RoleTx Unit) := by
  unfold SafeCall
  rw [safe_transaction, safe_update]
  refine ⟨fun t s hinv _ => ⟨hinv, .inl ⟨rfl, rfl⟩, fun k _ => ?_⟩, trivial⟩
  cases k with
  | register => rfl
  | rows => exact keepsSeats_of_subset (List.Subset.refl _)

/-- A row that still carries the end date that was read is the seat as it was read. -/
theorem mem_of_matched {t : Int} {s : BoardStore} {existing : BoardPosition}
    (hregistered : Registered t s.positions) (hrow : ∃ row ∈ s.positions, SameSeat existing row)
    (hmatched : (s.positions.any fun row => decide (row.id = existing.id) &&
      decide (row.endedOn = existing.endedOn)) = true) : existing ∈ s.positions := by
  obtain ⟨row, hrow, hsame⟩ := hrow
  obtain ⟨row', hrow', hboth⟩ := List.any_eq_true.mp hmatched
  rw [Bool.and_eq_true, decide_eq_true_eq, decide_eq_true_eq] at hboth
  obtain rfl := hregistered.eq_of_id hrow' hrow (hboth.1.trans hsame.id.symm)
  have heq : row' = existing := by
    cases row'
    cases existing
    obtain ⟨rfl, rfl, rfl, rfl⟩ := hsame
    obtain ⟨-, rfl⟩ := hboth
    rfl
  rwa [heq] at hrow'

theorem safe_writeTermEnd (hc : Under now terms terms c) {existing : BoardPosition}
    {endedOn : Int} (hrow : ∃ row ∈ terms, SameSeat existing row)
    {Q : Unit → Ctx BoardStore BoardLock → Prop}
    (h : ∀ c', Under now terms (withTermEnd terms existing.id endedOn) c' →
      (∀ t s, c'.knows t s → existing ∈ terms) → Q () c') :
    Safe (boardDiscipline zone) prompt (writeTermEnd existing endedOn) Q c := by
  unfold writeTermEnd
  rw [safe_bind]
  refine safe_updateRow ?_ ?_
  · intro c' _
    rw [safe_refuseIf]
    exact fun hmissed => absurd rfl hmissed
  · intro c' t s hlater _ hinv hmatched hrely
    rw [safe_refuseIf]
    intro _
    have hc' := hc.later hlater
    refine h _ ⟨hc'.held, hc'.since, hc'.same, ?_, hc'.log⟩ ?_
    · intro s' hs'
      show (c'.pending s').positions.map _ = _
      rw [hc'.own s' hs']
      rfl
    · intro t' s' hk
      have hs : s.positions = terms :=
        (same_of_rely (List.mem_cons_of_mem _ hc.held) (hrely t' s' hk)).symm.trans
          (hc'.same t' s' hk)
      have hread : (c.pending s).positions = s.positions := (hc.own s hs).trans hs.symm
      rw [hread] at hmatched
      rw [← hs] at hrow ⊢
      exact mem_of_matched hinv hrow hmatched

theorem safe_endTerm (input : EndTermInput) :
    SafeCall (boardDiscipline zone) prompt (do let _ ← endTerm zone input) := by
  unfold SafeCall endTerm
  rw [safe_bind, safe_bind, safe_readClock]
  intro now s₀ _ _
  rw [safe_bind]
  unfold parseCalendarDate
  match parseLocalDay input.endedOn with
  | none => exact safe_fail
  | some day =>
    rw [safe_pure, safe_transaction]
    unfold endTermTx
    rw [safe_bind, safe_snapshot]
    intro t₁ s₁ _ _
    match hfind : s₁.positions.find? (·.id = input.boardPositionId) with
    | none =>
      simp only [Ctx.observe, Ctx.readAt, Ctx.start, id, hfind]
      exact safe_fail
    | some existing =>
      simp only [Ctx.observe, Ctx.readAt, Ctx.start, id, hfind]
      rw [safe_bind]
      apply safe_lockBoardRegister now rfl
      · intro t s hk
        exact hk.1.2.1
      intro t₂ s₂ c₂ _ hk₂ hc₂
      have hrow := keepsSeats_of_rely hk₂.2.2 existing (List.mem_of_find?_eq_some hfind)
      rw [safe_bind]
      apply safe_lockBoardPositions hc₂
      intro c₃ hc₃
      rw [safe_bind]
      apply safe_refuseUnseatedActor hc₃
      intro c₄ hholds hc₄
      match hrefuse : refuseTermEnd zone existing.electedOn existing.endedOn day.number now with
      | some refusal => exact safe_fail
      | none =>
        simp only
        rw [safe_bind]
        apply safe_writeTermEnd hc₄ hrow
        intro c₅ hc₅ hmem
        rw [safe_bind, safe_update, safe_pure]
        refine ⟨fun t s hinv hk => commits_recorded hc₅ (fun s' s'' hs' hs'' hlog => ?_) hinv hk,
          trivial⟩
        refine .ended (hholds s' hs') ?_ hrefuse ?_ hlog
        · rw [hs']
          exact hmem t s hk
        · rw [hs'', hs']

/-- **Every call** keeps to the register. -/
theorem safe_boardCall {p : RoleTx Unit} (h : BoardCall zone p) :
    SafeCall (boardDiscipline zone) prompt p := by
  cases h with
  | elect input => exact safe_elect input
  | recoverBoard input => exact @safe_recoverBoard zone prompt input
  | endTerm input => exact safe_endTerm input
  | persons f => exact safe_persons f

end Calls

end OpenBrf.Roles
