import OpenBrf.Roles.BoardInterleaving

/-!
# Roles.BoardRuns — what every history of the register keeps

As long as no request moves an end date that came while it waited for the register, no two terms of
one position cover a day, a term that is over stands, and one that is not can be given an end date.
A request that does leaves two terms that overlap.
-/

namespace OpenBrf.Roles

open Txn Shared

variable {zone : Zone}

/-- Two terms of one person in one position cover no day both. -/
def Apart (terms : List BoardPosition) : Prop :=
  terms.Pairwise fun a b => SameOffice a b → ∀ day, ¬ (a.Covers day ∧ b.Covers day)

/-- A seat that is new was recorded by somebody who held one on the day of the request, or by a
recovery of a register with none held and none to come. -/
def Recorded (zone : Zone) (t : Int) (s s' : BoardStore) : Prop :=
  ∀ seat ∈ s'.positions, (∀ row ∈ s.positions, row.id ≠ seat.id) → ∃ now ≤ t,
    (∃ actorPersonId, s'.log = .elected now actorPersonId seat :: s.log ∧
      ∃ row ∈ s.positions, row.personId = actorPersonId ∧ row.Covers (localDayOf zone now)) ∨
    ∃ actorPersonId seats reason, s'.log = .recovered now actorPersonId seats reason :: s.log ∧
      seat ∈ seats ∧ ∀ row ∈ s.positions, Over zone now row

/-- Somebody holds a seat on the day. -/
def Seated (zone : Zone) (t : Int) (s : BoardStore) : Prop :=
  ∃ personId, holdsBoardSeat zone s personId t = true

/-- Every term that is not over can be given an end date: a request of somebody's writes one. -/
def Amendable (zone : Zone) (t : Int) (s : BoardStore) : Prop :=
  ∀ row ∈ s.positions, ¬ Over zone t row → ∃ actorPersonId text day,
    parseLocalDay text = some day ∧ ∀ draws,
      (call (endTerm zone ⟨row.id, text, actorPersonId⟩) t draws s).1 =
        .ok { row with endedOn := some day.number }

/-- A term that is not over can be ended on any day there may be, by anybody on the board, and one that
has begun has its holder there. -/
def EndedByBoard (zone : Zone) (t : Int) (s : BoardStore) : Prop :=
  ∀ row ∈ s.positions, ¬ Over zone t row →
    (row.electedOn ≤ localDayOf zone t → holdsBoardSeat zone s row.personId t = true) ∧
    (∃ text day, parseLocalDay text = some day ∧ row.electedOn ≤ day.number ∧
      day.number ≤ latestTermEnd t) ∧
    ∀ text day actorPersonId draws, parseLocalDay text = some day → row.electedOn ≤ day.number →
      day.number ≤ latestTermEnd t → holdsBoardSeat zone s actorPersonId t = true →
      (call (endTerm zone ⟨row.id, text, actorPersonId⟩) t draws s).1 =
        .ok { row with endedOn := some day.number }

/-- No end date is moved that came while the request that moves it waited. -/
def Timely (zone : Zone) (c c' : Config BoardStore BoardLock String RoleFailure) : Prop :=
  ∀ entry, c'.store.log = entry :: c.store.log → InTime zone c.clock entry

/-! ### One state, one step -/

theorem find_of_mem {t : Int} {terms : List BoardPosition} (h : Registered t terms)
    {row : BoardPosition} (hrow : row ∈ terms) :
    terms.find? (fun other => decide (other.id = row.id)) = some row := by
  match hfind : terms.find? fun other => decide (other.id = row.id) with
  | none =>
    have hnone := List.find?_eq_none.mp hfind row hrow
    simp at hnone
  | some other =>
    have hid := List.find?_some hfind
    rw [← h.eq_of_id (List.mem_of_find?_eq_some hfind) hrow (of_decide_eq_true hid)] at hfind ⊢
    exact hfind

theorem refuseTermEnd_none {t : Int} {row : BoardPosition} (hrunning : ¬ Over zone t row)
    {endedOn : Int} (hfrom : row.electedOn ≤ endedOn) (hhorizon : endedOn ≤ latestTermEnd t) :
    refuseTermEnd zone row.electedOn row.endedOn endedOn t = none := by
  unfold refuseTermEnd
  rw [if_neg (over_iff.not.mpr hrunning), if_neg, if_neg]
  · exact not_lt.mpr hhorizon
  · exact fun h => absurd h.2 (not_lt.mpr hfrom)

/-- **Every term that is not over** can be given an end date by the board. -/
theorem Registered.endedByBoard {t : Int} {s : BoardStore} (h : Registered t s.positions) :
    EndedByBoard zone t s := by
  intro row hrow hrunning
  refine ⟨fun hbegun => ?_, ?_, ?_⟩
  · refine holdsBoardSeat_iff.mpr ⟨row, hrow, rfl, hbegun, fun ended hended => ?_⟩
    by_contra hpast
    exact hrunning ⟨ended, hended, .inr (not_lt.mp hpast)⟩
  · obtain ⟨text, day, hparse, hday⟩ := h.stated row hrow
    obtain ⟨now, hnow, hhorizon⟩ := h.horizon row hrow
    refine ⟨text, day, hparse, hday.ge, ?_⟩
    rw [hday]
    exact hhorizon.trans (latestElection_le hnow)
  · intro text day actorPersonId draws hparse hfrom hhorizon hholds
    have hfind := find_of_mem h hrow
    have hrefuse := refuseTermEnd_none hrunning hfrom hhorizon
    have hmatched : (s.positions.any fun other => decide (other.id = row.id) &&
        decide (other.endedOn = row.endedOn)) = true :=
      List.any_eq_true.mpr ⟨row, hrow, by simp⟩
    unfold call endTerm parseCalendarDate
    simp only [exec_bind, exec_readClock, hparse, exec_pure]
    unfold transaction endTermTx
    simp only [exec_bind, exec_snapshot, hfind, lockBoardRegister, lockBoardPositions,
      exec_acquire, refuseUnseatedActor, hholds, if_true, exec_pure, hrefuse, writeTermEnd,
      exec_updateRow, hmatched]
    rfl

/-- Nobody without a seat ends a term. -/
theorem holdsBoardSeat_of_endTerm {t : Int} {s : BoardStore} {row : BoardPosition}
    (hfind : s.positions.find? (fun other => decide (other.id = row.id)) = some row)
    {text actorPersonId : String} {draws : ℕ → String} {ended : BoardPosition}
    (h : (call (endTerm zone ⟨row.id, text, actorPersonId⟩) t draws s).1 = .ok ended) :
    holdsBoardSeat zone s actorPersonId t = true := by
  by_contra hunseated
  unfold call endTerm parseCalendarDate at h
  cases hparse : parseLocalDay text with
  | none =>
    simp only [exec_bind, exec_readClock, hparse] at h
    cases h
  | some day =>
    simp only [exec_bind, exec_readClock, hparse, exec_pure] at h
    unfold transaction endTermTx at h
    simp only [exec_bind, exec_snapshot, hfind, lockBoardRegister, lockBoardPositions, exec_acquire,
      refuseUnseatedActor, if_neg hunseated] at h
    split_ifs at h <;> cases h

/-- **Every term that is not over** can still be given an end date exactly when somebody is on the
board, or none is left. -/
theorem Registered.amendable_iff {t : Int} {s : BoardStore} (h : Registered t s.positions) :
    Amendable zone t s ↔ Seated zone t s ∨ ∀ row ∈ s.positions, Over zone t row := by
  constructor
  · intro hamendable
    by_cases hover : ∀ row ∈ s.positions, Over zone t row
    · exact .inr hover
    · push Not at hover
      obtain ⟨row, hrow, hrunning⟩ := hover
      obtain ⟨actorPersonId, text, day, -, hended⟩ := hamendable row hrow hrunning
      exact .inl ⟨actorPersonId, holdsBoardSeat_of_endTerm (find_of_mem h hrow)
        (hended fun _ => row.id)⟩
  · rintro (⟨actorPersonId, hholds⟩ | hover) row hrow hrunning
    · obtain ⟨-, ⟨text, day, hparse, hfrom, hhorizon⟩, hended⟩ := h.endedByBoard row hrow hrunning
      exact ⟨actorPersonId, text, day, hparse, fun draws =>
        hended text day actorPersonId draws hparse hfrom hhorizon hholds⟩
    · exact absurd (hover row hrow) hrunning

/-- **Every act** records seats as the register has it. -/
theorem Acted.recorded {t : Int} {s s' : BoardStore} (h : Acted zone t s s') :
    Recorded zone t s s' := by
  intro seat hseat hnew
  rcases h with ⟨hsame, -⟩ | ⟨now, hnow, hact⟩
  · rw [hsame] at hseat
    exact absurd rfl (hnew seat hseat)
  · refine ⟨now, hnow, ?_⟩
    cases hact with
    | elected hholds _ hpositions hlog =>
      rw [hpositions] at hseat
      rcases List.mem_cons.mp hseat with rfl | hseat
      · exact .inl ⟨_, hlog, holdsBoardSeat_iff.mp hholds⟩
      · exact absurd rfl (hnew seat hseat)
    | recovered hvacant hrecords hlog =>
      rcases hrecords.mem hseat with hseat | hseat
      · exact absurd rfl (hnew seat hseat)
      · exact .inr ⟨_, _, _, hlog, hseat, isRegisterVacant_iff.mp hvacant⟩
    | ended _ _ _ hpositions _ =>
      rw [hpositions] at hseat
      obtain ⟨old, hold, -, hid, -⟩ := mem_withTermEnd hseat
      exact absurd hid.symm (hnew old hold)

/-! ### Runs -/

theorem registered_nil (t : Int) : Registered t [] := by
  refine ⟨.nil, ?_, ?_⟩
  · intro row hrow
    cases hrow
  · intro row hrow
    cases hrow

theorem registered_of_reaches {s : BoardStore} {t : Int} (hempty : s.positions = [])
    {c : Config BoardStore BoardLock String RoleFailure}
    (hrun : Reaches (boardSystem zone) (.quiet s t) c) :
    Registered c.clock c.store.positions := by
  refine inv_of_reaches (D := boardDiscipline zone) (fun p hp => safe_boardCall hp) ?_ hrun
  show Registered t s.positions
  rw [hempty]
  exact registered_nil t

theorem acted_of_reaches {s : BoardStore} {t : Int} (hempty : s.positions = [])
    {c c' : Config BoardStore BoardLock String RoleFailure}
    (hrun : Reaches (boardSystem zone) (.quiet s t) c) (hstep : Step (boardSystem zone) c c') :
    Acted zone c.clock c.store c'.store := by
  have hinv : Registered t s.positions := by
    rw [hempty]
    exact registered_nil t
  rcases allowed_of_reaches (D := boardDiscipline zone) (fun p hp => safe_boardCall hp) hinv hrun
    hstep with hsame | ⟨i, q, -, hacted⟩
  · exact .inl ⟨by rw [hsame], by rw [hsame]⟩
  · exact hacted

theorem clock_le_of_step {sys : System BoardStore BoardLock String RoleFailure}
    {c c' : Config BoardStore BoardLock String RoleFailure} (h : Step sys c c') :
    c.clock ≤ c'.clock := by
  cases h with
  | tick ht => exact ht
  | _ => exact le_rfl

/-- A run in which every end date is moved in time. -/
def TimelyRun (zone : Zone) (c c' : Config BoardStore BoardLock String RoleFailure) : Prop :=
  Relation.ReflTransGen (fun c c' => Step (boardSystem zone) c c' ∧ Timely zone c c') c c'

theorem TimelyRun.reaches {c c' : Config BoardStore BoardLock String RoleFailure}
    (h : TimelyRun zone c c') : Reaches (boardSystem zone) c c' :=
  Relation.ReflTransGen.mono (fun _ _ hstep => hstep.1) _ _ h

theorem inOrder_of_timelyRun (hforward : Forward zone) {s : BoardStore} {t : Int}
    (hempty : s.positions = []) {c : Config BoardStore BoardLock String RoleFailure}
    (hrun : TimelyRun zone (.quiet s t) c) : InOrder zone c.clock c.store.positions := by
  induction hrun with
  | refl =>
    show InOrder zone t s.positions
    rw [hempty]
    exact .nil
  | tail hrun hstep ih =>
    have hreaches := TimelyRun.reaches hrun
    have hacted := acted_of_reaches hempty hreaches hstep.1
    have hnext := ih.acted hforward (registered_of_reaches hempty hreaches) hacted hstep.2
    exact hnext.later hforward (clock_le_of_step hstep.1)

/-- **The terms of a position** stay apart, stand once they are over and can be ended until then as
long as somebody is on the board, in every history in which no end date is moved that came while the
request waited. -/
theorem terms_of_timelyRun (hforward : Forward zone) {s : BoardStore} {t : Int}
    (hempty : s.positions = []) {c : Config BoardStore BoardLock String RoleFailure}
    (hrun : TimelyRun zone (.quiet s t) c) :
    Apart c.store.positions ∧
      (Amendable zone c.clock c.store ↔
        Seated zone c.clock c.store ∨ ∀ row ∈ c.store.positions, Over zone c.clock row) ∧
      EndedByBoard zone c.clock c.store ∧
      ∀ c', Step (boardSystem zone) c c' → Recorded zone c.clock c.store c'.store ∧
        (Timely zone c c' → ∀ row ∈ c.store.positions, Over zone c.clock row →
          row ∈ c'.store.positions) := by
  have hreaches := TimelyRun.reaches hrun
  have hregistered := registered_of_reaches hempty hreaches
  refine ⟨(inOrder_of_timelyRun hforward hempty hrun).disjoint, hregistered.amendable_iff,
    hregistered.endedByBoard, ?_⟩
  intro c' hstep
  have hacted := acted_of_reaches hempty hreaches hstep
  exact ⟨hacted.recorded, fun htimely row hrow hover =>
    kept_of_over hregistered hacted htimely hrow hover⟩

/-- A run that commits nothing moves no end date. -/
theorem timelyRun_of_waits {c c' : Config BoardStore BoardLock String RoleFailure}
    (h : Waits (boardSystem zone) c c') : TimelyRun zone c c' := by
  refine Relation.ReflTransGen.mono (fun c₁ c₂ hstep => ⟨hstep.1, fun entry hlog => ?_⟩) _ _ h
  rw [hstep.2] at hlog
  exact absurd hlog.symm (List.cons_ne_self _ _)

/-- A call made alone, of an act that moves no end date late. -/
theorem timelyRun_of_call {p : RoleTx Unit} (hp : (boardSystem zone).calls p) {s s' : BoardStore}
    {t : Int} (draws : ℕ → String) (h : firstCommit p ⟨t, draws, s, s⟩ = some s')
    {entry : BoardEntry} (hlog : s'.log = entry :: s.log) (hentry : InTime zone t entry) :
    TimelyRun zone (.quiet s t) (.quiet s' t) := by
  obtain ⟨c, c', hrun, hstep, hclock, hstore, hstore', hquiet⟩ :=
    reaches_beside (i := 0) hp (c := .quiet s t) rfl (fun j _ r hr => by cases hr) draws h
  have htimely : Timely zone c c' := by
    intro other hother
    rw [hstore', hstore, hlog] at hother
    obtain ⟨rfl, -⟩ := List.cons.inj hother
    rw [hclock]
    exact hentry
  exact ((timelyRun_of_waits hrun).tail ⟨hstep, htimely⟩).trans (timelyRun_of_waits hquiet)

theorem timelyRun_of_tick {s : BoardStore} {t t' : Int} (h : t ≤ t') :
    TimelyRun zone (.quiet s t) (.quiet s t') :=
  .single ⟨.tick h, fun _ hlog => absurd hlog.symm (List.cons_ne_self _ _)⟩

/-! ### A request that waits past midnight -/

section PastMidnight

/-- The first of April 2026. -/
def firstOfApril : Int := 20544 * MILLISECONDS_PER_DAY

/-- A minute before the first of May, and a minute past its midnight. -/
def lateInApril : Int := 20574 * MILLISECONDS_PER_DAY - 60000

def firstOfMay : Int := 20574 * MILLISECONDS_PER_DAY + 60000

def chair : BoardPosition := ⟨"chair", "eva", .CHAIR, 20544, none⟩

def member : BoardPosition := ⟨"member", "eva", .BOARD_MEMBER, 20544, none⟩

def again : BoardPosition := ⟨"again", "eva", .CHAIR, 20574, none⟩

def recovery : RecoverBoardInput :=
  ⟨[⟨"eva", .CHAIR, "2026-04-01"⟩, ⟨"eva", .BOARD_MEMBER, "2026-04-01"⟩], "New here", "adam"⟩

def association : BoardStore where
  personIds := ["adam", "eva"]

def recovered : BoardStore :=
  { association with
    positions := [member, chair]
    log := [.recovered firstOfApril "adam" [chair, member] "New here"] }

def endingInMay : BoardStore :=
  { recovered with
    positions := [member, { chair with endedOn := some 20574 }]
    log := .ended firstOfApril "eva" chair 20574 :: recovered.log }

def reelected : BoardStore :=
  { endingInMay with
    positions := again :: endingInMay.positions
    log := .elected firstOfMay "eva" again :: endingInMay.log }

def overlapping : BoardStore :=
  { reelected with
    positions := [again, member, { chair with endedOn := some 20605 }]
    log := .ended lateInApril "eva" { chair with endedOn := some 20574 } 20605 :: reelected.log }

theorem firstCommit_ending :
    firstCommit (do let _ ← recoverBoard utc recovery : RoleTx Unit)
      ⟨firstOfApril, fun n => if n = 0 then "chair" else "member", association, association⟩ =
        some recovered ∧
    firstCommit (do let _ ← endTerm utc ⟨"chair", "2026-05-01", "eva"⟩ : RoleTx Unit)
      ⟨firstOfApril, fun _ => "", recovered, recovered⟩ = some endingInMay := by
  decide +kernel

theorem firstCommit_reelection :
    firstCommit (do let _ ← elect utc ⟨"eva", .CHAIR, "2026-05-01", "eva"⟩ : RoleTx Unit)
      ⟨firstOfMay, fun _ => "again", endingInMay, endingInMay⟩ = some reelected := by
  decide +kernel

/-- What is left of a request once it has read the clock. -/
def endTermFrom (input : EndTermInput) (now : Int) : RoleTx Unit := do
  let endedOn ← parseCalendarDate input.endedOn
  let _ ← transaction (endTermTx utc input endedOn now)

theorem firstCommit_late :
    firstCommit (endTermFrom ⟨"chair", "2026-06-01", "eva"⟩ lateInApril)
      ⟨firstOfMay, fun _ => "", reelected, reelected⟩ = some overlapping := by
  decide +kernel

/-- The request once it has read the clock, before it waits for anything. -/
def waiting : Process BoardStore BoardLock String RoleFailure where
  prog := endTermFrom ⟨"chair", "2026-06-01", "eva"⟩ lateInApril
  pending := id
  held := []
  lastNow := some lateInApril
  reads := []

theorem reaches_overlapping :
    Reaches (boardSystem utc) (.quiet endingInMay lateInApril) (.quiet overlapping firstOfMay) := by
  have helect : (boardSystem utc).calls
      (do let _ ← elect utc ⟨"eva", .CHAIR, "2026-05-01", "eva"⟩) := .elect _
  have hspawn : Step (boardSystem utc) (.quiet endingInMay lateInApril)
      ((Config.quiet endingInMay lateInApril).set 0
        (some (.start (do let _ ← endTerm utc ⟨"chair", "2026-06-01", "eva"⟩)))) :=
    .spawn rfl (.endTerm _)
  have hnow : Step (boardSystem utc) ((Config.quiet endingInMay lateInApril).set 0
        (some (.start (do let _ ← endTerm utc ⟨"chair", "2026-06-01", "eva"⟩))))
      (((Config.quiet endingInMay lateInApril).set 0
        (some (.start (do let _ ← endTerm utc ⟨"chair", "2026-06-01", "eva"⟩)))).set 0
          (some waiting)) :=
    .now (k := endTermFrom ⟨"chair", "2026-06-01", "eva"⟩) (Config.set_self _ _ _) rfl
  rw [Config.set_set] at hnow
  have htick : Step (boardSystem utc) ((Config.quiet endingInMay lateInApril).set 0 (some waiting))
      ((Config.quiet endingInMay firstOfMay).set 0 (some waiting)) := .tick (by decide)
  -- the election runs whole beside the request that waits
  obtain ⟨_, _, hrun, hstep, -, -, -, hend⟩ :=
    reaches_beside (i := 1) helect
      (c := (Config.quiet endingInMay firstOfMay).set 0 (some waiting))
      (Config.set_of_ne _ (by decide) _) (fun j _ r hr => by
        by_cases hj : j = 0
        · subst hj
          rw [Config.set_self] at hr
          obtain rfl := Option.some.inj hr
          rfl
        · rw [Config.set_of_ne _ hj] at hr
          cases hr) _ firstCommit_reelection
  have hprompt : ∀ l, (boardSystem utc).prompt l → ∀ u ∈ waiting.lastNow, u = firstOfMay :=
    fun l hl => hl.elim
  obtain ⟨_, _, hrun', hstep', -, -, -, hend'⟩ :=
    reaches_commit (i := 0) (c := .quiet reelected firstOfMay) (q := waiting)
      (fun j _ r hr => by cases hr) _ hprompt firstCommit_late
  have hquiet : ({ Config.quiet reelected firstOfMay with store := overlapping } :
      Config BoardStore BoardLock String RoleFailure).set 0 none =
        .quiet overlapping firstOfMay := by
    simp [Config.set, Config.quiet]
  rw [hquiet] at hend'
  have helection := (hrun.reaches.tail hstep).trans hend.reaches
  have hlate := (hrun'.reaches.tail hstep').trans hend'.reaches
  exact (((Relation.ReflTransGen.single hspawn).tail hnow).tail htick).trans
    (helection.trans hlate)

/-- A request to move an end date is judged by its clock, waits past midnight, and is committed
after the position was filled again. -/
theorem exists_overlap : ∃ c, Reaches (boardSystem utc) (.quiet association firstOfApril) c ∧
    ¬ Apart c.store.positions := by
  obtain ⟨hrecovery, hend⟩ := firstCommit_ending
  have hrecovered : TimelyRun utc (.quiet association firstOfApril) (.quiet recovered firstOfApril) :=
    timelyRun_of_call (.recoverBoard _) _ hrecovery rfl trivial
  have hending : TimelyRun utc (.quiet recovered firstOfApril) (.quiet endingInMay firstOfApril) :=
    timelyRun_of_call (.endTerm _) _ hend rfl fun ended hended => by cases hended
  have hlate : TimelyRun utc (.quiet endingInMay firstOfApril) (.quiet endingInMay lateInApril) :=
    timelyRun_of_tick (by decide)
  have hrun : TimelyRun utc (.quiet association firstOfApril) (.quiet endingInMay lateInApril) :=
    (hrecovered.trans hending).trans hlate
  refine ⟨_, hrun.reaches.trans reaches_overlapping, fun hapart => ?_⟩
  obtain ⟨hagain, -⟩ := List.pairwise_cons.mp hapart
  refine hagain { chair with endedOn := some 20605 } (by decide) ⟨rfl, rfl⟩ 20574 ⟨?_, ?_⟩
  · exact ⟨by decide, fun ended hended => by cases hended⟩
  · refine ⟨by decide, fun ended hended => ?_⟩
    obtain rfl := Option.some.inj hended
    decide

theorem forward_utc : Forward utc := by
  intro t t' ht
  have hutc : ∀ u, localDayOf utc u = u / MILLISECONDS_PER_DAY := by
    intro u
    unfold localDayOf Zone.wall utc
    rw [Int.zero_mul, Int.add_zero]
  rw [hutc, hutc]
  exact Int.ediv_le_ediv (by decide) ht

/-! ### A board nobody is on -/

def incoming : BoardPosition := ⟨"incoming", "adam", .CHAIR, 20605, none⟩

def recoveryOfOne : RecoverBoardInput := ⟨[⟨"eva", .CHAIR, "2026-04-01"⟩], "New here", "adam"⟩

def recoveredOne : BoardStore :=
  { association with
    positions := [chair]
    log := [.recovered firstOfApril "adam" [chair] "New here"] }

/-- The one on the board has somebody elected from June on. -/
def handingOver : BoardStore :=
  { recoveredOne with
    positions := [incoming, chair]
    log := .elected firstOfApril "eva" incoming :: recoveredOne.log }

/-- And leaves it at once. -/
def leaving : BoardStore :=
  { handingOver with
    positions := [incoming, { chair with endedOn := some 20550 }]
    log := .ended firstOfApril "eva" chair 20550 :: handingOver.log }

theorem firstCommit_leaving :
    firstCommit (do let _ ← recoverBoard utc recoveryOfOne : RoleTx Unit)
      ⟨firstOfApril, fun _ => "chair", association, association⟩ = some recoveredOne ∧
    firstCommit (do let _ ← elect utc ⟨"adam", .CHAIR, "2026-06-01", "eva"⟩ : RoleTx Unit)
      ⟨firstOfApril, fun _ => "incoming", recoveredOne, recoveredOne⟩ = some handingOver ∧
    firstCommit (do let _ ← endTerm utc ⟨"chair", "2026-04-07", "eva"⟩ : RoleTx Unit)
      ⟨firstOfApril, fun _ => "", handingOver, handingOver⟩ = some leaving := by
  decide +kernel

theorem timelyRun_leaving :
    TimelyRun utc (.quiet association firstOfApril) (.quiet leaving firstOfApril) := by
  obtain ⟨hrecovery, helection, hending⟩ := firstCommit_leaving
  have hrecovered : TimelyRun utc (.quiet association firstOfApril)
      (.quiet recoveredOne firstOfApril) :=
    timelyRun_of_call (.recoverBoard _) _ hrecovery rfl trivial
  have hincoming : TimelyRun utc (.quiet recoveredOne firstOfApril) (.quiet handingOver firstOfApril) :=
    timelyRun_of_call (.elect _) _ helection rfl trivial
  have hleaving : TimelyRun utc (.quiet handingOver firstOfApril) (.quiet leaving firstOfApril) :=
    timelyRun_of_call (.endTerm _) _ hending rfl fun ended hended => by cases hended
  exact (hrecovered.trans hincoming).trans hleaving

/-- In May the term that is to come cannot be given an end date: nobody is there to give it. -/
theorem exists_unamendable : ∃ c, TimelyRun utc (.quiet association firstOfApril) c ∧
    ¬ Amendable utc c.clock c.store := by
  have hrun : TimelyRun utc (.quiet association firstOfApril) (.quiet leaving firstOfMay) :=
    timelyRun_leaving.trans (timelyRun_of_tick (by decide))
  have hempty : association.positions = [] := rfl
  have hregistered : Registered firstOfMay leaving.positions :=
    registered_of_reaches hempty hrun.reaches
  have hnone : ∀ row ∈ leaving.positions, row.heldOn (localDayOf utc firstOfMay) = false := by
    decide
  refine ⟨_, hrun, fun hamendable => ?_⟩
  rcases hregistered.amendable_iff.mp hamendable with ⟨personId, hholds⟩ | hover
  · obtain ⟨row, hrow, -, hcovers⟩ := holdsBoardSeat_iff.mp hholds
    have hheld := heldOn_iff.mpr hcovers
    rw [hnone row hrow] at hheld
    cases hheld
  · obtain ⟨ended, hended, -⟩ := hover incoming List.mem_cons_self
    cases hended

/-- A request to move an end date is judged by its clock, waits past midnight, and is committed
after the position was filled again: two terms of one position cover a day.  And a board that nobody
is on any more leaves a term without an end that is still to come. -/
theorem terms_overlap :
    (∃ c, Reaches (boardSystem utc) (.quiet association firstOfApril) c ∧
      ¬ Apart c.store.positions) ∧
    ∃ c, TimelyRun utc (.quiet association firstOfApril) c ∧ ¬ Amendable utc c.clock c.store :=
  ⟨exists_overlap, exists_unamendable⟩

/-- A board recorded from the start and handed over is apart, and as long as its chair is there the
terms can be ended. -/
theorem terms_of_recovery : Apart leaving.positions ∧ Amendable utc firstOfApril leaving := by
  have hempty : association.positions = [] := rfl
  obtain ⟨hapart, hamendable, -⟩ := terms_of_timelyRun forward_utc hempty timelyRun_leaving
  have hchair : holdsBoardSeat utc leaving "eva" firstOfApril = true := by decide
  exact ⟨hapart, hamendable.mpr (.inl ⟨"eva", hchair⟩)⟩

end PastMidnight

end OpenBrf.Roles
