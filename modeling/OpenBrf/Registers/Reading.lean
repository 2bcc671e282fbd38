import OpenBrf.Timeline.Sweep
import OpenBrf.Registers.MembershipPeriods

/-!
# Registers.Reading — who the register reads as a member on a day

The last event on or before the day decides, in the order of `membershipPeriods`.  Rows appended
under fresh ids leave every other row resolved as it was, so they settle their own days and the
register reads on as before elsewhere.
-/

namespace OpenBrf.Registers

open Timeline RegisterRow

variable {Row : Type} [RegisterRow Row]

def ResolvedRegisterEvent.isEntry (e : ResolvedRegisterEvent Row) : Bool := e.eventType = .ENTRY

/-- One person's events, in the order they are read. -/
def eventsOf (rows : List Row) (personId : String) : List (ResolvedRegisterEvent Row) :=
  (resolveRegisterEvents rows).filter fun e => e.personId = personId

/-- Whether the register reads a person as a member on a day. -/
def readsAsMember (rows : List Row) (personId : String) (day : Int) : Bool :=
  reads ResolvedRegisterEvent.isEntry (eventsOf rows personId) day

/-- What a person's last row on a day says, if there is one. -/
def settledOn (rows : List Row) (personId : String) (day : Int) : Option Bool :=
  settles ResolvedRegisterEvent.isEntry (eventsOf rows personId) day

theorem readsAsMember_reads (rows : List Row) (personId : String) :
    Reads (settledOn rows personId) (readsAsMember rows personId) :=
  reads_settles _ _

/-! ### As `membershipPeriods` reads it -/

/-- A period that covers a day, by the entry that opened it and the exit that closed it. -/
def MembershipPeriod.Covers (period : MembershipPeriod Row) (day : Int) : Prop :=
  (∃ entry ∈ period.entry, entry.eventOn ≤ day) ∧ ∀ exit ∈ period.exit, day < exit.eventOn

omit [RegisterRow Row] in
theorem personId_of_mem_pairEvents {personId : String} {period : MembershipPeriod Row} :
    ∀ {es : List (ResolvedRegisterEvent Row)} {opened : Option (ResolvedRegisterEvent Row)},
      period ∈ pairEvents personId opened es → period.personId = personId
  | [], opened, h => by
    obtain ⟨entry, -, rfl⟩ := List.mem_map.mp h
    rfl
  | e :: es, opened, h => by
    unfold pairEvents at h
    cases htype : e.eventType with
    | ENTRY =>
      rw [htype] at h
      exact personId_of_mem_pairEvents h
    | EXIT =>
      rw [htype] at h
      rcases List.mem_cons.mp h with rfl | h
      · rfl
      · exact personId_of_mem_pairEvents h

/-- What one person's events, with `opened` before them, say of a day. -/
def lastSays (opened : Option (ResolvedRegisterEvent Row)) (es : List (ResolvedRegisterEvent Row))
    (day : Int) : Bool :=
  ((opened.toList ++ es).filter fun e => e.eventOn ≤ day).getLast?.elim false
    ResolvedRegisterEvent.isEntry

theorem lastSays_of_lt {es : List (ResolvedRegisterEvent Row)}
    (opened : Option (ResolvedRegisterEvent Row)) {day : Int} (h : ∀ e ∈ es, day < e.eventOn) :
    lastSays opened es day = opened.any fun o => o.eventOn ≤ day && o.isEntry := by
  have hnil : es.filter (fun e => e.eventOn ≤ day) = [] := by
    rw [List.filter_eq_nil_iff]
    intro e he
    have := h e he
    simp only [decide_eq_true_eq]
    omega
  unfold lastSays
  rw [List.filter_append, hnil, List.append_nil]
  cases opened with
  | none => rfl
  | some o => by_cases ho : o.eventOn ≤ day <;> simp [ho]

/-- The last event after a first one that counts is decided without what came before. -/
theorem lastSays_cons {e : ResolvedRegisterEvent Row} {es : List (ResolvedRegisterEvent Row)}
    (opened : Option (ResolvedRegisterEvent Row)) {day : Int} (he : e.eventOn ≤ day) :
    lastSays opened (e :: es) day = lastSays (some e) es day := by
  unfold lastSays
  rw [List.filter_append, List.filter_cons_of_pos (by simpa using he), List.getLast?_append,
    Option.toList_some, List.singleton_append, List.filter_cons_of_pos (by simpa using he)]
  rw [List.getLast?_cons]
  rfl

theorem lastSays_opened {o e : ResolvedRegisterEvent Row} (ho : o.isEntry = true)
    (he : e.isEntry = true) {es : List (ResolvedRegisterEvent Row)} {day : Int}
    (hoe : o.eventOn ≤ e.eventOn) (hday : e.eventOn ≤ day) :
    lastSays (some e) es day = lastSays (some o) es day := by
  unfold lastSays
  have h1 : e.eventOn ≤ day := hday
  have h2 : o.eventOn ≤ day := hoe.trans hday
  simp only [Option.toList_some, List.singleton_append, List.filter_cons, h1, h2, decide_true,
    if_true, List.getLast?_cons]
  cases (es.filter fun e => e.eventOn ≤ day).getLast? with
  | none => simp [ho, he]
  | some x => rfl

/-- **The pairing covers the days the last event reads as held.** -/
theorem pairEvents_covers_iff (personId : String) (day : Int) :
    ∀ (es : List (ResolvedRegisterEvent Row)) (opened : Option (ResolvedRegisterEvent Row)),
      es.Pairwise Chronological →
      (∀ o ∈ opened, o.isEntry = true ∧ ∀ e ∈ es, o.eventOn ≤ e.eventOn) →
      ((∃ period ∈ pairEvents personId opened es, period.Covers day) ↔
        lastSays opened es day = true)
  | [], none, _, _ => by simp [pairEvents, lastSays]
  | [], some entry, _, hopen => by
    have hentry := (hopen entry rfl).1
    rw [lastSays_of_lt _ (by simp)]
    by_cases h : entry.eventOn ≤ day <;> simp [pairEvents, MembershipPeriod.Covers, h, hentry]
  | e :: es, opened, hsort, hopen => by
    obtain ⟨he, hsort⟩ := List.pairwise_cons.mp hsort
    have hafter : ∀ e' ∈ es, e.eventOn ≤ e'.eventOn := fun e' he' => by
      rcases he e' he' with h | ⟨h, -⟩
      · exact h.le
      · exact h.le
    unfold pairEvents
    cases htype : e.eventType with
    | ENTRY =>
      have hentry : e.isEntry = true := by simp [ResolvedRegisterEvent.isEntry, htype]
      dsimp only
      cases opened with
      | none =>
        rw [Option.none_or, pairEvents_covers_iff personId day es (some e) hsort
          (by rintro o ⟨⟩; exact ⟨hentry, hafter⟩)]
        rfl
      | some o =>
        obtain ⟨ho, hoe⟩ := hopen o rfl
        rw [Option.some_or, pairEvents_covers_iff personId day es (some o) hsort
          (by rintro o' ⟨⟩; exact ⟨ho, fun e' he' => hoe e' (by simp [he'])⟩)]
        -- a second ENTRY while one is open changes nothing
        by_cases hday : e.eventOn ≤ day
        · rw [lastSays_cons _ hday, lastSays_opened ho hentry (hoe e (by simp)) hday]
        · have hes : ∀ e' ∈ es, day < e'.eventOn := fun e' he' => by
            have := hafter e' he'
            omega
          have hees : ∀ e' ∈ e :: es, day < e'.eventOn := fun e' he' => by
            rcases List.mem_cons.mp he' with rfl | he'
            · omega
            · exact hes e' he'
          rw [lastSays_of_lt _ hes, lastSays_of_lt _ hees]
    | EXIT =>
      have hexit : e.isEntry = false := by simp [ResolvedRegisterEvent.isEntry, htype]
      have ih := pairEvents_covers_iff personId day es none hsort (by simp)
      simp only [List.mem_cons, exists_eq_or_imp, ih]
      by_cases hday : e.eventOn ≤ day
      · have hnot : ¬ MembershipPeriod.Covers
            (⟨personId, opened, some e⟩ : MembershipPeriod Row) day := by
          rintro ⟨-, h⟩
          have := h e rfl
          omega
        rw [lastSays_cons _ hday]
        unfold lastSays
        simp only [hnot, false_or, Option.toList_none, List.nil_append, Option.toList_some,
          List.singleton_append, List.filter_cons, hday, decide_true, if_true, List.getLast?_cons]
        cases (es.filter fun e => e.eventOn ≤ day).getLast? with
        | none => simp [hexit]
        | some x => rfl
      · have hes : ∀ e' ∈ es, day < e'.eventOn := fun e' he' => by
          have := hafter e' he'
          omega
        have hees : ∀ e' ∈ e :: es, day < e'.eventOn := fun e' he' => by
          rcases List.mem_cons.mp he' with rfl | he'
          · omega
          · exact hes e' he'
        rw [lastSays_of_lt _ hes, lastSays_of_lt _ hees]
        cases opened with
        | none => simp [MembershipPeriod.Covers]
        | some o =>
          have ho := (hopen o rfl).1
          have hlt : day < e.eventOn := by omega
          by_cases hoday : o.eventOn ≤ day <;>
            simp [MembershipPeriod.Covers, hoday, ho, hlt]

/-! ### Appended rows -/

theorem row_of_resolveRow {rows : List Row} {row : Row} {e : ResolvedRegisterEvent Row}
    (h : resolveRow rows row = some e) : e.row = row := by
  unfold resolveRow at h
  split_ifs at h
  split at h
  · rw [← Option.some.inj h]
  · rw [← Option.some.inj h]
  · obtain ⟨t, -, rfl⟩ := Option.map_eq_some_iff.mp h
    rfl

theorem mem_resolveRegisterEvents {rows : List Row} {e : ResolvedRegisterEvent Row} :
    e ∈ resolveRegisterEvents rows ↔ e.row ∈ rows ∧ resolveRow rows e.row = some e := by
  unfold resolveRegisterEvents
  rw [mem_chronologically, List.mem_filterMap]
  constructor
  · rintro ⟨row, hrow, hresolved⟩
    rw [row_of_resolveRow hresolved]
    exact ⟨hrow, hresolved⟩
  · rintro ⟨hrow, hresolved⟩
    exact ⟨e.row, hrow, hresolved⟩

theorem row_mem_of_mem_eventsOf {rows : List Row} {personId : String}
    {e : ResolvedRegisterEvent Row} (h : e ∈ eventsOf rows personId) :
    e.row ∈ rows ∧ e.personId = personId := by
  obtain ⟨hmem, hpid⟩ := List.mem_filter.mp h
  exact ⟨(mem_resolveRegisterEvents.mp hmem).1, by simpa using hpid⟩

/-- The event of an ENTRY or EXIT row nothing corrects. -/
def plainEvent (row : Row) : ResolvedRegisterEvent Row :=
  ⟨row, if (event row).eventType = .ENTRY then .ENTRY else .EXIT, false⟩

/-- Rows appended under fresh ids: ENTRY or EXIT rows that no row corrects, written later than
every row there is. -/
structure AppendedTo (rows new : List Row) : Prop where
  plain : ∀ n ∈ new, (event n).eventType ≠ .CORRECTION
  correctsNone : ∀ n ∈ new, (event n).correctsEntryId = none
  fresh : ∀ n ∈ new, (event n).id ∉ superseded rows
  later : ∀ r ∈ rows, ∀ n ∈ new, (event r).createdAt < (event n).createdAt

namespace AppendedTo

variable {rows new : List Row} (h : AppendedTo rows new)

include h

theorem superseded_append : superseded (rows ++ new) = superseded rows := by
  have hnew : superseded new = [] := by
    rw [superseded, List.filterMap_eq_nil_iff]
    exact h.correctsNone
  rw [superseded, List.filterMap_append, ← superseded, ← superseded, hnew, List.append_nil]

theorem byId_append {id : String} (hid : id ∈ superseded rows) :
    byId (rows ++ new) id = byId rows id := by
  have hnew : new.reverse.find? (fun row => (event row).id = id) = none := by
    rw [List.find?_eq_none]
    intro n hn heq
    refine h.fresh n (List.mem_reverse.mp hn) ?_
    rw [of_decide_eq_true heq]
    exact hid
  rw [byId, List.reverse_append, List.find?_append, hnew, Option.none_or, byId]

theorem followCorrections_append :
    ∀ (depth : ℕ) (seen : List String) (current : MemberRegisterEvent),
      (∀ id ∈ current.correctsEntryId, id ∈ superseded rows) →
      followCorrections (rows ++ new) depth seen current =
        followCorrections rows depth seen current
  | 0, _, _, _ => rfl
  | depth + 1, seen, current, hcur => by
    unfold followCorrections
    cases hid : current.correctsEntryId with
    | none => rfl
    | some targetId =>
      dsimp only
      split_ifs with hseen
      · rfl
      · rw [h.byId_append (hcur targetId hid)]
        cases htarget : byId rows targetId with
        | none => rfl
        | some target =>
          dsimp only
          have hmem : target ∈ rows :=
            List.mem_reverse.mp (List.mem_of_find?_eq_some htarget)
          cases (event target).eventType with
          | ENTRY => rfl
          | EXIT => rfl
          | CORRECTION =>
            exact followCorrections_append depth _ _ fun id hid' =>
              List.mem_filterMap.mpr ⟨target, hmem, hid'⟩

theorem resolveRow_append {row : Row} (hrow : row ∈ rows) :
    resolveRow (rows ++ new) row = resolveRow rows row := by
  unfold resolveRow supersededEventType
  rw [h.superseded_append, h.followCorrections_append _ _ _ fun id hid =>
    List.mem_filterMap.mpr ⟨row, hrow, hid⟩]

theorem resolveRow_new {n : Row} (hn : n ∈ new) :
    resolveRow (rows ++ new) n = some (plainEvent n) := by
  unfold resolveRow plainEvent
  rw [h.superseded_append, if_neg (h.fresh n hn)]
  have := h.plain n hn
  cases htype : (event n).eventType with
  | ENTRY => rfl
  | EXIT => rfl
  | CORRECTION => exact absurd htype this

/-- Appended rows leave every earlier row resolved as it was. -/
theorem filterMap_resolveRow :
    (rows ++ new).filterMap (resolveRow (rows ++ new)) =
      rows.filterMap (resolveRow rows) ++ new.map plainEvent := by
  rw [List.filterMap_append]
  congr 1
  · exact List.filterMap_congr fun row hrow => h.resolveRow_append hrow
  · rw [List.filterMap_congr fun n hn => h.resolveRow_new hn]
    exact congrFun List.filterMap_eq_map' new

/-- **Appended rows settle their days**, and no other day changes. -/
theorem settledOn_append (personId : String) (day : Int) :
    settledOn (rows ++ new) personId day =
      (settles ResolvedRegisterEvent.isEntry
        ((new.map plainEvent).filter fun e => e.personId = personId) day).or
        (settledOn rows personId day) := by
  have hsplit : ∀ rows : List Row, settledOn rows personId day =
      settles ResolvedRegisterEvent.isEntry
        ((rows.filterMap (resolveRow rows)).filter fun e => e.personId = personId) day := by
    intro rows
    unfold settledOn settles eventsOf resolveRegisterEvents
    rw [lastOn_filter_chronologically]
  rw [hsplit, hsplit rows, h.filterMap_resolveRow, List.filter_append]
  refine settles_append _ ?_ day
  intro a ha b hb
  obtain ⟨row, hrow, hres⟩ := List.mem_filterMap.mp (List.mem_filter.mp ha).1
  obtain ⟨n, hn, rfl⟩ := List.mem_map.mp (List.mem_filter.mp hb).1
  show (event a.row).createdAt < (event n).createdAt
  rw [row_of_resolveRow hres]
  exact h.later row hrow n hn

end AppendedTo

/-- The register reads nobody as a member before its first row. -/
theorem readsAsMember_of_lt {rows : List Row} {personId : String} {day : Int}
    (h : ∀ row ∈ rows, day < (event row).eventOn) : readsAsMember rows personId day = false := by
  refine reads_of_lt _ fun e he => ?_
  exact h e.row (row_mem_of_mem_eventsOf he).1

/-- Rows appended on no day before `hi` leave the days before it as they read. -/
theorem AppendedTo.readsAsMember_lt {rows new : List Row} (h : AppendedTo rows new)
    {personId : String} (hi : Int) (hnew : ∀ d, d < hi →
      settles ResolvedRegisterEvent.isEntry
        ((new.map plainEvent).filter fun e => e.personId = personId) d = none) {d : Int}
    (hd : d < hi) : readsAsMember (rows ++ new) personId d = readsAsMember rows personId d := by
  obtain ⟨lo, hlo⟩ := exists_before_all ((rows ++ new).map fun row => (event row).eventOn)
  refine (readsAsMember_reads (rows ++ new) personId).agree lo (readsAsMember_reads rows personId)
    (fun e he => ?_) (fun e he => ?_) hd
  · have hlow : ∀ row ∈ rows ++ new, e < (event row).eventOn := fun row hrow => by
      have := hlo (event row).eventOn (List.mem_map_of_mem hrow)
      omega
    rw [readsAsMember_of_lt hlow, readsAsMember_of_lt fun row hrow => hlow row (by simp [hrow])]
  · rw [h.settledOn_append, hnew e he]
    rfl

end OpenBrf.Registers
