import OpenBrf.Registers.PeriodPairing

/-!
# Registers.CorrectionChains — what a correction of a correction reads as (`membership-periods.ts`)

Corrections form a chain from the row that was wrong to the one that stands.  The chain is followed
back from its end, through so many rows and no more.
-/

namespace OpenBrf.Registers

open Timeline RegisterRow

variable {Row : Type} [RegisterRow Row]

/-- Rows that correct one another in chains: an id is one row's, a correction alone names another row,
that row is in the archive, and no two rows correct one. -/
structure Chained (rows : List Row) : Prop where
  ids : (rows.map fun row => (event row).id).Nodup
  plain : ∀ row ∈ rows, (event row).eventType ≠ .CORRECTION → (event row).correctsEntryId = none
  present : ∀ row ∈ rows, ∀ id ∈ (event row).correctsEntryId, ∃ target ∈ rows, (event target).id = id
  once : ∀ row ∈ rows, ∀ row' ∈ rows, ∀ id ∈ (event row).correctsEntryId,
    id ∈ (event row').correctsEntryId → row = row'

/-- A row that an original reaches by so many corrections. -/
inductive CorrectedTo (rows : List Row) (original : Row) : ℕ → Row → Prop
  | original : original ∈ rows → CorrectedTo rows original 0 original
  | correction {n : ℕ} {row next : Row} : CorrectedTo rows original n row → next ∈ rows →
    (event next).eventType = .CORRECTION → (event next).correctsEntryId = some (event row).id →
    CorrectedTo rows original (n + 1) next

/-- The kind of membership event an ENTRY or an EXIT row is. -/
def membershipType (eventType : MemberRegisterEventType) : MembershipEventType :=
  if eventType = .ENTRY then .ENTRY else .EXIT

variable {rows : List Row} {original : Row}

theorem CorrectedTo.mem {n : ℕ} {row : Row} (h : CorrectedTo rows original n row) : row ∈ rows := by
  cases h with
  | original hmem => exact hmem
  | correction _ hmem _ _ => exact hmem

theorem Chained.eq_of_id (h : Chained rows) {row row' : Row} (hrow : row ∈ rows) (hrow' : row' ∈ rows)
    (hid : (event row).id = (event row').id) : row = row' :=
  List.inj_on_of_nodup_map h.ids hrow hrow' hid

/-- The row an id finds is the one that has it. -/
theorem Chained.byId_eq (h : Chained rows) {row : Row} (hrow : row ∈ rows) :
    byId rows (event row).id = some row := by
  unfold byId
  cases hfind : rows.reverse.find? fun row' => (event row').id = (event row).id with
  | none =>
    rw [List.find?_eq_none] at hfind
    exact absurd (decide_eq_true rfl) (hfind row (List.mem_reverse.mpr hrow))
  | some found =>
    have hid := List.find?_some hfind
    rw [h.eq_of_id (List.mem_reverse.mp (List.mem_of_find?_eq_some hfind)) hrow
      (of_decide_eq_true hid)]

/-! ### The places of a chain -/

/-- A row is reached after one number of corrections only. -/
theorem CorrectedTo.place_eq (h : Chained rows) (horiginal : (event original).eventType ≠ .CORRECTION)
    {row : Row} : ∀ {n m : ℕ}, CorrectedTo rows original n row → CorrectedTo rows original m row →
      n = m := by
  intro n m hn
  induction hn generalizing m with
  | original _ =>
    intro hm
    cases hm with
    | original _ => rfl
    | correction _ _ htype _ => exact absurd htype horiginal
  | correction hprev hmem htype hcorrects ih =>
    intro hm
    cases hm with
    | original _ => exact absurd htype horiginal
    | correction hprev' _ _ hcorrects' =>
      rw [hcorrects] at hcorrects'
      have hsame := h.eq_of_id hprev.mem hprev'.mem (Option.some.inj hcorrects')
      subst hsame
      rw [ih hprev']

/-- One number of corrections reaches one row only. -/
theorem CorrectedTo.row_eq (h : Chained rows) : ∀ {n : ℕ} {row row' : Row},
    CorrectedTo rows original n row → CorrectedTo rows original n row' → row = row'
  | 0, _, _, hrow, hrow' => by
    cases hrow
    cases hrow'
    rfl
  | n + 1, row, row', hrow, hrow' => by
    cases hrow with
    | correction hprev hmem _ hcorrects =>
      cases hrow' with
      | correction hprev' hmem' _ hcorrects' =>
        have hsame := CorrectedTo.row_eq h hprev hprev'
        subst hsame
        exact h.once row hmem row' hmem' _ hcorrects hcorrects'

theorem CorrectedTo.earlier {n : ℕ} {row : Row} (h : CorrectedTo rows original n row) :
    ∀ m ≤ n, ∃ row', CorrectedTo rows original m row' := by
  induction h with
  | original hmem =>
    intro m hm
    obtain rfl := Nat.le_zero.mp hm
    exact ⟨_, .original hmem⟩
  | @correction n row next hprev hmem htype hcorrects ih =>
    intro m hm
    rcases Nat.le_succ_iff.mp hm with hle | rfl
    · exact ih m hle
    · exact ⟨next, .correction hprev hmem htype hcorrects⟩

/-- A chain has no more rows than the archive. -/
theorem CorrectedTo.lt_length (h : Chained rows)
    (horiginal : (event original).eventType ≠ .CORRECTION) {n : ℕ} {row : Row}
    (hrow : CorrectedTo rows original n row) : n < rows.length := by
  have hplaces : ∃ places : List Row, places.length = n + 1 ∧ places.Nodup ∧
      ∀ place ∈ places, place ∈ rows ∧ ∃ m ≤ n, CorrectedTo rows original m place := by
    induction hrow with
    | original hmem =>
      refine ⟨[original], rfl, List.nodup_singleton _, fun place hplace => ?_⟩
      obtain rfl := List.mem_singleton.mp hplace
      exact ⟨hmem, 0, Nat.le_refl 0, .original hmem⟩
    | @correction n row next hprev hmem htype hcorrects ih =>
      obtain ⟨places, hlength, hnodup, hall⟩ := ih
      have hnext := CorrectedTo.correction hprev hmem htype hcorrects
      refine ⟨next :: places, by rw [List.length_cons, hlength], ?_, fun place hplace => ?_⟩
      · refine List.nodup_cons.mpr ⟨fun hin => ?_, hnodup⟩
        obtain ⟨-, m, hm, hplace⟩ := hall next hin
        have hsame := CorrectedTo.place_eq h horiginal hnext hplace
        omega
      · rcases List.mem_cons.mp hplace with rfl | hin
        · exact ⟨hmem, n + 1, Nat.le_refl _, hnext⟩
        · obtain ⟨hplacemem, m, hm, hplace⟩ := hall place hin
          exact ⟨hplacemem, m, Nat.le_succ_of_le hm, hplace⟩
  obtain ⟨places, hlength, hnodup, hall⟩ := hplaces
  have hle := (List.subperm_of_subset hnodup fun place hplace => (hall place hplace).1).length_le
  omega

/-! ### The row that stands -/

theorem superseded_iff {id : String} :
    id ∈ superseded rows ↔ ∃ row ∈ rows, (event row).correctsEntryId = some id :=
  List.mem_filterMap

/-- Every original reaches a row that nothing corrects. -/
theorem exists_latest (h : Chained rows) (hmem : original ∈ rows)
    (horiginal : (event original).eventType ≠ .CORRECTION) :
    ∃ n latest, CorrectedTo rows original n latest ∧ (event latest).id ∉ superseded rows := by
  by_contra hnone
  push Not at hnone
  -- otherwise it reaches a row after any number of corrections
  have hevery : ∀ n, ∃ row, CorrectedTo rows original n row := by
    intro n
    induction n with
    | zero => exact ⟨original, .original hmem⟩
    | succ n ih =>
      obtain ⟨row, hrow⟩ := ih
      obtain ⟨next, hnext, hcorrects⟩ := superseded_iff.mp (hnone n row hrow)
      refine ⟨next, .correction hrow hnext ?_ hcorrects⟩
      by_contra hplain
      rw [h.plain next hnext hplain] at hcorrects
      cases hcorrects
  obtain ⟨row, hrow⟩ := hevery rows.length
  exact lt_irrefl _ (hrow.lt_length h horiginal)

/-- It reaches no other such row. -/
theorem latest_unique (h : Chained rows) {n m : ℕ} {latest other : Row}
    (hlatest : CorrectedTo rows original n latest) (hstands : (event latest).id ∉ superseded rows)
    (hother : CorrectedTo rows original m other) (hstands' : (event other).id ∉ superseded rows) :
    latest = other ∧ n = m := by
  have hle : ∀ {n m : ℕ} {latest other : Row}, CorrectedTo rows original n latest →
      (event latest).id ∉ superseded rows → CorrectedTo rows original m other → m ≤ n := by
    intro n m latest other hlatest hstands hother
    by_contra hlt
    obtain ⟨next, hnext⟩ := hother.earlier (n + 1) (by omega)
    cases hnext with
    | correction hprev hmem _ hcorrects =>
      rw [hprev.row_eq h hlatest] at hcorrects
      exact hstands (superseded_iff.mpr ⟨next, hmem, hcorrects⟩)
  have hsame : n = m := Nat.le_antisymm (hle hother hstands' hlatest) (hle hlatest hstands hother)
  subst hsame
  exact ⟨hlatest.row_eq h hother, rfl⟩

/-! ### Following a chain -/

/-- A chain is followed to its original when it is no longer than the depth left. -/
theorem followCorrections_eq (h : Chained rows)
    (horiginal : (event original).eventType ≠ .CORRECTION) :
    ∀ {depth n : ℕ} {current : Row} {seen : List String},
      CorrectedTo rows original (n + 1) current →
      (∀ id ∈ seen, ∃ m row, n + 1 ≤ m ∧ CorrectedTo rows original m row ∧ (event row).id = id) →
      followCorrections rows depth seen (event current) =
        if n + 1 ≤ depth then some (membershipType (event original).eventType) else none
  | 0, n, _, _, _, _ => by
    rw [if_neg (by omega)]
    rfl
  | depth + 1, n, current, seen, hcurrent, hseen => by
    cases hcurrent with
    | @correction _ target _ htarget hmem htype hcorrects =>
      have hnotseen : (event target).id ∉ seen := by
        intro hin
        obtain ⟨m, row, hm, hrow, hid⟩ := hseen _ hin
        have hsame := h.eq_of_id hrow.mem htarget.mem hid
        subst hsame
        have hplace := hrow.place_eq h horiginal htarget
        omega
      unfold followCorrections
      rw [hcorrects]
      dsimp only
      rw [if_neg hnotseen, h.byId_eq htarget.mem]
      dsimp only
      cases htarget with
      | original _ =>
        rw [if_pos (by omega)]
        unfold membershipType
        cases hkind : (event original).eventType with
        | ENTRY => rfl
        | EXIT => rfl
        | CORRECTION => exact absurd hkind horiginal
      | @correction k _ _ hprev hmem' htype' hcorrects' =>
        have htarget' := CorrectedTo.correction hprev hmem' htype' hcorrects'
        rw [htype']
        dsimp only
        rw [followCorrections_eq h horiginal htarget' fun id hid => ?_]
        · by_cases hdepth : k + 1 ≤ depth
          · rw [if_pos hdepth, if_pos (by omega)]
          · rw [if_neg hdepth, if_neg (by omega)]
        · rcases List.mem_cons.mp hid with rfl | hin
          · exact ⟨k + 1, target, Nat.le_refl _, htarget', rfl⟩
          · obtain ⟨m, row, hm, hrow, hsame⟩ := hseen id hin
            exact ⟨m, row, by omega, hrow, hsame⟩

/-- What a walk answers with is the kind of an original it started from. -/
theorem original_of_followCorrections {eventType : MembershipEventType} :
    ∀ {depth : ℕ} {seen : List String} {current : Row}, current ∈ rows →
      (event current).eventType = .CORRECTION →
      followCorrections rows depth seen (event current) = some eventType →
        ∃ original ∈ rows, (event original).eventType ≠ .CORRECTION ∧
          ∃ n, CorrectedTo rows original n current
  | 0, _, _, _, _, hfollow => by cases hfollow
  | depth + 1, seen, current, hcurrent, hcorrection, hfollow => by
    unfold followCorrections at hfollow
    cases hcorrects : (event current).correctsEntryId with
    | none =>
      rw [hcorrects] at hfollow
      cases hfollow
    | some targetId =>
      rw [hcorrects] at hfollow
      dsimp only at hfollow
      split_ifs at hfollow
      cases htarget : byId rows targetId with
      | none =>
        rw [htarget] at hfollow
        cases hfollow
      | some target =>
        have hmem : target ∈ rows := List.mem_reverse.mp (List.mem_of_find?_eq_some htarget)
        have hid : (event target).id = targetId := by
          have hfound := List.find?_some htarget
          exact of_decide_eq_true hfound
        rw [← hid] at hcorrects
        by_cases htype : (event target).eventType = .CORRECTION
        · rw [htarget] at hfollow
          dsimp only at hfollow
          rw [htype] at hfollow
          obtain ⟨original, horiginal, hplain, n, hn⟩ :=
            original_of_followCorrections hmem htype hfollow
          exact ⟨original, horiginal, hplain, n + 1, .correction hn hcurrent hcorrection hcorrects⟩
        · exact ⟨target, hmem, htype, 1, .correction (.original hmem) hcurrent hcorrection hcorrects⟩

/-! ### The resolved register -/

theorem resolveRow_latest (h : Chained rows) (horiginal : (event original).eventType ≠ .CORRECTION)
    {n : ℕ} {latest : Row} (hlatest : CorrectedTo rows original n latest)
    (hstands : (event latest).id ∉ superseded rows) :
    resolveRow rows latest = if n ≤ MAX_CORRECTION_DEPTH then
      some ⟨latest, membershipType (event original).eventType, 0 < n⟩ else none := by
  unfold resolveRow
  rw [if_neg hstands]
  cases hlatest with
  | original _ =>
    rw [if_pos (Nat.zero_le _)]
    unfold membershipType
    cases hkind : (event original).eventType with
    | ENTRY => rfl
    | EXIT => rfl
    | CORRECTION => exact absurd hkind horiginal
  | @correction n row _ hprev hmem htype hcorrects =>
    have hlatest := CorrectedTo.correction hprev hmem htype hcorrects
    rw [htype]
    dsimp only
    unfold supersededEventType
    rw [followCorrections_eq h horiginal hlatest fun id hid => ?_]
    · by_cases hdepth : n + 1 ≤ MAX_CORRECTION_DEPTH
      · rw [if_pos hdepth, if_pos hdepth]
        simp
      · rw [if_neg hdepth, if_neg hdepth]
        rfl
    · rw [List.mem_singleton.mp hid]
      exact ⟨n + 1, latest, Nat.le_refl _, hlatest, rfl⟩

theorem stands_of_resolveRow {row : Row} {e : ResolvedRegisterEvent Row}
    (h : resolveRow rows row = some e) : (event row).id ∉ superseded rows := by
  intro hsuperseded
  unfold resolveRow at h
  rw [if_pos hsuperseded] at h
  cases h

theorem nodup_resolveRegisterEvents (h : Chained rows) : (resolveRegisterEvents rows).Nodup := by
  unfold resolveRegisterEvents chronologically
  rw [(List.perm_insertionSort _ _).nodup_iff]
  refine (List.Nodup.of_map _ h.ids).filterMap fun row row' e he he' => ?_
  rw [← row_of_resolveRow he, row_of_resolveRow he']

/-- What the register makes of an original: one event, of the original's kind, on the day and for the
person of the row that stands for it. -/
def ResolvedOnce (rows : List Row) (original : Row) : Prop :=
  ∃ n latest, CorrectedTo rows original n latest ∧ (event latest).id ∉ superseded rows ∧
    ∀ e, (e ∈ resolveRegisterEvents rows ∧ ∃ m, CorrectedTo rows original m e.row) ↔
      e = ⟨latest, membershipType (event original).eventType, 0 < n⟩

/-- Every original yields one event, every event is an original's and none is there twice, and the
events are paired into periods. -/
structure ReadsArchive (rows : List Row) : Prop where
  resolved : ∀ original ∈ rows, (event original).eventType ≠ .CORRECTION → ResolvedOnce rows original
  originals : ∀ e ∈ resolveRegisterEvents rows, ∃ original ∈ rows,
    (event original).eventType ≠ .CORRECTION ∧ ∃ n, CorrectedTo rows original n e.row
  nodup : (resolveRegisterEvents rows).Nodup
  paired : PairedInto (resolveRegisterEvents rows)

/-- No original of an archive is corrected more often than a chain is followed. -/
def WithinDepth (rows : List Row) : Prop :=
  ∀ original ∈ rows, (event original).eventType ≠ .CORRECTION →
    ∀ n row, CorrectedTo rows original n row → n ≤ MAX_CORRECTION_DEPTH

theorem resolvedOnce_iff (h : Chained rows) (hmem : original ∈ rows)
    (horiginal : (event original).eventType ≠ .CORRECTION) : ResolvedOnce rows original ↔
      ∀ n row, CorrectedTo rows original n row → n ≤ MAX_CORRECTION_DEPTH := by
  obtain ⟨n, latest, hlatest, hstands⟩ := exists_latest h hmem horiginal
  have hrow := resolveRow_latest h horiginal hlatest hstands
  constructor
  · rintro ⟨n', latest', hlatest', hstands', honly⟩ m row hm
    obtain ⟨rfl, rfl⟩ := latest_unique h hlatest' hstands' hlatest hstands
    obtain ⟨hthere, -⟩ := (honly _).mpr rfl
    have hresolved := (mem_resolveRegisterEvents.mp hthere).2
    dsimp only at hresolved
    rw [hrow] at hresolved
    have hdepth : n' ≤ MAX_CORRECTION_DEPTH := by
      by_contra hdeep
      rw [if_neg hdeep] at hresolved
      cases hresolved
    -- nothing is reached after more corrections than the row that stands
    by_contra hmore
    obtain ⟨next, hnext⟩ := hm.earlier (n' + 1) (by omega)
    cases hnext with
    | correction hprev hnextmem _ hcorrects =>
      rw [hprev.row_eq h hlatest] at hcorrects
      exact hstands (superseded_iff.mpr ⟨next, hnextmem, hcorrects⟩)
  · intro hdepth
    rw [if_pos (hdepth n latest hlatest)] at hrow
    refine ⟨n, latest, hlatest, hstands, fun e => ⟨?_, ?_⟩⟩
    · rintro ⟨hthere, m, hm⟩
      obtain ⟨-, hresolved⟩ := mem_resolveRegisterEvents.mp hthere
      obtain ⟨hsame, -⟩ := latest_unique h hm (stands_of_resolveRow hresolved) hlatest hstands
      rw [hsame, hrow] at hresolved
      exact (Option.some.inj hresolved).symm
    · rintro rfl
      exact ⟨mem_resolveRegisterEvents.mpr ⟨hlatest.mem, hrow⟩, n, hlatest⟩

/-- **How the archive is read**, of chains of corrections of any length: every original yields its one
event, and the events are paired into periods that agree with the last event of a day, exactly when no
original is corrected more often than a chain is followed. -/
theorem readsArchive_iff (h : Chained rows) : ReadsArchive rows ↔ WithinDepth rows := by
  constructor
  · intro hreads original hmem horiginal
    exact (resolvedOnce_iff h hmem horiginal).mp (hreads.resolved original hmem horiginal)
  · intro hdepth
    refine ⟨fun original hmem horiginal => ?_, fun e he => ?_, nodup_resolveRegisterEvents h,
      pairedInto _⟩
    · exact (resolvedOnce_iff h hmem horiginal).mpr (hdepth original hmem horiginal)
    · obtain ⟨hrow, hresolved⟩ := mem_resolveRegisterEvents.mp he
      by_cases htype : (event e.row).eventType = .CORRECTION
      · unfold resolveRow supersededEventType at hresolved
        rw [if_neg (stands_of_resolveRow (mem_resolveRegisterEvents.mp he).2), htype] at hresolved
        obtain ⟨eventType, hfollow, -⟩ := Option.map_eq_some_iff.mp hresolved
        exact original_of_followCorrections hrow htype hfollow
      · exact ⟨e.row, hrow, htype, 0, .original hrow⟩

/-- A row of one member's. -/
def registerRow (id : String) (eventType : MemberRegisterEventType) (eventOn : Int)
    (correctsEntryId : Option String) : MemberRegisterEvent :=
  ⟨id, "P", eventType, eventOn, correctsEntryId, eventOn⟩

/-- The id of the row so many corrections from the original. -/
def chainId (n : ℕ) : String := "".pushn 'c' n

/-- An entry, and so many corrections each of the one before. -/
def corrections (n : ℕ) : List MemberRegisterEvent :=
  registerRow (chainId 0) .ENTRY 0 none ::
    (List.range n).map fun (k : ℕ) =>
      registerRow (chainId (k + 1)) .CORRECTION (k + 1) (some (chainId k))

theorem chained_corrections_one : Chained (corrections 1) where
  ids := by decide +kernel
  plain := by decide +kernel
  present := by decide +kernel
  once := by decide +kernel

/-- One correction is followed, and the entry is read on the day it was corrected to. -/
theorem readsArchive_corrected : ReadsArchive (corrections 1) := by
  refine (readsArchive_iff chained_corrections_one).mpr fun original _ horiginal n row hrow => ?_
  have hshort : n < (corrections 1).length := hrow.lt_length chained_corrections_one horiginal
  have hlength : (corrections 1).length = 2 := rfl
  unfold MAX_CORRECTION_DEPTH
  omega

/-- With the thirty-third correction the entry is gone from the register, and the chain is sound. -/
theorem corrections_too_many :
    Chained (corrections 33) ∧ resolveRegisterEvents (corrections 33) = [] ∧
      ¬ReadsArchive (corrections 33) := by
  have hempty : resolveRegisterEvents (corrections 33) = [] := by decide +kernel
  refine ⟨⟨by decide +kernel, by decide +kernel, by decide +kernel, by decide +kernel⟩, hempty,
    fun hreads => ?_⟩
  obtain ⟨n, latest, -, -, honly⟩ := hreads.resolved (registerRow (chainId 0) .ENTRY 0 none)
    List.mem_cons_self (by decide)
  obtain ⟨hthere, -⟩ := (honly _).mpr rfl
  rw [hempty] at hthere
  cases hthere

end OpenBrf.Registers
