import OpenBrf.Registers.ApartmentSaves
import OpenBrf.Registers.ApartmentValues

/-!
# Registers.ApartmentSaveRuns — saves of apartments beside each other

A save locks each apartment before it reads it, in the order of their ids, and holds the locks to
its commit: so no wait is circular, and the saves that commit do what they do one after another.
-/

namespace OpenBrf.Registers.Apartments

open Txn Lang Shared

/-! ### The order of the rows -/

section Order

variable {V : Type}

theorem listedTwice_iff : ∀ {ids seen : List String},
    listedTwice seen ids = false ↔ ids.Nodup ∧ ∀ id ∈ ids, id ∉ seen
  | [], seen => by simp [listedTwice]
  | id :: ids, seen => by
    have ih : listedTwice (addTo id seen) ids = false ↔ _ := listedTwice_iff
    unfold listedTwice
    rw [Bool.or_eq_false_iff, decide_eq_false_iff_not, ih, List.nodup_cons]
    constructor
    · rintro ⟨hseen, hnodup, hrest⟩
      refine ⟨⟨fun hmem => hrest id hmem (mem_addTo.mpr (.inl rfl)), hnodup⟩, fun other hother => ?_⟩
      rcases List.mem_cons.mp hother with rfl | hother
      · exact hseen
      · exact fun hmem => hrest other hother (mem_addTo.mpr (.inr hmem))
    · rintro ⟨⟨hid, hnodup⟩, hrest⟩
      refine ⟨hrest id List.mem_cons_self, hnodup, fun other hother hmem => ?_⟩
      rcases mem_addTo.mp hmem with rfl | hmem
      · exact hid hother
      · exact hrest other (List.mem_cons_of_mem id hother) hmem

/-- The rows of a save, each below the next. -/
def Ascending (ids : List String) : Prop := ids.Pairwise fun a b => utf16 a < utf16 b

theorem ascending_sorted {rows : List (FormRow V)}
    (h : (rows.map (·.apartmentId)).Nodup) :
    Ascending ((sortedByApartment rows).map (·.apartmentId)) := by
  have hperm : (sortedByApartment rows).Perm rows := List.mergeSort_perm rows _
  have hnodup : ((sortedByApartment rows).map (·.apartmentId)).Nodup :=
    ((hperm.map _).nodup_iff).mpr h
  have hsorted : (sortedByApartment rows).Pairwise fun a b =>
      utf16 a.apartmentId ≤ utf16 b.apartmentId := by
    refine (List.pairwise_mergeSort ?_ ?_ rows).imp fun hle => of_decide_eq_true hle
    · intro a b c hab hbc
      exact decide_eq_true (le_trans (of_decide_eq_true hab) (of_decide_eq_true hbc))
    · intro a b
      rcases le_total (utf16 a.apartmentId) (utf16 b.apartmentId) with hle | hle
      · simp [hle]
      · simp [hle]
  have hids : ((sortedByApartment rows).map (·.apartmentId)).Pairwise fun a b =>
      utf16 a ≤ utf16 b := List.pairwise_map.mpr hsorted
  refine (hids.and hnodup).imp fun hab => ?_
  exact lt_of_le_of_ne hab.1 fun heq => hab.2 (utf16_inj heq)

theorem Ascending.nodup {ids : List String} (h : Ascending ids) : ids.Nodup := by
  refine List.Pairwise.imp ?_ h
  rintro a b hlt rfl
  exact lt_irrefl _ hlt

/-- Rows that are read one by one. -/
theorem forall₂_of_mapM {ε α β : Type} {read : α → Except ε β} :
    ∀ {rows : List α} {written : List β}, rows.mapM read = .ok written →
      List.Forall₂ (fun row w => read row = .ok w) rows written
  | [], written, h => by
    rw [List.mapM_nil] at h
    obtain rfl := Except.ok.inj h
    exact .nil
  | row :: rows, written, h => by
    rw [List.mapM_cons] at h
    obtain ⟨w, hw, h⟩ := ok_of_bind h
    obtain ⟨ws, hws, h⟩ := ok_of_bind h
    obtain rfl := Except.ok.inj h
    exact .cons hw (forall₂_of_mapM hws)

theorem readSharesRow_ok {row : FormRow ApartmentShares} {w : Row ApartmentShares}
    (h : readSharesRow row = .ok w) : w.apartmentId = row.apartmentId ∧
      SharesRead row.values w.submitted ∧ SharesRead row.expected w.expected ∧
      w.write = writeShares w.submitted := by
  unfold readSharesRow at h
  obtain ⟨submitted, hs, h⟩ := ok_of_bind h
  obtain ⟨expected, he, h⟩ := ok_of_bind h
  obtain rfl := Except.ok.inj h
  exact ⟨rfl, readShares_ok hs, readShares_ok he, rfl⟩

theorem statutoryDateColumn_ok {zone : Zone} {now : Int} {text : String} {day : LocalDay}
    (h : statutoryDateColumn zone now text = .ok day) : formatLocalDay day = text := by
  unfold statutoryDateColumn at h
  cases hparse : parseLocalDay text with
  | none =>
    rw [hparse] at h
    cases h
  | some parsed =>
    rw [hparse] at h
    simp only at h
    split_ifs at h
    obtain rfl := Except.ok.inj h
    exact formatLocalDay_of_parse hparse

theorem readParticularsRow_ok {zone : Zone} {now : Int} {row : FormRow ApartmentParticulars}
    {w : Row ApartmentParticulars} (h : readParticularsRow zone now row = .ok w) :
    w.apartmentId = row.apartmentId ∧ ParticularsRead row.values w.submitted ∧
      ParticularsRead row.expected w.expected ∧
      ∃ registeredOn, w.write = writeParticulars w.submitted registeredOn ∧
        registeredOn.map formatLocalDay = w.submitted.economicPlanRegisteredOn := by
  unfold readParticularsRow at h
  obtain ⟨submitted, hs, h⟩ := ok_of_bind h
  obtain ⟨expected, he, h⟩ := ok_of_bind h
  obtain ⟨registeredOn, hr, h⟩ := ok_of_bind h
  obtain rfl := Except.ok.inj h
  refine ⟨rfl, readParticulars_ok hs, readParticulars_ok he, registeredOn, rfl, ?_⟩
  show registeredOn.map formatLocalDay = submitted.economicPlanRegisteredOn
  cases hdate : submitted.economicPlanRegisteredOn with
  | none =>
    rw [hdate] at hr
    obtain rfl := Except.ok.inj hr
    rfl
  | some text =>
    rw [hdate] at hr
    obtain ⟨day, hday, hr⟩ := ok_of_bind hr
    obtain rfl := Except.ok.inj hr
    exact congrArg some (statutoryDateColumn_ok hday)

end Order

/-! ### Locks in the order of the ids -/

section Locks

variable {V : Type} {form : Form V} {actorPersonId : String}

theorem rises_saveRow {row : Row V} {recorded : ℕ} {before : Apartment}
    {Q : ℕ → List (String × Mode) → Prop} {held : List (String × Mode)} (hQ : ∀ n, Q n held) :
    Rises utf16 (saveRow form actorPersonId row recorded before) Q held := by
  unfold saveRow
  dsimp only
  split_ifs
  · exact rises_pure (hQ _)
  · exact rises_fail
  · rw [rises_bind]
    refine rises_update ?_
    rw [rises_bind]
    exact rises_update (rises_pure (hQ _))

theorem rises_recordRow {row : Row V} {recorded : ℕ} {Q : ℕ → List (String × Mode) → Prop}
    {held : List (String × Mode)} (habove : ∀ x ∈ held, utf16 x.1 < utf16 row.apartmentId)
    (hQ : ∀ n, Q n ((row.apartmentId, .exclusive) :: held)) :
    Rises utf16 (recordRow form actorPersonId recorded row) Q held := by
  unfold recordRow
  rw [rises_bind]
  refine rises_readLocked habove trivial fun found => ?_
  cases found with
  | none => exact rises_fail
  | some _ =>
    show Rises utf16 (query _ >>= _) Q _
    rw [rises_bind]
    refine rises_query fun before => ?_
    cases before with
    | none => exact rises_fail
    | some before => exact rises_saveRow hQ

theorem rises_recordRows : ∀ {rows : List (Row V)} {recorded : ℕ} {held : List (String × Mode)},
    Ascending (rows.map (·.apartmentId)) →
    (∀ x ∈ held, ∀ row ∈ rows, utf16 x.1 < utf16 row.apartmentId) →
    Rises utf16 (rows.foldlM (recordRow form actorPersonId) recorded) (fun _ _ => True) held
  | [], _, _, _, _ => trivial
  | row :: rows, recorded, held, hasc, habove => by
    obtain ⟨hfirst, hrest⟩ := List.pairwise_cons.mp hasc
    rw [List.foldlM_cons, rises_bind]
    refine rises_recordRow (fun x hx => habove x hx row List.mem_cons_self) fun n => ?_
    refine rises_recordRows hrest fun x hx other hother => ?_
    rcases List.mem_cons.mp hx with rfl | hx
    · exact hfirst other.apartmentId (List.mem_map_of_mem hother)
    · exact habove x hx other (List.mem_cons_of_mem row hother)

/-! ### Reads and writes of what is locked -/

/-- The apartments under their ids, and which there are. -/
def apartmentLayout : Layout RegisterStore String (Option Apartment) (String → Bool) where
  row id s := s.apartments id
  fixed s id := (s.apartments id).isSome

variable {row : Row V} {held : List (String × Mode)} {w : RegisterStore → RegisterStore}

/-- An apartment not locked alone reads as it is committed. -/
theorem row_of_owns (howns : apartmentLayout.Owns held w) {id : String}
    (hid : (id, .exclusive) ∉ held) (s : RegisterStore) :
    (w s).apartments id = s.apartments id := (howns s).2 id hid

theorem owns_updateApartment (howns : apartmentLayout.Owns held w) (id : String)
    (write : Apartment → Apartment) :
    apartmentLayout.Owns ((id, .exclusive) :: held)
      (RegisterStore.updateApartment id write ∘ w) := by
  intro s
  refine ⟨?_, fun other hother => ?_⟩
  · rw [← (howns s).1]
    funext other
    show (Function.update (w s).apartments id (((w s).apartments id).map write) other).isSome =
      ((w s).apartments other).isSome
    by_cases hid : other = id
    · subst hid
      rw [Function.update_self, Option.isSome_map]
    · rw [Function.update_of_ne hid]
  · have hne : other ≠ id := by
      rintro rfl
      exact hother List.mem_cons_self
    show Function.update (w s).apartments id _ other = s.apartments other
    rw [Function.update_of_ne hne]
    exact row_of_owns howns (fun hmem => hother (List.mem_cons_of_mem _ hmem)) s

theorem owns_lock (howns : apartmentLayout.Owns held w) (x : String × Mode) :
    apartmentLayout.Owns (x :: held) w :=
  fun s => ⟨(howns s).1, fun id hid => (howns s).2 id fun hmem => hid (List.mem_cons_of_mem x hmem)⟩

theorem locked_saveRow {recorded : ℕ} {before : Apartment}
    {Q : ℕ → List (String × Mode) → (RegisterStore → RegisterStore) → Prop}
    (howns : apartmentLayout.Owns held w)
    (hQ : ∀ n w', apartmentLayout.Owns ((row.apartmentId, .exclusive) :: held) w' →
      Q n ((row.apartmentId, .exclusive) :: held) w') :
    Locked apartmentLayout (saveRow form actorPersonId row recorded before) Q
      ((row.apartmentId, .exclusive) :: held) w := by
  unfold saveRow
  dsimp only
  split_ifs
  · exact locked_pure (hQ _ _ (owns_lock howns _))
  · exact locked_fail
  · refine locked_bind (.write trivial (.ret _)) (locked_update ?_)
    refine locked_bind (.write trivial (.ret _)) (locked_update (locked_pure (hQ _ _ ?_)))
    -- the audit entry is no apartment's row
    exact fun s => owns_updateApartment howns row.apartmentId row.write s

/-- One turn of the loop reads only the apartment it has locked. -/
theorem locked_recordRow {recorded : ℕ}
    {Q : ℕ → List (String × Mode) → (RegisterStore → RegisterStore) → Prop}
    (howns : apartmentLayout.Owns held w) (hfree : (row.apartmentId, .exclusive) ∉ held)
    (hQ : ∀ n w', apartmentLayout.Owns ((row.apartmentId, .exclusive) :: held) w' →
      Q n ((row.apartmentId, .exclusive) :: held) w') :
    Locked apartmentLayout (recordRow form actorPersonId recorded row) Q held w := by
  have hrow := row_of_owns howns hfree
  have hread : ∀ s s' : RegisterStore,
      apartmentLayout.Agree ((row.apartmentId, .exclusive) :: held) s s' →
      (w s).apartments row.apartmentId = (w s').apartments row.apartmentId := by
    intro s s' hs
    rw [hrow s, hrow s']
    exact hs.2 _ List.mem_cons_self
  have hthere : ∀ s s' : RegisterStore, apartmentLayout.Agree held s s' →
      ((w s).apartments row.apartmentId).isSome = ((w s').apartments row.apartmentId).isSome := by
    intro s s' hs
    rw [hrow s, hrow s']
    exact congrFun hs.1 row.apartmentId
  unfold recordRow
  refine locked_bind (uncommitted_readLocked _ _ _) ?_
  refine locked_readLocked hthere hread trivial fun found => ?_
  cases found with
  | none => exact locked_fail
  | some _ =>
    refine locked_bind (uncommitted_query _) ?_
    refine locked_query hread fun s => ?_
    cases hbefore : (w s).apartments row.apartmentId with
    | none => exact locked_fail
    | some before => exact locked_saveRow howns hQ

theorem uncommitted_recordRow (recorded : ℕ) (row : Row V) :
    Uncommitted (recordRow form actorPersonId recorded row) := by
  unfold recordRow
  refine .bind (uncommitted_readLocked _ _ _) fun locked => ?_
  cases locked with
  | none => exact .throw _
  | some _ =>
    refine .bind (uncommitted_query _) fun before => ?_
    cases before with
    | none => exact .throw _
    | some before =>
      show Uncommitted (saveRow form actorPersonId row recorded before)
      unfold saveRow
      dsimp only
      split_ifs
      · exact .ret _
      · exact .throw _
      · exact .write trivial (.write trivial (.ret _))

theorem locked_recordRows : ∀ {rows : List (Row V)} {recorded : ℕ} {held : List (String × Mode)}
    {w : RegisterStore → RegisterStore}, (rows.map (·.apartmentId)).Nodup →
    (∀ row ∈ rows, (row.apartmentId, .exclusive) ∉ held) → apartmentLayout.Owns held w →
    Locked apartmentLayout (rows.foldlM (recordRow form actorPersonId) recorded)
      (fun _ held' w' => apartmentLayout.Owns held' w') held w
  | [], _, _, _, _, _, howns => howns
  | row :: rows, recorded, held, w, hnodup, hfree, howns => by
    obtain ⟨hfirst, hrest⟩ := List.nodup_cons.mp hnodup
    rw [List.foldlM_cons]
    refine locked_bind (uncommitted_recordRow recorded row) ?_
    refine locked_recordRow howns (hfree row List.mem_cons_self) fun n w' howns' => ?_
    refine locked_recordRows hrest (fun other hother hmem => ?_) howns'
    rcases List.mem_cons.mp hmem with heq | hmem
    · exact hfirst (List.mem_map.mpr ⟨other, hother, (Prod.mk.inj heq).1⟩)
    · exact hfree other (List.mem_cons_of_mem row hother) hmem

/-! ### The calls -/

variable {read : FormRow V → Except ApartmentRegisterError (Row V)}

/-- The rows of a save that are read, each below the next. -/
theorem ascending_written (hread : ∀ row written, read row = .ok written →
    written.apartmentId = row.apartmentId) {apartments : List (FormRow V)} {written : List (Row V)}
    (hlisted : listedTwice [] (apartments.map (·.apartmentId)) = false)
    (h : (sortedByApartment apartments).mapM read = .ok written) :
    Ascending (written.map (·.apartmentId)) := by
  have hids : ∀ {rows : List (FormRow V)} {written : List (Row V)},
      List.Forall₂ (fun row w => read row = .ok w) rows written →
      written.map (·.apartmentId) = rows.map (·.apartmentId) := by
    intro rows written hrows
    induction hrows with
    | nil => rfl
    | cons hw _ ih => rw [List.map_cons, List.map_cons, ih, hread _ _ hw]
  rw [hids (forall₂_of_mapM h)]
  exact ascending_sorted (listedTwice_iff.mp hlisted).1

theorem rises_recordForm (hread : ∀ row written, read row = .ok written →
    written.apartmentId = row.apartmentId) (apartments : List (FormRow V)) :
    Rises utf16 (recordForm form actorPersonId read apartments >>= fun _ => pure ())
      (fun _ _ => True) [] := by
  unfold recordForm
  split_ifs with hlisted
  · exact rises_fail
  · cases hwritten : (sortedByApartment apartments).mapM read with
    | error e => exact rises_fail
    | ok written =>
      have hasc := ascending_written hread (Bool.eq_false_iff.mpr hlisted) hwritten
      rw [rises_bind]
      refine rises_transaction ?_
      exact (rises_recordRows hasc fun x hx => by cases hx).mono fun _ _ _ => trivial

theorem locked_recordForm (hread : ∀ row written, read row = .ok written →
    written.apartmentId = row.apartmentId) (apartments : List (FormRow V)) :
    LockedCall apartmentLayout
      (recordForm form actorPersonId read apartments >>= fun _ => pure ()) := by
  unfold recordForm
  split_ifs with hlisted
  · exact trivial
  · cases hwritten : (sortedByApartment apartments).mapM read with
    | error e => exact trivial
    | ok written =>
      have hasc := ascending_written hread (Bool.eq_false_iff.mpr hlisted) hwritten
      show LockedCall apartmentLayout (transaction _ >>= _)
      unfold transaction
      rw [bind_assoc]
      refine locked_bind (uncommitted_foldlM uncommitted_recordRow written 0) ?_
      refine Locked.mono (fun _ _ _ howns => ⟨howns, (), rfl⟩) ?_
      exact locked_recordRows hasc.nodup (fun _ _ hmem => by cases hmem) fun s => ⟨rfl, fun _ _ => rfl⟩

end Locks

theorem rises_request (zone : Zone) (save : Save) :
    Rises utf16 (save.request zone) (fun _ _ => True) [] := by
  cases save with
  | shares actorPersonId apartments =>
    exact rises_recordForm (fun _ _ h => (readSharesRow_ok h).1) apartments
  | particulars now actorPersonId apartments =>
    exact rises_recordForm (fun _ _ h => (readParticularsRow_ok h).1) apartments

theorem locked_request (zone : Zone) (save : Save) :
    LockedCall apartmentLayout (save.request zone) := by
  cases save with
  | shares actorPersonId apartments =>
    exact locked_recordForm (fun _ _ h => (readSharesRow_ok h).1) apartments
  | particulars now actorPersonId apartments =>
    exact locked_recordForm (fun _ _ h => (readParticularsRow_ok h).1) apartments

/-! ### What a save does -/

/-- A row as figures: what it states of its apartment, and what its form had read. -/
structure StatedRow (X : Type) where
  apartmentId : String
  states : X
  expects : X

/-- A form's columns as figures, the columns it leaves, and what differs between two readings. -/
structure View (X Y : Type) where
  action : AuditAction
  look : Apartment → X
  rest : Apartment → Y
  differing : X → X → List Field

def sharesView : View Shares Particulars where
  action := .APARTMENT_SHARES_RECORDED
  look := Apartment.shares
  rest := Apartment.particulars
  differing := Shares.differing

def particularsView : View Particulars Shares where
  action := .APARTMENT_PARTICULARS_RECORDED
  look := Apartment.particulars
  rest := Apartment.shares
  differing := Particulars.differing

section Effect

variable {V X Y : Type} [DecidableEq X] (view : View X Y) (actorPersonId : String)

/-- The entry a row leaves: of an apartment that reads otherwise than it states, the fields that
differ. -/
def entryOf (s : RegisterStore) (row : StatedRow X) : Option AuditEntry :=
  (s.apartments row.apartmentId).bind fun before =>
    if view.look before = row.states then none
    else some ⟨view.action, actorPersonId, row.apartmentId,
      view.differing (view.look before) row.states⟩

/-- The store after a row is written. -/
def rowWritten (row : StatedRow X) (write : Apartment → Apartment) (before : Apartment)
    (s : RegisterStore) : RegisterStore :=
  (s.updateApartment row.apartmentId write).record
    ⟨view.action, actorPersonId, row.apartmentId, view.differing (view.look before) row.states⟩

/-- What a row has done to its apartment. -/
structure RowSaved (row : StatedRow X) (before after : Apartment) : Prop where
  states : view.look after = row.states
  rest : view.rest after = view.rest before
  untouched : view.look before = row.states → after = before
  expected : view.look before ≠ row.states → view.look before = row.expects

/-- What a save has done, and how many apartments it answers it has recorded. -/
structure Saved (rows : List (StatedRow X)) (s s' : RegisterStore) (recorded : ℕ) : Prop where
  others : ∀ id, id ∉ rows.map (·.apartmentId) → s'.apartments id = s.apartments id
  each : ∀ row ∈ rows, ∃ before after, s.apartments row.apartmentId = some before ∧
    s'.apartments row.apartmentId = some after ∧ RowSaved view row before after
  audit : s'.audit = s.audit ++ rows.filterMap (entryOf view actorPersonId s)
  recorded : recorded = (rows.filterMap (entryOf view actorPersonId s)).length

variable {view actorPersonId}

/-- A row of a form that reads, compares and writes what the figures say. -/
structure RowRead (form : Form V) (view : View X Y) (w : Row V) (row : StatedRow X) : Prop where
  id : w.apartmentId = row.apartmentId
  moved : ∀ a, form.moved (form.stored a) w.submitted = view.differing (view.look a) row.states
  checked : ∀ a, form.moved (form.stored a) w.expected = view.differing (view.look a) row.expects
  look_write : ∀ a, view.look (w.write a) = row.states
  rest_write : ∀ a, view.rest (w.write a) = view.rest a

variable {form : Form V} {w : Row V} {row : StatedRow X}

omit [DecidableEq X] in
/-- One turn of the loop skips its apartment, or writes it with its entry. -/
theorem exec_recordRow_ok (hdiff : ∀ x y, view.differing x y = [] ↔ x = y)
    (haction : form.action = view.action) (hrow : RowRead form view w row) {n n' : ℕ}
    {wd wd' : World RegisterStore String}
    (h : exec (recordRow form actorPersonId n w) wd = (.ok n', wd')) :
    ∃ before, wd.working.apartments row.apartmentId = some before ∧
      ((view.look before = row.states ∧ n' = n ∧ wd' = wd) ∨
        (view.look before ≠ row.states ∧ view.look before = row.expects ∧ n' = n + 1 ∧
          wd' = { wd with
            working := rowWritten view actorPersonId row w.write before wd.working })) := by
  unfold recordRow at h
  obtain ⟨found, wd₁, hfound, h⟩ := exec_bind_ok.mp h
  rw [exec_readLocked] at hfound
  obtain ⟨hok, rfl⟩ := Prod.mk.inj hfound
  obtain rfl := Except.ok.inj hok
  cases hbefore : wd.working.apartments w.apartmentId with
  | none =>
    rw [hbefore] at h
    cases h
  | some before =>
    rw [hbefore] at h
    obtain ⟨again, wd₂, hagain, h⟩ := exec_bind_ok.mp h
    rw [exec_query] at hagain
    obtain ⟨hok', rfl⟩ := Prod.mk.inj hagain
    obtain rfl := Except.ok.inj hok'
    rw [hbefore] at h
    refine ⟨before, hrow.id ▸ hbefore, ?_⟩
    change exec (saveRow form actorPersonId w n before) wd = _ at h
    unfold saveRow at h
    dsimp only at h
    rw [hrow.moved, hrow.checked] at h
    split_ifs at h with hsame hexpected
    · obtain ⟨hn, rfl⟩ := Prod.mk.inj h
      exact .inl ⟨(hdiff _ _).mp hsame, (Except.ok.inj hn).symm, rfl⟩
    · cases h
    · obtain ⟨hn, rfl⟩ := Prod.mk.inj h
      refine .inr ⟨fun heq => hsame ((hdiff _ _).mpr heq), (hdiff _ _).mp (not_not.mp hexpected),
        (Except.ok.inj hn).symm, ?_⟩
      unfold rowWritten
      rw [← haction, ← hrow.id]

theorem updateApartment_of_ne {id other : String} (h : other ≠ id)
    (write : Apartment → Apartment) (s : RegisterStore) :
    (s.updateApartment id write).apartments other = s.apartments other :=
  Function.update_of_ne h ..

theorem updateApartment_self {id : String} {before : Apartment} (write : Apartment → Apartment)
    {s : RegisterStore} (h : s.apartments id = some before) :
    (s.updateApartment id write).apartments id = some (write before) := by
  show Function.update s.apartments id ((s.apartments id).map write) id = _
  rw [Function.update_self, h]
  rfl

/-- What is done to one apartment changes no entry of another. -/
theorem filterMap_entryOf_congr (view : View X Y) (actorPersonId : String)
    {rows : List (StatedRow X)} {s s₁ : RegisterStore}
    (h : ∀ row ∈ rows, s₁.apartments row.apartmentId = s.apartments row.apartmentId) :
    rows.filterMap (entryOf view actorPersonId s₁) =
      rows.filterMap (entryOf view actorPersonId s) := by
  refine List.filterMap_congr fun row hrow => ?_
  unfold entryOf
  rw [h row hrow]

/-- **The loop over the rows of a save.** -/
theorem saved_of_exec (hdiff : ∀ x y, view.differing x y = [] ↔ x = y)
    (haction : form.action = view.action) {written : List (Row V)} {rows : List (StatedRow X)}
    (hrows : List.Forall₂ (RowRead form view) written rows)
    (hnodup : (rows.map (·.apartmentId)).Nodup) :
    ∀ {n n' : ℕ} {wd wd' : World RegisterStore String},
      exec (written.foldlM (recordRow form actorPersonId) n) wd = (.ok n', wd') →
      ∃ recorded, n' = n + recorded ∧ wd'.committed = wd.committed ∧
        Saved view actorPersonId rows wd.working wd'.working recorded := by
  induction hrows with
  | nil =>
    intro n n' wd wd' h
    obtain ⟨hn, rfl⟩ := Prod.mk.inj h
    obtain rfl := Except.ok.inj hn
    exact ⟨0, rfl, rfl, fun _ _ => rfl, (fun row hrow => by cases hrow),
      (List.append_nil _).symm, rfl⟩
  | @cons w row written rows hrow _ ih =>
    intro n n' wd wd' h
    obtain ⟨hfirst, hrest⟩ := List.nodup_cons.mp hnodup
    have hother : ∀ other ∈ rows, other.apartmentId ≠ row.apartmentId := by
      intro other hmem heq
      exact hfirst (List.mem_map.mpr ⟨other, hmem, heq⟩)
    rw [List.foldlM_cons] at h
    obtain ⟨n₁, wd₁, hstep, hloop⟩ := exec_bind_ok.mp h
    obtain ⟨before, hbefore, ⟨hsame, rfl, rfl⟩ | ⟨hmoved, hexpected, rfl, rfl⟩⟩ :=
      exec_recordRow_ok hdiff haction hrow hstep
    · -- the apartment reads what the row states
      obtain ⟨recorded, hn, hcommitted, hsaved⟩ := ih hrest hloop
      have hentry : entryOf view actorPersonId wd₁.working row = none := by
        unfold entryOf
        rw [hbefore, Option.bind_some, if_pos hsame]
      have hafter := (hsaved.others row.apartmentId hfirst).trans hbefore
      refine ⟨recorded, hn, hcommitted, fun id hid => ?_, fun other hmem => ?_, ?_, ?_⟩
      · rw [List.map_cons, List.mem_cons, not_or] at hid
        exact hsaved.others id hid.2
      · rcases List.mem_cons.mp hmem with rfl | hmem
        · exact ⟨before, before, hbefore, hafter, hsame, rfl, fun _ => rfl,
            fun hne => absurd hsame hne⟩
        · exact hsaved.each other hmem
      · rw [List.filterMap_cons_none hentry]
        exact hsaved.audit
      · rw [List.filterMap_cons_none hentry]
        exact hsaved.recorded
    · -- the apartment is written, and its entry recorded
      obtain ⟨recorded, hn, hcommitted, hsaved⟩ := ih hrest hloop
      have hentry : entryOf view actorPersonId wd.working row =
          some ⟨view.action, actorPersonId, row.apartmentId,
            view.differing (view.look before) row.states⟩ := by
        unfold entryOf
        rw [hbefore, Option.bind_some, if_neg hmoved]
      have hstands : ∀ id, id ≠ row.apartmentId →
          (rowWritten view actorPersonId row w.write before wd.working).apartments id =
            wd.working.apartments id :=
        fun id hid => updateApartment_of_ne hid w.write wd.working
      have hcongr := filterMap_entryOf_congr view actorPersonId
        fun other hmem => hstands other.apartmentId (hother other hmem)
      have hafter := (hsaved.others row.apartmentId hfirst).trans
        (updateApartment_self w.write hbefore)
      refine ⟨recorded + 1, by omega, hcommitted, fun id hid => ?_, fun other hmem => ?_, ?_, ?_⟩
      · rw [List.map_cons, List.mem_cons, not_or] at hid
        exact (hsaved.others id hid.2).trans (hstands id hid.1)
      · rcases List.mem_cons.mp hmem with rfl | hmem
        · exact ⟨before, w.write before, hbefore, hafter, hrow.look_write before,
            hrow.rest_write before, fun hsame => absurd hsame hmoved, fun _ => hexpected⟩
        · obtain ⟨b, a, hb, ha, hsavedRow⟩ := hsaved.each other hmem
          exact ⟨b, a, (hstands _ (hother other hmem)).symm.trans hb, ha, hsavedRow⟩
      · rw [List.filterMap_cons_some hentry, hsaved.audit, hcongr]
        show (wd.working.audit ++ [_]) ++ _ = _
        rw [List.append_assoc]
        rfl
      · rw [List.filterMap_cons_some hentry, List.length_cons, ← hcongr, ← hsaved.recorded]

variable {read : FormRow V → Except ApartmentRegisterError (Row V)}
  {stated : FormRow V → StatedRow X}

/-- **A save of one form that returns.** -/
theorem saved_of_recordForm (hdiff : ∀ x y, view.differing x y = [] ↔ x = y)
    (haction : form.action = view.action)
    (hread : ∀ row w, read row = .ok w → RowRead form view w (stated row))
    (hid : ∀ row, (stated row).apartmentId = row.apartmentId) {apartments : List (FormRow V)}
    {n : ℕ} {wd wd' : World RegisterStore String}
    (h : exec (recordForm form actorPersonId read apartments) wd = (.ok n, wd')) :
    (apartments.map (·.apartmentId)).Nodup ∧
      Saved view actorPersonId ((sortedByApartment apartments).map stated) wd.working
        wd'.committed n := by
  unfold recordForm at h
  split_ifs at h with hlisted
  · cases h
  · have hnodup := (listedTwice_iff.mp (Bool.eq_false_iff.mpr hlisted)).1
    refine ⟨hnodup, ?_⟩
    cases hwritten : (sortedByApartment apartments).mapM read with
    | error e =>
      rw [hwritten] at h
      cases h
    | ok written =>
      rw [hwritten] at h
      have hrows : List.Forall₂ (RowRead form view) written
          ((sortedByApartment apartments).map stated) := by
        rw [List.forall₂_map_right_iff]
        exact (forall₂_of_mapM hwritten).flip.imp fun w row hw => hread row w hw
      have hids : (((sortedByApartment apartments).map stated).map (·.apartmentId)).Nodup := by
        rw [List.map_map]
        have heq : (fun row : FormRow V => (stated row).apartmentId) = (·.apartmentId) :=
          funext hid
        show ((sortedByApartment apartments).map fun row => (stated row).apartmentId).Nodup
        rw [heq]
        exact (ascending_sorted hnodup).nodup
      obtain ⟨wd₁, hloop, rfl⟩ := exec_transaction_ok.mp h
      obtain ⟨recorded, hn, -, hsaved⟩ := saved_of_exec hdiff haction hrows hids hloop
      rw [Nat.zero_add] at hn
      exact hn ▸ hsaved

end Effect

theorem movedOf_nil_iff {fields : List (Field × Bool)} :
    movedOf fields = [] ↔ ∀ field ∈ fields, field.2 = true := by
  unfold movedOf
  simp [List.map_eq_nil_iff, List.filter_eq_nil_iff]

theorem shares_differing_nil_iff (x y : Shares) : x.differing y = [] ↔ x = y := by
  cases x
  cases y
  unfold Shares.differing
  rw [movedOf_nil_iff]
  simp

theorem particulars_differing_nil_iff (x y : Particulars) : x.differing y = [] ↔ x = y := by
  cases x
  cases y
  unfold Particulars.differing
  rw [movedOf_nil_iff]
  simp

def statedShares (row : FormRow ApartmentShares) : StatedRow Shares :=
  ⟨row.apartmentId, row.values.stated, row.expected.stated⟩

def statedParticulars (row : FormRow ApartmentParticulars) : StatedRow Particulars :=
  ⟨row.apartmentId, row.values.stated, row.expected.stated⟩

theorem rowRead_shares {row : FormRow ApartmentShares} {w : Row ApartmentShares}
    (h : readSharesRow row = .ok w) : RowRead sharesForm sharesView w (statedShares row) := by
  obtain ⟨hid, hsubmitted, hexpected, hwrite⟩ := readSharesRow_ok h
  refine ⟨hid, movedShares_stored hsubmitted, movedShares_stored hexpected, fun a => ?_, fun a => ?_⟩
  · rw [hwrite]
    exact (shares_writeShares hsubmitted a).1
  · rw [hwrite]
    exact (shares_writeShares hsubmitted a).2

theorem rowRead_particulars {zone : Zone} {now : Int} {row : FormRow ApartmentParticulars}
    {w : Row ApartmentParticulars} (h : readParticularsRow zone now row = .ok w) :
    RowRead particularsForm particularsView w (statedParticulars row) := by
  obtain ⟨hid, hsubmitted, hexpected, registeredOn, hwrite, hday⟩ := readParticularsRow_ok h
  refine ⟨hid, movedParticulars_stored hsubmitted, movedParticulars_stored hexpected,
    fun a => ?_, fun a => ?_⟩
  · rw [hwrite]
    exact (particulars_writeParticulars hsubmitted hday a).1
  · rw [hwrite]
    exact (particulars_writeParticulars hsubmitted hday a).2

/-- What a save that answers a number does to the store it is made on: no apartment is listed twice,
each row is saved, and so many of them changed. -/
def Save.Effect (recorded : ℕ) : Save → RegisterStore → RegisterStore → Prop
  | .shares actorPersonId apartments, s, s' => (apartments.map (·.apartmentId)).Nodup ∧
      Saved sharesView actorPersonId ((sortedByApartment apartments).map statedShares)
        s s' recorded
  | .particulars _ actorPersonId apartments, s, s' => (apartments.map (·.apartmentId)).Nodup ∧
      Saved particularsView actorPersonId
        ((sortedByApartment apartments).map statedParticulars) s s' recorded

/-- The number answered is told by the store the save is made on. -/
theorem Save.Effect.unique {save : Save} {n n' : ℕ} {s s' s'' : RegisterStore}
    (h : save.Effect n s s') (h' : save.Effect n' s s'') : n = n' := by
  cases save with
  | shares actorPersonId apartments => exact h.2.recorded.trans h'.2.recorded.symm
  | particulars now actorPersonId apartments => exact h.2.recorded.trans h'.2.recorded.symm

/-- A save made alone that answers a number. -/
def Save.Answers (zone : Zone) (save : Save) (n : ℕ) (s s' : RegisterStore) : Prop :=
  ∀ t draws, call (save.program zone) t draws s = (.ok n, s')

variable {zone : Zone} {save : Save}

theorem effect_of_call {t : Int} {draws : ℕ → String} {n : ℕ} {s s' : RegisterStore}
    (h : call (save.program zone) t draws s = (.ok n, s')) : save.Effect n s s' := by
  obtain ⟨hok, rfl⟩ := Prod.mk.inj h
  have hrun : exec (save.program zone) ⟨t, draws, s, s⟩ = (.ok n, _) := Prod.ext hok rfl
  cases save with
  | shares actorPersonId apartments =>
    exact saved_of_recordForm shares_differing_nil_iff rfl (fun _ _ => rowRead_shares)
      (fun _ => rfl) hrun
  | particulars now actorPersonId apartments =>
    exact saved_of_recordForm particulars_differing_nil_iff rfl (fun _ _ => rowRead_particulars)
      (fun _ => rfl) hrun

/-- A request refuses what the save refuses, and else does what the save does. -/
theorem call_request (t : Int) (draws : ℕ → String) (s : RegisterStore) :
    call (save.request zone) t draws s =
      ((call (save.program zone) t draws s).1.map fun _ => (),
        (call (save.program zone) t draws s).2) := by
  unfold call Save.request
  rw [exec_bind]
  match exec (save.program zone) ⟨t, draws, s, s⟩ with
  | (.ok n, wd) => rfl
  | (.error e, wd) => rfl

/-- **A save that returns** answers how many apartments it changed. -/
theorem answers_of_returns {s s' : RegisterStore} (h : Returns (save.request zone) s s') :
    ∃ n, save.Answers zone n s s' ∧ save.Effect n s s' := by
  have hcall : ∀ t draws, ∃ n, call (save.program zone) t draws s = (.ok n, s') := by
    intro t draws
    have hreturns := h t draws
    rw [call_request] at hreturns
    match hprogram : call (save.program zone) t draws s with
    | (.ok n, s₁) =>
      rw [hprogram] at hreturns
      exact ⟨n, Prod.ext rfl (Prod.mk.inj hreturns).2⟩
    | (.error e, s₁) =>
      rw [hprogram] at hreturns
      cases (Prod.mk.inj hreturns).1
  obtain ⟨n, hn⟩ := hcall 0 fun _ => ""
  refine ⟨n, fun t draws => ?_, effect_of_call hn⟩
  obtain ⟨n', hn'⟩ := hcall t draws
  rw [(effect_of_call hn).unique (effect_of_call hn'), hn']

theorem refuses_of_request {e : ApartmentRegisterError} {t : Int} {draws : ℕ → String}
    {s : RegisterStore} (h : call (save.request zone) t draws s = (.error e, s)) :
    call (save.program zone) t draws s = (.error e, s) := by
  rw [call_request] at h
  match hprogram : call (save.program zone) t draws s with
  | (.ok n, s₁) =>
    rw [hprogram] at h
    cases (Prod.mk.inj h).1
  | (.error e', s₁) =>
    rw [hprogram] at h
    obtain ⟨herror, hstore⟩ := Prod.mk.inj h
    exact Prod.ext (congrArg Except.error (Except.error.inj herror)) hstore

/-! ### The runs -/

/-- **Saves of both forms beside each other.**  Those that have committed have, in the order they
committed, done what they do one after another, each with the number it answers; one that refuses
refuses on the store as it stands; and no wait between them is circular.  Every run has a record
(`recorded_of_reaches`). -/
theorem saves_run (zone : Zone) {s : RegisterStore} {t : Int}
    {c : Config RegisterStore String String ApartmentRegisterError}
    {h : Record RegisterStore String String ApartmentRegisterError}
    (hrun : Recorded (saveSystem zone) (.quiet s t) c h) :
    (∃ saves : List Save, h.committed = saves.map (Save.request zone) ∧
      Serially (fun save s s' => ∃ n, Save.Answers zone save n s s' ∧ save.Effect n s s') saves
        s c.store) ∧
    (∀ i, ∀ q ∈ c.processes i, ∀ e, q.prog = .throw e → ∃ save : Save,
      h.called i = some (save.request zone) ∧
        ∀ t draws, call (save.program zone) t draws c.store = (.error e, c.store)) ∧
    ∀ i, ¬ Relation.TransGen (WaitsFor c) i i := by
  have haccounted := hrun.accounted (T := apartmentLayout) (by
    rintro _ ⟨save, rfl⟩
    exact locked_request zone save)
  refine ⟨?_, fun i q hq e he => ?_, fun i => ?_⟩
  · exact haccounted.serial.lift (fun save s s' => answers_of_returns) haccounted.calls
  · obtain ⟨p, hp, ⟨save, rfl⟩, hstands⟩ := haccounted.called i q hq
    refine ⟨save, hp, fun t draws => refuses_of_request ?_⟩
    rcases hstands with ⟨u, hret⟩ | halone
    · cases hret.symm.trans he
    · rw [he] at halone
      exact halone.call_throw t draws
  · refine no_circular_wait utf16 ?_ hrun.reaches i
    rintro _ ⟨save, rfl⟩
    exact rises_request zone save

/-! ### Two saves at once -/

/-- A register of two apartments with nothing recorded. -/
def unrecorded : RegisterStore :=
  ⟨fun id => if id = "cma1" ∨ id = "cma2" then some ⟨none, none, none, none, none, none⟩ else none,
    []⟩

def sharesRows : List (FormRow ApartmentShares) :=
  [⟨"cma1", ⟨some " 0.050", none⟩, ⟨none, some ""⟩⟩, ⟨"cma2", ⟨some "0.1", none⟩, ⟨none, none⟩⟩]

def roomsRows : List (FormRow ApartmentParticulars) :=
  [⟨"cma2", ⟨some 3, none, none, none⟩, ⟨none, none, none, none⟩⟩]

/-- The shares of both, and the rooms of the second. -/
def bothShares : Save := .shares "cmp1" sharesRows

def rooms : Save := .particulars 0 "cmp2" roomsRows

/-- A save whose rows come in order and once, from what is read of them. -/
def inOrderSave {V : Type} (form : Form V) (actorPersonId : String)
    (written : Except ApartmentRegisterError (List (Row V))) : RegisterTx Unit := do
  let _ ← match written with
    | .error e => fail e
    | .ok written => recordRows form actorPersonId written

theorem recordForm_inOrder {V : Type} {form : Form V} {actorPersonId : String}
    {read : FormRow V → Except ApartmentRegisterError (Row V)} (rows : List (FormRow V))
    (hlisted : listedTwice [] (rows.map (·.apartmentId)) = false)
    (hsorted : rows.Pairwise fun a b => decide (utf16 a.apartmentId ≤ utf16 b.apartmentId) = true) :
    (do let _ ← recordForm form actorPersonId read rows) =
      inOrderSave form actorPersonId (rows.mapM read) := by
  have hsame : sortedByApartment rows = rows := List.mergeSort_of_pairwise hsorted
  unfold recordForm inOrderSave
  rw [if_neg (Bool.eq_false_iff.mp hlisted), hsame]
  cases rows.mapM read <;> rfl

/-- The first save once it has written the first apartment: it holds its lock. -/
def halfway : Process RegisterStore String String ApartmentRegisterError :=
  (Process.start (inOrderSave sharesForm "cmp1" (sharesRows.mapM readSharesRow))).after
    unrecorded 0 6

/-- The second save beside it, when it commits. -/
def beside : Process RegisterStore String String ApartmentRegisterError :=
  (Process.start (inOrderSave particularsForm "cmp2"
    (roomsRows.mapM (readParticularsRow utc 0)))).after unrecorded 0 6

def roomsSaved : RegisterStore := beside.pending unrecorded

/-- The first save when it commits. -/
def atLast : Process RegisterStore String String ApartmentRegisterError :=
  halfway.after roomsSaved 0 6

theorem request_bothShares :
    bothShares.request utc = inOrderSave sharesForm "cmp1" (sharesRows.mapM readSharesRow) :=
  recordForm_inOrder sharesRows (by decide +kernel) (by decide +kernel)

theorem request_rooms : rooms.request utc =
    inOrderSave particularsForm "cmp2" (roomsRows.mapM (readParticularsRow utc 0)) :=
  recordForm_inOrder roomsRows (by decide +kernel) (by decide +kernel)

/-- One process beside holds only other locks. -/
theorem grants_beside {s : RegisterStore} {i j : ℕ} {l : String} {m : Mode}
    {q : Process RegisterStore String String ApartmentRegisterError} (hfree : ∀ x ∈ q.held, x.1 ≠ l) :
    ((Config.quiet s 0).set j (some q)).Grants i l m := by
  intro k _ r hr m' hheld
  by_cases hkj : k = j
  · subst hkj
    rw [Config.set_self] at hr
    obtain rfl := Option.some.inj hr
    exact absurd rfl (hfree _ hheld)
  · rw [Config.set_of_ne _ hkj] at hr
    cases hr

/-- The one save commits while the other holds a lock, and goes on to the apartment they share. -/
theorem recorded_overlapping : ∃ c h, Recorded (saveSystem utc) (.quiet unrecorded 0) c h ∧
    h.committed = [rooms.request utc, bothShares.request utc] ∧
    c.store = atLast.pending roomsSaved := by
  have hnone : ∀ l : String, ¬ (saveSystem utc).prompt l := fun _ h => h
  obtain ⟨k, hk⟩ : ∃ k, beside.prog = .commit k := ⟨_, by rfl⟩
  obtain ⟨k', hk'⟩ : ∃ k, atLast.prog = .commit k := ⟨_, by rfl⟩
  have hheld : ∀ x ∈ beside.held, x = ("cma2", .exclusive) := by decide +kernel
  -- the first save up to the lock of the second apartment
  have hfirst : Recorded (saveSystem utc) (.quiet unrecorded 0)
      ((Config.quiet unrecorded 0).set 0 (some halfway))
      ⟨Function.update (fun _ => none) 0 (some (bothShares.request utc)), []⟩ := by
    have hempty : Recorded (saveSystem utc) (.quiet unrecorded 0) (.quiet unrecorded 0) .empty := .start
    have hcalled := Recorded.spawn (i := 0) hempty rfl ⟨bothShares, rfl⟩
    have hstart : Process.start (bothShares.request utc) = _ := congrArg Process.start request_bothShares
    rw [hstart] at hcalled
    exact hcalled.after hnone 6 _ fun _ _ j _ r hr => by cases hr
  -- the second save whole
  have hsecond : Recorded (saveSystem utc) (.quiet unrecorded 0)
      (((Config.quiet unrecorded 0).set 0 (some halfway)).set 1 (some beside))
      ⟨Function.update (Function.update (fun _ => none) 0 (some (bothShares.request utc))) 1
        (some (rooms.request utc)), []⟩ := by
    have hcalled := Recorded.spawn (i := 1) hfirst rfl ⟨rooms, rfl⟩
    have hstart : Process.start (rooms.request utc) = _ := congrArg Process.start request_rooms
    rw [hstart] at hcalled
    refine hcalled.after hnone 6 _ fun x hx => ?_
    rw [hheld x hx]
    exact grants_beside (q := halfway) (by decide +kernel)
  have hcommitted := hsecond.commit (Config.set_self _ _ _) hk (by rfl)
  have hleft : ({ ((Config.quiet unrecorded 0).set 0 (some halfway)).set 1 (some beside) with
      store := roomsSaved } : Config _ _ _ _).set 1 (some (.start k)) =
        ((Config.quiet roomsSaved 0).set 1 (some (.start k))).set 0 (some halfway) := by
    unfold Config.set Config.quiet
    dsimp only
    rw [Function.update_idem, Function.update_comm (by decide)]
  have hthird := (hleft ▸ hcommitted).after hnone 6 halfway fun x _ =>
    grants_beside (q := .start k) fun y hy => by cases hy
  have hlast := hthird.commit (Config.set_self _ _ _) hk' (by rfl)
  exact ⟨_, _, hlast, rfl, rfl⟩

/-- The run of both is the rooms and then the shares. -/
theorem saves_run_overlapping : ∃ c h, Recorded (saveSystem utc) (.quiet unrecorded 0) c h ∧
    c.store.audit = [⟨.APARTMENT_PARTICULARS_RECORDED, "cmp2", "cma2", [.roomCount]⟩,
      ⟨.APARTMENT_SHARES_RECORDED, "cmp1", "cma1", [.participationShare]⟩,
      ⟨.APARTMENT_SHARES_RECORDED, "cmp1", "cma2", [.participationShare]⟩] ∧
    (∃ saves : List Save, [rooms.request utc, bothShares.request utc] =
        saves.map (Save.request utc) ∧
      Serially (fun save s s' => ∃ n, Save.Answers utc save n s s' ∧ save.Effect n s s') saves
        unrecorded c.store) ∧
    ∀ i, ¬ Relation.TransGen (WaitsFor c) i i := by
  obtain ⟨c, h, hrun, hcommitted, hstore⟩ := recorded_overlapping
  obtain ⟨hserial, -, hwaits⟩ := saves_run utc hrun
  refine ⟨c, h, hrun, ?_, hcommitted ▸ hserial, hwaits⟩
  rw [hstore]
  decide +kernel

end OpenBrf.Registers.Apartments
