import OpenBrf.Moves.Service
import OpenBrf.Registers.StoreEffects

/-!
# Moves.Effects — what a recorded move leaves

A move-in adds one open residency, a move-out closes one that is open, and either appends the rows
the change owes the register.  Nothing else in either table changes.
-/

namespace OpenBrf.Moves

open Txn Registers

variable {w w' : World Store String}

/-- The tables a move's own writes are about. -/
def Store.registerView (s : Store) :
    List String × List Person × List Residency × List MemberRegisterArchiveRow :=
  (s.apartmentIds, s.persons, s.residencies, s.memberRegisterEntries)

/-- A write to other tables than those of the register. -/
def Elsewhere (f : Store → Store) : Prop := ∀ s, Store.registerView (f s) = Store.registerView s

theorem Elsewhere.frame {α : Type} {p : Tx α} (hp : Within Elsewhere p) {a : α}
    (h : exec p w = (.ok a, w')) :
    w'.working.apartmentIds = w.working.apartmentIds ∧ w'.working.persons = w.working.persons ∧
      w'.working.residencies = w.working.residencies ∧
      w'.working.memberRegisterEntries = w.working.memberRegisterEntries := by
  have hview := hp.frame (fun f hf => hf) h
  simpa [Store.registerView] using hview

theorem elsewhere_closeForMoveIn (personId : String) (actorPersonId : Option String) :
    Within Elsewhere (closeForMoveIn personId actorPersonId) := by
  refine .bind .snapshot fun s => ?_
  dsimp only
  split
  · exact .pure _
  · exact .bind .readClock fun _ => .bind (.updateRow _ _ fun _ => rfl) fun _ => .pure _

theorem elsewhere_endPluginAccesses (personId : String) :
    Within Elsewhere (endPluginAccesses personId) :=
  .bind .snapshot fun _ =>
    .forM (fun _ => .bind (.updateRow _ _ fun _ => rfl) fun _ => .pure _) _

theorem elsewhere_recordTransfer (input : RecordTransferInput) :
    Within Elsewhere (recordTransfer input) := by
  unfold recordTransfer
  refine .bind .refuseIf fun _ => .bind .refuseIf fun _ => .bind .snapshot fun _ => ?_
  refine .bind .refuseIf fun _ => .bind .snapshot fun _ => .bind .refuseIf fun _ => ?_
  refine .bind .refuseIf fun _ => .bind .fresh fun _ => .bind (.acquire _ _) fun _ => ?_
  exact .bind .snapshot fun _ => .bind .refuseIf fun _ =>
    .bind (.update fun _ => rfl) fun _ => .pure _

theorem exec_lockResidencyTransitionsInOrder (personIds : List String) (w : World Store String) :
    exec (lockResidencyTransitionsInOrder personIds) w = (.ok (), w) := by
  unfold lockResidencyTransitionsInOrder
  induction sortedIds personIds with
  | nil => rfl
  | cons personId ids ih => exact ih

/-! ### The register rows of a change -/

/-- The rows appended for a person whose residencies were `before` and are now `after`. -/
structure AppendsOwed (personId : String) (createdAt : Int) (role : ResidencyRole)
    (before after : List MemberResidencySpan) (rows : List MemberRegisterArchiveRow) : Prop where
  member : role = .MEMBER → ∃ owed, owedMembershipEvents before after = .ok owed ∧
    List.Forall₂ (Records personId createdAt) owed rows
  resident : role = .RESIDENT → rows = []

/-- What a change reads before it writes: a member's residencies, and nothing for a resident. -/
def forMember (spans : List MemberResidencySpan) : ResidencyRole → Option (List MemberResidencySpan)
  | .MEMBER => some spans
  | .RESIDENT => none

theorem exec_memberResidenciesBefore {personId : String} {role : ResidencyRole}
    {before : Option (List MemberResidencySpan)}
    (h : exec (memberResidenciesBefore personId role) w = (.ok before, w')) :
    w' = w ∧ before = forMember (memberSpans w.working.residencies personId) role := by
  cases role with
  | MEMBER =>
    simp only [memberResidenciesBefore, readMemberResidencies, exec_bind_ok, exec_snapshot,
      exec_pure, Prod.mk.injEq, Except.ok.injEq] at h
    obtain ⟨spans, w₁, ⟨s, w₂, ⟨rfl, rfl⟩, rfl, rfl⟩, rfl, rfl⟩ := h
    exact ⟨rfl, rfl⟩
  | RESIDENT =>
    obtain ⟨heq, rfl⟩ := Prod.mk.inj h
    exact ⟨rfl, (Except.ok.inj heq).symm⟩

theorem exec_appendOwed {personId : String} {role : ResidencyRole}
    {before : List MemberResidencySpan} {owed : List OwedMembershipEvent}
    (h : exec (appendOwed personId (forMember before role)) w = (.ok owed, w')) :
    ∃ rows, AppendsOwed personId w.clock role before
        (memberSpans w.working.residencies personId) rows ∧
      w'.working = { w.working with
        memberRegisterEntries := w.working.memberRegisterEntries ++ rows } := by
  cases role with
  | MEMBER =>
    obtain ⟨howed, rows, hrows, hw'⟩ := exec_appendOwedMembershipEvents h
    exact ⟨rows, ⟨fun _ => ⟨owed, howed, hrows⟩, nofun⟩, hw'⟩
  | RESIDENT =>
    obtain ⟨-, rfl⟩ := Prod.mk.inj h
    exact ⟨[], ⟨nofun, fun _ => rfl⟩, by simp⟩

theorem within_memberResidenciesBefore (personId : String) (role : ResidencyRole) :
    Within AnyWrite (memberResidenciesBefore personId role) := by
  cases role with
  | MEMBER => exact .bind (.bind .snapshot fun _ => .pure _) fun _ => .pure _
  | RESIDENT => exact .pure _

theorem within_appendOwed (personId : String) (before : Option (List MemberResidencySpan)) :
    Within AnyWrite (appendOwed personId before) := by
  cases before with
  | none => exact .pure _
  | some before => exact within_appendOwedMembershipEvents personId before

/-! ### A move-in -/

/-- **What a recorded move-in leaves**: one more residency, open, on an apartment the person had
none on that is open or ends later, and the rows the change owes. -/
structure Enters (input : EnterResidencyInput) (createdAt : Int) (s s' : Store) : Prop where
  persons : s'.persons = s.persons
  apartmentIds : s'.apartmentIds = s.apartmentIds
  person : ∃ p ∈ s.persons, p.id = input.personId
  apartment : input.apartmentId ∈ s.apartmentIds
  notResident : ∀ r ∈ s.residencies,
    isAlreadyResident input.personId input.apartmentId input.movedInOn r = false
  residencies : ∃ id, (∀ r ∈ s.residencies, r.id ≠ id) ∧ s'.residencies = s.residencies ++
    [⟨id, input.personId, input.apartmentId, input.role, input.movedInOn, none⟩]
  entries : ∃ rows, s'.memberRegisterEntries = s.memberRegisterEntries ++ rows ∧
    AppendsOwed input.personId createdAt input.role (memberSpans s.residencies input.personId)
      (memberSpans s'.residencies input.personId) rows

theorem exec_enterResidency {input : EnterResidencyInput} {result : EnterResidencyResult}
    (h : exec (enterResidency input) w = (.ok result, w')) :
    Enters input w.clock w.working w'.working := by
  unfold enterResidency at h
  simp only [lockApartmentResidencies, exec_bind_ok, exec_acquire,
    exec_lockResidencyTransitionsInOrder, exec_snapshot, exec_refuseIf, exec_pure, Prod.mk.injEq,
    Except.ok.injEq] at h
  obtain ⟨_, w₁, ⟨-, rfl⟩, _, w₂, ⟨-, rfl⟩, s, w₃, ⟨rfl, rfl⟩, _, w₄, ⟨hfree, rfl⟩, before, w₅,
    hbefore, id, w₆, hcreate, _, w₇, hclose, _, w₈, hend, owed, w₉, howed, -, rfl⟩ := h
  obtain ⟨rfl, rfl⟩ := exec_memberResidenciesBefore hbefore
  obtain ⟨hid, hperson, hapt, hw₆⟩ := exec_createResidency hcreate
  obtain ⟨ha₇, hp₇, hr₇, he₇⟩ := Elsewhere.frame (elsewhere_closeForMoveIn _ _) hclose
  obtain ⟨ha₈, hp₈, hr₈, he₈⟩ := Elsewhere.frame (elsewhere_endPluginAccesses _) hend
  obtain ⟨rows, hrows, hw₉⟩ := exec_appendOwed howed
  have hclock : w₈.clock = w₅.clock := by
    rw [exec_clock_of hend, exec_clock_of hclose, exec_clock_of hcreate]
  have hres : w₉.working.residencies = w₅.working.residencies ++
      [⟨id, input.personId, input.apartmentId, input.role, input.movedInOn, none⟩] := by
    rw [hw₉, hr₈, hr₇, hw₆]
  refine ⟨?_, ?_, hperson, hapt, ?_, ⟨id, hid, hres⟩, rows, ?_, ?_⟩
  · rw [hw₉, hp₈, hp₇, hw₆]
  · rw [hw₉, ha₈, ha₇, hw₆]
  · intro r hr
    by_contra hne
    exact hfree (List.any_eq_true.mpr ⟨r, hr, by simpa using hne⟩)
  · rw [hw₉, he₈, he₇, hw₆]
  · rw [hclock] at hrows
    have hspan : w₉.working.residencies = w₈.working.residencies := by rw [hw₉]
    rw [hspan]
    exact hrows

theorem within_enterResidency (input : EnterResidencyInput) :
    Within AnyWrite (enterResidency input) := by
  have hany : ∀ {α : Type} {p : Tx α}, Within Elsewhere p → Within AnyWrite p := fun h =>
    h.mono fun _ _ => trivial
  unfold enterResidency
  refine .bind (.acquire _ _) fun _ => .bind (.forM (fun _ => .acquire _ _) _) fun _ => ?_
  refine .bind .snapshot fun _ => ?_
  refine .bind .refuseIf fun _ => .bind (within_memberResidenciesBefore _ _) fun _ => ?_
  refine .bind (within_createResidency ..) fun _ => .bind (hany
    (elsewhere_closeForMoveIn _ _)) fun _ => ?_
  exact .bind (hany (elsewhere_endPluginAccesses _)) fun _ =>
    .bind (within_appendOwed _ _) fun _ => .pure _

theorem exec_requirePerson {personId : String} {u : Unit}
    (h : exec (requirePerson personId) w = (.ok u, w')) : w' = w := by
  simp only [requirePerson, exec_bind_ok, exec_snapshot, exec_refuseIf, Prod.mk.injEq,
    Except.ok.injEq] at h
  obtain ⟨s, w₁, ⟨rfl, rfl⟩, -, rfl⟩ := h
  rfl

theorem exec_requirePersons : ∀ {personIds : List String} {w w' : World Store String} {u : Unit},
    exec (personIds.forM requirePerson) w = (.ok u, w') → w' = w
  | [], w, w', u, h => (Prod.mk.inj h).2.symm
  | personId :: personIds, w, w', u, h => by
    obtain ⟨_, w₁, h₁, h₂⟩ := exec_bind_ok.mp h
    rw [exec_requirePersons h₂, exec_requirePerson h₁]

/-- Writes to other tables leave what a move-in left. -/
theorem Enters.elsewhere {input : EnterResidencyInput} {createdAt : Int} {s s' s'' : Store}
    (h : Enters input createdAt s s')
    (hview : s''.apartmentIds = s'.apartmentIds ∧ s''.persons = s'.persons ∧
      s''.residencies = s'.residencies ∧ s''.memberRegisterEntries = s'.memberRegisterEntries) :
    Enters input createdAt s s'' where
  persons := hview.2.1.trans h.persons
  apartmentIds := hview.1.trans h.apartmentIds
  person := h.person
  apartment := h.apartment
  notResident := h.notResident
  residencies := by
    rw [hview.2.2.1]
    exact h.residencies
  entries := by
    rw [hview.2.2.1, hview.2.2.2]
    exact h.entries

theorem exec_moveIn {input : MoveInInput} {result : MoveInResult}
    (h : exec (moveIn input) w = (.ok result, w')) :
    Enters input.entering w.clock w.working w'.working ∧ w'.committed = w'.working := by
  unfold moveIn at h
  simp only [exec_bind_ok, exec_snapshot, exec_refuseIf, exec_transaction_ok, exec_pure, Prod.mk.injEq,
    Except.ok.injEq] at h
  obtain ⟨_, w₁, ⟨rfl, rfl⟩, _, w₂, ⟨-, rfl⟩, _, w₃, ⟨rfl, rfl⟩, _, w₄, ⟨-, rfl⟩, _, w₅, ⟨-, rfl⟩, _, w₆,
    hreq, w₇, ⟨entered, w₈, henter, ids, w₉, htransfer, -, rfl⟩, rfl⟩ := h
  obtain rfl := exec_requirePersons hreq
  have hview := Elsewhere.frame (.mapM (fun _ => elsewhere_recordTransfer _) _) htransfer
  exact ⟨(exec_enterResidency henter).elsewhere hview, rfl⟩

theorem failsClean_moveIn (input : MoveInInput) : FailsClean (moveIn input) := by
  have hany : ∀ {α : Type} {p : Tx α}, Within Elsewhere p → Within AnyWrite p := fun h =>
    h.mono fun _ _ => trivial
  unfold moveIn
  refine .bind (P := AnyWrite) .snapshot fun _ => .bind (P := AnyWrite) .refuseIf fun _ => ?_
  refine .bind (P := AnyWrite) .snapshot fun _ => .bind (P := AnyWrite) .refuseIf fun _ => ?_
  refine .bind (P := AnyWrite) .refuseIf fun _ => ?_
  refine .bind (P := AnyWrite) (.forM (fun _ => .bind .snapshot fun _ => .refuseIf) _) fun _ => ?_
  refine .transaction (P := AnyWrite) (.bind (within_enterResidency _) fun _ => ?_)
  exact .bind (.mapM (fun _ => hany (elsewhere_recordTransfer _)) _) fun _ => .pure _

/-! ### A move-out -/

/-- **What a recorded move-out leaves**: the residency, open until then, closed on a day not
before its first, and the rows the change owes. -/
structure MovesOut (input : MoveOutInput) (createdAt : Int) (s s' : Store) (r : Residency) :
    Prop where
  persons : s'.persons = s.persons
  apartmentIds : s'.apartmentIds = s.apartmentIds
  found : findResidency s.residencies input.residencyId = some r
  wasOpen : r.movedOutOn = none
  movedInOn_le : r.movedInOn ≤ input.movedOutOn
  residencies : s'.residencies = s.residencies.map (closed input.residencyId input.movedOutOn)
  entries : ∃ rows, s'.memberRegisterEntries = s.memberRegisterEntries ++ rows ∧
    AppendsOwed r.personId createdAt r.role (memberSpans s.residencies r.personId)
      (memberSpans s'.residencies r.personId) rows

theorem exec_findResidencyOrFail {residencyId : String} {r : Residency}
    (h : exec (findResidencyOrFail residencyId) w = (.ok r, w')) :
    w' = w ∧ findResidency w.working.residencies residencyId = some r := by
  simp only [findResidencyOrFail, exec_bind_ok, exec_snapshot, Prod.mk.injEq,
    Except.ok.injEq] at h
  obtain ⟨s, w₁, ⟨rfl, rfl⟩, h⟩ := h
  cases hfind : findResidency w.working.residencies residencyId with
  | none =>
    rw [hfind] at h
    cases h
  | some found =>
    rw [hfind] at h
    obtain ⟨heq, rfl⟩ := Prod.mk.inj h
    rw [Except.ok.inj heq]
    exact ⟨rfl, rfl⟩

theorem exec_moveOut {input : MoveOutInput} {result : MoveOutResult}
    (h : exec (moveOut input) w = (.ok result, w')) :
    ∃ r, MovesOut input w.clock w.working w'.working r ∧ w'.committed = w'.working := by
  unfold moveOut at h
  simp only [exec_bind_ok, exec_refuseIf, exec_transaction_ok] at h
  obtain ⟨r, w₁, hfind, _, w₂, ⟨hopen, rfl⟩, _, w₃, ⟨hle, rfl⟩, _, w₄, ⟨-, rfl⟩, _, w₅, hreq, w₆, hbody, rfl⟩ := h
  obtain rfl := exec_requirePersons hreq
  obtain ⟨rfl, hfound⟩ := exec_findResidencyOrFail hfind
  simp only [exec_lockResidencyTransitionsInOrder, closeResidency, exec_updateRow, exec_pure,
    Prod.mk.injEq, Except.ok.injEq] at hbody
  obtain ⟨_, w₇, ⟨-, rfl⟩, before, w₈, hbefore, claimed, w₉, ⟨rfl, rfl⟩, _, w₁₀, ⟨hclaimed, rfl⟩,
    owed, w₁₁, howed, ids, w₁₂, htransfer, -, rfl⟩ := hbody
  obtain ⟨rfl, rfl⟩ := exec_memberResidenciesBefore hbefore
  have hid : r.id = input.residencyId := by simpa using List.find?_some hfound
  rw [Bool.not_eq_false] at hclaimed
  rw [if_pos hclaimed, hid] at howed
  obtain ⟨rows, hrows, hw₁₁⟩ := exec_appendOwed howed
  obtain ⟨ha, hp, hr, he⟩ := Elsewhere.frame (.mapM (fun _ => elsewhere_recordTransfer _) _)
    htransfer
  refine ⟨r, ⟨?_, ?_, hfound, not_not.mp hopen, not_lt.mp hle, ?_, rows, ?_, ?_⟩, rfl⟩
  · rw [hp, hw₁₁]
  · rw [ha, hw₁₁]
  · rw [hr, hw₁₁]
  · rw [he, hw₁₁]
  · rw [hr, hw₁₁]
    exact hrows

theorem failsClean_moveOut (input : MoveOutInput) : FailsClean (moveOut input) := by
  have hany : ∀ {α : Type} {p : Tx α}, Within Elsewhere p → Within AnyWrite p := fun h =>
    h.mono fun _ _ => trivial
  have hfind : Within AnyWrite (findResidencyOrFail input.residencyId) := by
    refine .bind .snapshot fun s => ?_
    cases findResidency s.residencies input.residencyId with
    | none => exact .fail _
    | some r => exact .pure r
  unfold moveOut
  refine .bind hfind fun r => .bind (P := AnyWrite) .refuseIf fun _ => ?_
  refine .bind (P := AnyWrite) .refuseIf fun _ => .bind (P := AnyWrite) .refuseIf fun _ => ?_
  refine .bind (P := AnyWrite) (.forM (fun _ => .bind .snapshot fun _ => .refuseIf) _) fun _ => ?_
  refine .transaction (P := AnyWrite) ?_
  refine .bind (.forM (fun _ => .acquire _ _) _) fun _ => ?_
  refine .bind (within_memberResidenciesBefore _ _) fun _ => ?_
  refine .bind (.updateRow _ _ trivial) fun _ => .bind .refuseIf fun _ => ?_
  exact .bind (within_appendOwed _ _) fun _ =>
    .bind (.mapM (fun _ => hany (elsewhere_recordTransfer _)) _) fun _ => .pure _

end OpenBrf.Moves
