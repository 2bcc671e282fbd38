import OpenBrf.Moves.MembershipReading

/-!
# Moves.HoldingRows — the rows of moves that leave one stretch an apartment

The register's rows name one apartment a transition, so they pair apartment by apartment only when
every residency has an ENTRY and an EXIT of its own.  `Paired` is the invariant that makes them:
each row falls within the stretch of one residency, between the instants it was opened and closed.
-/

namespace OpenBrf.Moves

open Txn Registers Timeline

/-! ### The invariant -/

/-- Whether a residency is held on a day. -/
def Holds (x : Residency) (d : Int) : Prop := x.movedInOn ≤ d ∧ ∀ m ∈ x.movedOutOn, d < m

theorem Holds.eq_span {x : Residency} {d : Int} : x.span.covers d = true ↔ Holds x d :=
  MemberResidencySpan.covers_iff

/-- When each residency was opened and closed, by its id. -/
structure Stamps where
  opened : String → Int
  closed : String → Int

def Stamps.open (st : Stamps) (id : String) (t : Int) : Stamps :=
  { st with opened := Function.update st.opened id t }

def Stamps.close (st : Stamps) (id : String) (t : Int) : Stamps :=
  { st with closed := Function.update st.closed id t }

@[simp] theorem Stamps.open_opened_self (st : Stamps) (id : String) (t : Int) :
    (st.open id t).opened id = t := Function.update_self ..

@[simp] theorem Stamps.open_opened_of_ne {st : Stamps} {id id' : String} (h : id' ≠ id) (t : Int) :
    (st.open id t).opened id' = st.opened id' := Function.update_of_ne h ..

@[simp] theorem Stamps.open_closed (st : Stamps) (id : String) (t : Int) :
    (st.open id t).closed = st.closed := rfl

@[simp] theorem Stamps.close_closed_self (st : Stamps) (id : String) (t : Int) :
    (st.close id t).closed id = t := Function.update_self ..

@[simp] theorem Stamps.close_closed_of_ne {st : Stamps} {id id' : String} (h : id' ≠ id)
    (t : Int) : (st.close id t).closed id' = st.closed id' := Function.update_of_ne h ..

@[simp] theorem Stamps.close_opened (st : Stamps) (id : String) (t : Int) :
    (st.close id t).opened = st.opened := rfl

/-- A row that falls within the stretch of a residency, from the instant it opened to the one
it closed. -/
structure InStretch (st : Stamps) (x : Residency) (row : MemberRegisterArchiveRow) : Prop where
  after : x.movedInOn < row.eventOn ∨
    (x.movedInOn = row.eventOn ∧ st.opened x.id ≤ row.createdAt)
  before : ∀ m ∈ x.movedOutOn,
    row.eventOn < m ∨ (row.eventOn = m ∧ row.createdAt < st.closed x.id)

/-- One residency closed before another was opened. -/
def ClosedBefore (st : Stamps) (x y : Residency) : Prop :=
  ∃ m ∈ x.movedOutOn, m < y.movedInOn ∨ (m = y.movedInOn ∧ st.closed x.id < st.opened y.id)

/-- A day of an ENTRY that bridges: another residency ended on it, and what else is held on it was
open before the residency that bridges. -/
structure Bridge (member : Residency → Prop) (x : Residency) (d : Int) : Prop where
  ended : ∃ y, member y ∧ y.movedOutOn = some d ∧ y.movedInOn < d
  open_of_holds : ∀ w, member w → w.id ≠ x.id → Holds w d →
    w.movedOutOn = none ∧ w.movedInOn < x.movedInOn

/-- **One person's residencies as a member and their rows, paired.**  Every row falls in the
stretch of one residency, every residency has its rows, and the residencies are nested or
apart. -/
structure Paired (member : Residency → Prop) (isRow : MemberRegisterArchiveRow → Prop)
    (st : Stamps) : Prop where
  entry : ∀ row, isRow row → row.eventType = .ENTRY →
    ∃ x, member x ∧ row.apartmentId = some x.apartmentId ∧ InStretch st x row
  exit : ∀ row, isRow row → row.eventType = .EXIT →
    ∃ x, member x ∧ row.apartmentId = some x.apartmentId ∧ x.movedOutOn = some row.eventOn ∧
      st.closed x.id = row.createdAt
  opened : ∀ x, member x → ∃ row, isRow row ∧ row.eventType = .ENTRY ∧
    row.apartmentId = some x.apartmentId ∧ row.eventOn = x.movedInOn ∧
      row.createdAt = st.opened x.id
  closed : ∀ x, member x → ∀ m ∈ x.movedOutOn, ∃ row, isRow row ∧ row.eventType = .EXIT ∧
    row.apartmentId = some x.apartmentId ∧ row.eventOn = m ∧ row.createdAt = st.closed x.id
  lt : ∀ x, member x → ∀ m ∈ x.movedOutOn, x.movedInOn < m
  apart : ∀ x y, member x → member y → x.id ≠ y.id → x.apartmentId = y.apartmentId →
    ClosedBefore st x y ∨ ClosedBefore st y x
  distinct : ∀ x y, member x → member y → x.id ≠ y.id → x.movedInOn ≠ y.movedInOn
  nested : ∀ x y, member x → member y → x.movedInOn < y.movedInOn →
    (∃ m ∈ x.movedOutOn, m ≤ y.movedInOn) ∨ ∀ m ∈ x.movedOutOn, ∃ n ∈ y.movedOutOn, n ≤ m
  bridge : ∀ x row, member x → x.movedOutOn = none → isRow row → row.eventType = .ENTRY →
    row.apartmentId = some x.apartmentId → x.movedInOn < row.eventOn →
      Bridge member x row.eventOn

theorem Paired.nil (st : Stamps) : Paired (fun _ => False) (fun _ => False) st := by
  constructor <;> simp

section Steps

variable {member : Residency → Prop} {isRow new : MemberRegisterArchiveRow → Prop} {st : Stamps}
  {x : Residency} {t : Int}

/-! ### A row again -/

/-- ENTRY rows on a day a home begins, before which none of the person's does. -/
structure FirstRows (member : Residency → Prop) (t : Int)
    (new : MemberRegisterArchiveRow → Prop) : Prop where
  createdAt : ∀ row, new row → row.createdAt = t
  eventType : ∀ row, new row → row.eventType = .ENTRY
  home : ∀ row, new row → ∃ y, member y ∧ y.movedInOn = row.eventOn ∧ Holds y row.eventOn ∧
    row.apartmentId = some y.apartmentId
  first : ∀ row, new row → ∀ y, member y → row.eventOn ≤ y.movedInOn

/-- A row that says again that the first home began falls in its stretch. -/
theorem Paired.again (h : Paired member isRow st) (hnew : FirstRows member t new)
    (hstamp : ∀ row, isRow row → row.createdAt ≤ t) :
    Paired member (fun row => isRow row ∨ new row) st where
  entry := by
    rintro row (hrow | hrow) htype
    · exact h.entry row hrow htype
    · obtain ⟨y, hy, hin, hheld, hapt⟩ := hnew.home row hrow
      obtain ⟨first, hfirst, -, -, -, hc⟩ := h.opened y hy
      refine ⟨y, hy, hapt, .inr ⟨hin, ?_⟩, fun m hm => .inl (hheld.2 m hm)⟩
      rw [hnew.createdAt row hrow, ← hc]
      exact hstamp first hfirst
  exit := by
    rintro row (hrow | hrow) htype
    · exact h.exit row hrow htype
    · rw [hnew.eventType row hrow] at htype
      cases htype
  opened := fun y hy => (h.opened y hy).imp fun _ hrow => ⟨.inl hrow.1, hrow.2⟩
  closed := fun y hy m hm => (h.closed y hy m hm).imp fun _ hrow => ⟨.inl hrow.1, hrow.2⟩
  lt := h.lt
  apart := h.apart
  distinct := h.distinct
  nested := h.nested
  bridge := by
    rintro y row hy hopen (hrow | hrow) htype hapt hlt
    · exact h.bridge y row hy hopen hrow htype hapt hlt
    · exact absurd hlt (hnew.first row hrow y hy).not_gt

/-! ### A move-in -/

/-- What a move-in appends: ENTRY rows of its apartment, one on its day and one on each later day
the others stop. -/
structure EntryRows (member : Residency → Prop) (x : Residency) (t : Int)
    (new : MemberRegisterArchiveRow → Prop) : Prop where
  createdAt : ∀ row, new row → row.createdAt = t
  eventType : ∀ row, new row → row.eventType = .ENTRY
  apartmentId : ∀ row, new row → row.apartmentId = some x.apartmentId
  le : ∀ row, new row → x.movedInOn ≤ row.eventOn
  stops : ∀ row, new row → x.movedInOn < row.eventOn →
    (∃ y, member y ∧ Holds y (row.eventOn - 1)) ∧ ∀ y, member y → ¬ Holds y row.eventOn
  first : ∃ row, new row ∧ row.eventOn = x.movedInOn

/-- A residency not held on a day it had begun by is over by then. -/
theorem over_of_not_holds {y : Residency} {d : Int} (h : ¬ Holds y d) (hle : y.movedInOn ≤ d) :
    ∃ m ∈ y.movedOutOn, m ≤ d := by
  by_contra hnone
  push Not at hnone
  exact h ⟨hle, hnone⟩

theorem Paired.opened_lt (h : Paired member isRow st) (hstamp : ∀ row, isRow row → row.createdAt < t)
    {y : Residency} (hy : member y) : st.opened y.id < t := by
  obtain ⟨row, hrow, -, -, -, hc⟩ := h.opened y hy
  exact hc ▸ hstamp row hrow

theorem Paired.closed_lt (h : Paired member isRow st) (hstamp : ∀ row, isRow row → row.createdAt < t)
    {y : Residency} (hy : member y) {m : Int} (hm : m ∈ y.movedOutOn) : st.closed y.id < t := by
  obtain ⟨row, hrow, -, -, -, hc⟩ := h.closed y hy m hm
  exact hc ▸ hstamp row hrow

/-- The rows of a move-in fall in its stretch, which is still open. -/
theorem Paired.enter_entry (h : Paired member isRow st) (hnew : EntryRows member x t new)
    (hopen : x.movedOutOn = none) (hid : ∀ y, member y → y.id ≠ x.id) :
    ∀ row, isRow row ∨ new row → row.eventType = .ENTRY → ∃ y, (member y ∨ y = x) ∧
      row.apartmentId = some y.apartmentId ∧ InStretch (st.open x.id t) y row := by
  rintro row (hrow | hrow) htype
  · obtain ⟨y, hy, hapt, hw⟩ := h.entry row hrow htype
    have hopened : (st.open x.id t).opened y.id = st.opened y.id :=
      Stamps.open_opened_of_ne (hid y hy) t
    exact ⟨y, .inl hy, hapt, hopened.symm ▸ hw.after, hw.before⟩
  · refine ⟨x, .inr rfl, hnew.apartmentId row hrow, ?_, by simp [hopen]⟩
    have hle := hnew.le row hrow
    have hc := hnew.createdAt row hrow
    rw [Stamps.open_opened_self]
    omega

/-- What was on the apartment is over before the move-in opens. -/
theorem Paired.enter_apart (h : Paired member isRow st) (hid : ∀ y, member y → y.id ≠ x.id)
    (hfree : ∀ y, member y → y.apartmentId = x.apartmentId → ∃ m ∈ y.movedOutOn, m ≤ x.movedInOn)
    (hstamp : ∀ row, isRow row → row.createdAt < t) :
    ∀ y z, member y ∨ y = x → member z ∨ z = x → y.id ≠ z.id → y.apartmentId = z.apartmentId →
      ClosedBefore (st.open x.id t) y z ∨ ClosedBefore (st.open x.id t) z y := by
  have hbefore : ∀ y, member y → y.apartmentId = x.apartmentId →
      ClosedBefore (st.open x.id t) y x := by
    intro y hy hapt
    obtain ⟨m, hm, hle⟩ := hfree y hy hapt
    have hlt := h.closed_lt hstamp hy hm
    refine ⟨m, hm, ?_⟩
    rw [Stamps.open_opened_self, Stamps.open_closed]
    omega
  have hkeep : ∀ y z, member z → ClosedBefore st y z → ClosedBefore (st.open x.id t) y z := by
    rintro y z hz ⟨m, hm, hlt⟩
    exact ⟨m, hm, by rwa [Stamps.open_opened_of_ne (hid z hz)]⟩
  rintro y z (hy | rfl) (hz | rfl) hne hapt
  · exact (h.apart y z hy hz hne hapt).imp (hkeep y z hz) (hkeep z y hy)
  · exact .inl (hbefore y hy hapt)
  · exact .inr (hbefore z hz hapt.symm)
  · exact absurd rfl hne

/-- The later ENTRY rows of a move-in bridge over the days the others stop. -/
theorem Paired.enter_bridge (h : Paired member isRow st) (hnew : EntryRows member x t new)
    (hopen : x.movedOutOn = none)
    (hfree : ∀ y, member y → y.apartmentId = x.apartmentId → ∃ m ∈ y.movedOutOn, m ≤ x.movedInOn)
    (hnot : ∀ y, member y → ¬ Holds y x.movedInOn) :
    ∀ y row, member y ∨ y = x → y.movedOutOn = none → isRow row ∨ new row →
      row.eventType = .ENTRY → row.apartmentId = some y.apartmentId → y.movedInOn < row.eventOn →
        Bridge (fun y => member y ∨ y = x) y row.eventOn := by
  rintro y row (hy | rfl) hyopen (hrow | hrow) htype hapt hlt
  · obtain ⟨⟨z, hz, hzout, hzlt⟩, hothers⟩ := h.bridge y row hy hyopen hrow htype hapt hlt
    refine ⟨⟨z, .inl hz, hzout, hzlt⟩, ?_⟩
    rintro w (hw | rfl) hne hheld
    · exact hothers w hw hne hheld
    · refine ⟨hopen, ?_⟩
      by_contra hge
      exact hnot y hy ⟨not_lt.mp hge, by simp [hyopen]⟩
  · -- another apartment than one held open
    obtain ⟨m, hm, -⟩ := hfree y hy (Option.some.inj (hapt.symm.trans
      (hnew.apartmentId row hrow)))
    rw [hyopen] at hm
    cases hm
  · -- an older row of the apartment lies in a residency over by now
    obtain ⟨z, hz, hzapt, hw⟩ := h.entry row hrow htype
    obtain ⟨m, hm, hle⟩ := hfree z hz (Option.some.inj (hzapt.symm.trans hapt))
    have := hw.before m hm
    omega
  · obtain ⟨⟨z, hz, hin, hout⟩, hnone⟩ := hnew.stops row hrow hlt
    refine ⟨⟨z, .inl hz, ?_, by omega⟩, ?_⟩
    · obtain ⟨m, hm, hmle⟩ := over_of_not_holds (hnone z hz) (by omega)
      have := hout m hm
      obtain rfl : m = row.eventOn := by omega
      exact hm
    · rintro w (hw | rfl) hne hheld
      · exact absurd hheld (hnone w hw)
      · exact absurd rfl hne

/-- **A move-in** on a day nothing else is held keeps the rows paired. -/
theorem Paired.enter (h : Paired member isRow st) (hnew : EntryRows member x t new)
    (hopen : x.movedOutOn = none) (hid : ∀ y, member y → y.id ≠ x.id)
    (hfree : ∀ y, member y → y.apartmentId = x.apartmentId → ∃ m ∈ y.movedOutOn, m ≤ x.movedInOn)
    (hnot : ∀ y, member y → ¬ Holds y x.movedInOn) (hstamp : ∀ row, isRow row → row.createdAt < t) :
    Paired (fun y => member y ∨ y = x) (fun row => isRow row ∨ new row) (st.open x.id t) := by
  have hx : ∀ m ∈ x.movedOutOn, False := by simp [hopen]
  -- an older residency is over by the day of the move, or begins after it
  have hpast : ∀ y, member y → y.movedInOn ≤ x.movedInOn → ∃ m ∈ y.movedOutOn, m ≤ x.movedInOn :=
    fun y hy => over_of_not_holds (hnot y hy)
  refine ⟨h.enter_entry hnew hopen hid, ?_, ?_, ?_, ?_, h.enter_apart hid hfree hstamp, ?_, ?_,
    h.enter_bridge hnew hopen hfree hnot⟩
  · rintro row (hrow | hrow) htype
    · obtain ⟨y, hy, hrest⟩ := h.exit row hrow htype
      exact ⟨y, .inl hy, hrest⟩
    · rw [hnew.eventType row hrow] at htype
      cases htype
  · rintro y (hy | rfl)
    · obtain ⟨row, hrow, htype, hapt, hon, hc⟩ := h.opened y hy
      exact ⟨row, .inl hrow, htype, hapt, hon, hc.trans (Stamps.open_opened_of_ne (hid y hy) t).symm⟩
    · obtain ⟨row, hrow, hon⟩ := hnew.first
      exact ⟨row, .inr hrow, hnew.eventType row hrow, hnew.apartmentId row hrow, hon,
        (hnew.createdAt row hrow).trans (Stamps.open_opened_self ..).symm⟩
  · rintro y (hy | rfl) m hm
    · obtain ⟨row, hrow, hrest⟩ := h.closed y hy m hm
      exact ⟨row, .inl hrow, hrest⟩
    · exact (hx m hm).elim
  · rintro y (hy | rfl) m hm
    · exact h.lt y hy m hm
    · exact (hx m hm).elim
  · have hdiff : ∀ y, member y → y.movedInOn ≠ x.movedInOn := by
      intro y hy heq
      obtain ⟨m, hm, hle⟩ := hpast y hy heq.le
      have := h.lt y hy m hm
      omega
    rintro y z (hy | rfl) (hz | rfl) hne
    · exact h.distinct y z hy hz hne
    · exact hdiff y hy
    · exact (hdiff z hz).symm
    · exact absurd rfl hne
  · rintro y z (hy | rfl) (hz | rfl) hlt
    · exact h.nested y z hy hz hlt
    · exact .inl (hpast y hy hlt.le)
    · exact .inr fun m hm => (hx m hm).elim
    · exact absurd hlt (lt_irrefl _)

/-! ### A move-out -/

/-- What a move-out appends: an EXIT of its apartment on its day, and ENTRY rows on later days a
residency of the others begins. -/
structure ExitRows (member : Residency → Prop) (x : Residency) (m t : Int)
    (new : MemberRegisterArchiveRow → Prop) : Prop where
  createdAt : ∀ row, new row → row.createdAt = t
  eventType : ∀ row, new row → row.eventType = .ENTRY ∨ row.eventType = .EXIT
  exit : ∀ row, new row → row.eventType = .EXIT →
    row.eventOn = m ∧ row.apartmentId = some x.apartmentId
  entry : ∀ row, new row → row.eventType = .ENTRY → m < row.eventOn ∧
    ∃ z, member z ∧ z.id ≠ x.id ∧ z.movedInOn = row.eventOn ∧ Holds z row.eventOn ∧
      row.apartmentId = some z.apartmentId
  last : ∃ row, new row ∧ row.eventType = .EXIT

section MoveOut

variable {m : Int} (h : Paired member isRow st) (hx : member x) (hopen : x.movedOutOn = none)
  (hids : ∀ y z, member y → member z → y.id = z.id → y = z)
  (hnot : ∀ y, member y → y.id ≠ x.id → ¬ Holds y m)

include hnot in
/-- An open residency begun by the day of the move would be held on it. -/
theorem lt_movedInOn_of_open {y : Residency} (hy : member y) (hne : y.id ≠ x.id)
    (hyopen : y.movedOutOn = none) : m < y.movedInOn := by
  by_contra hge
  exact hnot y hy hne ⟨not_lt.mp hge, by simp [hyopen]⟩

include hopen hids hx in
theorem id_ne_of_ended {y : Residency} (hy : member y) {d : Int} (hout : y.movedOutOn = some d) :
    y.id ≠ x.id := by
  intro heq
  rw [hids y x hy hx heq, hopen] at hout
  cases hout

include h hx hopen hids hnot

/-- No row of the residency moved out of is dated after the day: it would bridge over a day the others
stop. -/
theorem Paired.eventOn_le (hup : ∀ d, m < d → (∃ y, member y ∧ y.id ≠ x.id ∧ Holds y (d - 1)) →
      ∃ y, member y ∧ y.id ≠ x.id ∧ Holds y d) (hlt : x.movedInOn < m)
    {row : MemberRegisterArchiveRow} (hrow : isRow row) (htype : row.eventType = .ENTRY)
    (hapt : row.apartmentId = some x.apartmentId) : row.eventOn ≤ m := by
  by_contra hgt
  have hon : m < row.eventOn := not_le.mp hgt
  obtain ⟨⟨z, hz, hzout, hzlt⟩, hothers⟩ := h.bridge x row hx hopen hrow htype hapt (by omega)
  have hzne := id_ne_of_ended hx hopen hids hz hzout
  obtain ⟨w, hwm, hwne, hw⟩ := hup row.eventOn hon ⟨z, hz, hzne, by omega, by simp [hzout]⟩
  obtain ⟨hwopen, hwlt⟩ := hothers w hwm hwne hw
  have := lt_movedInOn_of_open hnot hwm hwne hwopen
  omega

theorem Paired.moveOut_entry (hnew : ExitRows member x m t new) (hlt : x.movedInOn < m)
    (hup : ∀ d, m < d → (∃ y, member y ∧ y.id ≠ x.id ∧ Holds y (d - 1)) →
      ∃ y, member y ∧ y.id ≠ x.id ∧ Holds y d)
    (hstamp : ∀ row, isRow row → row.createdAt < t) :
    ∀ row, isRow row ∨ new row → row.eventType = .ENTRY →
      ∃ y, ((member y ∧ y.id ≠ x.id) ∨ y = { x with movedOutOn := some m }) ∧
        row.apartmentId = some y.apartmentId ∧ InStretch (st.close x.id t) y row := by
  rintro row (hrow | hrow) htype
  · obtain ⟨y, hy, hapt, hw⟩ := h.entry row hrow htype
    by_cases hne : y.id = x.id
    · obtain rfl := hids y x hy hx hne
      refine ⟨_, .inr rfl, hapt, hw.after, ?_⟩
      intro last hlast
      obtain rfl : m = last := Option.some.inj hlast
      have hc := hstamp row hrow
      have hle := h.eventOn_le hx hopen hids hnot hup hlt hrow htype hapt
      have hclosed : (st.close y.id t).closed ({ y with movedOutOn := some m } : Residency).id = t :=
        Stamps.close_closed_self ..
      rw [hclosed]
      omega
    · exact ⟨y, .inl ⟨hy, hne⟩, hapt, hw.after, (Stamps.close_closed_of_ne hne t).symm ▸ hw.before⟩
  · obtain ⟨hon, z, hz, hzne, hzin, hzheld, hzapt⟩ := hnew.entry row hrow htype
    refine ⟨z, .inl ⟨hz, hzne⟩, hzapt, ?_, fun n hn => .inl (hzheld.2 n hn)⟩
    have h1 := h.opened_lt hstamp hz
    have h2 := hnew.createdAt row hrow
    rw [Stamps.close_opened]
    omega

omit hids hnot in
theorem Paired.moveOut_apart :
    ∀ y z, (member y ∧ y.id ≠ x.id) ∨ y = { x with movedOutOn := some m } →
      (member z ∧ z.id ≠ x.id) ∨ z = { x with movedOutOn := some m } → y.id ≠ z.id →
      y.apartmentId = z.apartmentId →
        ClosedBefore (st.close x.id t) y z ∨ ClosedBefore (st.close x.id t) z y := by
  have hkeep : ∀ y z : Residency, y.id ≠ x.id → ClosedBefore st y z →
      ClosedBefore (st.close x.id t) y z := by
    rintro y z hne ⟨n, hn, hcb⟩
    exact ⟨n, hn, by rw [Stamps.close_closed_of_ne hne]; exact hcb⟩
  have hbefore : ∀ y, member y → y.id ≠ x.id → y.apartmentId = x.apartmentId →
      ClosedBefore (st.close x.id t) y { x with movedOutOn := some m } := by
    intro y hy hne hapt
    rcases h.apart y x hy hx hne hapt with hcb | ⟨n, hn, -⟩
    · exact hkeep y _ hne hcb
    · rw [hopen] at hn
      cases hn
  rintro y z (⟨hy, hyne⟩ | rfl) (⟨hz, hzne⟩ | rfl) hne hapt
  · exact (h.apart y z hy hz hne hapt).imp (hkeep y z hyne) (hkeep z y hzne)
  · exact .inl (hbefore y hy hyne hapt)
  · exact .inr (hbefore z hz hzne hapt.symm)
  · exact absurd rfl hne

omit hids in
theorem Paired.moveOut_nested (hlt : x.movedInOn < m) :
    ∀ y z, (member y ∧ y.id ≠ x.id) ∨ y = { x with movedOutOn := some m } →
      (member z ∧ z.id ≠ x.id) ∨ z = { x with movedOutOn := some m } →
      y.movedInOn < z.movedInOn → (∃ m ∈ y.movedOutOn, m ≤ z.movedInOn) ∨
        ∀ m ∈ y.movedOutOn, ∃ n ∈ z.movedOutOn, n ≤ m := by
  rintro y z (⟨hy, hyne⟩ | rfl) (⟨hz, hzne⟩ | rfl) hyz
  · exact h.nested y z hy hz hyz
  · have hyz : y.movedInOn < x.movedInOn := hyz
    obtain ⟨n, hn, -⟩ := over_of_not_holds (hnot y hy hyne) (by omega)
    rcases h.nested y x hy hx hyz with hout | hall
    · exact .inl hout
    · obtain ⟨n', hn', -⟩ := hall n hn
      rw [hopen] at hn'
      cases hn'
  · have hyz : x.movedInOn < z.movedInOn := hyz
    by_cases hmz : m ≤ z.movedInOn
    · exact .inl ⟨m, rfl, hmz⟩
    · refine .inr fun last hlast => ?_
      obtain rfl : m = last := Option.some.inj hlast
      exact over_of_not_holds (hnot z hz hzne) (by omega)
  · exact absurd hyz (lt_irrefl _)

theorem Paired.moveOut_bridge (hnew : ExitRows member x m t new) :
    ∀ y row, (member y ∧ y.id ≠ x.id) ∨ y = { x with movedOutOn := some m } →
      y.movedOutOn = none → isRow row ∨ new row → row.eventType = .ENTRY →
      row.apartmentId = some y.apartmentId → y.movedInOn < row.eventOn →
        Bridge (fun y => (member y ∧ y.id ≠ x.id) ∨ y = { x with movedOutOn := some m }) y
          row.eventOn := by
  rintro y row (⟨hy, hyne⟩ | rfl) hyopen (hrow | hrow) htype hapt hylt
  · obtain ⟨⟨z, hz, hzout, hzlt⟩, hothers⟩ := h.bridge y row hy hyopen hrow htype hapt hylt
    refine ⟨⟨z, .inl ⟨hz, id_ne_of_ended hx hopen hids hz hzout⟩, hzout, hzlt⟩, ?_⟩
    rintro w (⟨hw, hwne⟩ | rfl) hne hheld
    · exact hothers w hw hne hheld
    · -- the residency closed was held open over the day, and so is the other on the last day
      have hxheld : Holds x row.eventOn := ⟨hheld.1, by simp [hopen]⟩
      obtain ⟨-, hin⟩ := hothers x hx hyne.symm hxheld
      have hon : row.eventOn < m := hheld.2 m rfl
      have := lt_movedInOn_of_open hnot hy hyne hyopen
      omega
  · obtain ⟨hon, z, hz, hzne, hzin, hzheld, hzapt⟩ := hnew.entry row hrow htype
    have hapts : y.apartmentId = z.apartmentId := Option.some.inj (hapt.symm.trans hzapt)
    -- the residency that begins there is the one on the apartment
    have hyz : y.id ≠ z.id := by
      intro heq
      rw [hids y z hy hz heq] at hylt
      omega
    rcases h.apart y z hy hz hyz hapts with ⟨n, hn, -⟩ | ⟨n, hn, hcb⟩
    · rw [hyopen] at hn
      cases hn
    · have := h.lt z hz n hn
      omega
  · cases hyopen
  · cases hyopen

/-- **A move-out** on a day nothing else is held, after which nothing else ends, keeps the rows
paired. -/
theorem Paired.moveOut (hnew : ExitRows member x m t new) (hlt : x.movedInOn < m)
    (hup : ∀ d, m < d → (∃ y, member y ∧ y.id ≠ x.id ∧ Holds y (d - 1)) →
      ∃ y, member y ∧ y.id ≠ x.id ∧ Holds y d)
    (hstamp : ∀ row, isRow row → row.createdAt < t) :
    Paired (fun y => (member y ∧ y.id ≠ x.id) ∨ y = { x with movedOutOn := some m })
      (fun row => isRow row ∨ new row) (st.close x.id t) := by
  refine ⟨h.moveOut_entry hx hopen hids hnot hnew hlt hup hstamp, ?_, ?_, ?_, ?_,
    h.moveOut_apart hx hopen, ?_, h.moveOut_nested hx hopen hnot hlt,
    h.moveOut_bridge hx hopen hids hnot hnew⟩
  · rintro row (hrow | hrow) htype
    · obtain ⟨y, hy, hapt, hout, hc⟩ := h.exit row hrow htype
      have hne := id_ne_of_ended hx hopen hids hy hout
      exact ⟨y, .inl ⟨hy, hne⟩, hapt, hout, (Stamps.close_closed_of_ne hne t).trans hc⟩
    · obtain ⟨hon, hapt⟩ := hnew.exit row hrow htype
      refine ⟨_, .inr rfl, hapt, by rw [hon], ?_⟩
      exact (Stamps.close_closed_self ..).trans (hnew.createdAt row hrow).symm
  · have hkeep : ∀ y, member y → ∃ row, (isRow row ∨ new row) ∧ row.eventType = .ENTRY ∧
        row.apartmentId = some y.apartmentId ∧ row.eventOn = y.movedInOn ∧
          row.createdAt = (st.close x.id t).opened y.id := by
      intro y hy
      obtain ⟨row, hrow, hrest⟩ := h.opened y hy
      exact ⟨row, .inl hrow, hrest⟩
    rintro y (⟨hy, -⟩ | rfl)
    · exact hkeep y hy
    · exact hkeep x hx
  · rintro y (⟨hy, hne⟩ | rfl) n hn
    · obtain ⟨row, hrow, htype, hapt, hon, hc⟩ := h.closed y hy n hn
      exact ⟨row, .inl hrow, htype, hapt, hon, hc.trans (Stamps.close_closed_of_ne hne t).symm⟩
    · obtain rfl : m = n := Option.some.inj hn
      obtain ⟨row, hrow, htype⟩ := hnew.last
      obtain ⟨hon, hapt⟩ := hnew.exit row hrow htype
      exact ⟨row, .inr hrow, htype, hapt, hon,
        (hnew.createdAt row hrow).trans (Stamps.close_closed_self ..).symm⟩
  · rintro y (⟨hy, -⟩ | rfl) n hn
    · exact h.lt y hy n hn
    · obtain rfl : m = n := Option.some.inj hn
      exact hlt
  · rintro y z (⟨hy, hyne⟩ | rfl) (⟨hz, hzne⟩ | rfl) hne
    · exact h.distinct y z hy hz hne
    · exact h.distinct y x hy hx hyne
    · exact h.distinct x z hx hz hzne.symm
    · exact absurd rfl hne

end MoveOut

end Steps

end OpenBrf.Moves
