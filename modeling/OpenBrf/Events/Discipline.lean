import Mathlib.Data.List.Find
import Mathlib.Data.List.Pairwise
import OpenBrf.Events.Service
import OpenBrf.Txn.Safe

/-!
# Events.Discipline — what every commit keeps of the dates and the sign-ups

The invariant of the sign-ups, the facts that the locks guard, and what a commit owes of each kind
of change.
-/

namespace OpenBrf.Events

open Txn Shared

variable {t : Int} {s s' s'' : EventStore}

/-- Two sign-ups of different identifiers, and not of one person to one date. -/
def Distinct (a b : EventSignup) : Prop :=
  a.id ≠ b.id ∧ ¬ (a.occurrenceId = b.occurrenceId ∧ a.personId = b.personId)

instance : Std.Symm Distinct where
  symm _ _ h := ⟨h.1.symm, fun hkey => h.2 ⟨hkey.1.symm, hkey.2.symm⟩⟩

/-- The unique keys of the sign-ups. -/
def Tidy (s : EventStore) : Prop := s.signups.Pairwise Distinct

/-- The date is there as it was, and not called off if it was not. -/
def DateStands (occurrenceId : String) (s s' : EventStore) : Prop :=
  ∀ occ ∈ findOccurrence s occurrenceId, ∃ occ' ∈ findOccurrence s' occurrenceId,
    occ'.eventId = occ.eventId ∧ (occ.cancelledAt = none → occ'.cancelledAt = none)

/-- The sign-ups to a date are there, whether they stand or not. -/
def RowsStay (occurrenceId : String) (s s' : EventStore) : Prop :=
  ∀ a ∈ s.signups, a.occurrenceId = occurrenceId →
    ∃ a' ∈ s'.signups, a'.id = a.id ∧ a'.occurrenceId = a.occurrenceId

/-- A date somebody stands on is where it was. -/
def Unmoved (s s' : EventStore) : Prop :=
  ∀ occ ∈ s.occurrences, standingOn s occ.id ≠ [] →
    ∃ occ' ∈ s'.occurrences, occ'.id = occ.id ∧ occ'.startsAt = occ.startsAt ∧
      occ'.endsAt = occ.endsAt

/-- Somebody stands on a date who did not. -/
def StandsNewly (s s' : EventStore) (occurrenceId personId : String) : Prop :=
  (∃ a ∈ standingOn s' occurrenceId, a.personId = personId) ∧
    ¬ ∃ a ∈ standingOn s occurrenceId, a.personId = personId

/-- The transaction read, under the lock of the date, a capacity that those who stand on the date
do not fill. -/
def PlaceFree (reads : List (Sight EventStore EventLock)) (s : EventStore) (occurrenceId : String) :
    Prop :=
  ∃ sight ∈ reads, (EventLock.occurrenceSignups occurrenceId, Mode.exclusive) ∈ sight.held ∧
    ∃ occ ∈ findOccurrence sight.store occurrenceId, ∃ event ∈ findEvent sight.store occ.eventId,
      ∀ capacity ∈ event.capacity, (standingOn s occurrenceId).length < capacity

/-- The date is one that goes ahead. -/
def GoesAhead (s : EventStore) (occurrenceId : String) : Prop :=
  ∃ occ ∈ findOccurrence s occurrenceId, occ.cancelledAt = none

/-- What stands while the locks on it are held. -/
inductive EventFact where
  /-- A date stands, its sign-ups stay, and nobody takes a place. -/
  | date (occurrenceId : String)
  /-- A series gets no date. -/
  | series (eventId : String)
  /-- A person gets no sign-up to a date. -/
  | signupKey (occurrenceId personId : String)
  /-- No sign-up gets an identifier. -/
  | signupRow (id : String)

namespace EventFact

def guards : EventFact → EventLock → Mode → Prop
  | date o, l, m => l = .occurrenceSignups o ∧ m = .exclusive
  | series e, l, m => l = .eventRow e ∧ m = .exclusive
  | signupKey o p, l, m => l = .signupKey o p ∧ m = .exclusive
  | signupRow id, l, m => l = .signupRow id ∧ m = .exclusive

def keeps : EventFact → EventStore → EventStore → Prop
  | date o, s, s' => DateStands o s s' ∧ RowsStay o s s' ∧ (standingOn s' o).Sublist (standingOn s o)
  | series e, s, s' => ∀ occ' ∈ s'.occurrences, occ'.eventId = e →
      ∃ occ ∈ s.occurrences, occ.id = occ'.id ∧ occ.eventId = e
  | signupKey o p, s, s' => ∀ a' ∈ s'.signups, a'.occurrenceId = o → a'.personId = p →
      ∃ a ∈ s.signups, a.occurrenceId = o ∧ a.personId = p
  | signupRow id, s, s' => ∀ a' ∈ s'.signups, a'.id = id → ∃ a ∈ s.signups, a.id = id

theorem keeps_refl (k : EventFact) (s : EventStore) : k.keeps s s := by
  cases k with
  | date o =>
    exact ⟨fun occ h => ⟨occ, h, rfl, id⟩, fun a ha _ => ⟨a, ha, rfl, rfl⟩, .refl _⟩
  | series e => exact fun occ h he => ⟨occ, h, rfl, he⟩
  | signupKey o p => exact fun a ha ho hp => ⟨a, ha, ho, hp⟩
  | signupRow id => exact fun a ha hid => ⟨a, ha, hid⟩

theorem keeps_trans {k : EventFact} (h : k.keeps s s') (h' : k.keeps s' s'') : k.keeps s s'' := by
  cases k with
  | date o =>
    obtain ⟨hdate, hrows, hsub⟩ := h
    obtain ⟨hdate', hrows', hsub'⟩ := h'
    refine ⟨fun occ hocc => ?_, fun a ha ho => ?_, hsub'.trans hsub⟩
    · obtain ⟨occ', hocc', he, hc⟩ := hdate occ hocc
      obtain ⟨occ'', hocc'', he', hc'⟩ := hdate' occ' hocc'
      exact ⟨occ'', hocc'', he'.trans he, fun hnone => hc' (hc hnone)⟩
    · obtain ⟨a', ha', hid, hoc⟩ := hrows a ha ho
      obtain ⟨a'', ha'', hid', hoc'⟩ := hrows' a' ha' (hoc.trans ho)
      exact ⟨a'', ha'', hid'.trans hid, hoc'.trans hoc⟩
  | series e =>
    intro occ'' hocc'' he
    obtain ⟨occ', hocc', hid', he'⟩ := h' occ'' hocc'' he
    obtain ⟨occ, hocc, hid, he⟩ := h occ' hocc' he'
    exact ⟨occ, hocc, hid.trans hid', he⟩
  | signupKey o p =>
    intro a'' ha'' ho hp
    obtain ⟨a', ha', ho', hp'⟩ := h' a'' ha'' ho hp
    exact h a' ha' ho' hp'
  | signupRow id =>
    intro a'' ha'' hid
    obtain ⟨a', ha', hid'⟩ := h' a'' ha'' hid
    exact h a' ha' hid'

end EventFact

/-- What commits keep of the dates and the sign-ups. -/
def eventDiscipline : Discipline EventStore EventLock EventFact where
  inv _ s := Tidy s
  guards := EventFact.guards
  keeps := EventFact.keeps
  allowed reads _ s s' := Unmoved s s' ∧
    ∀ o p, StandsNewly s s' o p → GoesAhead s o ∧ PlaceFree reads s o
  inv_mono _ h := h
  keeps_refl := EventFact.keeps_refl
  keeps_trans := EventFact.keeps_trans

variable {held : List (EventLock × Mode)} {reads : List (Sight EventStore EventLock)}

/-- A fact of one lock stands unless the lock is held. -/
theorem not_mem_of_unguarded {k : EventFact} {l : EventLock}
    (hk : eventDiscipline.Unguarded held k) (hl : k.guards l .exclusive) :
    (l, Mode.exclusive) ∉ held := by
  intro hheld
  obtain ⟨h, -⟩ := hk l .exclusive hl _ hheld
  cases h

theorem guarded_of_mem {k : EventFact} {l : EventLock} (hl : (l, Mode.exclusive) ∈ held)
    (hk : ∀ l' m, k.guards l' m → l' = l) : eventDiscipline.Guarded held k := by
  intro l' m hl'
  obtain rfl := hk l' m hl'
  exact ⟨.exclusive, hl, fun _ => rfl⟩

/-! ### Dates changed -/

/-- A change of dates: the sign-ups to those in `ids` may go with them, and those of the series in
`owned` may be new. -/
structure Reshapes (ids owned : String → Prop) (s s' : EventStore) : Prop where
  signups : s'.signups.Sublist s.signups
  rows : ∀ a ∈ s.signups, ¬ ids a.occurrenceId → a ∈ s'.signups
  stands : ∀ o, ¬ ids o → DateStands o s s'
  unmoved : ∀ occ ∈ s.occurrences, ¬ ids occ.id → ∃ occ' ∈ s'.occurrences,
    occ'.id = occ.id ∧ occ'.startsAt = occ.startsAt ∧ occ'.endsAt = occ.endsAt
  own : ∀ occ' ∈ s'.occurrences, owned occ'.eventId ∨
    ∃ occ ∈ s.occurrences, occ.id = occ'.id ∧ occ.eventId = occ'.eventId

namespace Reshapes

variable {ids owned : String → Prop}

theorem refl (s : EventStore) : Reshapes ids owned s s where
  signups := .refl _
  rows _ ha _ := ha
  stands _ _ := fun occ hocc => ⟨occ, hocc, rfl, id⟩
  unmoved occ hocc _ := ⟨occ, hocc, rfl, rfl, rfl⟩
  own occ hocc := .inr ⟨occ, hocc, rfl, rfl⟩

theorem trans (h : Reshapes ids owned s s') (h' : Reshapes ids owned s' s'') :
    Reshapes ids owned s s'' where
  signups := h'.signups.trans h.signups
  rows a ha ho := h'.rows a (h.rows a ha ho) ho
  stands o ho := by
    intro occ hocc
    obtain ⟨occ', hocc', he, hc⟩ := h.stands o ho occ hocc
    obtain ⟨occ'', hocc'', he', hc'⟩ := h'.stands o ho occ' hocc'
    exact ⟨occ'', hocc'', he'.trans he, fun hnone => hc' (hc hnone)⟩
  unmoved occ hocc ho := by
    obtain ⟨occ', hocc', hid, hstart, hend⟩ := h.unmoved occ hocc ho
    obtain ⟨occ'', hocc'', hid', hstart', hend'⟩ := h'.unmoved occ' hocc' (hid ▸ ho)
    exact ⟨occ'', hocc'', hid'.trans hid, hstart'.trans hstart, hend'.trans hend⟩
  own occ'' hocc'' := by
    rcases h'.own occ'' hocc'' with howned | ⟨occ', hocc', hid', he'⟩
    · exact .inl howned
    · rw [← he']
      refine (h.own occ' hocc').imp_right ?_
      rintro ⟨occ, hocc, hid, he⟩
      exact ⟨occ, hocc, hid.trans hid', he⟩

/-- Nothing of the dates or the sign-ups. -/
theorem of_eq (hocc : s'.occurrences = s.occurrences) (hsignups : s'.signups = s.signups) :
    Reshapes ids owned s s' := by
  have hfind : ∀ o, findOccurrence s' o = findOccurrence s o := by
    intro o
    unfold findOccurrence
    rw [hocc]
  refine ⟨?_, ?_, ?_, ?_, ?_⟩
  · rw [hsignups]
  · rw [hsignups]
    exact fun a ha _ => ha
  · intro o _ occ h
    rw [hfind]
    exact ⟨occ, h, rfl, id⟩
  · rw [hocc]
    exact fun occ h _ => ⟨occ, h, rfl, rfl, rfl⟩
  · rw [hocc]
    exact fun occ h => .inr ⟨occ, h, rfl, rfl⟩

end Reshapes

/-- **Dates changed.**  A change of dates by somebody who holds the dates it touches, none of which
anybody stands on, and the series it gives dates. -/
theorem commits_of_reshapes {ids owned : String → Prop} (hinv : Tidy s)
    (h : Reshapes ids owned s s')
    (hids : ∀ o, ids o → (EventLock.occurrenceSignups o, Mode.exclusive) ∈ held)
    (howned : ∀ e, owned e → (EventLock.eventRow e, Mode.exclusive) ∈ held)
    (hfree : ∀ o, ids o → standingOn s o = []) :
    eventDiscipline.Commits held reads t s s' := by
  have hstanding : ∀ o, (standingOn s' o).Sublist (standingOn s o) := fun o => h.signups.filter _
  refine ⟨hinv.sublist h.signups, ⟨fun occ hocc hstand => ?_, ?_⟩, fun k hk => ?_⟩
  · exact h.unmoved occ hocc fun hid => hstand (hfree occ.id hid)
  · rintro o p ⟨⟨a, ha, hp⟩, hnot⟩
    exact absurd ⟨a, (hstanding o).subset ha, hp⟩ hnot
  · cases k with
    | date o =>
      have hnot : ¬ ids o := fun ho => not_mem_of_unguarded hk ⟨rfl, rfl⟩ (hids o ho)
      refine ⟨h.stands o hnot, fun a ha ho => ⟨a, h.rows a ha ?_, rfl, rfl⟩, hstanding o⟩
      rwa [ho]
    | series e =>
      intro occ' hocc' he
      rcases h.own occ' hocc' with how | ⟨occ, hocc, hid, he'⟩
      · rw [he] at how
        exact absurd (howned e how) (not_mem_of_unguarded hk ⟨rfl, rfl⟩)
      · exact ⟨occ, hocc, hid, he'.trans he⟩
    | signupKey o p => exact fun a ha ho hp => ⟨a, h.signups.subset ha, ho, hp⟩
    | signupRow id => exact fun a ha hid => ⟨a, h.signups.subset ha, hid⟩

section Writes

variable {ids owned : String → Prop}

theorem findOccurrence_id {o : String} {occ : EventOccurrence} (h : findOccurrence s o = some occ) :
    occ.id = o := by
  have hp := List.find?_some h
  exact of_decide_eq_true hp

/-- A date that is deleted goes with its sign-ups. -/
theorem reshapes_deleteOccurrences {goes : EventOccurrence → Bool}
    (hgoes : ∀ occ ∈ s.occurrences, goes occ = true → ids occ.id) :
    Reshapes ids owned s (deleteOccurrences goes s) := by
  refine ⟨List.filter_sublist, fun a ha ho => ?_, fun o ho occ hocc => ?_, fun occ hocc ho => ?_,
    fun occ hocc => ?_⟩
  · refine List.mem_filter.mpr ⟨ha, decide_eq_true ?_⟩
    rintro ⟨occ, hocc, hgo, hid⟩
    exact ho (hid ▸ hgoes occ hocc hgo)
  · have hid := findOccurrence_id hocc
    refine ⟨occ, ?_, rfl, id⟩
    -- the first of that identifier is not one that goes
    show (s.occurrences.filter _).find? _ = some occ
    rw [List.find?_filter]
    rw [← hocc]
    unfold findOccurrence
    refine List.find?_congr fun row hrow => ?_
    by_cases hr : row.id = o
    · have hstays : goes row = false := by
        rw [Bool.eq_false_iff]
        exact fun hgo => ho (hr ▸ hgoes row hrow hgo)
      simp [hr, hstays]
    · simp [hr]
  · refine ⟨occ, List.mem_filter.mpr ⟨hocc, decide_eq_true ?_⟩, rfl, rfl, rfl⟩
    exact fun hgo => ho (hgoes occ hocc hgo)
  · exact .inr ⟨occ, (List.mem_filter.mp hocc).1, rfl, rfl⟩

/-- A date that is rewritten keeps its identifier and its series. -/
theorem findOccurrence_setOccurrence {o id : String} {f : StoredOccurrence → StoredOccurrence} :
    findOccurrence (setOccurrence id f s) o = (findOccurrence s o).map fun occ =>
      if occ.id = id then
        { occ with toStoredOccurrence := { f occ.toStoredOccurrence with id := id } }
      else occ := by
  unfold findOccurrence setOccurrence
  rw [List.find?_map]
  congr 2
  funext occ
  show decide ((if occ.id = id then _ else occ).id = o) = _
  split_ifs with h
  · show decide (id = o) = decide (occ.id = o)
    rw [h]
  · rfl

theorem reshapes_setOccurrence {id : String} {f : StoredOccurrence → StoredOccurrence}
    (hids : ids id ∨ ∀ row, (f row).startsAt = row.startsAt ∧ (f row).endsAt = row.endsAt ∧
      (f row).cancelledAt = none) : Reshapes ids owned s (setOccurrence id f s) := by
  refine ⟨.refl _, fun a ha _ => ha, fun o ho occ hocc => ?_, fun occ hocc ho => ?_,
    fun occ hocc => ?_⟩
  · have hid := findOccurrence_id hocc
    rw [Option.mem_def] at hocc
    rw [findOccurrence_setOccurrence, hocc, Option.map_some]
    refine ⟨_, rfl, ?_⟩
    split_ifs with h
    · rcases hids with hin | hsame
      · rw [hid] at h
        exact absurd (h ▸ hin) ho
      · exact ⟨rfl, fun _ => (hsame _).2.2⟩
    · exact ⟨rfl, fun hnone => hnone⟩
  · refine ⟨_, List.mem_map_of_mem hocc, ?_⟩
    split_ifs with h
    · rcases hids with hin | hsame
      · exact absurd (h ▸ hin) ho
      · exact ⟨h.symm, (hsame _).1, (hsame _).2.1⟩
    · exact ⟨rfl, rfl, rfl⟩
  · obtain ⟨row, hrow, rfl⟩ := List.mem_map.mp hocc
    refine .inr ⟨row, hrow, ?_⟩
    split_ifs with h
    · exact ⟨h, rfl⟩
    · exact ⟨rfl, rfl⟩

/-- A date that is added is one of the series. -/
theorem reshapes_append {row : EventOccurrence} (hown : owned row.eventId) :
    Reshapes ids owned s { s with occurrences := s.occurrences ++ [row] } := by
  refine ⟨.refl _, fun a ha _ => ha, fun o _ occ hocc => ⟨occ, ?_, rfl, id⟩,
    fun occ hocc _ => ⟨occ, List.mem_append_left _ hocc, rfl, rfl, rfl⟩, fun occ hocc => ?_⟩
  · show (s.occurrences ++ [row]).find? _ = some occ
    unfold findOccurrence at hocc
    rw [List.find?_append, Option.mem_def.mp hocc, Option.some_or]
  · rcases List.mem_append.mp hocc with hold | hnew
    · exact .inr ⟨occ, hold, rfl, rfl⟩
    · rw [List.mem_singleton.mp hnew]
      exact .inl hown

end Writes

/-! ### Sign-ups changed -/

/-- A change of sign-ups that keeps each one's identifier, date and person. -/
def Rewrites (f : EventSignup → EventSignup) : Prop :=
  ∀ a, (f a).id = a.id ∧ (f a).occurrenceId = a.occurrenceId ∧ (f a).personId = a.personId

section Rewritten

variable {f : EventSignup → EventSignup}

theorem Rewrites.tidy (hf : Rewrites f) (h : Tidy s) :
    Tidy { s with signups := s.signups.map f } := by
  show (s.signups.map f).Pairwise Distinct
  rw [List.pairwise_map]
  refine h.imp fun {a b} hab => ?_
  unfold Distinct at hab ⊢
  rw [(hf a).1, (hf b).1, (hf a).2.1, (hf b).2.1, (hf a).2.2, (hf b).2.2]
  exact hab

/-- What a rewrite owes besides the number of those who stand. -/
theorem Rewrites.keeps (hf : Rewrites f) {k : EventFact}
    (hdate : ∀ o, k = .date o →
      (standingOn { s with signups := s.signups.map f } o).Sublist (standingOn s o)) :
    k.keeps s { s with signups := s.signups.map f } := by
  cases k with
  | date o =>
    refine ⟨fun occ hocc => ⟨occ, hocc, rfl, id⟩, fun a ha _ => ?_, hdate o rfl⟩
    exact ⟨f a, List.mem_map_of_mem ha, (hf a).1, (hf a).2.1⟩
  | series e => exact fun occ hocc he => ⟨occ, hocc, rfl, he⟩
  | signupKey o p =>
    intro a' ha' ho hp
    obtain ⟨a, ha, rfl⟩ := List.mem_map.mp ha'
    exact ⟨a, ha, (hf a).2.1.symm.trans ho, (hf a).2.2.symm.trans hp⟩
  | signupRow id =>
    intro a' ha' hid
    obtain ⟨a, ha, rfl⟩ := List.mem_map.mp ha'
    exact ⟨a, ha, (hf a).1.symm.trans hid⟩

end Rewritten

/-- Closing a sign-up. -/
def withdrawnRow (signupId : String) (now : Int) (a : EventSignup) : EventSignup :=
  if a.id = signupId ∧ a.withdrawnAt = none then { a with withdrawnAt := some now } else a

theorem rewrites_withdrawnRow (signupId : String) (now : Int) :
    Rewrites (withdrawnRow signupId now) := by
  intro a
  unfold withdrawnRow
  split_ifs <;> exact ⟨rfl, rfl, rfl⟩

/-- Who stands after a sign-up is closed stood before. -/
theorem standingOn_withdrawn (signupId : String) (now : Int) (o : String) :
    (standingOn (withdrawn signupId now s) o).Sublist (standingOn s o) := by
  show ((s.signups.map (withdrawnRow signupId now)).filter _).Sublist _
  rw [List.filter_map]
  have hsame : ∀ a, (withdrawnRow signupId now a).withdrawnAt = none →
      withdrawnRow signupId now a = a := by
    intro a h
    unfold withdrawnRow at h ⊢
    split_ifs at h ⊢
    rfl
  have hmap : ∀ l : List EventSignup,
      (∀ a ∈ l, withdrawnRow signupId now a = a) → l.map (withdrawnRow signupId now) = l := by
    intro l hl
    exact (List.map_congr_left hl).trans (List.map_id _)
  rw [hmap]
  · refine List.monotone_filter_right _ fun a ha => ?_
    simp only [Function.comp_apply, decide_eq_true_eq] at ha
    rw [hsame a ha.2] at ha
    exact decide_eq_true ha
  · intro a ha
    have ha := (List.mem_filter.mp ha).2
    simp only [Function.comp_apply, decide_eq_true_eq] at ha
    exact hsame a ha.2

theorem commits_withdrawn (hinv : Tidy s) (signupId : String) (now : Int) :
    eventDiscipline.Commits held reads t s (withdrawn signupId now s) := by
  have hrw := rewrites_withdrawnRow signupId now
  refine ⟨hrw.tidy hinv, ⟨fun occ hocc _ => ⟨occ, hocc, rfl, rfl, rfl⟩, ?_⟩, fun k _ => ?_⟩
  · rintro o p ⟨⟨a, ha, hp⟩, hnot⟩
    exact absurd ⟨a, (standingOn_withdrawn signupId now o).subset ha, hp⟩ hnot
  · exact hrw.keeps fun o _ => standingOn_withdrawn signupId now o

/-- A claim as it stands when it commits: the date goes ahead, and a capacity read under its lock
is not filled. -/
structure Claim (reads : List (Sight EventStore EventLock)) (held : List (EventLock × Mode))
    (s : EventStore) (occurrenceId : String) : Prop where
  goesAhead : GoesAhead s occurrenceId
  placeFree : PlaceFree reads s occurrenceId
  dateHeld : (EventLock.occurrenceSignups occurrenceId, Mode.exclusive) ∈ held

/-- A change that gives places on one claimed date alone. -/
theorem Claim.commits {o : String} (h : Claim reads held s o) (htidy : Tidy s')
    (hocc : s'.occurrences = s.occurrences)
    (hothers : ∀ o', o' ≠ o → (standingOn s' o').Sublist (standingOn s o'))
    (hkeeps : ∀ k, eventDiscipline.Unguarded held k → (∀ o', k = .date o' → o' ≠ o) →
      k.keeps s s') : eventDiscipline.Commits held reads t s s' := by
  refine ⟨htidy, ⟨fun occ h _ => ⟨occ, ?_, rfl, rfl, rfl⟩, ?_⟩, fun k hk => hkeeps k hk ?_⟩
  · rwa [hocc]
  · rintro o' p ⟨⟨a, ha, hp⟩, hnot⟩
    by_cases ho : o' = o
    · subst ho
      exact ⟨h.goesAhead, h.placeFree⟩
    · exact absurd ⟨a, (hothers o' ho).subset ha, hp⟩ hnot
  · rintro o' rfl rfl
    exact not_mem_of_unguarded hk ⟨rfl, rfl⟩ h.dateHeld

/-- A first sign-up of a person to a date. -/
theorem commits_insert {o : String} {a : EventSignup} (hinv : Tidy s) (h : Claim reads held s o)
    (ho : a.occurrenceId = o) (hrow : ∀ b ∈ s.signups, Distinct b a)
    (hkey : (EventLock.signupKey o a.personId, Mode.exclusive) ∈ held)
    (hid : (EventLock.signupRow a.id, Mode.exclusive) ∈ held) :
    eventDiscipline.Commits held reads t s { s with signups := s.signups ++ [a] } := by
  have hstanding : ∀ o', o' ≠ o →
      standingOn { s with signups := s.signups ++ [a] } o' = standingOn s o' := by
    intro o' hne
    unfold standingOn
    show (s.signups ++ [a]).filter _ = _
    rw [List.filter_append, List.filter_cons_of_neg, List.filter_nil, List.append_nil]
    simp [ho, hne.symm]
  have hcases : ∀ b ∈ s.signups ++ [a], b ∈ s.signups ∨ b = a := fun b hb =>
    (List.mem_append.mp hb).imp_right List.mem_singleton.mp
  refine h.commits ?_ rfl (fun o' hne => by rw [hstanding o' hne]) fun k hk hdate => ?_
  · refine List.pairwise_append.mpr ⟨hinv, List.pairwise_singleton _ _, fun b hb b' hb' => ?_⟩
    rw [List.mem_singleton.mp hb']
    exact hrow b hb
  · cases k with
    | date o' =>
      refine ⟨fun occ hocc => ⟨occ, hocc, rfl, id⟩,
        fun b hb _ => ⟨b, List.mem_append_left _ hb, rfl, rfl⟩, ?_⟩
      rw [hstanding o' (hdate o' rfl)]
    | series e => exact fun occ hocc he => ⟨occ, hocc, rfl, he⟩
    | signupKey o' p =>
      intro b hb hbo hbp
      rcases hcases b hb with hold | rfl
      · exact ⟨b, hold, hbo, hbp⟩
      · rw [← hbo, ho, ← hbp] at hk
        exact absurd hkey (not_mem_of_unguarded hk ⟨rfl, rfl⟩)
    | signupRow id =>
      intro b hb hbid
      rcases hcases b hb with hold | rfl
      · exact ⟨b, hold, hbid⟩
      · rw [← hbid] at hk
        exact absurd hid (not_mem_of_unguarded hk ⟨rfl, rfl⟩)

/-- Reopening a sign-up. -/
def reopenedRow (signupId : String) (now : Int) (a : EventSignup) : EventSignup :=
  if reopens signupId a then { a with withdrawnAt := none, signedUpAt := now } else a

theorem rewrites_reopenedRow (signupId : String) (now : Int) :
    Rewrites (reopenedRow signupId now) := by
  intro a
  unfold reopenedRow
  split_ifs <;> exact ⟨rfl, rfl, rfl⟩

/-- A sign-up that is reopened is one of the date of the claim. -/
theorem commits_reopened {o signupId : String} {now : Int} (hinv : Tidy s)
    (h : Claim reads held s o)
    (hrow : ∀ a ∈ s.signups, a.id = signupId → a.occurrenceId = o) :
    eventDiscipline.Commits held reads t s (reopened signupId now s) := by
  have hrw := rewrites_reopenedRow signupId now
  have hothers : ∀ o', o' ≠ o →
      (standingOn (reopened signupId now s) o').Sublist (standingOn s o') := by
    intro o' hne
    have hsame : ∀ a ∈ s.signups, a.occurrenceId = o' → reopenedRow signupId now a = a := by
      intro a ha ho
      refine if_neg fun hre => ?_
      unfold reopens at hre
      rw [Bool.and_eq_true, decide_eq_true_eq] at hre
      exact hne (ho.symm.trans (hrow a ha hre.1))
    show ((s.signups.map (reopenedRow signupId now)).filter _).Sublist _
    rw [List.filter_map]
    have hcongr : s.signups.filter ((fun a : EventSignup =>
        decide (a.occurrenceId = o' ∧ a.withdrawnAt = none)) ∘ reopenedRow signupId now) =
          standingOn s o' := by
      refine List.filter_congr fun a ha => ?_
      show decide ((reopenedRow signupId now a).occurrenceId = o' ∧ _) = _
      by_cases ho : a.occurrenceId = o'
      · rw [hsame a ha ho]
      · rw [(hrw a).2.1]
        simp [ho]
    rw [hcongr]
    have hid : (standingOn s o').map (reopenedRow signupId now) = standingOn s o' := by
      refine (List.map_congr_left fun a ha => ?_).trans (List.map_id _)
      obtain ⟨hmem, hstands⟩ := List.mem_filter.mp ha
      exact hsame a hmem (of_decide_eq_true hstands).1
    rw [hid]
  exact h.commits (hrw.tidy hinv) rfl hothers fun k _ hdate =>
    hrw.keeps fun o' hk => hothers o' (hdate o' hk)

end OpenBrf.Events
