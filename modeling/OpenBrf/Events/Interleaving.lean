import OpenBrf.Events.Discipline

/-!
# Events.Interleaving — sign-ups, withdrawals and the board's edits beside each other

Every call of the two services is safe, so what `Events.Discipline` says of a commit holds of
every run, whatever the interleaving.
-/

namespace OpenBrf.Events

open Txn Shared

/-- The calls there are. -/
inductive EventCall (scan : String → List ℕ) (zone : Zone) : EventTx Unit → Prop
  | create (input : EventInput) : EventCall scan zone (create zone input)
  | edit (id : String) (input : EventInput) : EventCall scan zone (edit scan zone id input)
  | publish (id : String) (input : PublishEventInput) : EventCall scan zone (publish scan id input)
  | cancelOccurrence (occurrenceId : String) :
      EventCall scan zone (cancelOccurrence occurrenceId)
  | reinstateOccurrence (occurrenceId : String) :
      EventCall scan zone (reinstateOccurrence occurrenceId)
  | remove (id : String) : EventCall scan zone (remove zone id)
  | signUp (personId occurrenceId : String) : EventCall scan zone (signUp personId occurrenceId)
  | withdrawOwn (personId occurrenceId : String) :
      EventCall scan zone (withdrawOwn personId occurrenceId)
  | withdrawFor (signupId : String) : EventCall scan zone (withdrawFor signupId)

/-- The calls beside each other. -/
def eventSystem (scan : String → List ℕ) (zone : Zone) :
    System EventStore EventLock String EventFailure where
  calls := EventCall scan zone
  prompt _ := False

section Calls

variable {scan : String → List ℕ} {zone : Zone} {prompt : EventLock → Prop}
  {c : Ctx EventStore EventLock}

/-! ### Dates -/

/-- A program whose writes are a change of dates so far. -/
structure Wrote (ids owned : String → Prop) (c c' : Ctx EventStore EventLock) : Prop
    extends Ctx.Since c c' where
  reshapes : ∀ s, Reshapes ids owned s (c'.pending s)

namespace Wrote

variable {ids owned : String → Prop} {c' : Ctx EventStore EventLock}

theorem start (hp : c.pending = id) : Wrote ids owned c c where
  toSince := .refl c
  reshapes s := by
    rw [hp]
    exact .refl s

theorem later {c'' : Ctx EventStore EventLock} (h : Wrote ids owned c c') (hlater : c'.Later c'') :
    Wrote ids owned c c'' where
  toSince := h.toSince.trans hlater.toSince
  reshapes s := by
    rw [hlater.pending]
    exact h.reshapes s

theorem write (h : Wrote ids owned c c') {f : EventStore → EventStore}
    (hf : ∀ s, Reshapes ids owned s (f s)) : Wrote ids owned c (c'.write f) where
  toSince := h.toSince.write f
  reshapes s := (h.reshapes s).trans (hf _)

end Wrote

variable {ids owned : String → Prop}

theorem safe_validated {input : EventInput} {Q : SeriesSchedule → Ctx EventStore EventLock → Prop}
    (h : Q input.toSeriesSchedule c) :
    Safe eventDiscipline prompt (validated zone input) Q c := by
  unfold validated
  split
  · exact safe_fail
  · exact h

theorem safe_insertOccurrence {c₀ : Ctx EventStore EventLock} {eventId : String} {period : Period}
    (hown : owned eventId) (h : Wrote ids owned c₀ c) :
    Safe eventDiscipline prompt (insertOccurrence eventId period)
      (fun _ => Wrote ids owned c₀) c := by
  unfold insertOccurrence
  rw [safe_bind, safe_fresh]
  intro occurrenceId
  rw [safe_bind, safe_acquire]
  intro t₀ s₀ _ _ _
  rw [safe_bind, safe_snapshot]
  intro t₁ s₁ _ _
  rw [safe_bind, safe_refuseIf]
  intro _
  rw [safe_update]
  have hlater := (((Ctx.Later.refl c).acquire (.occurrenceRow occurrenceId) .exclusive).observe
    (D := eventDiscipline) t₀ s₀).see (D := eventDiscipline) t₁ s₁
  exact (h.later hlater).write fun s => reshapes_append hown

theorem safe_create (input : EventInput) :
    SafeCall eventDiscipline prompt (create zone input) := by
  unfold SafeCall create lockEvent
  rw [safe_bind]
  apply safe_validated
  rw [safe_transaction, safe_bind, safe_fresh]
  intro eventId
  rw [safe_bind, safe_acquire]
  intro t₀ s₀ _ _ _
  rw [safe_bind, safe_snapshot]
  intro t₁ s₁ _ _
  rw [safe_bind, safe_refuseIf]
  intro _
  rw [safe_bind, safe_update]
  -- the series is its own until it commits, and it has no date but those it is given
  have hstart : Wrote (fun _ => False) (· = eventId) _ _ :=
    (Wrote.start (c := ((Ctx.start.acquire (.eventRow eventId) .exclusive).observe
      eventDiscipline t₀ s₀).see eventDiscipline t₁ s₁) rfl).write
        (f := fun s => { s with events := s.events ++ [⟨input, eventId, .MEMBER, false, none⟩] })
        fun s => .of_eq rfl rfl
  refine (safe_forM hstart fun period _ c' h => safe_insertOccurrence rfl h).mono ?_
  rintro _ c' h
  refine ⟨fun t s hinv _ => ?_, trivial⟩
  refine commits_of_reshapes hinv (h.reshapes s) (fun _ => False.elim) ?_ fun _ => False.elim
  rintro e rfl
  exact h.held _ List.mem_cons_self

theorem safe_requireEvent {eventId : String}
    {Q : Event × List EventOccurrence → Ctx EventStore EventLock → Prop} (hp : c.pending = id)
    (h : ∀ t s existing, c.knows t s → findEvent s eventId = some existing →
      Q (existing, occurrencesOf s eventId) (c.see eventDiscipline t s)) :
    Safe eventDiscipline prompt (requireEvent eventId) Q c := by
  unfold requireEvent
  rw [safe_bind, safe_snapshot]
  intro t s _ hk
  rw [hp]
  dsimp only [id]
  split
  · exact safe_fail
  · rename_i existing hfound
    exact h t s existing hk hfound

/-- After nobody was found to stand on dates that are locked, nobody does. -/
theorem safe_refuseInUse {message : String} {occurrences : List StoredOccurrence}
    {Q : Unit → Ctx EventStore EventLock → Prop} (hp : c.pending = id)
    (h : ∀ c', c.Later c' →
      (∀ occ ∈ occurrences, (EventLock.occurrenceSignups occ.id, Mode.exclusive) ∈ c'.held) →
      (∀ t s, c'.knows t s → ∀ occ ∈ occurrences, standingOn s occ.id = []) → Q () c') :
    Safe eventDiscipline prompt (refuseInUse zone message occurrences) Q c := by
  unfold refuseInUse lockOccurrencesSignups
  rw [safe_bind]
  apply safe_acquireAll (m := .exclusive)
  intro c' hlater hlocked
  have hlocked : ∀ occ ∈ occurrences,
      (EventLock.occurrenceSignups occ.id, Mode.exclusive) ∈ c'.held := by
    intro occ hocc
    refine hlocked occ.id ?_
    rw [List.mem_insertionSort, List.mem_dedup]
    exact List.mem_map_of_mem hocc
  rw [safe_bind, safe_snapshot]
  intro t₁ s₁ _ _
  rw [safe_refuseIf, hlater.pending, hp]
  intro hheld
  refine h _ (hlater.see t₁ s₁) hlocked fun t s hk occ hocc => ?_
  have hnone : standingOn s₁ occ.id = [] := by
    by_contra hstand
    refine hheld (List.ne_nil_of_mem (a := occ.id) ?_)
    exact List.mem_filter.mpr ⟨List.mem_map_of_mem hocc, decide_eq_true hstand⟩
  have hdate := hk.2.2 (.date occ.id)
    (guarded_of_mem (hlocked occ hocc) fun _ _ hguards => hguards.1)
  have hsub := hdate.2.2
  rw [hnone] at hsub
  exact List.sublist_nil.mp hsub

/-- The writes of an edit are a change of the dates it displaces. -/
theorem safe_writePlan {c₀ : Ctx EventStore EventLock} {eventId : String} {plan : OccurrencePlan}
    (h : Wrote (fun o => ∃ occ ∈ displacedBy plan, occ.id = o) (· = eventId) c₀ c) :
    Safe eventDiscipline prompt (writePlan eventId plan)
      (fun _ => Wrote (fun o => ∃ occ ∈ displacedBy plan, occ.id = o) (· = eventId) c₀) c := by
  unfold writePlan
  rw [safe_bind, safe_update, safe_bind]
  have hdropped := h.write
    (f := deleteOccurrences fun occurrence => occurrence.id ∈ plan.dropped.map (·.id))
    fun s => reshapes_deleteOccurrences fun occ _ hgo => by
      obtain ⟨row, hrow, hid⟩ := List.mem_map.mp (of_decide_eq_true hgo)
      exact ⟨row, List.mem_append_right _ hrow, hid⟩
  refine (safe_forM hdropped fun entry hentry c₁ h₁ => ?_).mono fun _ c₁ h₁ => ?_
  · rw [safe_bind, safe_acquire]
    intro t₀ s₀ _ _ _
    rw [safe_update]
    have hlater := ((Ctx.Later.refl c₁).acquire (.occurrenceRow entry.occurrence.id)
      .exclusive).observe (D := eventDiscipline) t₀ s₀
    refine (h₁.later hlater).write fun s => reshapes_setOccurrence (.inl ?_)
    exact ⟨entry.occurrence, List.mem_append_left _ (List.mem_map_of_mem hentry), rfl⟩
  · exact safe_forM h₁ fun period _ c₂ h₂ => safe_insertOccurrence rfl h₂

theorem safe_edit (eventId : String) (input : EventInput) :
    SafeCall eventDiscipline prompt (edit scan zone eventId input) := by
  unfold SafeCall edit lockEvent
  rw [safe_bind]
  apply safe_validated
  rw [safe_bind, safe_readClock]
  intro now s₀ _ _
  rw [safe_transaction, safe_bind, safe_acquire]
  intro t₁ s₁ _ _ _
  rw [safe_bind]
  apply safe_requireEvent rfl
  intro t₂ s₂ existing _ _
  dsimp only
  rw [safe_bind]
  have hrest : ∀ plan : OccurrencePlan, Safe eventDiscipline prompt (do
      refuseInUse zone ("People have signed up to dates this change would move or remove. Leave " ++
        "those dates where they are, or deal with the sign-ups first.") (displacedBy plan)
      writePlan eventId plan
      update (setEvent eventId fun e => { e with toEventInput := input }))
      (fun _ c' => (∀ t s, eventDiscipline.inv t s → c'.knows t s →
        eventDiscipline.Commits c'.held c'.reads t s (c'.pending s)) ∧ True)
      ((((Ctx.start.observe eventDiscipline now s₀).readAt now).acquire (.eventRow eventId)
        .exclusive).observe eventDiscipline t₁ s₁ |>.see eventDiscipline t₂ s₂) := by
    intro plan
    rw [safe_bind]
    apply safe_refuseInUse rfl
    intro c₁ hlater hheld hfree
    rw [safe_bind]
    refine (safe_writePlan (.start (hlater.pending.trans rfl))).mono fun _ c₂ h₂ => ?_
    rw [safe_update]
    have h₃ := h₂.write (f := setEvent eventId fun e => { e with toEventInput := input })
      fun s => .of_eq rfl rfl
    refine ⟨fun t s hinv hk => ?_, trivial⟩
    refine commits_of_reshapes hinv (h₃.reshapes s) ?_ ?_ ?_
    · rintro o ⟨occ, hocc, rfl⟩
      exact h₃.held _ (hheld occ hocc)
    · rintro e rfl
      exact h₃.held _ (hlater.held _ List.mem_cons_self)
    · rintro o ⟨occ, hocc, rfl⟩
      exact hfree t s (h₃.knows t s hk) occ hocc
  apply safe_onlyIf
  · intro _
    unfold refusePersonalIdentityNumbers
    rw [safe_refuseIf]
    exact fun _ => hrest _
  · exact fun _ => hrest _

/-- A change of no date by itself, whatever is locked. -/
theorem commits_of_quiet {t : Int} {s s' : EventStore} {held : List (EventLock × Mode)}
    {reads : List (Sight EventStore EventLock)} (hinv : Tidy s)
    (h : Reshapes (fun _ => False) (fun _ => False) s s') :
    eventDiscipline.Commits held reads t s s' :=
  commits_of_reshapes hinv h (fun _ => False.elim) (fun _ => False.elim) fun _ => False.elim

theorem safe_publish (eventId : String) (input : PublishEventInput) :
    SafeCall eventDiscipline prompt (publish scan eventId input) := by
  unfold SafeCall publish lockEvent
  rw [safe_bind, safe_readClock]
  intro now s₀ _ _
  rw [safe_transaction, safe_bind, safe_acquire]
  intro t₁ s₁ _ _ _
  rw [safe_bind]
  apply safe_requireEvent rfl
  intro t₂ s₂ existing _ _
  dsimp only
  rw [safe_bind]
  have hrest : ∀ (b : Prop) [Decidable b] (f : Event → Event), Safe eventDiscipline prompt
      (onlyIf b (update (setEvent eventId f)) : EventTx Unit)
      (fun _ c' => (∀ t s, eventDiscipline.inv t s → c'.knows t s →
        eventDiscipline.Commits c'.held c'.reads t s (c'.pending s)) ∧ True)
      ((((Ctx.start.observe eventDiscipline now s₀).readAt now).acquire (.eventRow eventId)
        .exclusive).observe eventDiscipline t₁ s₁ |>.see eventDiscipline t₂ s₂) := by
    intro b _ f
    apply safe_onlyIf
    · intro _
      rw [safe_update]
      exact ⟨fun t s hinv _ => commits_of_quiet hinv (.of_eq rfl rfl), trivial⟩
    · exact fun _ => ⟨fun t s hinv _ => commits_of_quiet hinv (.refl s), trivial⟩
  apply safe_onlyIf
  · intro _
    unfold refusePersonalIdentityNumbers
    rw [safe_refuseIf]
    exact fun _ => hrest _ _
  · exact fun _ => hrest _ _

/-- The series of a date is locked where there is one. -/
theorem safe_lockEventOfOccurrence {occurrenceId : String}
    {Q : Unit → Ctx EventStore EventLock → Prop} (h : ∀ c', c.Later c' → Q () c') :
    Safe eventDiscipline prompt (lockEventOfOccurrence occurrenceId) Q c := by
  unfold lockEventOfOccurrence lockEvent
  rw [safe_bind, safe_snapshot]
  intro t₀ s₀ _ _
  have hlater := (Ctx.Later.refl c).see (D := eventDiscipline) t₀ s₀
  split
  · exact h _ hlater
  · rw [safe_acquire]
    intro t₁ s₁ _ _ _
    exact h _ ((hlater.acquire _ _).observe t₁ s₁)

theorem safe_requireOccurrence {occurrenceId : String}
    {Q : EventOccurrence → Ctx EventStore EventLock → Prop}
    (h : ∀ c' occ, c.Later c' → Q occ c') :
    Safe eventDiscipline prompt (requireOccurrence occurrenceId) Q c := by
  unfold requireOccurrence
  rw [safe_bind, safe_snapshot]
  intro t s _ _
  split
  · exact safe_fail
  · exact h _ _ ((Ctx.Later.refl c).see t s)

/-- A date that is called off by somebody who holds it. -/
theorem commits_cancelled {t : Int} {s : EventStore} {held : List (EventLock × Mode)}
    {reads : List (Sight EventStore EventLock)} {occurrenceId : String} (hinv : Tidy s)
    (hheld : (EventLock.occurrenceSignups occurrenceId, Mode.exclusive) ∈ held) (now : Int) :
    eventDiscipline.Commits held reads t s
      (setOccurrence occurrenceId (fun row => { row with cancelledAt := some now }) s) := by
  have hreshapes : Reshapes (· = occurrenceId) (fun _ => False) s
      (setOccurrence occurrenceId (fun row => { row with cancelledAt := some now }) s) :=
    reshapes_setOccurrence (.inl rfl)
  refine ⟨hinv, ⟨fun occ hocc _ => ⟨_, List.mem_map_of_mem hocc, ?_⟩, ?_⟩, fun k hk => ?_⟩
  · split_ifs with h
    · exact ⟨h.symm, rfl, rfl⟩
    · exact ⟨rfl, rfl, rfl⟩
  · rintro o p ⟨hstands, hnot⟩
    exact absurd hstands hnot
  · cases k with
    | date o =>
      have hne : ¬ o = occurrenceId := by
        rintro rfl
        exact not_mem_of_unguarded hk ⟨rfl, rfl⟩ hheld
      exact ⟨hreshapes.stands o hne, fun a ha _ => ⟨a, ha, rfl, rfl⟩, .refl _⟩
    | series e =>
      intro occ' hocc' he
      obtain ⟨occ, hocc, hid, he'⟩ := (hreshapes.own occ' hocc').resolve_left id
      exact ⟨occ, hocc, hid, he'.trans he⟩
    | signupKey o p => exact fun a ha ho hp => ⟨a, ha, ho, hp⟩
    | signupRow signupId => exact fun a ha hid => ⟨a, ha, hid⟩

theorem safe_cancelOccurrence (occurrenceId : String) :
    SafeCall eventDiscipline prompt (cancelOccurrence occurrenceId) := by
  unfold SafeCall cancelOccurrence lockOccurrenceSignups
  rw [safe_bind, safe_readClock]
  intro now s₀ _ _
  rw [safe_transaction, safe_bind]
  apply safe_lockEventOfOccurrence
  intro c₁ hlater₁
  rw [safe_bind, safe_acquire]
  intro t₂ s₂ _ _ _
  rw [safe_bind]
  apply safe_requireOccurrence
  intro c₃ occ hlater₃
  rw [safe_bind, safe_refuseIf]
  intro _
  rw [safe_bind, safe_refuseIf]
  intro _
  rw [safe_bind, safe_acquire]
  intro t₄ s₄ _ _ _
  rw [safe_update]
  refine ⟨fun t s hinv _ => ?_, trivial⟩
  have hpending : ((c₃.acquire (.occurrenceRow occurrenceId) .exclusive).observe eventDiscipline
      t₄ s₄).pending = id := hlater₃.pending.trans (hlater₁.pending.trans rfl)
  rw [Ctx.pending_write hpending]
  refine commits_cancelled hinv ?_ now
  exact List.mem_cons_of_mem _ (hlater₃.held _ List.mem_cons_self)

theorem safe_reinstateOccurrence (occurrenceId : String) :
    SafeCall eventDiscipline prompt (reinstateOccurrence occurrenceId) := by
  unfold SafeCall reinstateOccurrence
  rw [safe_bind, safe_readClock]
  intro now s₀ _ _
  rw [safe_transaction, safe_bind]
  apply safe_lockEventOfOccurrence
  intro c₁ hlater₁
  rw [safe_bind]
  apply safe_requireOccurrence
  intro c₂ occ hlater₂
  rw [safe_bind, safe_refuseIf]
  intro _
  rw [safe_bind, safe_refuseIf]
  intro _
  rw [safe_bind]
  apply safe_updateRow
  · intro c₃ _
    rw [safe_refuseIf]
    exact fun hcleared => absurd rfl hcleared
  · intro c₃ t₃ s₃ hlater₃ _ _ _ _
    rw [safe_refuseIf]
    intro _
    refine ⟨fun t s hinv _ => ?_, trivial⟩
    have hpending : c₃.pending = id :=
      hlater₃.pending.trans (hlater₂.pending.trans (hlater₁.pending.trans rfl))
    rw [Ctx.pending_write hpending]
    exact commits_of_quiet hinv (reshapes_setOccurrence (.inr fun row => ⟨rfl, rfl, rfl⟩))

theorem safe_remove (eventId : String) :
    SafeCall eventDiscipline prompt (remove zone eventId) := by
  unfold SafeCall remove lockEvent
  rw [safe_transaction, safe_bind, safe_acquire]
  intro t₀ s₀ _ _ _
  rw [safe_bind]
  apply safe_requireEvent rfl
  intro t₁ s₁ existing _ _
  dsimp only
  rw [safe_bind]
  apply safe_refuseInUse rfl
  intro c₂ hlater hheld hfree
  rw [safe_update]
  refine ⟨fun t s hinv hk => ?_, trivial⟩
  rw [Ctx.pending_write (hlater.pending.trans rfl)]
  -- the series is locked, so its dates are those that were read
  have hseries := (hlater.knows t s hk).2.2 (.series eventId)
    (guarded_of_mem List.mem_cons_self fun _ _ hguards => hguards.1)
  have hread : ∀ occ ∈ s.occurrences, occ.eventId = eventId →
      ∃ row ∈ (occurrencesOf s₁ eventId).map (·.toStoredOccurrence), row.id = occ.id := by
    intro occ hocc he
    obtain ⟨occ₁, hocc₁, hid, he₁⟩ := hseries occ hocc he
    refine ⟨occ₁.toStoredOccurrence, List.mem_map_of_mem ?_, hid⟩
    unfold occurrencesOf
    rw [List.mem_insertionSort]
    exact List.mem_filter.mpr ⟨hocc₁, decide_eq_true he₁⟩
  have hevents : Reshapes (fun o => ∃ row ∈ (occurrencesOf s₁ eventId).map (·.toStoredOccurrence),
      row.id = o) (fun _ => False) s { s with events := s.events.filter fun e => e.id ≠ eventId } :=
    .of_eq rfl rfl
  have hdeleted := hevents.trans (reshapes_deleteOccurrences
    fun occ hocc hgo => hread occ hocc (of_decide_eq_true hgo))
  refine commits_of_reshapes hinv hdeleted ?_ (fun _ => False.elim) ?_
  · rintro o ⟨row, hrow, rfl⟩
    exact hheld row hrow
  · rintro o ⟨row, hrow, rfl⟩
    exact hfree t s hk row hrow

/-! ### Sign-ups -/

theorem safe_requireAttendable {occurrenceId : String}
    {Q : EventOccurrence × Event → Ctx EventStore EventLock → Prop} (hp : c.pending = id)
    (h : ∀ t s occ event, findOccurrence s occurrenceId = some occ →
      findEvent s occ.eventId = some event → Q (occ, event) (c.see eventDiscipline t s)) :
    Safe eventDiscipline prompt (requireAttendable occurrenceId) Q c := by
  unfold requireAttendable
  rw [safe_bind, safe_snapshot]
  intro t s _ _
  rw [hp]
  dsimp only [id]
  split
  · exact safe_fail
  · rename_i occ hocc
    split
    · exact safe_fail
    · rename_i event hevent
      rw [safe_bind, safe_refuseIf]
      intro _
      rw [safe_pure]
      exact h t s occ event hocc hevent

/-- Where a claim stands once the date is locked: it goes ahead, and its capacity was read. -/
structure Locked (occurrenceId : String) (capacity : Option Int)
    (c : Ctx EventStore EventLock) : Prop where
  pending : c.pending = id
  held : (EventLock.occurrenceSignups occurrenceId, Mode.exclusive) ∈ c.held
  goesAhead : ∀ t s, c.knows t s → GoesAhead s occurrenceId
  sight : ∃ sight ∈ c.reads,
    (EventLock.occurrenceSignups occurrenceId, Mode.exclusive) ∈ sight.held ∧
      ∃ occ ∈ findOccurrence sight.store occurrenceId,
        ∃ event ∈ findEvent sight.store occ.eventId, event.capacity = capacity

theorem Locked.later {occurrenceId : String} {capacity : Option Int}
    {c c' : Ctx EventStore EventLock} (h : Locked occurrenceId capacity c) (hlater : c.Later c') :
    Locked occurrenceId capacity c' where
  pending := hlater.pending.trans h.pending
  held := hlater.held _ h.held
  goesAhead t s hk := h.goesAhead t s (hlater.knows t s hk)
  sight := by
    obtain ⟨sight, hs, hrest⟩ := h.sight
    exact ⟨sight, hlater.reads sight hs, hrest⟩

/-- What a lock on a date keeps of it. -/
theorem date_of_rely {occurrenceId : String} {s s' : EventStore}
    (hheld : (EventLock.occurrenceSignups occurrenceId, Mode.exclusive) ∈ c.held)
    (hrely : eventDiscipline.Rely c.held s s') :
    DateStands occurrenceId s s' ∧ RowsStay occurrenceId s s' ∧
      (standingOn s' occurrenceId).Sublist (standingOn s occurrenceId) :=
  hrely (.date occurrenceId) (guarded_of_mem hheld fun _ _ hguards => hguards.1)

theorem mem_of_findSignup {s : EventStore} {occurrenceId personId : String} {a : EventSignup}
    (h : findSignup s occurrenceId personId = some a) :
    a ∈ s.signups ∧ a.occurrenceId = occurrenceId ∧ a.personId = personId := by
  have hp := List.find?_some h
  exact ⟨List.mem_of_find?_eq_some h, of_decide_eq_true hp⟩

/-- Of two sign-ups of one identifier there is one. -/
theorem Tidy.occurrenceId_eq {s : EventStore} (h : Tidy s) {a b : EventSignup} (ha : a ∈ s.signups)
    (hb : b ∈ s.signups) (hid : a.id = b.id) : a.occurrenceId = b.occurrenceId := by
  by_contra hne
  have hdistinct : Distinct a b := List.Pairwise.forall h ha hb fun heq => hne (by rw [heq])
  exact hdistinct.1 hid

theorem safe_insertClaim {occurrenceId personId : String} {capacity : Option Int} {now : Int}
    {Q : Unit → Ctx EventStore EventLock → Prop} (h : Locked occurrenceId capacity c)
    (hfree : ∀ t s, c.knows t s → ∀ limit ∈ capacity, (standingOn s occurrenceId).length < limit)
    (hQ : ∀ c', (∀ t s, Tidy s → c'.knows t s →
      eventDiscipline.Commits c'.held c'.reads t s (c'.pending s)) → Q () c') :
    Safe eventDiscipline prompt (insertClaim occurrenceId personId now) Q c := by
  unfold insertClaim
  rw [safe_bind, safe_fresh]
  intro signupId
  rw [safe_bind, safe_acquire]
  intro t₀ s₀ _ _ _
  rw [safe_bind, safe_acquire]
  intro t₁ s₁ _ _ _
  rw [safe_bind, safe_snapshot]
  intro t₂ s₂ _ _
  rw [safe_bind, safe_refuseIf]
  intro hnew
  rw [safe_update]
  have hlater₁ := ((((Ctx.Later.refl c).acquire (.signupRow signupId) .exclusive).observe
    (D := eventDiscipline) t₀ s₀).acquire (.signupKey occurrenceId personId) .exclusive).observe
      (D := eventDiscipline) t₁ s₁
  have hlater := hlater₁.see (D := eventDiscipline) t₂ s₂
  have h₂ := h.later hlater
  have hseen : ∀ a ∈ s₂.signups, ¬ (a.id = signupId ∨
      (a.occurrenceId = occurrenceId ∧ a.personId = personId)) := by
    intro a ha hsame
    rw [hlater₁.pending, h.pending] at hnew
    exact hnew ⟨a, ha, hsame⟩
  refine hQ _ fun t s hinv hk => ?_
  rw [Ctx.pending_write h₂.pending]
  obtain ⟨sight, hsight, hlock, occ, hocc, event, hevent, hcapacity⟩ := h₂.sight
  have hclaim : Claim _ _ s occurrenceId := ⟨h₂.goesAhead t s hk,
    ⟨sight, hsight, hlock, occ, hocc, event, hevent, fun limit hl =>
      hfree t s (hlater.knows t s hk) limit (hcapacity ▸ hl)⟩, h₂.held⟩
  refine commits_insert (o := occurrenceId) hinv hclaim rfl (fun b hb => ⟨fun hid => ?_, ?_⟩)
    List.mem_cons_self (List.mem_cons_of_mem _ List.mem_cons_self)
  · obtain ⟨a, ha, haid⟩ := hk.2.2 (.signupRow signupId)
      (guarded_of_mem (List.mem_cons_of_mem _ List.mem_cons_self)
        fun _ _ hguards => hguards.1) b hb hid
    exact hseen a ha (.inl haid)
  · rintro ⟨ho, hp⟩
    obtain ⟨a, ha, hkey⟩ := hk.2.2 (.signupKey occurrenceId personId)
      (guarded_of_mem List.mem_cons_self fun _ _ hguards => hguards.1) b hb ho hp
    exact hseen a ha (.inr hkey)

theorem safe_reopenClaim {occurrenceId signupId : String} {capacity : Option Int} {now : Int}
    {Q : Unit → Ctx EventStore EventLock → Prop} (h : Locked occurrenceId capacity c)
    (hfree : ∀ t s, c.knows t s → ∀ limit ∈ capacity, (standingOn s occurrenceId).length < limit)
    (hrow : ∀ t s, c.knows t s → ∃ a ∈ s.signups, a.id = signupId ∧ a.occurrenceId = occurrenceId)
    (hQ : ∀ c', (∀ t s, Tidy s → c'.knows t s →
      eventDiscipline.Commits c'.held c'.reads t s (c'.pending s)) → Q () c') :
    Safe eventDiscipline prompt (reopenClaim signupId now) Q c := by
  unfold reopenClaim
  rw [safe_bind]
  apply safe_updateRow
  · intro c' _
    rw [safe_refuseIf]
    exact fun hclaimed => absurd rfl hclaimed
  · intro c' t₀ s₀ hlater _ _ _ _
    rw [safe_refuseIf]
    intro _
    refine hQ _ fun t s hinv hk => ?_
    have h' := h.later hlater
    rw [Ctx.pending_write h'.pending]
    have hk₀ := hlater.knows t s hk
    obtain ⟨sight, hsight, hlock, occ, hocc, event, hevent, hcapacity⟩ := h'.sight
    have hclaim : Claim c'.reads c'.held s occurrenceId := ⟨h'.goesAhead t s hk,
      ⟨sight, hsight, hlock, occ, hocc, event, hevent, fun limit hl =>
        hfree t s hk₀ limit (hcapacity ▸ hl)⟩, h'.held⟩
    refine commits_reopened hinv hclaim fun a ha hid => ?_
    obtain ⟨b, hb, hbid, hbo⟩ := hrow t s hk₀
    exact (hinv.occurrenceId_eq ha hb (hid.trans hbid.symm)).trans hbo

theorem safe_claimPlace {occurrenceId personId : String} {capacity : Option Int} {now : Int}
    {Q : Unit → Ctx EventStore EventLock → Prop} (h : Locked occurrenceId capacity c)
    (hQ : ∀ c', (∀ t s, Tidy s → c'.knows t s →
      eventDiscipline.Commits c'.held c'.reads t s (c'.pending s)) → Q () c') :
    Safe eventDiscipline prompt (claimPlace occurrenceId personId capacity now) Q c := by
  unfold claimPlace
  rw [safe_bind, safe_snapshot]
  intro t₀ s₀ _ _
  dsimp only
  rw [h.pending, safe_bind, safe_refuseIf]
  intro _
  have h₀ := h.later ((Ctx.Later.refl c).see (D := eventDiscipline) t₀ s₀)
  rw [safe_bind, safe_snapshot]
  intro t₁ s₁ _ _
  rw [h₀.pending, safe_bind, safe_refuseIf]
  intro hroom
  have h₁ := h₀.later ((Ctx.Later.refl _).see (D := eventDiscipline) t₁ s₁)
  have hfree : ∀ t s, ((c.see eventDiscipline t₀ s₀).see eventDiscipline t₁ s₁).knows t s →
      ∀ limit ∈ capacity, (standingOn s occurrenceId).length < limit := by
    intro t s hk limit hl
    have hsub := (date_of_rely h.held hk.2.2).2.2
    by_contra hfull
    refine hroom ⟨limit, hl, (not_lt.mp hfull).trans ?_⟩
    exact_mod_cast hsub.length_le
  dsimp only [id]
  split
  · exact safe_insertClaim h₁ hfree hQ
  · rename_i signup hfound
    obtain ⟨hmem, ho, -⟩ := mem_of_findSignup hfound
    refine safe_reopenClaim h₁ hfree (fun t s hk => ?_) hQ
    -- the row stays while the date is locked
    obtain ⟨a, ha, hid, hao⟩ := (date_of_rely h.held hk.1.2.2).2.1 signup hmem ho
    exact ⟨a, ha, hid, hao.trans ho⟩

theorem safe_signUp (personId occurrenceId : String) :
    SafeCall eventDiscipline prompt (signUp personId occurrenceId) := by
  unfold SafeCall signUp lockOccurrenceSignups
  rw [safe_bind, safe_readClock]
  intro now s₀ _ _
  rw [safe_transaction, safe_bind, safe_acquire]
  intro t₁ s₁ _ _ _
  rw [safe_bind]
  apply safe_requireAttendable rfl
  intro t₂ s₂ occ event hocc hevent
  dsimp only
  rw [safe_bind, safe_refuseIf]
  intro _
  rw [safe_bind, safe_refuseIf]
  intro hcancelled
  rw [safe_bind, safe_refuseIf]
  intro _
  refine safe_claimPlace ⟨rfl, List.mem_cons_self, fun t s hk => ?_, ?_⟩ fun c' hc =>
    ⟨hc, trivial⟩
  · have hdate := hk.2.2 (.date occurrenceId)
      (guarded_of_mem List.mem_cons_self fun _ _ hguards => hguards.1)
    obtain ⟨occ', hocc', -, hahead⟩ := hdate.1 occ hocc
    exact ⟨occ', hocc', hahead (not_not.mp hcancelled)⟩
  · exact ⟨_, List.mem_cons_self, List.mem_cons_self, occ, hocc, event, hevent, rfl⟩

/-- Closing a sign-up owes nothing, whichever it is. -/
theorem safe_withdrawRow {signupId : String} {now : Int}
    {Q : Bool → Ctx EventStore EventLock → Prop} (hp : c.pending = id)
    (h : ∀ claimed c', (∀ held reads t s, Tidy s →
      eventDiscipline.Commits held reads t s (c'.pending s)) →
      (claimed = false → c'.pending = id) → Q claimed c') :
    Safe eventDiscipline prompt (withdrawRow signupId now) Q c := by
  unfold withdrawRow
  apply safe_updateRow
  · intro c' hlater
    refine h false c' (fun held reads t s hinv => ?_) fun _ => hlater.pending.trans hp
    rw [hlater.pending, hp]
    exact commits_of_quiet hinv (.refl s)
  · intro c' t₀ s₀ hlater _ _ _ _
    refine h true _ (fun held reads t s hinv => ?_) fun hclaimed => by cases hclaimed
    rw [Ctx.pending_write (hlater.pending.trans hp)]
    exact commits_withdrawn hinv signupId now

theorem safe_withdrawMatching {occurrenceId personId : String} {now : Int}
    {Q : Bool → Ctx EventStore EventLock → Prop} (hp : c.pending = id)
    (h : ∀ claimed c', (∀ held reads t s, Tidy s →
      eventDiscipline.Commits held reads t s (c'.pending s)) →
      (claimed = false → c'.pending = id) → Q claimed c') :
    Safe eventDiscipline prompt (withdrawMatching occurrenceId personId now) Q c := by
  unfold withdrawMatching
  rw [safe_bind, safe_snapshot]
  intro t₀ s₀ _ _
  have hlater := (Ctx.Later.refl c).see (D := eventDiscipline) t₀ s₀
  split
  · rw [safe_pure]
    refine h false _ (fun held reads t s hinv => ?_) fun _ => hlater.pending.trans hp
    rw [hlater.pending, hp]
    exact commits_of_quiet hinv (.refl s)
  · exact safe_withdrawRow (hlater.pending.trans hp) h

theorem safe_withdrawOwn (personId occurrenceId : String) :
    SafeCall eventDiscipline prompt (withdrawOwn personId occurrenceId) := by
  unfold SafeCall withdrawOwn
  rw [safe_bind, safe_readClock]
  intro now s₀ _ _
  rw [safe_transaction, safe_bind]
  apply safe_withdrawMatching rfl
  intro claimed c' hcommits hmissed
  apply safe_onlyIf
  · intro hclaimed
    rw [safe_bind]
    apply safe_requireAttendable (hmissed hclaimed)
    intro t₁ s₁ occ event _ _
    unfold refuseMissingSignup
    rw [safe_bind, safe_snapshot]
    intro t₂ s₂ _ _
    rw [safe_bind, safe_refuseIf]
    exact fun _ => safe_fail
  · exact fun _ => ⟨fun t s hinv _ => hcommits _ _ t s hinv, trivial⟩

theorem safe_withdrawFor (signupId : String) :
    SafeCall eventDiscipline prompt (withdrawFor signupId) := by
  unfold SafeCall withdrawFor
  rw [safe_bind, safe_readClock]
  intro now s₀ _ _
  rw [safe_transaction, safe_bind, safe_snapshot]
  intro t₁ s₁ _ _
  rw [safe_bind, safe_refuseIf]
  intro _
  rw [safe_bind]
  apply safe_withdrawRow rfl
  intro claimed c' hcommits _
  rw [safe_refuseIf]
  exact fun _ => ⟨fun t s hinv _ => hcommits _ _ t s hinv, trivial⟩

/-- **Every call is safe.** -/
theorem safe_eventCall (p : EventTx Unit) (hp : (eventSystem scan zone).calls p) :
    SafeCall eventDiscipline (eventSystem scan zone).prompt p := by
  cases hp with
  | create input => exact safe_create input
  | edit eventId input => exact safe_edit eventId input
  | publish eventId input => exact safe_publish eventId input
  | cancelOccurrence occurrenceId => exact safe_cancelOccurrence occurrenceId
  | reinstateOccurrence occurrenceId => exact safe_reinstateOccurrence occurrenceId
  | remove eventId => exact safe_remove eventId
  | signUp personId occurrenceId => exact safe_signUp personId occurrenceId
  | withdrawOwn personId occurrenceId => exact safe_withdrawOwn personId occurrenceId
  | withdrawFor signupId => exact safe_withdrawFor signupId

end Calls

/-! ### Every run -/

/-- Of different sign-ups, at most one is of one person to one date. -/
theorem length_le_one_of_distinct {occurrenceId personId : String} :
    ∀ {l : List EventSignup}, l.Pairwise Distinct →
      (∀ a ∈ l, a.occurrenceId = occurrenceId ∧ a.personId = personId) → l.length ≤ 1
  | [], _, _ => Nat.zero_le _
  | [_], _, _ => le_rfl
  | a :: b :: l, h, hof => by
    have hab := (List.pairwise_cons.mp h).1 b List.mem_cons_self
    have ha := hof a List.mem_cons_self
    have hb := hof b (List.mem_cons_of_mem _ List.mem_cons_self)
    exact absurd ⟨ha.1.trans hb.1.symm, ha.2.trans hb.2.symm⟩ hab.2

theorem Tidy.length_le_one {s : EventStore} (h : Tidy s) (occurrenceId personId : String) :
    ((standingOn s occurrenceId).filter fun a => a.personId = personId).length ≤ 1 := by
  apply length_le_one_of_distinct
  · exact (h.sublist List.filter_sublist).sublist List.filter_sublist
  · intro a ha
    obtain ⟨hstands, hperson⟩ := List.mem_filter.mp ha
    have hdate := of_decide_eq_true (List.mem_filter.mp hstands).2
    exact ⟨hdate.1, of_decide_eq_true hperson⟩

/-- **Sign-ups and edits beside each other.**  In every state a run reaches a person has at most
one standing sign-up to a date.  Every step leaves a date that somebody stands on where it was, and
gives a place only on a date that goes ahead, where those who stood on it did not fill a capacity
that the transaction read under the lock of the date. -/
theorem places_of_reaches (scan : String → List ℕ) (zone : Zone) {s : EventStore} {t : Int}
    {c : Config EventStore EventLock String EventFailure} (hs : s.signups = [])
    (hrun : Reaches (eventSystem scan zone) (.quiet s t) c) :
    (∀ occurrenceId personId,
      ((standingOn c.store occurrenceId).filter fun a => a.personId = personId).length ≤ 1) ∧
    ∀ c', Step (eventSystem scan zone) c c' →
      (∀ occ ∈ c.store.occurrences, standingOn c.store occ.id ≠ [] →
        ∃ occ' ∈ c'.store.occurrences, occ'.id = occ.id ∧ occ'.startsAt = occ.startsAt ∧
          occ'.endsAt = occ.endsAt) ∧
      ∀ occurrenceId personId, StandsNewly c.store c'.store occurrenceId personId →
        GoesAhead c.store occurrenceId ∧
          ∃ i, ∃ q ∈ c.processes i, PlaceFree q.reads c.store occurrenceId := by
  have hinv : eventDiscipline.inv t s := by
    show s.signups.Pairwise Distinct
    rw [hs]
    exact .nil
  refine ⟨(inv_of_reaches safe_eventCall hinv hrun).length_le_one, fun c' hstep => ?_⟩
  rcases allowed_of_reaches safe_eventCall hinv hrun hstep with hsame | ⟨i, q, hq, hmoved, hnew⟩
  · rw [hsame]
    refine ⟨fun occ hocc _ => ⟨occ, hocc, rfl, rfl, rfl⟩, ?_⟩
    rintro o p ⟨hstands, hnot⟩
    exact absurd hstands hnot
  · refine ⟨hmoved, fun o p hstands => ?_⟩
    obtain ⟨hahead, hfree⟩ := hnew o p hstands
    exact ⟨hahead, i, q, hq, hfree⟩

/-! ### Both places taken -/

section CleaningDay

/-- A published cleaning day of two places, an hour from the epoch. -/
def cleaningDay : EventStore where
  events := [⟨⟨⟨⟨1970, 1, 1⟩, 60, 120, none, by decide⟩, "Cleaning day", none, none, none, true, true,
    some 2⟩, "cleaning", .MEMBER, true, some 0⟩]
  occurrences := [⟨⟨"spring", 3600000, 10800000, none⟩, "cleaning"⟩]

def annasSignup : EventSignup := ⟨"s1", "spring", "anna", 0, none⟩

def bosSignup : EventSignup := ⟨"s2", "spring", "bo", 0, none⟩

def oneTaken : EventStore := { cleaningDay with signups := [annasSignup] }

def bothTaken : EventStore := { cleaningDay with signups := [annasSignup, bosSignup] }

/-- Two sign up, and a third is refused. -/
theorem firstCommit_signUps :
    firstCommit (signUp "anna" "spring") ⟨0, fun _ => "s1", cleaningDay, cleaningDay⟩ =
        some oneTaken ∧
      firstCommit (signUp "bo" "spring") ⟨0, fun _ => "s2", oneTaken, oneTaken⟩ = some bothTaken ∧
      firstCommit (signUp "eva" "spring") ⟨0, fun _ => "s3", bothTaken, bothTaken⟩ = none := by
  decide +kernel

theorem places_of_cleaningDay :
    (GoesAhead cleaningDay "spring" ∧ ∃ reads, PlaceFree reads cleaningDay "spring") ∧
      (GoesAhead oneTaken "spring" ∧ ∃ reads, PlaceFree reads oneTaken "spring") ∧
      (∃ occ ∈ bothTaken.occurrences, occ.id = "spring" ∧ occ.startsAt = 3600000 ∧
        occ.endsAt = 10800000) ∧
      ∀ personId,
        ((standingOn bothTaken "spring").filter fun a => a.personId = personId).length ≤ 1 := by
  have hcalls : ∀ personId occurrenceId,
      (eventSystem (fun _ => []) utc).calls (signUp personId occurrenceId) := .signUp
  obtain ⟨hanna, hbo, -⟩ := firstCommit_signUps
  obtain ⟨c, c', hrun, hstep, -, hstore, hstore', hquiet⟩ := reaches_call (hcalls _ _) _ hanna
  obtain ⟨d, d', hrun', hstep', -, hstored, hstored', -⟩ := reaches_call (hcalls _ _) _ hbo
  have hruns := ((hrun.tail hstep).trans hquiet).trans hrun'
  have hfirst := (places_of_reaches (fun _ => []) utc rfl hrun).2 c' hstep
  have hsecond := (places_of_reaches (fun _ => []) utc rfl hruns).2 d' hstep'
  have hafter := places_of_reaches (fun _ => []) utc rfl (hruns.tail hstep')
  rw [hstore, hstore'] at hfirst
  rw [hstored, hstored'] at hsecond
  rw [hstored'] at hafter
  have hnew : StandsNewly cleaningDay oneTaken "spring" "anna" ∧
      StandsNewly oneTaken bothTaken "spring" "bo" := by
    unfold StandsNewly
    decide +kernel
  obtain ⟨hahead, i, q, -, hfree⟩ := hfirst.2 "spring" "anna" hnew.1
  obtain ⟨hahead', i', q', -, hfree'⟩ := hsecond.2 "spring" "bo" hnew.2
  -- somebody stands on the date where the second signs up
  have hstays := hsecond.1 _ (List.mem_singleton_self _) (show standingOn oneTaken "spring" ≠ [] from
    List.cons_ne_nil _ _)
  exact ⟨⟨hahead, _, hfree⟩, ⟨hahead', _, hfree'⟩, hstays, fun personId => hafter.1 "spring" personId⟩

end CleaningDay

end OpenBrf.Events
