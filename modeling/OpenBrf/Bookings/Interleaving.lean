import OpenBrf.Bookings.Discipline

/-!
# Bookings.Interleaving — bookings made, cancelled and re-cut beside each other

Every call of the two services is safe, so what `Bookings.Discipline` says of a commit holds of
every run, whatever the interleaving.
-/

namespace OpenBrf.Bookings

open Txn Shared

/-- The calls there are.  Residencies are written by other modules, in any way. -/
inductive BookingCall (scan : String → List ℕ) (zone : Zone) : BookingTx Unit → Prop
  | create (input : BookableResourceInput) : BookingCall scan zone (create scan input)
  | updateResource (id : String) (input : BookableResourceInput) :
      BookingCall scan zone (updateResource scan id input)
  | deactivate (id : String) : BookingCall scan zone (deactivate id)
  | book (personId : String) (input : BookInput) :
      BookingCall scan zone (do let _ ← book zone personId input)
  | cancelOwn (personId bookingId : String) :
      BookingCall scan zone (do let _ ← cancelOwn personId bookingId)
  | cancelForBoard (bookingId : String) :
      BookingCall scan zone (do let _ ← cancelForBoard bookingId)
  | residencies (f : List Registers.Residency → List Registers.Residency) :
      BookingCall scan zone
        (transaction (update fun s => { s with residencies := f s.residencies }))

/-- The calls beside each other.  Where they are `timely`, a booking is granted the row of its
resource while the clock stands where it read it; otherwise it may have waited. -/
def bookingSystem (scan : String → List ℕ) (zone : Zone) (timely : Prop) :
    System BookingStore BookingLock String BookingFailure where
  calls := BookingCall scan zone
  prompt l := timely ∧ ∃ id, l = .resourceRow id

section Calls

variable {scan : String → List ℕ} {zone : Zone} {timely : Prop} {prompt : BookingLock → Prop}
  {c : Ctx BookingStore BookingLock}

/-! ### Resources -/

theorem safe_requireExisting {resourceId message : String}
    {Q : BookableResource → Ctx BookingStore BookingLock → Prop} (hp : c.pending = id)
    (h : ∀ t s existing, (timely → Sound zone t s) → c.knows t s →
      findResource s resourceId = some existing →
      Q existing (c.see (bookingDiscipline zone timely) t s)) :
    Safe (bookingDiscipline zone timely) prompt (requireExisting resourceId message) Q c := by
  unfold requireExisting
  rw [safe_bind, safe_snapshot]
  intro t s hinv hk
  rw [hp]
  dsimp only [id]
  split
  · exact safe_fail
  · rename_i existing hfound
    rw [safe_bind, safe_refuseIf]
    intro _
    rw [safe_pure]
    exact h t s existing hinv hk hfound

/-- Statements that only hand on what they made of their input. -/
theorem safe_validated {input : BookableResourceInput}
    {Q : BookableResourceInput → Ctx BookingStore BookingLock → Prop} (h : Q input c) :
    Safe (bookingDiscipline zone timely) prompt (validated scan input) Q c := by
  unfold validated
  split
  · exact safe_fail
  · exact h

theorem safe_create (input : BookableResourceInput) :
    SafeCall (bookingDiscipline zone timely) prompt (create scan input) := by
  unfold SafeCall create
  rw [safe_bind]
  apply safe_validated
  rw [safe_transaction, safe_bind, safe_fresh]
  intro resourceId
  rw [safe_bind, safe_acquire]
  intro t₀ s₀ _ _ _
  rw [safe_bind, safe_snapshot]
  intro t₁ s₁ _ _
  rw [safe_bind, safe_refuseIf]
  intro hnew
  rw [safe_update]
  refine ⟨fun t s hinv hk => ?_, trivial⟩
  -- whoever else creates it would hold the row
  have hsame : findResource s resourceId = none := by
    have hrely := hk.2.2 (.resourceAlone resourceId) (by
      rintro l m ⟨rfl, rfl⟩
      exact ⟨.exclusive, List.mem_cons_self, fun _ => rfl⟩)
    exact hrely.1.trans (not_not.mp hnew)
  refine commits_of_resource hinv List.mem_cons_self rfl (fun r hr => ?_) fun htimely b hb hr => ?_
  · show (s.resources ++ _).find? _ = s.resources.find? _
    rw [List.find?_append, List.find?_cons_of_neg, List.find?_nil, Option.or_none]
    simpa using hr.symm
  · -- nothing that has not ended is booked of a resource there is not
    refine ((hinv htimely).offered b hb).imp_right ?_
    rintro ⟨resource, hres, -⟩
    rw [hr, hsame] at hres
    cases hres

theorem safe_updateResource (resourceId : String) (input : BookableResourceInput) :
    SafeCall (bookingDiscipline zone timely) prompt (updateResource scan resourceId input) := by
  unfold SafeCall updateResource
  rw [safe_bind]
  apply safe_validated
  rw [safe_transaction, safe_bind, safe_acquire]
  intro t₀ s₀ _ _ _
  rw [safe_bind]
  apply safe_requireExisting rfl
  intro t₁ s₁ existing _ _ hfound
  have halone : (bookingDiscipline zone timely).Guarded
      [(BookingLock.resourceRow resourceId, Mode.exclusive)] (.resourceAlone resourceId) := by
    rintro l m ⟨rfl, rfl⟩
    exact ⟨.exclusive, List.mem_cons_self, fun _ => rfl⟩
  unfold refuseInUse
  rw [safe_bind]
  split_ifs with hcut
  · rw [safe_pure, safe_update]
    refine ⟨fun t s hinv hk => ?_, trivial⟩
    have hsame : findResource s resourceId = some existing := (hk.2.2 _ halone).1.trans hfound
    refine commits_setResource hinv List.mem_cons_self fun resource hres => .inl ?_
    obtain rfl := Option.some.inj (hsame.symm.trans hres)
    exact hcut.symm
  · rw [safe_bind, safe_readClock]
    intro now s₂ _ _
    rw [safe_bind, safe_snapshot]
    intro t₃ s₃ _ _
    rw [safe_refuseIf]
    intro hstanding
    rw [safe_update]
    refine ⟨fun t s hinv hk => ?_, trivial⟩
    obtain ⟨⟨-, hnow, -⟩, -, hr₃⟩ := hk
    refine commits_setResource hinv List.mem_cons_self fun _ _ => .inr fun b hb hr => ?_
    -- it was there when the bookings still to come were counted
    have hb₃ := (hr₃ _ halone).2 b hb hr
    by_contra hlt
    refine hstanding (List.ne_nil_of_mem (a := b) ?_)
    rw [mem_live] at hb₃
    exact List.mem_filter.mpr ⟨hb₃.1, decide_eq_true ⟨hr, hb₃.2, by omega⟩⟩

theorem safe_deactivate (resourceId : String) :
    SafeCall (bookingDiscipline zone timely) prompt (deactivate resourceId) := by
  unfold SafeCall deactivate
  rw [safe_transaction, safe_bind, safe_acquire]
  intro t₀ s₀ _ _ _
  rw [safe_bind]
  apply safe_requireExisting rfl
  intro t₁ s₁ existing _ _ _
  rw [safe_bind, safe_readClock]
  intro now s₂ _ _
  rw [safe_update]
  refine ⟨fun t s hinv _ => ?_, trivial⟩
  exact commits_setResource hinv List.mem_cons_self fun _ _ => .inl rfl

/-! ### Bookings -/

/-- After the nights of a resource are checked, nothing live of it overlaps. -/
theorem safe_refuseNights {current : BookableResource} {resourceId : String} {period : Period}
    {Q : Unit → Ctx BookingStore BookingLock → Prop} (hp : c.pending = id)
    (hrow : (BookingLock.resourceRow resourceId, Mode.shared) ∈ c.held)
    (hfound : ∀ t s, c.knows t s → findResource s resourceId = some current)
    (h : ∀ c', c.Later c' →
      (current.mode = .DATE_RANGE →
        (BookingLock.resourceBookings resourceId, Mode.exclusive) ∈ c'.held) →
      (∀ t s, c'.knows t s → current.mode = .DATE_RANGE →
        ∀ b ∈ live s, b.resourceId = resourceId → Apart b.period period) → Q () c') :
    Safe (bookingDiscipline zone timely) prompt (refuseNights current resourceId period) Q c := by
  unfold refuseNights
  split_ifs with hmode
  · unfold lockResourceBookings refuseOverlap
    rw [safe_bind, safe_acquire]
    intro t₀ s₀ _ _ _
    have hlocked := ((Ctx.Later.refl c).acquire (.resourceBookings resourceId) .exclusive).observe
      (D := bookingDiscipline zone timely) t₀ s₀
    rw [safe_bind, safe_snapshot]
    intro t₁ s₁ _ hk₁
    rw [safe_refuseIf]
    intro hclash
    refine h _ (hlocked.see t₁ s₁) (fun _ => List.mem_cons_self) fun t s hk _ b hb hr => ?_
    have hguarded : (bookingDiscipline zone timely).Guarded
        ((BookingLock.resourceBookings resourceId, Mode.exclusive) :: c.held)
        (.dateRange resourceId) := by
      rintro l m ⟨rfl | rfl, rfl⟩
      · exact ⟨.shared, List.mem_cons_of_mem _ hrow, fun h => by cases h⟩
      · exact ⟨.exclusive, List.mem_cons_self, fun _ => rfl⟩
    have hb₁ := (hk.2.2 _ hguarded).2 current (hfound t₁ s₁ hk₁.1) hmode b hb hr
    have hpending : (c.acquire (.resourceBookings resourceId) .exclusive).pending s₁ = s₁ :=
      congrFun hp s₁
    by_contra hoverlap
    refine hclash ⟨b, ?_, hr, (mem_live.mp hb₁).2, ?_⟩
    · show b ∈ ((c.acquire (.resourceBookings resourceId) .exclusive).pending s₁).bookings
      rw [hpending]
      exact (mem_live.mp hb₁).1
    · unfold Apart at hoverlap
      rw [not_or, not_le, not_le] at hoverlap
      exact ⟨hoverlap.2, hoverlap.1⟩
  · rw [safe_pure]
    exact h c (.refl c) (fun hr => absurd hr hmode) fun _ _ _ hr => absurd hr hmode

section Quota

variable {resource : BookableResource} {apartmentId : String} {period : Period} {now : Int}
  {Q : Unit → Ctx BookingStore BookingLock → Prop}

/-- The bookings of a locked apartment are no more than when they were counted. -/
theorem liveOf_sublist_of_rely {s s' : BookingStore}
    (hheld : (BookingLock.apartmentBookings apartmentId, Mode.exclusive) ∈ c.held)
    (hrely : (bookingDiscipline zone timely).Rely c.held s s') (r : String) :
    (liveOf s' r apartmentId).Sublist (liveOf s r apartmentId) := by
  have hguarded : (bookingDiscipline zone timely).Guarded c.held (.apartment apartmentId) := by
    rintro l m rfl
    exact ⟨.exclusive, hheld, fun _ => rfl⟩
  have hkeeps : (BookingFact.apartment apartmentId).keeps zone s s' := hrely _ hguarded
  exact liveOf_sublist hkeeps r

theorem safe_refuseOverConcurrent (hp : c.pending = id)
    (hheld : (BookingLock.apartmentBookings apartmentId, Mode.exclusive) ∈ c.held)
    (h : ∀ c', c.Later c' → (∀ t s, c'.knows t s → ∀ limit ∈ resource.maxConcurrentBookings,
      (unstartedOf s resource.id apartmentId now).length < limit) → Q () c') :
    Safe (bookingDiscipline zone timely) prompt (refuseOverConcurrent resource apartmentId now)
      Q c := by
  unfold refuseOverConcurrent
  split
  · rename_i hnone
    refine h c (.refl c) fun t s _ limit hl => ?_
    rw [hnone] at hl
    cases hl
  · rename_i maxConcurrentBookings hsome
    rw [safe_bind, safe_snapshot]
    intro t₀ s₀ _ _
    rw [safe_refuseIf, hp]
    intro hbelow
    refine h _ ((Ctx.Later.refl c).see t₀ s₀) fun t s hk limit hl => ?_
    obtain rfl := Option.some.inj (hsome.symm.trans hl)
    refine lt_of_le_of_lt ?_ (not_le.mp hbelow)
    have hsub := (liveOf_sublist_of_rely hheld hk.2.2 resource.id).filter fun b => now < b.startsAt
    exact_mod_cast hsub.length_le

theorem safe_refuseOverWeek (hp : c.pending = id)
    (hheld : (BookingLock.apartmentBookings apartmentId, Mode.exclusive) ∈ c.held)
    (h : ∀ c', c.Later c' → (∀ t s, c'.knows t s → ∀ limit ∈ resource.maxBookingsPerWeek,
      ∃ week, localWeekAround zone period.startsAt = .ok week ∧
        (startingIn s resource.id apartmentId week).length < limit) → Q () c') :
    Safe (bookingDiscipline zone timely) prompt (refuseOverWeek zone resource apartmentId period)
      Q c := by
  unfold refuseOverWeek
  split
  · rename_i hnone
    refine h c (.refl c) fun t s _ limit hl => ?_
    rw [hnone] at hl
    cases hl
  · rename_i maxBookingsPerWeek hsome
    split
    · exact safe_fail
    · rename_i week hweek
      rw [safe_bind, safe_snapshot]
      intro t₀ s₀ _ _
      rw [safe_refuseIf, hp]
      intro hbelow
      refine h _ ((Ctx.Later.refl c).see t₀ s₀) fun t s hk limit hl => ⟨week, hweek, ?_⟩
      obtain rfl := Option.some.inj (hsome.symm.trans hl)
      refine lt_of_le_of_lt ?_ (not_le.mp hbelow)
      have hsub := (liveOf_sublist_of_rely hheld hk.2.2 resource.id).filter fun b =>
        week.startsAt ≤ b.startsAt ∧ b.startsAt < week.endsAt
      exact_mod_cast hsub.length_le

/-- After the limits are checked the apartment is below both. -/
theorem safe_refuseOverQuota (hp : c.pending = id)
    (hheld : (BookingLock.apartmentBookings apartmentId, Mode.exclusive) ∈ c.held)
    (h : ∀ c', c.Later c' →
      (∀ t s, c'.knows t s → ∀ limit ∈ resource.maxConcurrentBookings,
        (unstartedOf s resource.id apartmentId now).length < limit) →
      (∀ t s, c'.knows t s → ∀ limit ∈ resource.maxBookingsPerWeek,
        ∃ week, localWeekAround zone period.startsAt = .ok week ∧
          (startingIn s resource.id apartmentId week).length < limit) → Q () c') :
    Safe (bookingDiscipline zone timely) prompt
      (refuseOverQuota zone resource apartmentId period now) Q c := by
  unfold refuseOverQuota
  rw [safe_bind]
  apply safe_refuseOverConcurrent hp hheld
  intro c' hlater hconcurrent
  apply safe_refuseOverWeek (hlater.pending.trans hp) (hlater.held _ hheld)
  intro c'' hlater' hweek
  exact h c'' (hlater.trans hlater') (fun t s hk => hconcurrent t s (hlater'.knows t s hk)) hweek

end Quota

/-- A claim that is made holds the key of its slot, and found nothing live at it. -/
theorem safe_createBooking {resourceId apartmentId personId : String} {period : Period}
    {Q : Bool → Ctx BookingStore BookingLock → Prop} (hp : c.pending = id)
    (hmissed : ∀ c', Q false c')
    (hmade : ∀ c' bookingId, c.Later c' →
      (BookingLock.bookedKey resourceId period.startsAt, Mode.exclusive) ∈ c'.held →
      (∀ t s, c'.knows t s → ∀ b ∈ live s, b.resourceId = resourceId →
        b.startsAt ≠ period.startsAt) →
      Q true (c'.write fun s => { s with bookings := s.bookings ++
        [⟨bookingId, resourceId, some apartmentId, personId, period.startsAt, period.endsAt,
          .BOOKED⟩] })) :
    Safe (bookingDiscipline zone timely) prompt
      (createBooking resourceId apartmentId personId period) Q c := by
  unfold createBooking
  rw [safe_bind, safe_fresh]
  intro bookingId
  rw [safe_bind, safe_acquire]
  intro t₀ s₀ _ _ _
  rw [safe_bind, safe_acquire]
  intro t₁ s₁ _ _ _
  rw [safe_bind, safe_snapshot]
  intro t₂ s₂ _ _
  have hlater := ((((Ctx.Later.refl c).acquire (.bookingRow bookingId) .exclusive).observe
    (D := bookingDiscipline zone timely) t₀ s₀).acquire
      (.bookedKey resourceId period.startsAt) .exclusive).observe
        (D := bookingDiscipline zone timely) t₁ s₁
  split_ifs with htaken
  · rw [safe_pure]
    exact hmissed _
  · rw [safe_bind, safe_update, safe_pure]
    refine hmade _ bookingId (hlater.see t₂ s₂) List.mem_cons_self ?_
    intro t s hk b hb hr hstart
    have hb₂ := hk.2.2 (.slot resourceId period.startsAt) (by
      rintro l m rfl
      exact ⟨.exclusive, List.mem_cons_self, fun _ => rfl⟩) b hb hr hstart
    refine htaken ⟨b, ?_, .inr ⟨hr, hstart, (mem_live.mp hb₂).2⟩⟩
    rw [hlater.pending, hp]
    exact (mem_live.mp hb₂).1

theorem safe_findCreated {resourceId : String} {startsAt : Int}
    {Q : Booking → Ctx BookingStore BookingLock → Prop}
    (h : ∀ c' b, c.Later c' → Q b c') :
    Safe (bookingDiscipline zone timely) prompt (findCreated resourceId startsAt) Q c := by
  unfold findCreated
  rw [safe_bind, safe_snapshot]
  intro t s _ _
  split
  · exact safe_fail
  · exact h _ _ ((Ctx.Later.refl c).see t s)

/-- Where a claim stands once it holds its apartment and the row of its resource: everything live
of the resource had ended when the claim read its clock, or is offered. -/
structure Locked (zone : Zone) (timely : Prop) (resourceId apartmentId : String) (now : Int)
    (c : Ctx BookingStore BookingLock) : Prop where
  pending : c.pending = id
  apartment : (BookingLock.apartmentBookings apartmentId, Mode.exclusive) ∈ c.held
  row : (BookingLock.resourceRow resourceId, Mode.shared) ∈ c.held
  now_le : ∀ t s, c.knows t s → now ≤ t
  others : timely → ∀ t s, c.knows t s → ∀ b ∈ live s, b.resourceId = resourceId →
    b.endsAt ≤ now ∨ Offered zone s b

theorem Locked.later {resourceId apartmentId : String} {now : Int}
    {c c' : Ctx BookingStore BookingLock} (h : Locked zone timely resourceId apartmentId now c)
    (hlater : c.Later c') : Locked zone timely resourceId apartmentId now c' where
  pending := hlater.pending.trans h.pending
  apartment := hlater.held _ h.apartment
  row := hlater.held _ h.row
  now_le t s hk := h.now_le t s (hlater.knows t s hk)
  others htimely t s hk := h.others htimely t s (hlater.knows t s hk)

theorem safe_claimLocked {personId apartmentId : String} {input : BookInput} {period : Period}
    {now : Int} {Q : Booking → Ctx BookingStore BookingLock → Prop}
    (h : Locked zone timely input.resourceId apartmentId now c)
    (hclock : timely → Dated now) (hahead : now < period.startsAt)
    (hQ : ∀ b c', (∀ t s, (timely → Sound zone t s) → c'.knows t s →
      (bookingDiscipline zone timely).Commits c'.held c'.reads t s (c'.pending s)) → Q b c') :
    Safe (bookingDiscipline zone timely) prompt
      (claimLocked zone personId apartmentId input period now) Q c := by
  unfold claimLocked requireOfferedResource
  rw [safe_bind]
  apply safe_requireExisting h.pending
  intro t₀ s₀ current _ _ hfound
  -- the resource is locked, so it is still what was read
  have hsame : ∀ t s, (c.see (bookingDiscipline zone timely) t₀ s₀).knows t s →
      findResource s input.resourceId = some current := by
    intro t s hk
    refine (hk.2.2 (.resource input.resourceId) ?_).1.trans hfound
    rintro l m ⟨rfl, rfl⟩
    exact ⟨.shared, h.row, fun h => by cases h⟩
  have hid := id_of_findResource hfound
  have h₀ := h.later ((Ctx.Later.refl c).see (D := bookingDiscipline zone timely) t₀ s₀)
  rw [safe_bind, safe_refuseIf]
  intro hperiod
  have hoffers : Offers zone current.toSlotResource period := ⟨_, not_not.mp hperiod⟩
  rw [safe_bind]
  apply safe_refuseNights h₀.pending h₀.row hsame
  intro c₁ hlater₁ hnightsHeld hnights
  rw [safe_bind]
  apply safe_refuseOverQuota (h₀.later hlater₁).pending (h₀.later hlater₁).apartment
  intro c₂ hlater₂ hconcurrent hweek
  rw [safe_bind]
  apply safe_createBooking ((h₀.later hlater₁).later hlater₂).pending
  · intro c₃
    rw [safe_bind, safe_refuseIf]
    exact fun hclaimed => absurd rfl hclaimed
  · intro c₃ bookingId hlater₃ hkey hfree
    have h₃ := ((h₀.later hlater₁).later hlater₂).later hlater₃
    rw [safe_bind, safe_refuseIf]
    intro _
    apply safe_findCreated
    intro c₄ b hlater₄
    refine hQ b c₄ fun t s hinv hk => ?_
    have hk₃ : c₃.knows t s := hlater₄.knows t s hk
    have hk₂ := hlater₃.knows t s hk₃
    have hk₁ := hlater₂.knows t s hk₂
    have hfound := hsame t s (hlater₁.knows t s hk₁)
    have hle := h₃.now_le t s hk₃
    rw [hlater₄.pending, Ctx.pending_write h₃.pending]
    have hclaim : Claim zone t s ⟨bookingId, input.resourceId, some apartmentId, personId,
        period.startsAt, period.endsAt, .BOOKED⟩ apartmentId current c₄.held := by
      refine ⟨rfl, rfl, hfound, hoffers, fun limit hl => ?_, fun limit hl => ?_, ?_, ?_, ?_, ?_⟩
      · -- what has started since is not counted
        have hlt := hconcurrent t s hk₂ limit hl
        rw [hid] at hlt
        refine lt_of_le_of_lt ?_ hlt
        have hsub : (unstartedOf s input.resourceId apartmentId t).Sublist
            (unstartedOf s input.resourceId apartmentId now) := by
          refine List.monotone_filter_right _ fun b hb => ?_
          simp only [decide_eq_true_eq] at hb ⊢
          omega
        exact_mod_cast hsub.length_le
      · have hlt := hweek t s hk₂ limit hl
        rwa [hid] at hlt
      · exact hlater₄.held _ h₃.apartment
      · exact hlater₄.held _ h₃.row
      · exact fun hmode => hlater₄.held _ (hlater₃.held _ (hlater₂.held _ (hnightsHeld hmode)))
      · exact hlater₄.held _ hkey
    have hdated : timely → Dated period.startsAt := fun htimely => (hclock htimely).trans hahead.le
    exact commits_of_claim hinv hclaim hdated fun htimely =>
      disjoint_of_claim hfound hoffers hahead (hdated htimely) (hinv htimely).dated
        (h₃.others htimely t s hk₃) (hnights t s hk₁) (hfree t s hk₃)

/-- The transaction of a booking, from where its clock was read. -/
theorem safe_claimSlot {personId apartmentId : String} {input : BookInput} {period : Period}
    {now : Int} {Q : Booking → Ctx BookingStore BookingLock → Prop} (hp : c.pending = id)
    (hlast : c.lastNow = some now) (hnow : ∀ t s, c.knows t s → now ≤ t)
    (hclock : timely → Dated now) (hahead : now < period.startsAt) (hQ : ∀ b c', Q b c') :
    Safe (bookingDiscipline zone timely) (fun l => timely ∧ ∃ id, l = .resourceRow id)
      (claimSlot zone personId apartmentId input period now) Q c := by
  unfold claimSlot lockApartmentBookings
  rw [safe_transaction, safe_bind, safe_acquire]
  intro t₀ s₀ _ _ _
  rw [safe_bind, safe_acquire]
  intro t₁ s₁ hinv₁ _ hprompt
  refine safe_claimLocked ⟨hp, ?_, List.mem_cons_self, ?_, ?_⟩ hclock hahead
    fun b c' hcommits => ⟨hcommits, hQ b _⟩
  · exact List.mem_cons_of_mem _ List.mem_cons_self
  · exact fun t s hk => hnow t s hk.1.1
  · intro htimely t s hk b hb hr
    -- it read the clock where it was granted the row
    obtain rfl := hprompt ⟨htimely, _, rfl⟩ now hlast
    have hkeeps := hk.2.2 (.resource input.resourceId) (by
      rintro l m ⟨rfl, rfl⟩
      exact ⟨.shared, List.mem_cons_self, fun h => by cases h⟩)
    rcases hkeeps.2 b hb hr with hb₁ | hoffered
    · refine ((hinv₁ htimely).offered b hb₁).imp_right fun hoffered => ?_
      rw [← hr] at hkeeps
      exact (BookingFact.offered_congr hkeeps.1).mpr hoffered
    · exact .inr hoffered

theorem safe_book (personId : String) (input : BookInput) :
    SafeCall (bookingDiscipline zone timely) (fun l => timely ∧ ∃ id, l = .resourceRow id)
      (do let _ ← book zone personId input) := by
  unfold SafeCall book requireOfferedResource requireOwnApartment
  rw [safe_bind, safe_bind, safe_readClock]
  intro now s₀ hinv₀ _
  rw [safe_bind]
  apply safe_requireExisting rfl
  intro t₁ s₁ resource _ _ _
  split
  · exact safe_fail
  · rename_i period _
    rw [safe_bind, safe_refuseIf]
    intro hahead
    rw [safe_bind, safe_bind, safe_snapshot]
    intro t₂ s₂ _ _
    rw [safe_refuseIf]
    intro _
    refine safe_claimSlot rfl rfl ?_ (fun htimely => (hinv₀ htimely).clock) (not_le.mp hahead)
      fun _ _ => trivial
    exact fun t s hk => hk.1.1.2.1

/-- A cancellation takes nothing but live bookings away, whatever it locks. -/
theorem safe_cancel (bookingId : String) (owner : Option String) :
    SafeCall (bookingDiscipline zone timely) prompt (do let _ ← cancel bookingId owner) := by
  unfold SafeCall cancel
  rw [safe_bind, safe_transaction, safe_bind, safe_snapshot]
  intro t₀ s₀ _ _
  split
  · exact safe_fail
  · rename_i booking _
    rw [safe_bind, safe_readClock]
    intro now s₁ _ _
    rw [safe_bind]
    apply safe_updateRow
    · intro c' _
      rw [safe_bind, safe_refuseIf]
      intro _
      rw [safe_bind, safe_refuseIf]
      exact fun hclaimed => absurd rfl hclaimed
    · intro c' t s hlater _ _ _ _
      rw [safe_bind, safe_refuseIf]
      intro _
      rw [safe_bind, safe_refuseIf]
      intro _
      rw [safe_pure]
      refine ⟨fun t s hinv _ => ?_, trivial⟩
      rw [Ctx.pending_write hlater.pending]
      exact commits_cancelled hinv bookingId owner now

theorem safe_residencies (f : List Registers.Residency → List Registers.Residency) :
    SafeCall (bookingDiscipline zone timely) prompt
      (transaction (update fun s => { s with residencies := f s.residencies }) :
        BookingTx Unit) := by
  unfold SafeCall
  rw [safe_transaction, safe_update]
  refine ⟨fun t s hinv _ => ?_, trivial⟩
  exact commits_of_sublist hinv rfl (.refl _)

/-- **Every call is safe.** -/
theorem safe_bookingCall (p : BookingTx Unit) (hp : (bookingSystem scan zone timely).calls p) :
    SafeCall (bookingDiscipline zone timely) (bookingSystem scan zone timely).prompt p := by
  cases hp with
  | create input => exact safe_create input
  | updateResource resourceId input => exact safe_updateResource resourceId input
  | deactivate resourceId => exact safe_deactivate resourceId
  | book personId input => exact safe_book personId input
  | cancelOwn personId bookingId => exact safe_cancel bookingId (some personId)
  | cancelForBoard bookingId => exact safe_cancel bookingId none
  | residencies f => exact safe_residencies f

end Calls

/-! ### Every run -/

/-- A store with nothing live is sound. -/
theorem sound_of_live_eq_nil {zone : Zone} {s : BookingStore} {t : Int} (hs : live s = [])
    (ht : Dated t) : Sound zone t s where
  disjoint := by
    rw [hs]
    exact .nil
  offered b hb := by
    rw [hs] at hb
    cases hb
  clock := ht
  dated b hb := by
    rw [hs] at hb
    cases hb

/-- **No double booking.**  From a store with nothing live and a clock of the year 100 or later, in
every state a run reaches where a booking's clock is read when it holds the row of its resource, no two
live bookings of a resource overlap. -/
theorem live_disjoint_of_reaches (scan : String → List ℕ) (zone : Zone) {s : BookingStore}
    {t : Int} {c : Config BookingStore BookingLock String BookingFailure} (hs : live s = [])
    (ht : Dated t) (hrun : Reaches (bookingSystem scan zone True) (.quiet s t) c) :
    (live c.store).Pairwise fun b b' =>
      b.resourceId = b'.resourceId → b.endsAt ≤ b'.startsAt ∨ b'.endsAt ≤ b.startsAt :=
  (inv_of_reaches safe_bookingCall (fun _ => sound_of_live_eq_nil hs ht) hrun trivial).disjoint

/-- **The limits.**  Whenever a step of a run makes a booking, however long it waited, its apartment
has no more live bookings of the resource in the week of the booking, and no more that have not
started, than the resource then allows, whoever of the apartment booked them. -/
theorem withinQuota_of_reaches (scan : String → List ℕ) (zone : Zone) {s : BookingStore} {t : Int}
    {c c' : Config BookingStore BookingLock String BookingFailure}
    (hrun : Reaches (bookingSystem scan zone False) (.quiet s t) c)
    (hstep : Step (bookingSystem scan zone False) c c') :
    ∀ b ∈ live c'.store, b ∉ live c.store → WithinQuota zone c.clock c'.store b := by
  have hinv : (bookingDiscipline zone False).inv t s := False.elim
  rcases allowed_of_reaches safe_bookingCall hinv hrun hstep with hsame | ⟨_, _, _, hallowed⟩
  · rw [hsame]
    exact fun b hb hnew => absurd hb hnew
  · exact hallowed

/-! ### Two holders of one apartment -/

section TwoHolders

/-- A laundry in slots of an hour from eight to twelve, two bookings a week, and an apartment of
two holders. -/
def laundry : BookingStore where
  resources := [⟨⟨⟨.TIME_SLOTS, some 60, some 480, some 720⟩, "Laundry", none, some 2, some 2⟩,
    "laundry", none⟩]
  residencies := [⟨"r1", "anna", "1101", .MEMBER, 0, none⟩, ⟨"r2", "bo", "1101", .MEMBER, 0, none⟩]

def eight : Int := 8 * 60 * 60 * 1000

def hour : Int := 60 * 60 * 1000

def annasBooking : Booking :=
  ⟨"b1", "laundry", some "1101", "anna", eight, eight + hour, .BOOKED⟩

def bosBooking : Booking :=
  ⟨"b2", "laundry", some "1101", "bo", eight + hour, eight + hour + hour, .BOOKED⟩

theorem firstCommit_anna : firstCommit
    (do let _ ← book utc "anna" ⟨"laundry", "1101", eight, none⟩)
    ⟨0, fun _ => "b1", laundry, laundry⟩ = some { laundry with bookings := [annasBooking] } := by
  decide +kernel

theorem firstCommit_bo : firstCommit
    (do let _ ← book utc "bo" ⟨"laundry", "1101", eight + hour, none⟩)
    ⟨0, fun _ => "b2", { laundry with bookings := [annasBooking] },
      { laundry with bookings := [annasBooking] }⟩ =
      some { laundry with bookings := [annasBooking, bosBooking] } := by
  decide +kernel

theorem live_disjoint_of_twoHolders :
    (live { laundry with bookings := [annasBooking, bosBooking] }).Pairwise fun b b' =>
      b.resourceId = b'.resourceId → b.endsAt ≤ b'.startsAt ∨ b'.endsAt ≤ b.startsAt := by
  have hcalls : ∀ personId input, (bookingSystem (fun _ => []) utc True).calls
      (do let _ ← book utc personId input) := .book
  obtain ⟨c, c', hrun, hstep, -, -, -, hquiet⟩ := reaches_call (hcalls _ _) _ firstCommit_anna
  obtain ⟨d, d', hrun', hstep', -, -, -, hquiet'⟩ := reaches_call (hcalls _ _) _ firstCommit_bo
  exact live_disjoint_of_reaches (fun _ => []) utc (s := laundry) (t := 0) rfl (by decide)
    (((((hrun.tail hstep).trans hquiet).trans hrun').tail hstep').trans hquiet')

theorem withinQuota_of_twoHolders :
    WithinQuota utc 0 { laundry with bookings := [annasBooking, bosBooking] } bosBooking := by
  have hcalls : ∀ personId input, (bookingSystem (fun _ => []) utc False).calls
      (do let _ ← book utc personId input) := .book
  obtain ⟨c, c', hrun, hstep, -, -, -, hquiet⟩ := reaches_call (hcalls _ _) _ firstCommit_anna
  obtain ⟨d, d', hrun', hstep', hclock, hstore, hstore', -⟩ :=
    reaches_call (hcalls _ _) _ firstCommit_bo
  have h := withinQuota_of_reaches (fun _ => []) utc (s := laundry) (t := 0)
    (((hrun.tail hstep).trans hquiet).trans hrun') hstep' bosBooking
  rw [hclock, hstore, hstore'] at h
  exact h (by decide +kernel) (by decide +kernel)

end TwoHolders

/-! ### The first days of the year 100 -/

section FirstDays

def SECOND_OF_JANUARY : Int := FIRST_COUNTED_DAY + 1

def minuteOn (minute : Int) : Int :=
  SECOND_OF_JANUARY * MILLISECONDS_PER_DAY + minute * MILLISECONDS_PER_MINUTE

/-- A clock eleven hours behind, and twelve from a change on the second of January of the year 100. -/
def farBehind : Zone where
  offset t := if t < minuteOn 1340 then -660 else -720
  offset_lt t := by
    unfold MINUTES_PER_DAY
    split_ifs <;> omega
  changes_once _ := ⟨minuteOn 1340, -660, -720, fun _ _ _ => rfl⟩

/-- A shower in slots of five minutes, from 10:20 to 11:20. -/
def shower : BookingStore where
  resources := [⟨⟨⟨.TIME_SLOTS, some 5, some 620, some 680⟩, "Shower", none, none, none⟩,
    "shower", none⟩]
  residencies := [⟨"r1", "anna", "1101", .MEMBER, FIRST_COUNTED_DAY, none⟩,
    ⟨"r2", "bo", "1102", .MEMBER, FIRST_COUNTED_DAY, none⟩]

/-- From 11:15 on the old clock, to 11:20 on the new. -/
def acrossChange : Booking :=
  ⟨"b1", "shower", some "1101", "anna", minuteOn 1335, minuteOn 1400, .BOOKED⟩

/-- From 10:20 on the new clock. -/
def afterChange : Booking :=
  ⟨"b2", "shower", some "1102", "bo", minuteOn 1340, minuteOn 1345, .BOOKED⟩

theorem firstCommit_shower :
    firstCommit (do let _ ← book farBehind "anna" ⟨"shower", "1101", minuteOn 1335, none⟩)
        ⟨minuteOn 0, fun _ => "b1", shower, shower⟩ =
      some { shower with bookings := [acrossChange] } ∧
    firstCommit (do let _ ← book farBehind "bo" ⟨"shower", "1102", minuteOn 1340, none⟩)
        ⟨minuteOn 0, fun _ => "b2", { shower with bookings := [acrossChange] },
          { shower with bookings := [acrossChange] }⟩ =
      some { shower with bookings := [acrossChange, afterChange] } := by
  decide +kernel

/-- A day before it is read as one of 1999, so before eleven that day a time is the later of the two it
names, and after eleven the earlier: two slots of one schedule overlap. -/
theorem shower_overlaps : ¬ ∀ (scan : String → List ℕ) (zone : Zone) (s : BookingStore) (t : Int)
    (c : Config BookingStore BookingLock String BookingFailure), live s = [] →
      Reaches (bookingSystem scan zone True) (.quiet s t) c →
      (live c.store).Pairwise fun b b' =>
        b.resourceId = b'.resourceId → b.endsAt ≤ b'.startsAt ∨ b'.endsAt ≤ b.startsAt := by
  intro h
  have hcalls : ∀ personId input, (bookingSystem (fun _ => []) farBehind True).calls
      (do let _ ← book farBehind personId input) := .book
  obtain ⟨hanna, hbo⟩ := firstCommit_shower
  obtain ⟨c, c', hrun, hstep, -, -, -, hquiet⟩ := reaches_call (hcalls _ _) _ hanna
  obtain ⟨d, d', hrun', hstep', -, -, hstore, -⟩ := reaches_call (hcalls _ _) _ hbo
  have happart := h (fun _ => []) farBehind shower (minuteOn 0) d' rfl
    ((((hrun.tail hstep).trans hquiet).trans hrun').tail hstep')
  rw [hstore] at happart
  have hoverlap := (List.pairwise_cons.mp happart).1 afterChange (List.mem_singleton_self _) rfl
  revert hoverlap
  decide

end FirstDays

end OpenBrf.Bookings
