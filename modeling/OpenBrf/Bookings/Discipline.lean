import OpenBrf.Bookings.Service
import OpenBrf.Bookings.SlotPeriods
import OpenBrf.Txn.Safe

/-!
# Bookings.Discipline — what every commit keeps of the bookings

The invariant of the table, and the facts that the locks guard.  No program is followed here: the
lemmas say what a commit owes of each kind of change.
-/

namespace OpenBrf.Bookings

open Txn Shared

variable {zone : Zone} {t : Int} {s s' s'' : BookingStore}

/-- The live bookings. -/
def live (s : BookingStore) : List Booking := s.bookings.filter fun b => b.status = .BOOKED

def Booking.period (b : Booking) : Period := ⟨b.startsAt, b.endsAt⟩

/-- Whether the resource, as it is cut now, offers what is booked of it. -/
def Offered (zone : Zone) (s : BookingStore) (b : Booking) : Prop :=
  ∃ resource ∈ findResource s b.resourceId, Offers zone resource.toSlotResource b.period

/-- Two bookings of one resource do not overlap. -/
def Disjoint (b b' : Booking) : Prop := b.resourceId = b'.resourceId → Apart b.period b'.period

/-- An instant from the fifth of January of the year 100 on: what starts after it is looked up among
days that `Date.UTC` counts as the calendar does. -/
def Dated (t : Int) : Prop := (FIRST_COUNTED_DAY + 4) * MILLISECONDS_PER_DAY ≤ t

instance (t : Int) : Decidable (Dated t) := inferInstanceAs (Decidable (_ ≤ _))

theorem Dated.counted (h : Dated t) : Counted (localDayOf zone t - 1) := by
  have hoffset := zone.offset_lt t
  unfold Dated at h
  unfold Counted localDayOf Zone.wall
  simp only [MILLISECONDS_PER_DAY, MILLISECONDS_PER_MINUTE, MINUTES_PER_DAY] at h hoffset ⊢
  omega

/-- The invariant: live bookings are disjoint, and one that has not ended is one that its
resource offers. -/
structure Sound (zone : Zone) (t : Int) (s : BookingStore) : Prop where
  disjoint : (live s).Pairwise Disjoint
  offered : ∀ b ∈ live s, b.endsAt ≤ t ∨ Offered zone s b
  clock : Dated t
  dated : ∀ b ∈ live s, Dated b.startsAt

/-- The apartment that holds a booking is within the limits of its resource. -/
def WithinQuota (zone : Zone) (t : Int) (s : BookingStore) (b : Booking) : Prop :=
  ∀ apartmentId ∈ b.apartmentId, ∃ resource ∈ findResource s b.resourceId,
    (∀ limit ∈ resource.maxConcurrentBookings,
      (unstartedOf s b.resourceId apartmentId t).length ≤ limit) ∧
    ∀ limit ∈ resource.maxBookingsPerWeek, ∃ week, localWeekAround zone b.startsAt = .ok week ∧
      (startingIn s b.resourceId apartmentId week).length ≤ limit

/-- The live bookings of an apartment. -/
def liveOfApartment (s : BookingStore) (apartmentId : String) : List Booking :=
  (live s).filter fun b => b.apartmentId = some apartmentId

/-- What stands while the locks on it are held. -/
inductive BookingFact where
  /-- No booking is added to an apartment's. -/
  | apartment (apartmentId : String)
  /-- A resource is as it was, and what is added to its bookings it offers. -/
  | resource (resourceId : String)
  /-- A resource is as it was, and no booking of it is added. -/
  | resourceAlone (resourceId : String)
  /-- A resource is as it was, and where it is booked by nights no booking of it is added. -/
  | dateRange (resourceId : String)
  /-- No booking of a resource is added at an instant. -/
  | slot (resourceId : String) (startsAt : Int)

namespace BookingFact

def guards : BookingFact → BookingLock → Mode → Prop
  | apartment a, l, _ => l = .apartmentBookings a
  | resource r, l, m => l = .resourceRow r ∧ m = .shared
  | resourceAlone r, l, m => l = .resourceRow r ∧ m = .exclusive
  | dateRange r, l, m => (l = .resourceRow r ∨ l = .resourceBookings r) ∧ m = .shared
  | slot r startsAt, l, _ => l = .bookedKey r startsAt

def keeps (zone : Zone) : BookingFact → BookingStore → BookingStore → Prop
  | apartment a, s, s' => (liveOfApartment s' a).Sublist (liveOfApartment s a)
  | resource r, s, s' => findResource s' r = findResource s r ∧
      ∀ b ∈ live s', b.resourceId = r → b ∈ live s ∨ Offered zone s' b
  | resourceAlone r, s, s' => findResource s' r = findResource s r ∧
      ∀ b ∈ live s', b.resourceId = r → b ∈ live s
  | dateRange r, s, s' => findResource s' r = findResource s r ∧
      ∀ resource ∈ findResource s r, resource.mode = .DATE_RANGE →
        ∀ b ∈ live s', b.resourceId = r → b ∈ live s
  | slot r startsAt, s, s' => ∀ b ∈ live s', b.resourceId = r → b.startsAt = startsAt → b ∈ live s

theorem keeps_refl (zone : Zone) (k : BookingFact) (s : BookingStore) : k.keeps zone s s := by
  cases k with
  | apartment a => exact .refl _
  | resource r => exact ⟨rfl, fun b hb _ => .inl hb⟩
  | resourceAlone r => exact ⟨rfl, fun b hb _ => hb⟩
  | dateRange r => exact ⟨rfl, fun _ _ _ b hb _ => hb⟩
  | slot r startsAt => exact fun b hb _ _ => hb

/-- What a resource offers depends on nothing but the resource. -/
theorem offered_congr {b : Booking} (h : findResource s' b.resourceId = findResource s b.resourceId) :
    Offered zone s' b ↔ Offered zone s b := by
  unfold Offered
  rw [h]

theorem keeps_trans {k : BookingFact} (h : k.keeps zone s s') (h' : k.keeps zone s' s'') :
    k.keeps zone s s'' := by
  cases k with
  | apartment a => exact h'.trans h
  | resource r =>
    refine ⟨h'.1.trans h.1, fun b hb hr => ?_⟩
    rcases h'.2 b hb hr with hb' | hoffered
    · refine (h.2 b hb' hr).imp_right fun hoffered => ?_
      subst hr
      exact (offered_congr h'.1).mpr hoffered
    · exact .inr hoffered
  | resourceAlone r => exact ⟨h'.1.trans h.1, fun b hb hr => h.2 b (h'.2 b hb hr) hr⟩
  | dateRange r =>
    refine ⟨h'.1.trans h.1, fun resource hres hmode b hb hr => ?_⟩
    refine h.2 resource hres hmode b (h'.2 resource ?_ hmode b hb hr) hr
    rwa [h.1]
  | slot r startsAt => exact fun b hb hr hstart => h b (h' b hb hr hstart) hr hstart

end BookingFact

/-- What commits keep of the bookings.  The invariant is asked for where the clock stands still
while a booking waits for its resource; the facts and the limits stand without that. -/
def bookingDiscipline (zone : Zone) (timely : Prop) :
    Discipline BookingStore BookingLock BookingFact where
  inv t s := timely → Sound zone t s
  guards := BookingFact.guards
  keeps := BookingFact.keeps zone
  allowed _ t s s' := ∀ b ∈ live s', b ∉ live s → WithinQuota zone t s' b
  inv_mono ht h htimely :=
    ⟨(h htimely).disjoint, fun b hb => ((h htimely).offered b hb).imp_left (le_trans · ht),
      (h htimely).clock.trans ht, (h htimely).dated⟩
  keeps_refl := BookingFact.keeps_refl zone
  keeps_trans := BookingFact.keeps_trans

variable {timely : Prop} {held : List (BookingLock × Mode)}
  {reads : List (Sight BookingStore BookingLock)}

/-! ### Bookings taken away -/

/-- A change that leaves the resources and adds no live booking, such as a cancellation. -/
theorem commits_of_sublist (hinv : timely → Sound zone t s) (hres : s'.resources = s.resources)
    (hsub : (live s').Sublist (live s)) : (bookingDiscipline zone timely).Commits held reads t s s' := by
  have hfind : ∀ r, findResource s' r = findResource s r := by
    intro r
    unfold findResource
    rw [hres]
  refine ⟨fun htimely => ⟨?_, fun b hb => ?_, ?_, fun b hb => ?_⟩, fun b hb hnew => ?_, fun k _ => ?_⟩
  · exact (hinv htimely).disjoint.sublist hsub
  · refine ((hinv htimely).offered b (hsub.subset hb)).imp_right fun hoffered => ?_
    exact (BookingFact.offered_congr (hfind _)).mpr hoffered
  · exact (hinv htimely).clock
  · exact (hinv htimely).dated b (hsub.subset hb)
  · exact absurd (hsub.subset hb) hnew
  · cases k with
    | apartment a => exact hsub.filter _
    | resource r => exact ⟨hfind r, fun b hb _ => .inl (hsub.subset hb)⟩
    | resourceAlone r => exact ⟨hfind r, fun b hb _ => hsub.subset hb⟩
    | dateRange r => exact ⟨hfind r, fun _ _ _ b hb _ => hsub.subset hb⟩
    | slot r startsAt => exact fun b hb _ _ => hsub.subset hb

/-- Cancelling leaves the live bookings but the cancelled. -/
theorem live_cancelled (bookingId : String) (owner : Option String) (now : Int) :
    live { s with bookings := s.bookings.map (cancelled bookingId owner now) } =
      (live s).filter fun b => ¬ cancels bookingId owner now b := by
  have hone : ∀ b : Booking, (cancelled bookingId owner now b).status = .BOOKED ↔
      b.status = .BOOKED ∧ ¬ cancels bookingId owner now b = true := by
    intro b
    unfold cancelled
    split_ifs with h <;> simp [h]
  have hsame : ∀ b : Booking, ¬ cancels bookingId owner now b = true →
      cancelled bookingId owner now b = b := by
    intro b h
    exact if_neg h
  unfold live
  show (s.bookings.map _).filter _ = _
  rw [List.filter_map, List.filter_filter]
  have heq : (s.bookings.filter fun b => (cancelled bookingId owner now b).status = .BOOKED) =
      s.bookings.filter fun b => (¬ cancels bookingId owner now b) && b.status = .BOOKED := by
    refine List.filter_congr fun b _ => ?_
    rw [Bool.eq_iff_iff, decide_eq_true_eq, hone b]
    simp [and_comm]
  show ((s.bookings.filter fun b => (cancelled bookingId owner now b).status = .BOOKED).map _) = _
  rw [heq]
  refine (List.map_congr_left fun b hb => hsame b ?_).trans (List.map_id _)
  have hb := (List.mem_filter.mp hb).2
  simp only [Bool.and_eq_true, decide_eq_true_eq] at hb
  exact hb.1

theorem commits_cancelled (hinv : timely → Sound zone t s) (bookingId : String)
    (owner : Option String) (now : Int) : (bookingDiscipline zone timely).Commits held reads t s
      { s with bookings := s.bookings.map (cancelled bookingId owner now) } := by
  refine commits_of_sublist hinv rfl ?_
  rw [live_cancelled]
  exact List.filter_sublist

/-! ### Resources changed -/

/-- A change of one resource by somebody who holds its row alone, where what is booked of it and
has not ended is still offered. -/
theorem commits_of_resource {id : String} (hinv : timely → Sound zone t s)
    (hheld : (BookingLock.resourceRow id, Mode.exclusive) ∈ held)
    (hbook : s'.bookings = s.bookings)
    (hfind : ∀ r, r ≠ id → findResource s' r = findResource s r)
    (hoffered : timely → ∀ b ∈ live s, b.resourceId = id → b.endsAt ≤ t ∨ Offered zone s' b) :
    (bookingDiscipline zone timely).Commits held reads t s s' := by
  have hlive : live s' = live s := by
    unfold live
    rw [hbook]
  have hother : ∀ {k : BookingFact} {r : String} {m : Mode},
      (bookingDiscipline zone timely).Unguarded held k → k.guards (.resourceRow r) m → r ≠ id := by
    rintro k r m hk hguards rfl
    obtain ⟨-, h⟩ := hk _ m hguards _ hheld
    cases h
  refine ⟨fun htimely => ⟨?_, fun b hb => ?_, ?_, fun b hb => ?_⟩, fun b hb hnew => ?_,
    fun k hk => ?_⟩
  · rw [hlive]
    exact (hinv htimely).disjoint
  · rw [hlive] at hb
    by_cases hr : b.resourceId = id
    · exact hoffered htimely b hb hr
    · refine ((hinv htimely).offered b hb).imp_right fun h => ?_
      exact (BookingFact.offered_congr (hfind _ hr)).mpr h
  · exact (hinv htimely).clock
  · rw [hlive] at hb
    exact (hinv htimely).dated b hb
  · rw [hlive] at hb
    exact absurd hb hnew
  · cases k with
    | apartment a =>
      show (liveOfApartment s' a).Sublist (liveOfApartment s a)
      unfold liveOfApartment
      rw [hlive]
    | resource r =>
      refine ⟨hfind r (hother hk ⟨rfl, rfl⟩), fun b hb _ => .inl ?_⟩
      rwa [← hlive]
    | resourceAlone r =>
      refine ⟨hfind r (hother hk ⟨rfl, rfl⟩), fun b hb _ => ?_⟩
      rwa [← hlive]
    | dateRange r =>
      refine ⟨hfind r (hother hk ⟨.inl rfl, rfl⟩), fun _ _ _ b hb _ => ?_⟩
      rwa [← hlive]
    | slot r startsAt =>
      intro b hb _ _
      rwa [← hlive]

theorem findResource_setResource {id : String} {f : BookableResource → BookableResource}
    (r : String) : findResource (setResource id f s) r =
      (findResource s r).map fun resource =>
        if resource.id = id then { f resource with id := id } else resource := by
  unfold findResource setResource
  rw [List.find?_map]
  congr 2
  funext resource
  show decide ((if resource.id = id then { f resource with id := id } else resource).id = r) = _
  split_ifs with h
  · show decide (id = r) = decide (resource.id = r)
    rw [h]
  · rfl

theorem id_of_findResource {r : String} {resource : BookableResource}
    (h : findResource s r = some resource) : resource.id = r := by
  have hp := List.find?_some h
  exact of_decide_eq_true hp

theorem findResource_setResource_self {id : String} {f : BookableResource → BookableResource}
    {resource : BookableResource} (h : findResource s id = some resource) :
    findResource (setResource id f s) id = some { f resource with id := id } := by
  rw [findResource_setResource, h, Option.map_some, if_pos (id_of_findResource h)]

theorem findResource_setResource_of_ne {id r : String} (f : BookableResource → BookableResource)
    (hne : r ≠ id) : findResource (setResource id f s) r = findResource s r := by
  rw [findResource_setResource]
  cases h : findResource s r with
  | none => rfl
  | some resource =>
    rw [Option.map_some, if_neg]
    rwa [id_of_findResource h]

/-- An edit of a resource that cuts it as it was, or that nothing still to come is booked of. -/
theorem commits_setResource {id : String} {f : BookableResource → BookableResource}
    (hinv : timely → Sound zone t s)
    (hheld : (BookingLock.resourceRow id, Mode.exclusive) ∈ held)
    (hcut : ∀ resource, findResource s id = some resource →
      (f resource).toSlotResource = resource.toSlotResource ∨
        ∀ b ∈ live s, b.resourceId = id → b.endsAt ≤ t) :
    (bookingDiscipline zone timely).Commits held reads t s (setResource id f s) := by
  refine commits_of_resource hinv hheld rfl (fun r hr => findResource_setResource_of_ne f hr) ?_
  intro htimely b hb hr
  rcases (hinv htimely).offered b hb with hended | ⟨resource, hres, hoffers⟩
  · exact .inl hended
  · rw [hr] at hres
    rcases hcut resource hres with hsame | hended
    · have hres' : findResource (setResource id f s) b.resourceId =
          some { f resource with id := id } := by
        rw [hr]
        exact findResource_setResource_self hres
      rw [← hsame] at hoffers
      exact .inr ⟨_, hres', hoffers⟩
    · exact .inl (hended b hb hr)

/-! ### Bookings made -/

theorem mem_live {b : Booking} : b ∈ live s ↔ b ∈ s.bookings ∧ b.status = .BOOKED := by
  unfold live
  rw [List.mem_filter, decide_eq_true_eq]

theorem live_append {b : Booking} (hb : b.status = .BOOKED) :
    live { s with bookings := s.bookings ++ [b] } = live s ++ [b] := by
  unfold live
  show (s.bookings ++ [b]).filter _ = _
  rw [List.filter_append, List.filter_cons_of_pos, List.filter_nil]
  exact decide_eq_true hb

theorem liveOf_eq (r a : String) :
    liveOf s r a = (liveOfApartment s a).filter fun b => b.resourceId = r := by
  unfold liveOf liveOfApartment live
  rw [List.filter_filter, List.filter_filter]
  refine List.filter_congr fun b _ => ?_
  rw [Bool.eq_iff_iff]
  simp only [decide_eq_true_eq, Bool.and_eq_true]
  tauto

/-- What an apartment holds of a resource grows by nobody else's booking. -/
theorem liveOf_sublist {a : String} (h : (BookingFact.apartment a).keeps zone s s') (r : String) :
    (liveOf s' r a).Sublist (liveOf s r a) := by
  rw [liveOf_eq, liveOf_eq]
  exact h.filter _

/-- The claim of a slot as it stands when it commits: its resource offers it, nothing live of the
resource overlaps it, and the apartment is below both limits. -/
structure Claim (zone : Zone) (t : Int) (s : BookingStore) (b : Booking) (apartmentId : String)
    (resource : BookableResource) (held : List (BookingLock × Mode)) : Prop where
  status : b.status = .BOOKED
  apartment : b.apartmentId = some apartmentId
  found : findResource s b.resourceId = some resource
  offers : Offers zone resource.toSlotResource b.period
  concurrent : ∀ limit ∈ resource.maxConcurrentBookings,
    (unstartedOf s b.resourceId apartmentId t).length < limit
  week : ∀ limit ∈ resource.maxBookingsPerWeek, ∃ week, localWeekAround zone b.startsAt = .ok week ∧
    (startingIn s b.resourceId apartmentId week).length < limit
  apartmentHeld : (BookingLock.apartmentBookings apartmentId, Mode.exclusive) ∈ held
  rowHeld : (BookingLock.resourceRow b.resourceId, Mode.shared) ∈ held
  nightsHeld : resource.mode = .DATE_RANGE →
    (BookingLock.resourceBookings b.resourceId, Mode.exclusive) ∈ held
  keyHeld : (BookingLock.bookedKey b.resourceId b.startsAt, Mode.exclusive) ∈ held

theorem liveOf_append {b : Booking} {r a : String} (hb : b.status = .BOOKED)
    (hr : b.resourceId = r) (ha : b.apartmentId = some a) :
    liveOf { s with bookings := s.bookings ++ [b] } r a = liveOf s r a ++ [b] := by
  unfold liveOf
  show (s.bookings ++ [b]).filter _ = _
  rw [List.filter_append, List.filter_cons_of_pos, List.filter_nil]
  exact decide_eq_true ⟨hr, ha, hb⟩

/-- A booking takes its apartment no further than the limits. -/
theorem Claim.withinQuota {b : Booking} {a : String} {resource : BookableResource}
    (h : Claim zone t s b a resource held) :
    WithinQuota zone t { s with bookings := s.bookings ++ [b] } b := by
  have hle : ∀ (p : Booking → Bool),
      ((liveOf { s with bookings := s.bookings ++ [b] } b.resourceId a).filter p).length ≤
        ((liveOf s b.resourceId a).filter p).length + 1 := by
    intro p
    rw [liveOf_append h.status rfl h.apartment, List.filter_append, List.length_append]
    exact Nat.add_le_add_left (List.length_filter_le p [b]) _
  intro a' ha'
  obtain rfl : a = a' := Option.some.inj (h.apartment.symm.trans ha')
  refine ⟨resource, h.found, fun limit hl => ?_, fun limit hl => ?_⟩
  · have hlt := h.concurrent limit hl
    have := hle fun b' => t < b'.startsAt
    unfold unstartedOf at hlt ⊢
    omega
  · obtain ⟨week, hweek, hlt⟩ := h.week limit hl
    refine ⟨week, hweek, ?_⟩
    have := hle fun b' => week.startsAt ≤ b'.startsAt ∧ b'.startsAt < week.endsAt
    unfold startingIn at hlt ⊢
    omega

theorem commits_of_claim {b : Booking} {a : String} {resource : BookableResource}
    (hinv : timely → Sound zone t s) (h : Claim zone t s b a resource held)
    (hdated : timely → Dated b.startsAt) (hapart : timely → ∀ b' ∈ live s, Disjoint b' b) :
    (bookingDiscipline zone timely).Commits held reads t s
      { s with bookings := s.bookings ++ [b] } := by
  have hlive := live_append (s := s) h.status
  have hcases : ∀ b' ∈ live { s with bookings := s.bookings ++ [b] }, b' ∈ live s ∨ b' = b := by
    intro b' hb'
    rw [hlive] at hb'
    exact (List.mem_append.mp hb').imp_right List.mem_singleton.mp
  have hoffered : Offered zone { s with bookings := s.bookings ++ [b] } b :=
    ⟨resource, h.found, h.offers⟩
  refine ⟨fun htimely => ⟨?_, fun b' hb' => ?_, ?_, fun b' hb' => ?_⟩, fun b' hb' hnew => ?_,
    fun k hk => ?_⟩
  · rw [hlive, List.pairwise_append]
    refine ⟨(hinv htimely).disjoint, List.pairwise_singleton _ _, fun b' hb' b'' hb'' => ?_⟩
    obtain rfl := List.mem_singleton.mp hb''
    exact hapart htimely b' hb'
  · rcases hcases b' hb' with hold | rfl
    · exact (hinv htimely).offered b' hold
    · exact .inr hoffered
  · exact (hinv htimely).clock
  · rcases hcases b' hb' with hold | rfl
    · exact (hinv htimely).dated b' hold
    · exact hdated htimely
  · rcases hcases b' hb' with hold | rfl
    · exact absurd hold hnew
    · exact h.withinQuota
  · cases k with
    | apartment a' =>
      have hne : a' ≠ a := by
        rintro rfl
        cases (hk _ .shared rfl _ h.apartmentHeld).2
      show (liveOfApartment _ a').Sublist (liveOfApartment s a')
      unfold liveOfApartment
      rw [hlive, List.filter_append, List.filter_cons_of_neg, List.filter_nil, List.append_nil]
      simp [h.apartment, hne.symm]
    | resource r =>
      refine ⟨rfl, fun b' hb' _ => ?_⟩
      rcases hcases b' hb' with hold | rfl
      · exact .inl hold
      · exact .inr hoffered
    | resourceAlone r =>
      refine ⟨rfl, fun b' hb' hr => ?_⟩
      rcases hcases b' hb' with hold | rfl
      · exact hold
      · subst hr
        cases (hk _ .exclusive ⟨rfl, rfl⟩ _ h.rowHeld).1
    | dateRange r =>
      refine ⟨rfl, fun resource' hres hmode b' hb' hr => ?_⟩
      rcases hcases b' hb' with hold | rfl
      · exact hold
      · subst hr
        obtain rfl : resource = resource' := Option.some.inj (h.found.symm.trans hres)
        cases (hk _ .shared ⟨.inr rfl, rfl⟩ _ (h.nightsHeld hmode)).2
    | slot r startsAt =>
      intro b' hb' hr hstart
      rcases hcases b' hb' with hold | rfl
      · exact hold
      · subst hr
        subst hstart
        cases (hk _ .shared rfl _ h.keyHeld).2

/-- **What makes a claim safe.**  Everything live of the resource had ended when the claim took
the row, or is offered by the schedule the claim is cut from: then it is the same slot, which the
unique key excludes, or apart from it. -/
theorem disjoint_of_claim {b : Booking} {resource : BookableResource} {now : Int}
    (hfound : findResource s b.resourceId = some resource)
    (hoffers : Offers zone resource.toSlotResource b.period) (hnow : now < b.startsAt)
    (hdated : Dated b.startsAt) (hotherDated : ∀ b' ∈ live s, Dated b'.startsAt)
    (hothers : ∀ b' ∈ live s, b'.resourceId = b.resourceId → b'.endsAt ≤ now ∨ Offered zone s b')
    (hnights : resource.mode = .DATE_RANGE →
      ∀ b' ∈ live s, b'.resourceId = b.resourceId → Apart b'.period b.period)
    (hfree : ∀ b' ∈ live s, b'.resourceId = b.resourceId → b'.startsAt ≠ b.startsAt) :
    ∀ b' ∈ live s, Disjoint b' b := by
  intro b' hb' hr
  by_cases hmode : resource.mode = .DATE_RANGE
  · exact hnights hmode b' hb' hr
  · rcases hothers b' hb' hr with hended | ⟨resource', hres, hoffers'⟩
    · exact .inl (hended.trans hnow.le)
    · rw [hr, hfound] at hres
      obtain rfl := Option.some.inj hres
      have hsame := hoffers'.apart hmode hoffers (hotherDated b' hb').counted hdated.counted
      exact hsame.resolve_left fun heq => hfree b' hb' hr (congrArg Period.startsAt heq)

end OpenBrf.Bookings
