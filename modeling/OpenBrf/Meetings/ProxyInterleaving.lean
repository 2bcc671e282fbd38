import OpenBrf.Meetings.DoorInterleaving

/-!
# Meetings.ProxyInterleaving — authorisations registered beside each other

Whoever registers an authority holds the authorities of its meeting, so that a member has one that
stands and nobody carries more members than the bylaws allow.
-/

namespace OpenBrf.Meetings

open Txn Lang Shared Registers MeetingStore

variable {zone : Zone}

section Commits

variable {held : List (MeetingLock × Mode)} {reads : List (Sight MeetingStore MeetingLock)}
  {t : Int} {s s' : MeetingStore} {id meetingId : String} {row : ProxyAuthorisation}

/-! ### What may be relied on -/

theorem authority_of_rely (h : (meetingDiscipline zone).Rely held s s')
    (hheld : (.authorisation id, .exclusive) ∈ held) :
    rowAt (·.id) s'.authorisations id = rowAt (·.id) s.authorisations id := by
  refine h (.door (.authority id)) fun l m' hl => ?_
  cases hl
  exact ⟨.exclusive, hheld, fun _ => rfl⟩

theorem authorityKey_of_rely {member holder : String}
    (h : (meetingDiscipline zone).Rely held s s')
    (hheld : (.authorisationKey meetingId member holder, .exclusive) ∈ held) :
    rowAt ProxyAuthorisation.key s.authorisations (meetingId, member, holder) = none →
      rowAt ProxyAuthorisation.key s'.authorisations (meetingId, member, holder) = none := by
  refine h (.door (.authorityKey (meetingId, member, holder))) fun l m' hl => ?_
  cases hl
  exact ⟨.exclusive, hheld, fun _ => rfl⟩

theorem proxies_of_rely (h : (meetingDiscipline zone).Rely held s s')
    (hheld : (.proxies meetingId, .exclusive) ∈ held) : AuthoritiesKept meetingId s s' := by
  refine h (.door (.proxies meetingId)) fun l m' hl => ?_
  cases hl
  exact ⟨.exclusive, hheld, fun _ => rfl⟩

/-! ### What each act leaves to others -/

/-- Authorisations were written, and nothing of anybody else's was. -/
theorem keeps_authorised {authorisations : List ProxyAuthorisation} {log : List MeetingEntry}
    (hrow : ∀ id, (.authorisation id, .exclusive) ∉ held →
      rowAt (·.id) authorisations id = rowAt (·.id) s.authorisations id)
    (hkeys : ∀ row ∈ authorisations, (.authorisationKey row.meetingId row.memberPersonId
        row.proxyHolderPersonId, .exclusive) ∈ held ∨
      ∃ old ∈ s.authorisations, old.key = row.key)
    (hkept : ∀ meetingId, (.proxies meetingId, .exclusive) ∉ held →
      AuthoritiesKept meetingId s { s with authorisations, log })
    (fact : DoorFact) (hk : (meetingDiscipline zone).Unguarded held (.door fact)) :
    fact.Keeps s { s with authorisations, log } := by
  cases fact with
  | authority id => exact hrow id fun hheld => guarded_exclusive hk .authority hheld
  | authorityKey key =>
    intro hnone
    refine rowAt_eq_none.mpr fun row hrow hat => ?_
    rcases hkeys row hrow with hheld | ⟨old, hold, hat'⟩
    · rw [← hat] at hk
      exact guarded_exclusive hk .authorityKey hheld
    · exact rowAt_eq_none.mp hnone old hold (hat'.trans hat)
  | proxies id => exact hkept id fun hheld => guarded_exclusive hk .proxies hheld
  | line id => rfl
  | lineKey key => exact fun hnone => hnone
  | entry meetingId personId => exact fun other hother hentry => ⟨other, hother, rfl, hentry⟩
  | leaving meetingId personId first leaves =>
    exact fun hfirst => ⟨hfirst, fun other hother hstands => ⟨other, hother, rfl, hstands⟩,
      fun _ other hother hentry => ⟨other, hother, rfl, hentry⟩⟩

section Superseding

variable {ended : Option (String × Int)} {log : List MeetingEntry}

theorem rowAt_superseded (hne : ended.map (·.1) ≠ some id) :
    rowAt (·.id) (superseded ended s).authorisations id = rowAt (·.id) s.authorisations id := by
  cases ended with
  | none => rfl
  | some ended =>
    refine rowAt_overwrite_of_ne ?_ fun _ _ => rfl
    rintro rfl
    exact hne rfl

theorem exists_key_superseded (hrow : row ∈ (superseded ended s).authorisations) :
    ∃ old ∈ s.authorisations, old.key = row.key := by
  have hkey : row.key ∈ (superseded ended s).authorisations.map ProxyAuthorisation.key :=
    List.mem_map.mpr ⟨row, hrow, rfl⟩
  rw [keys_superseded] at hkey
  exact List.mem_map.mp hkey

theorem commits_registered (row : ProxyAuthorisation) {limit : ℕ} {actorPersonId : String} (hinv : MeetingsSound s)
    (hunheld : Unheld s row.meetingId) (hstands : row.withdrawnAt = none)
    (hid : rowAt (·.id) s.authorisations row.id = none)
    (hkey : rowAt ProxyAuthorisation.key s.authorisations row.key = none)
    (hended : ∀ id ∈ ended.map (·.1), ∃ other ∈ s.authorisations, other.id = id ∧
      other.meetingId = row.meetingId)
    (halone : ∀ other ∈ s.authorisations, Authority row.meetingId row.memberPersonId other →
      ended.map (·.1) = some other.id)
    (hlimit : (carriedBy row.meetingId row.proxyHolderPersonId { superseded ended s with
      authorisations := row :: (superseded ended s).authorisations }).length ≤ limit)
    (hproxies : (.proxies row.meetingId, .exclusive) ∈ held)
    (hkeyHeld : (.authorisationKey row.meetingId row.memberPersonId row.proxyHolderPersonId,
      .exclusive) ∈ held)
    (hheld : (.authorisation row.id, .exclusive) ∈ held)
    (hendedHeld : ∀ id ∈ ended.map (·.1), (.authorisation id, .exclusive) ∈ held)
    (hs' : s' = { superseded ended s with
      authorisations := row :: (superseded ended s).authorisations
      log := .proxyRegistered row.id row.meetingId row.memberPersonId row.proxyHolderPersonId
        row.ground row.authorisedOn limit actorPersonId :: log }) :
    (meetingDiscipline zone).Commits held reads t s s' := by
  have hact : DoorAct s s' := by
    subst hs'
    exact .registered hunheld hstands (rowAt_eq_none.mp hid) (rowAt_eq_none.mp hkey) hended halone
      hlimit
  rw [superseded_eq] at hs'
  subst hs'
  refine commits_door hinv hact (keeps_authorised (fun id hnot => ?_) (fun other hother => ?_)
    fun id hnot other hother hat hstill => ?_)
  · refine (rowAt_cons_of_ne ?_).trans (rowAt_superseded fun hid => hnot (hendedHeld id hid))
    rintro rfl
    exact hnot hheld
  · rcases List.mem_cons.mp hother with rfl | hother
    · exact .inl hkeyHeld
    · exact .inr (exists_key_superseded hother)
  · rcases List.mem_cons.mp hother with rfl | hother
    · exact absurd (hat ▸ hproxies) hnot
    · exact ⟨other, (mem_superseded.mp ⟨hother, hstill⟩).1, rfl, rfl, hstill⟩

theorem commits_renewed {input : RegisterProxyInput} {authorisedOn : LocalDay} {limit : ℕ}
    {actorPersonId : String} (hinv : MeetingsSound s) (hunheld : Unheld s row.meetingId)
    (hrow : row ∈ s.authorisations)
    (hended : ∀ id ∈ ended.map (·.1), ∃ other ∈ s.authorisations, other.id = id ∧
      other.meetingId = row.meetingId)
    (halone : ∀ other ∈ s.authorisations, Authority row.meetingId row.memberPersonId other →
      other.id = row.id ∨ ended.map (·.1) = some other.id)
    (hne : ended.map (·.1) ≠ some row.id)
    (hlimit : (carriedBy row.meetingId row.proxyHolderPersonId
      ((superseded ended s).writeAuthorisation row.id
        (·.registered input authorisedOn actorPersonId))).length ≤ limit)
    (hproxies : (.proxies row.meetingId, .exclusive) ∈ held)
    (hheld : (.authorisation row.id, .exclusive) ∈ held)
    (hendedHeld : ∀ id ∈ ended.map (·.1), (.authorisation id, .exclusive) ∈ held)
    (hs' : s' = { (superseded ended s).writeAuthorisation row.id
        (·.registered input authorisedOn actorPersonId) with
      log := .proxyRegistered row.id row.meetingId row.memberPersonId row.proxyHolderPersonId
        input.ground authorisedOn limit actorPersonId :: log }) :
    (meetingDiscipline zone).Commits held reads t s s' := by
  have hact : DoorAct s s' := by
    subst hs'
    exact .renewed hunheld hrow hended halone hne hlimit
  rw [superseded_eq] at hs'
  subst hs'
  refine commits_door hinv hact (keeps_authorised (fun id hnot => ?_) (fun other hother => ?_)
    fun id hnot other hother hat hstill => ?_)
  · have hothers : id ≠ row.id := by
      rintro rfl
      exact hnot hheld
    refine Eq.trans (rowAt_overwrite_of_ne (f := ProxyAuthorisation.registered input authorisedOn actorPersonId)
      hothers fun _ _ => rfl) ?_
    exact rowAt_superseded fun hid => hnot (hendedHeld id hid)
  · obtain ⟨old, hold, hother⟩ := mem_overwrite.mp hother
    obtain ⟨known, hknown, hkey⟩ := exists_key_superseded hold
    refine .inr ⟨known, hknown, ?_⟩
    rcases hother with ⟨-, rfl⟩ | ⟨-, rfl⟩ <;> exact hkey
  · obtain ⟨old, hold, ⟨hid, rfl⟩ | ⟨-, rfl⟩⟩ := mem_overwrite.mp hother
    · -- the row that was written is of the meeting whose authorities are held
      have hsuperseded := hinv.door.supersede ended s.log
      have heq := hsuperseded.authorisations.eq_of_key hold (mem_superseded_of_ne hrow hne) hid
      rw [heq] at hat
      exact absurd (hat ▸ hproxies) hnot
    · exact ⟨_, (mem_superseded.mp ⟨hold, hstill⟩).1, rfl, rfl, hstill⟩

theorem commits_ended (withdrawnAt : Int) (entry : MeetingEntry) (hinv : MeetingsSound s)
    (hunheld : Unheld s row.meetingId) (hrow : row ∈ s.authorisations)
    (hheld : (.authorisation row.id, .exclusive) ∈ held)
    (hs' : s' = (s.writeAuthorisation row.id
      ({ · with withdrawnAt := some withdrawnAt })).record entry) :
    (meetingDiscipline zone).Commits held reads t s s' := by
  have hact : DoorAct s s' := by
    subst hs'
    exact .ended hunheld hrow
  have hsuperseded : s.writeAuthorisation row.id ({ · with withdrawnAt := some withdrawnAt }) =
      superseded (some (row.id, withdrawnAt)) s := rfl
  rw [hsuperseded, superseded_eq] at hs'
  subst hs'
  refine commits_door hinv hact (keeps_authorised (fun id hnot => ?_)
    (fun other hother => .inr (exists_key_superseded hother))
    fun id hnot other hother hat hstill => ?_)
  · refine rowAt_superseded fun hid => ?_
    obtain rfl := Option.some.inj hid
    exact hnot hheld
  · exact ⟨other, (mem_superseded.mp ⟨hother, hstill⟩).1, rfl, rfl, hstill⟩

end Superseding

end Commits

section Calls

variable {prompt : MeetingLock → Prop} {c c' : Ctx MeetingStore MeetingLock}
  {meetingId actorPersonId : String}

/-! ### Who votes for whom -/

theorem safe_endAuthority {authorisationId : String}
    {Q : Unit → Ctx MeetingStore MeetingLock → Prop}
    (h : ∀ c' withdrawnAt, c.Since c' → (.authorisation authorisationId, .exclusive) ∈ c'.held →
      c'.pending = (·.writeAuthorisation authorisationId
        ({ · with withdrawnAt := some withdrawnAt })) ∘ c.pending → Q () c') :
    Safe (meetingDiscipline zone) prompt (endAuthority authorisationId) Q c := by
  unfold endAuthority
  rw [safe_bind, safe_readClock]
  intro withdrawnAt s₀ _ _
  rw [safe_bind]
  refine safe_updateRow (fun c₁ _ => ?_) fun c₁ t₁ s₁ hlater₁ hheld _ _ _ => ?_
  · rw [safe_refuseIf]
    exact fun hnot => absurd rfl hnot
  · rw [safe_refuseIf]
    intro _
    exact h (c₁.write _) withdrawnAt ⟨hlater₁.held, fun t s hk => (hlater₁.knows t s hk).1,
      hlater₁.reads⟩ hheld (pending_write_eq hlater₁.pending _)

theorem reading_requireEligibleProxyHolder {archive : List MemberRegisterEvent}
    {input : RegisterProxyInput} {meetingDay : LocalDay} {bylaws : MeetingBylaws} :
    Reading (requireEligibleProxyHolder archive input meetingDay bylaws) := by
  unfold requireEligibleProxyHolder requireMemberOn
  cases input.ground with
  | MEMBER => exact .refuseIf
  | SPOUSE_OR_COHABITANT => exact .pure ()
  | BYLAWS => exact .refuseIf

/-- The holder carries fewer members than the limit, but for the one who is registered. -/
def Room (c : Ctx MeetingStore MeetingLock) (meetingId : String) (input : RegisterProxyInput)
    (limit : ℕ) : Prop :=
  ∃ ids : List String, ids.length < limit ∧ ∀ t s, c.knows t s →
    ∀ row ∈ carriedBy meetingId input.proxyHolderPersonId s,
      row.memberPersonId ≠ input.memberPersonId → row.id ∈ ids

theorem Room.since {input : RegisterProxyInput} {limit : ℕ} (h : Room c meetingId input limit)
    (hsince : c.Since c') : Room c' meetingId input limit := by
  obtain ⟨ids, hlt, hrows⟩ := h
  exact ⟨ids, hlt, fun t s hk => hrows t s (hsince.knows t s hk)⟩

theorem mem_carriedBy {holder : String} {s : MeetingStore} {row : ProxyAuthorisation} :
    row ∈ carriedBy meetingId holder s ↔ row ∈ s.authorisations ∧ row.meetingId = meetingId ∧
      row.proxyHolderPersonId = holder ∧ row.withdrawnAt = none := by
  simp only [carriedBy, List.mem_filter, Bool.and_eq_true, decide_eq_true_eq,
    Option.isNone_iff_eq_none, and_assoc]

theorem key_iff {row : ProxyAuthorisation} {member holder : String} :
    row.key = (meetingId, member, holder) ↔ row.meetingId = meetingId ∧
      row.memberPersonId = member ∧ row.proxyHolderPersonId = holder := by
  simp [ProxyAuthorisation.key]

theorem safe_requireProxyLimitRoom {input : RegisterProxyInput} {bylaws : MeetingBylaws}
    {Q : Unit → Ctx MeetingStore MeetingLock → Prop} (hp : c.pending = id)
    (hproxies : (.proxies meetingId, .exclusive) ∈ c.held)
    (h : ∀ c', c.Later c' → Room c' meetingId input bylaws.maxMembersPerProxyHolder → Q () c') :
    Safe (meetingDiscipline zone) prompt (requireProxyLimitRoom meetingId input bylaws) Q c := by
  unfold requireProxyLimitRoom
  rw [safe_bind, safe_snapshot]
  intro t₁ s₁ _ _
  rw [show c.pending s₁ = s₁ from congrFun hp s₁, safe_refuseIf, not_le]
  intro hlt
  refine h _ ((Ctx.Later.refl c).see t₁ s₁)
    ⟨((carriedBy meetingId input.proxyHolderPersonId s₁).filter fun row =>
      row.memberPersonId ≠ input.memberPersonId).map (·.id), ?_, fun t s hk row hrow hne => ?_⟩
  · rw [List.length_map]
    exact hlt
  · obtain ⟨hmem, hat, hholder, hstands⟩ := mem_carriedBy.mp hrow
    obtain ⟨old, hold, hid, hkey, hstood⟩ :=
      proxies_of_rely hk.2.2 hproxies row hmem hat hstands
    obtain ⟨hat', hmember', hholder'⟩ := key_iff.mp hkey
    rw [← hid]
    refine List.mem_map.mpr ⟨old, List.mem_filter.mpr ⟨mem_carriedBy.mpr ?_, ?_⟩, rfl⟩
    · exact ⟨hold, hat'.trans hat, hholder'.trans hholder, hstood⟩
    · rw [hmember']
      exact decide_eq_true hne

/-- The authority a member had standing with somebody else, if there was one, is ended. -/
structure Ended (c : Ctx MeetingStore MeetingLock) (meetingId : String)
    (input : RegisterProxyInput) (ended : Option (String × Int)) : Prop where
  held : ∀ id ∈ ended.map (·.1), (.authorisation id, .exclusive) ∈ c.held
  there : ∀ t s, c.knows t s → ∀ id ∈ ended.map (·.1), ∃ other ∈ s.authorisations,
    other.id = id ∧ other.meetingId = meetingId ∧
      other.proxyHolderPersonId ≠ input.proxyHolderPersonId
  alone : ∀ t s, c.knows t s → ∀ other ∈ s.authorisations,
    Authority meetingId input.memberPersonId other →
      other.proxyHolderPersonId ≠ input.proxyHolderPersonId → ended.map (·.1) = some other.id

theorem Ended.since {input : RegisterProxyInput} {ended : Option (String × Int)}
    (h : Ended c meetingId input ended) (hsince : c.Since c') : Ended c' meetingId input ended where
  held id hid := hsince.held _ (h.held id hid)
  there t s hk := h.there t s (hsince.knows t s hk)
  alone t s hk := h.alone t s (hsince.knows t s hk)

/-- An authority that stands stood when the authorities of its meeting were looked through. -/
theorem stood_of_rely {held : List (MeetingLock × Mode)} {s s' : MeetingStore} {member : String}
    {row : ProxyAuthorisation} (hrely : (meetingDiscipline zone).Rely held s s')
    (hproxies : (.proxies meetingId, .exclusive) ∈ held) (hrow : row ∈ s'.authorisations)
    (hauthority : Authority meetingId member row) : ∃ old ∈ s.authorisations, old.id = row.id ∧
      old.proxyHolderPersonId = row.proxyHolderPersonId ∧ Authority meetingId member old := by
  obtain ⟨old, hold, hid, hkey, hstood⟩ :=
    proxies_of_rely hrely hproxies row hrow hauthority.meeting hauthority.standing
  obtain ⟨hat, hmember, hholder⟩ := key_iff.mp hkey
  exact ⟨old, hold, hid, hholder, hat.trans hauthority.meeting, hmember.trans hauthority.member,
    hstood⟩

theorem safe_supersede {input : RegisterProxyInput}
    {Q : Unit → Ctx MeetingStore MeetingLock → Prop} (hp : c.pending = id)
    (hproxies : (.proxies meetingId, .exclusive) ∈ c.held)
    (h : ∀ c' ended (log : MeetingStore → List MeetingEntry), c.Since c' →
      Ended c' meetingId input ended →
      (c'.pending = fun s => { superseded ended s with log := log s }) → Q () c') :
    Safe (meetingDiscipline zone) prompt (supersede meetingId input actorPersonId) Q c := by
  unfold supersede
  rw [safe_bind, safe_snapshot]
  intro t₁ s₁ hinv₁ _
  have hlater₁ := (Ctx.Since.refl c).see (D := meetingDiscipline zone) t₁ s₁
  rw [show c.pending s₁ = s₁ from congrFun hp s₁]
  split
  · rename_i hnone
    refine h _ none (·.log) hlater₁ ⟨fun _ hid => ?_, fun _ _ _ _ hid => ?_,
      fun t s hk other hother hauthority hne => ?_⟩ hp
    · cases hid
    · cases hid
    · obtain ⟨old, hold, -, hholder, hauthority'⟩ :=
        stood_of_rely hk.2.2 hproxies hother hauthority
      have hnot := List.find?_eq_none.mp hnone old hold
      simp [hauthority'.meeting, hauthority'.member, hauthority'.standing, hholder, hne] at hnot
  · rename_i standing hfound
    have hmem := List.mem_of_find?_eq_some hfound
    have hmatched := List.find?_some hfound
    simp only [Bool.and_eq_true, decide_eq_true_eq, Option.isNone_iff_eq_none] at hmatched
    obtain ⟨⟨⟨hat, hmember⟩, hstands⟩, hholder⟩ := hmatched
    rw [safe_bind]
    refine safe_endAuthority fun c₂ withdrawnAt hsince₂ hheld hp₂ => ?_
    rw [safe_update]
    refine h (c₂.write _) (some (standing.id, withdrawnAt)) (fun s => .proxyWithdrawn standing.id
      meetingId input.memberPersonId true actorPersonId :: s.log) ((hlater₁.trans hsince₂).write _)
      ⟨fun id hid => ?_, fun t s hk id hid => ?_, fun t s hk other hother hauthority hne => ?_⟩ ?_
    · obtain rfl := Option.some.inj hid
      exact hheld
    · obtain rfl := Option.some.inj hid
      obtain ⟨row, hrow, hid, hkey⟩ :=
        (since_of_rely (hsince₂.knows t s hk).2.2).door.rows standing hmem
      obtain ⟨hat', -, hholder'⟩ := key_iff.mp hkey
      exact ⟨row, hrow, hid, hat'.trans hat, hholder' ▸ hholder⟩
    · obtain ⟨old, hold, hid, -, hauthority'⟩ :=
        stood_of_rely (hsince₂.knows t s hk).2.2 hproxies hother hauthority
      obtain rfl := hinv₁.door.oneHolder meetingId input.memberPersonId old hold standing hmem
        hauthority' ⟨hat, hmember, hstands⟩
      exact congrArg some hid
    · exact pending_write_eq (hp₂.trans (congrArg (Function.comp _) hp)) _

/-- The rows carried are the one registered and those there was room beside. -/
theorem carried_le {s : MeetingStore} {holder : String} (id : String) {ids : List String} {limit : ℕ}
    (hkeyed : Keyed (·.id) s.authorisations) (hlt : ids.length < limit)
    (h : ∀ row ∈ carriedBy meetingId holder s, row.id = id ∨ row.id ∈ ids) :
    (carriedBy meetingId holder s).length ≤ limit := by
  have hsub : ((carriedBy meetingId holder s).map (·.id)) ⊆ id :: ids := by
    intro other hother
    obtain ⟨row, hrow, rfl⟩ := List.mem_map.mp hother
    exact List.mem_cons.mpr (h row hrow)
  have hlength : ((carriedBy meetingId holder s).map (·.id)).length ≤ (id :: ids).length :=
    (List.subperm_of_subset (hkeyed.filter _) hsub).length_le
  rw [List.length_map, List.length_cons] at hlength
  omega

theorem exists_superseded {s : MeetingStore} {ended : Option (String × Int)}
    {row : ProxyAuthorisation} (hrow : row ∈ (superseded ended s).authorisations) :
    ∃ old ∈ s.authorisations, old.id = row.id ∧ old.key = row.key := by
  cases ended with
  | none => exact ⟨row, hrow, rfl, rfl⟩
  | some ended =>
    obtain ⟨old, hold, ⟨-, rfl⟩ | ⟨-, rfl⟩⟩ := mem_overwrite.mp hrow
    · exact ⟨old, hold, rfl, rfl⟩
    · exact ⟨_, hold, rfl, rfl⟩

/-- What a registration stands on when it is written. -/
structure Registering (c : Ctx MeetingStore MeetingLock) (meetingId : String)
    (input : RegisterProxyInput) (ended : Option (String × Int)) (limit : ℕ) : Prop where
  proxies : (.proxies meetingId, .exclusive) ∈ c.held
  unheld : ∀ t s, c.knows t s → Unheld s meetingId
  room : Room c meetingId input limit
  ended : Ended c meetingId input ended

theorem Registering.since {input : RegisterProxyInput} {ended : Option (String × Int)} {limit : ℕ}
    (h : Registering c meetingId input ended limit) (hsince : c.Since c') :
    Registering c' meetingId input ended limit where
  proxies := hsince.held _ h.proxies
  unheld t s hk := h.unheld t s (hsince.knows t s hk)
  room := h.room.since hsince
  ended := h.ended.since hsince

section Registration

variable {input : RegisterProxyInput} {authorisedOn : LocalDay} {ended : Option (String × Int)}
  {limit : ℕ} {t : Int} {s s' : MeetingStore}

/-- A member's authority that was not there before is written. -/
theorem Registering.commits_new {reads : List (Sight MeetingStore MeetingLock)} {id : String}
    (h : Registering c meetingId input ended limit) (authorisedOn : LocalDay)
    (actorPersonId : String) (log : List MeetingEntry) (hinv : MeetingsSound s) (hk : c.knows t s)
    (hid : rowAt (·.id) s.authorisations id = none)
    (hkey : rowAt ProxyAuthorisation.key s.authorisations
      (meetingId, input.memberPersonId, input.proxyHolderPersonId) = none)
    (hkeyHeld : (.authorisationKey meetingId input.memberPersonId input.proxyHolderPersonId,
      .exclusive) ∈ c.held) (hheld : (.authorisation id, .exclusive) ∈ c.held)
    (hs' : s' = { superseded ended s with
      authorisations := ⟨id, meetingId, input.memberPersonId, input.proxyHolderPersonId,
        input.ground, authorisedOn, none, actorPersonId⟩ :: (superseded ended s).authorisations
      log := .proxyRegistered id meetingId input.memberPersonId input.proxyHolderPersonId
        input.ground authorisedOn limit actorPersonId :: log }) :
    (meetingDiscipline zone).Commits c.held reads t s s' := by
  let row : ProxyAuthorisation := ⟨id, meetingId, input.memberPersonId, input.proxyHolderPersonId,
    input.ground, authorisedOn, none, actorPersonId⟩
  have hids : ∀ other ∈ (superseded ended s).authorisations, other.id ≠ id := by
    intro other hother hat
    obtain ⟨old, hold, hid', -⟩ := exists_superseded hother
    exact rowAt_eq_none.mp hid old hold (hid'.trans hat)
  refine commits_registered row hinv (h.unheld t s hk) rfl hid hkey
    (fun id hid => ?_) (fun other hother hauthority => ?_) ?_ h.proxies hkeyHeld hheld
    h.ended.held hs'
  · obtain ⟨other, hother, hid, hat, -⟩ := h.ended.there t s hk id hid
    exact ⟨other, hother, hid, hat⟩
  · refine h.ended.alone t s hk other hother hauthority fun hholder => ?_
    exact rowAt_eq_none.mp hkey other hother
      (key_iff.mpr ⟨hauthority.meeting, hauthority.member, hholder⟩)
  · obtain ⟨ids, hlt, hrows⟩ := h.room
    have hkeyed : Keyed (·.id) (row :: (superseded ended s).authorisations) :=
      (hinv.door.supersede ended s.log).authorisations.cons hids
    refine carried_le id hkeyed hlt fun other hother => ?_
    obtain ⟨hmem, hat, hholder, hstands⟩ := mem_carriedBy.mp hother
    rcases List.mem_cons.mp hmem with rfl | hmem
    · exact .inl rfl
    · have hold := (mem_superseded.mp ⟨hmem, hstands⟩).1
      refine .inr (hrows t s hk other (mem_carriedBy.mpr ⟨hold, hat, hholder, hstands⟩) ?_)
      exact fun hmember => rowAt_eq_none.mp hkey other hold (key_iff.mpr ⟨hat, hmember, hholder⟩)

/-- A member's authority that was there is written over. -/
theorem Registering.commits_again {reads : List (Sight MeetingStore MeetingLock)}
    {row : ProxyAuthorisation} (h : Registering c meetingId input ended limit)
    (authorisedOn : LocalDay) (actorPersonId : String) (log : List MeetingEntry) (hinv : MeetingsSound s) (hk : c.knows t s)
    (hrow : row ∈ s.authorisations)
    (hkey : row.key = (meetingId, input.memberPersonId, input.proxyHolderPersonId))
    (hheld : (.authorisation row.id, .exclusive) ∈ c.held)
    (hs' : s' = { (superseded ended s).writeAuthorisation row.id
        (·.registered input authorisedOn actorPersonId) with
      log := .proxyRegistered row.id meetingId input.memberPersonId input.proxyHolderPersonId
        input.ground authorisedOn limit actorPersonId :: log }) :
    (meetingDiscipline zone).Commits c.held reads t s s' := by
  obtain ⟨hat, hmember, hholder⟩ := key_iff.mp hkey
  subst hat
  have hne : ended.map (·.1) ≠ some row.id := by
    intro hid
    obtain ⟨other, hother, hid', -, hnot⟩ := h.ended.there t s hk row.id hid
    rw [hinv.door.authorisations.eq_of_key hother hrow hid'] at hnot
    exact hnot hholder
  rw [← hmember, ← hholder] at hs'
  refine commits_renewed hinv (h.unheld t s hk) hrow (fun id hid => ?_)
    (fun other hother hauthority => ?_) hne ?_ h.proxies hheld h.ended.held hs'
  · obtain ⟨other, hother, hid, hat, -⟩ := h.ended.there t s hk id hid
    exact ⟨other, hother, hid, hat⟩
  · rw [hmember] at hauthority
    by_cases hsame : other.proxyHolderPersonId = input.proxyHolderPersonId
    · refine .inl ?_
      have hkey' := key_iff.mpr ⟨hauthority.meeting, hauthority.member, hsame⟩
      rw [hinv.door.authorisationKeys.eq_of_key hother hrow (hkey'.trans hkey.symm)]
    · exact .inr (h.ended.alone t s hk other hother hauthority hsame)
  · obtain ⟨ids, hlt, hrows⟩ := h.room
    have hsuperseded := hinv.door.supersede ended s.log
    refine carried_le row.id (hsuperseded.authorisations.overwrite fun _ _ => rfl) hlt
      fun other hother => ?_
    obtain ⟨hmem, hat, hholder', hstands⟩ := mem_carriedBy.mp hother
    obtain ⟨old, hold, ⟨hid, rfl⟩ | ⟨hid, rfl⟩⟩ := mem_overwrite.mp hmem
    · exact .inl hid
    · have hold := (mem_superseded.mp ⟨hold, hstands⟩).1
      refine .inr (hrows t s hk _
        (mem_carriedBy.mpr ⟨hold, hat, hholder'.trans hholder, hstands⟩) fun hmember' => hid ?_)
      have hkey' := key_iff.mpr ⟨hat, hmember', hholder'.trans hholder⟩
      rw [hinv.door.authorisationKeys.eq_of_key hold hrow (hkey'.trans hkey.symm)]

/-- What is written of a registration is in order, once it is put on record. -/
def InOrder (zone : Zone) (c : Ctx MeetingStore MeetingLock) (entry : MeetingEntry) : Prop :=
  ∀ t s, MeetingsSound s → c.knows t s →
    (meetingDiscipline zone).Commits c.held c.reads t s ((c.pending s).record entry)

theorem safe_upsertAuthorisation {log : MeetingStore → List MeetingEntry}
    {Q : String → Ctx MeetingStore MeetingLock → Prop}
    (hp : c.pending = fun s => { superseded ended s with log := log s })
    (hregistering : Registering c meetingId input ended limit)
    (h : ∀ id c', InOrder zone c' (.proxyRegistered id meetingId input.memberPersonId
      input.proxyHolderPersonId input.ground authorisedOn limit actorPersonId) → Q id c') :
    Safe (meetingDiscipline zone) prompt
      (upsertAuthorisation meetingId input authorisedOn actorPersonId) Q c := by
  unfold upsertAuthorisation
  rw [safe_bind, safe_acquire]
  intro t₁ s₁ _ _ _
  rw [safe_bind, safe_snapshot]
  intro t₂ s₂ _ _
  have hlater₂ := ((((Ctx.Later.refl c).acquire (.authorisationKey meetingId
    input.memberPersonId input.proxyHolderPersonId) .exclusive).observe
      (D := meetingDiscipline zone) t₁ s₁).see (D := meetingDiscipline zone) t₂ s₂)
  rw [show (Ctx.observe (meetingDiscipline zone) (c.acquire (.authorisationKey meetingId
    input.memberPersonId input.proxyHolderPersonId) .exclusive) t₁ s₁).pending =
      fun s => { superseded ended s with log := log s } from hp]
  cases hrow : rowAt ProxyAuthorisation.key (superseded ended s₂).authorisations
      (meetingId, input.memberPersonId, input.proxyHolderPersonId) with
  | none =>
    show Safe _ _ (fresh >>= _) _ _
    rw [safe_bind, safe_fresh]
    intro drawn
    rw [safe_bind]
    refine safe_createRow fun c₃ t₃ s₃ hlater₃ hheld _ _ hnew hrely => ?_
    rw [safe_pure]
    refine h _ (c₃.write _) fun t s hinv hk => ?_
    have hlater := hlater₂.trans hlater₃
    have hnone : rowAt ProxyAuthorisation.id s.authorisations (drawn.ids 0) = none := by
      rw [authority_of_rely (hrely t s hk) List.mem_cons_self]
      change drawn.ids 0 ∉ (c.pending s₃).authorisations.map (·.id) at hnew
      rw [hp] at hnew
      change drawn.ids 0 ∉ (superseded ended s₃).authorisations.map (·.id) at hnew
      rw [ids_superseded] at hnew
      exact rowAt_eq_none.mpr fun other hother hid => hnew (List.mem_map.mpr ⟨other, hother, hid⟩)
    have hkey : rowAt ProxyAuthorisation.key s₂.authorisations
        (meetingId, input.memberPersonId, input.proxyHolderPersonId) = none := by
      refine rowAt_eq_none.mpr fun other hother hat => ?_
      have hmem : other.key ∈ (superseded ended s₂).authorisations.map ProxyAuthorisation.key := by
        rw [keys_superseded]
        exact List.mem_map.mpr ⟨other, hother, rfl⟩
      obtain ⟨row, hrow', hkey⟩ := List.mem_map.mp hmem
      exact rowAt_eq_none.mp hrow row hrow' (hkey.trans hat)
    refine (hregistering.since hlater.toSince).commits_new authorisedOn actorPersonId (log s) hinv hk hnone
      (authorityKey_of_rely (hlater₃.knows t s hk).2.2 List.mem_cons_self hkey)
      (hlater₃.held _ List.mem_cons_self) hheld ?_
    exact congrArg (MeetingStore.record · _) (congrFun (pending_write_eq
      (hlater.pending.trans hp) _) s)
  | some row =>
    show Safe _ _ (acquire (MeetingLock.authorisation row.id) .exclusive >>= _) _ _
    rw [safe_bind, safe_acquire]
    intro t₃ s₃ _ _ _
    have hlater₃ := (hlater₂.acquire (.authorisation row.id) .exclusive).observe
      (D := meetingDiscipline zone) t₃ s₃
    rw [safe_bind, safe_update, safe_pure]
    refine h _ (Ctx.write _ _) fun t s hinv hk => ?_
    -- the row is there as it was read, but for what may have been written in it
    obtain ⟨hrow, hkey⟩ := mem_of_rowAt hrow
    obtain ⟨old, hold, hid, hkey'⟩ := exists_superseded hrow
    obtain ⟨now, hnow, hid', hkey''⟩ := (since_of_rely hk.1.2.2).door.rows old hold
    have hat : now.id = row.id := hid'.trans hid
    refine (hregistering.since hlater₃.toSince).commits_again authorisedOn actorPersonId (log s) hinv
      hk hnow
      (hkey''.trans (hkey'.trans hkey)) ?_ ?_
    · rw [hat]
      exact List.mem_cons_self
    · rw [hat]
      exact congrArg (MeetingStore.record · _) (congrFun (pending_write_eq
        (hlater₃.pending.trans hp) _) s)

end Registration

theorem safe_registerProxy {archive : List MemberRegisterEvent} {bylaws : MeetingBylaws}
    {input : RegisterProxyInput} : SafeCall (meetingDiscipline zone) prompt
      (registerProxy zone archive bylaws meetingId input actorPersonId) := by
  unfold SafeCall registerProxy
  rw [safe_transaction, safe_bind, safe_acquire]
  intro t₀ s₀ _ _ _
  rw [safe_bind]
  refine safe_requireMeeting rfl fun meeting c₁ t₁ s₁ hlater₁ hmeeting _ _ hfound hrely₁ => ?_
  have hproxies : (.proxies meetingId, .exclusive) ∈ c₁.held := hlater₁.held _ List.mem_cons_self
  rw [safe_bind, safe_refuseIfHeld]
  intro hopen
  rw [safe_bind, safe_refuseIf]
  intro _
  rw [safe_bind]
  refine safe_reading (reading_readMeetingDay input.authorisedOn) fun authorisedOn c₂ hsince₂ hp₂ => ?_
  unfold requireMemberOn
  rw [safe_bind, safe_refuseIf]
  intro _
  split
  · exact safe_fail
  · rw [safe_bind, safe_readClock]
    intro now s₃ _ _
    rw [safe_bind, safe_refuseIf]
    intro _
    rw [safe_bind]
    refine safe_reading reading_requireEligibleProxyHolder fun _ c₄ hsince₄ hp₄ => ?_
    have hsince : c₁.Since c₄ := hsince₂.trans
      ⟨hsince₄.held, fun t s hk => (hsince₄.knows t s hk).1, hsince₄.reads⟩
    have hp₄ : c₄.pending = id := hp₄.trans (hp₂.trans hlater₁.pending)
    rw [safe_bind]
    refine safe_requireProxyLimitRoom hp₄ (hsince.held _ hproxies) fun c₅ hlater₅ hroom => ?_
    rw [safe_bind]
    refine safe_supersede (hlater₅.pending.trans hp₄) (hlater₅.held _ (hsince.held _ hproxies))
      fun c₆ ended log hsince₆ hended hp₆ => ?_
    have hsince := (hsince.trans hlater₅.toSince).trans hsince₆
    rw [safe_bind]
    refine safe_upsertAuthorisation hp₆ ⟨hsince.held _ hproxies, fun t s hk => ?_,
      hroom.since hsince₆, hended⟩ fun id c₇ hinOrder => ⟨hinOrder, trivial⟩
    exact unheld_of_rely hfound hopen hmeeting (hrely₁ t s (hsince.knows t s hk))

theorem safe_withdrawProxy {authorisationId : String} :
    SafeCall (meetingDiscipline zone) prompt
      (withdrawProxy meetingId authorisationId actorPersonId) := by
  unfold SafeCall withdrawProxy
  rw [safe_transaction, safe_bind]
  refine safe_requireMeeting rfl fun meeting c₁ t₁ s₁ hlater₁ hmeeting _ _ hfound hrely₁ => ?_
  rw [safe_bind, safe_refuseIfHeld]
  intro hopen
  rw [safe_bind, safe_snapshot]
  intro t₂ s₂ _ _
  have hlater₂ := (Ctx.Later.refl c₁).see (D := meetingDiscipline zone) t₂ s₂
  rw [show c₁.pending s₂ = s₂ from congrFun hlater₁.pending s₂]
  split
  · exact safe_fail
  · rename_i existing hexisting
    obtain ⟨hexisting, hat⟩ := Option.filter_eq_some_iff.mp hexisting
    obtain ⟨hmem, hid⟩ := mem_of_rowAt hexisting
    refine safe_onlyIf (fun _ => ?_) fun _ => ⟨fun t s hinv _ => ?_, trivial⟩
    · rw [safe_bind]
      refine safe_endAuthority fun c₃ withdrawnAt hsince₃ hheld hp₃ => ?_
      rw [safe_update]
      refine ⟨fun t s hinv hk => ?_, trivial⟩
      have hunheld : Unheld s meetingId := unheld_of_rely hfound hopen hmeeting
        (hrely₁ t s (hlater₂.knows t s (hsince₃.knows t s hk)))
      obtain ⟨row, hrow, hid', hkey⟩ :=
        (since_of_rely (hsince₃.knows t s hk).2.2).door.rows existing hmem
      have hat' : row.meetingId = meetingId := (Prod.mk.inj hkey).1.trans (of_decide_eq_true hat)
      have hat'' : row.id = authorisationId := hid'.trans hid
      subst hat' hat''
      refine commits_ended withdrawnAt (.proxyWithdrawn row.id row.meetingId existing.memberPersonId false
        actorPersonId) hinv hunheld hrow hheld ?_
      exact congrFun (pending_write_eq (hp₃.trans (congrArg (Function.comp _)
        hlater₁.pending)) _) s
    · show (meetingDiscipline zone).Commits _ _ t s (c₁.pending s)
      rw [show c₁.pending s = s from congrFun hlater₁.pending s]
      exact commits_nothing hinv

end Calls

end OpenBrf.Meetings
