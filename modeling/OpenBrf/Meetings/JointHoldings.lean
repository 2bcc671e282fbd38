import OpenBrf.Grouping.Components
import OpenBrf.Meetings.VotingRegister

/-!
# Meetings.JointHoldings — the groups of the merge are the connected components

The members on the day are read off the archive and the holdings.  Each turn of the merge adds one
member to the groups of those before; what the map of apartments claims is what the groups hold.
-/

namespace OpenBrf.Meetings

open Lang Shared Registers Grouping

/-! ### Members -/

section Members

variable {Row : Type} [RegisterRow Row]

/-- Whether the register reads a person as a member on the meeting day. -/
def isMemberOn (events : List (ResolvedRegisterEvent Row)) (meetingDay : LocalDay)
    (personId : String) : Bool :=
  (membershipPeriods (events.filter fun event => event.personId = personId)).any
    (coversDay meetingDay)

theorem pushed_keys (events : List (ResolvedRegisterEvent Row)) :
    ∀ byPerson : List (String × List (ResolvedRegisterEvent Row)),
      (byPerson.map (·.1)).Nodup →
      ((events.foldl (fun byPerson event => pushKey event.personId event byPerson) byPerson).map
        (·.1)).Nodup ∧
      ∀ personId, personId ∈ (events.foldl
        (fun byPerson event => pushKey event.personId event byPerson) byPerson).map (·.1) ↔
          personId ∈ events.map (fun event => event.personId) ∨ personId ∈ byPerson.map (·.1) := by
  induction events with
  | nil => exact fun byPerson h => ⟨h, fun personId => by simp⟩
  | cons event events ih =>
    intro byPerson h
    obtain ⟨hnodup, hmem⟩ := ih (pushKey event.personId event byPerson) (nodup_keys_setKey h)
    refine ⟨hnodup, fun personId => (hmem personId).trans ?_⟩
    unfold pushKey
    rw [mem_keys_setKey, List.map_cons, List.mem_cons, or_assoc, or_left_comm]

theorem getKey_pushed (events : List (ResolvedRegisterEvent Row)) (personId : String) :
    (getKey personId (events.foldl
      (fun byPerson event => pushKey event.personId event byPerson) [])).getD [] =
        events.filter fun event => event.personId = personId := by
  have h := getKey_foldl_pushKey personId (events.map fun event => (event.personId, event)) []
  rw [List.foldl_map, List.filter_map, List.map_map] at h
  rw [h]
  show [] ++ List.map id _ = _
  rw [List.map_id, List.nil_append]
  rfl

theorem mem_heldByPerson (personId apartmentId : String) : ∀ (holdings : List VotingRegisterHolding)
    (held : List (String × List String)),
      apartmentId ∈ (getKey personId (holdings.foldl (fun held holding =>
        setKey holding.personId (addTo holding.apartmentId ((getKey holding.personId held).getD []))
          held) held)).getD [] ↔
        ⟨personId, apartmentId⟩ ∈ holdings ∨ apartmentId ∈ (getKey personId held).getD []
  | [], held => by simp
  | holding :: holdings, held => by
    rw [List.foldl_cons, mem_heldByPerson personId apartmentId holdings, getKey_setKey,
      List.mem_cons]
    obtain ⟨holder, apartment⟩ := holding
    by_cases h : personId = holder
    · subst h
      rw [if_pos rfl, Option.getD_some, mem_addTo]
      simp only [VotingRegisterHolding.mk.injEq, true_and]
      rw [or_left_comm, or_assoc]
    · rw [if_neg h]
      simp only [VotingRegisterHolding.mk.injEq, h, false_and, false_or]

theorem nodup_heldByPerson (personId : String) : ∀ (holdings : List VotingRegisterHolding)
    (held : List (String × List String)), (∀ p, ((getKey p held).getD []).Nodup) →
      ((getKey personId (holdings.foldl (fun held holding =>
        setKey holding.personId (addTo holding.apartmentId ((getKey holding.personId held).getD []))
          held) held)).getD []).Nodup
  | [], held, h => h personId
  | holding :: holdings, held, h => by
    rw [List.foldl_cons]
    apply nodup_heldByPerson personId holdings
    intro p
    rw [getKey_setKey]
    split_ifs
    · exact nodup_addTo (h _)
    · exact h p

variable {events : List (ResolvedRegisterEvent Row)} {meetingDay : LocalDay}
  {holdings : List VotingRegisterHolding}

/-- An entry of the events by person holds that person's events. -/
theorem mem_pushed {personId : String} {personEvents : List (ResolvedRegisterEvent Row)}
    (h : (personId, personEvents) ∈ events.foldl
      (fun byPerson event => pushKey event.personId event byPerson) []) :
    personEvents = events.filter fun event => event.personId = personId := by
  have hget := (mem_iff_getKey (pushed_keys events [] List.nodup_nil).1).mp h
  have hfilter := getKey_pushed events personId
  rw [hget] at hfilter
  exact hfilter

/-- **The members** are those the register reads as members, each with what they hold. -/
theorem mem_membersOn {member : MembershipOnTheDay}
    (h : member ∈ membersOn events meetingDay holdings) :
    isMemberOn events meetingDay member.personId = true ∧ member.apartmentIds.Nodup ∧
      ∀ apartmentId, apartmentId ∈ member.apartmentIds ↔
        ⟨member.personId, apartmentId⟩ ∈ holdings := by
  unfold membersOn at h
  obtain ⟨⟨personId, personEvents⟩, hentry, hsome⟩ := List.mem_filterMap.mp h
  dsimp only at hsome
  split_ifs at hsome with hcovers
  obtain rfl := Option.some.inj hsome
  rw [mem_pushed hentry] at hcovers
  refine ⟨hcovers, nodup_heldByPerson personId holdings [] fun _ => List.nodup_nil, ?_⟩
  intro apartmentId
  refine (mem_heldByPerson personId apartmentId holdings []).trans ?_
  simp [getKey]

theorem personId_mem_membersOn (personId : String) :
    personId ∈ (membersOn events meetingDay holdings).map (·.personId) ↔
      isMemberOn events meetingDay personId = true := by
  constructor
  · intro h
    obtain ⟨member, hmember, rfl⟩ := List.mem_map.mp h
    exact (mem_membersOn hmember).1
  · intro h
    have hsome : ∃ event ∈ events, event.personId = personId := by
      by_contra hnone
      push Not at hnone
      have hnil : (events.filter fun event => event.personId = personId) = [] := by
        rw [List.filter_eq_nil_iff]
        exact fun event hevent => by simpa using hnone event hevent
      unfold isMemberOn at h
      rw [hnil] at h
      cases h
    obtain ⟨event, hevent, rfl⟩ := hsome
    obtain ⟨⟨personId, personEvents⟩, hentry, hkey⟩ := List.mem_map.mp
      (((pushed_keys events [] List.nodup_nil).2 event.personId).mpr
        (.inl (List.mem_map_of_mem hevent)))
    dsimp only at hkey
    subst hkey
    have hcovers : (membershipPeriods personEvents).any (coversDay meetingDay) = true := by
      rw [mem_pushed hentry]
      exact h
    exact List.mem_map.mpr ⟨⟨event.personId, _⟩,
      List.mem_filterMap.mpr ⟨_, hentry, if_pos hcovers⟩, rfl⟩

theorem nodup_membersOn : ((membersOn events meetingDay holdings).map (·.personId)).Nodup := by
  have hnodup := (pushed_keys events [] List.nodup_nil).1
  unfold membersOn
  generalize events.foldl (fun byPerson event => pushKey event.personId event byPerson) [] =
    byPerson at hnodup ⊢
  refine List.Nodup.sublist ?_ hnodup
  -- a person keeps their place among the keys
  clear hnodup
  induction byPerson with
  | nil => exact List.Sublist.slnil
  | cons entry byPerson ih =>
    rw [List.filterMap_cons, List.map_cons]
    dsimp only
    split_ifs
    · exact ih.cons_cons _
    · exact ih.cons _

end Members

/-! ### The merge -/

section Merge

/-- Whether a member holds an apartment. -/
def heldAmong (members : List MembershipOnTheDay) (personId apartmentId : String) : Prop :=
  ∃ member ∈ members, member.personId = personId ∧ apartmentId ∈ member.apartmentIds

/-- Groups are the blocks of the members and of what they hold. -/
abbrev GroupBlocks (members : List MembershipOnTheDay) (groups : List VotingGroup) : Prop :=
  Blocks (· ∈ members.map (·.personId)) (heldAmong members) (fun g p => p ∈ g.personIds)
    (fun g a => a ∈ g.apartmentIds) (· ∈ groups)

/-- **What holds between two turns** of the merge. -/
structure Merged (members : List MembershipOnTheDay) (merging : Merging) : Prop where
  made_lt : ∀ g ∈ merging.groups, g.made < merging.made
  made_inj : ∀ g ∈ merging.groups, ∀ g' ∈ merging.groups, g.made = g'.made → g = g'
  claims : ∀ apartmentId g, getKey apartmentId merging.groupOfApartment = some g ↔
    g ∈ merging.groups ∧ apartmentId ∈ g.apartmentIds
  nodup : ∀ g ∈ merging.groups, g.personIds.Nodup ∧ g.apartmentIds.Nodup ∧ g.personIds ≠ []
  groups_nodup : merging.groups.Nodup
  blocks : GroupBlocks members merging.groups

theorem mem_joinedGroups {groups : List VotingGroup} {claims : List (String × VotingGroup)}
    (hlive : ∀ apartmentId g, getKey apartmentId claims = some g → g ∈ groups)
    (hinj : ∀ g ∈ groups, ∀ g' ∈ groups, g.made = g'.made → g = g') (g : VotingGroup) :
    ∀ (apartmentIds : List String) (joined : List VotingGroup), (∀ g ∈ joined, g ∈ groups) →
      (g ∈ apartmentIds.foldl (fun joined apartmentId =>
        match getKey apartmentId claims with
        | none => joined
        | some existing =>
          if existing.made ∈ joined.map (·.made) then joined else joined ++ [existing]) joined ↔
        (∃ apartmentId ∈ apartmentIds, getKey apartmentId claims = some g) ∨ g ∈ joined)
  | [], joined, _ => by simp
  | apartmentId :: apartmentIds, joined, hjoined => by
    rw [List.foldl_cons]
    cases hget : getKey apartmentId claims with
    | none =>
      rw [mem_joinedGroups hlive hinj g apartmentIds joined hjoined]
      simp [hget]
    | some existing =>
      dsimp only
      have hexisting := hlive apartmentId existing hget
      split_ifs with hmade
      · -- a group is joined once
        obtain ⟨g', hg', hsame⟩ := List.mem_map.mp hmade
        obtain rfl := hinj g' (hjoined g' hg') existing hexisting hsame
        rw [mem_joinedGroups hlive hinj g apartmentIds joined hjoined]
        simp only [List.exists_mem_cons_iff, hget, Option.some.injEq]
        constructor
        · exact fun h => h.imp_left .inr
        · rintro ((rfl | h) | h)
          · exact .inr hg'
          · exact .inl h
          · exact .inr h
      · have hmore : ∀ g ∈ joined ++ [existing], g ∈ groups := by
          intro g hg
          rcases List.mem_append.mp hg with hg | hg
          · exact hjoined g hg
          · exact List.mem_singleton.mp hg ▸ hexisting
        rw [mem_joinedGroups hlive hinj g apartmentIds (joined ++ [existing]) hmore, List.mem_append,
          List.mem_singleton]
        simp only [List.exists_mem_cons_iff, hget, Option.some.injEq]
        rw [or_comm (a := g ∈ joined), ← or_assoc, eq_comm (a := g), or_comm (b := existing = g)]

/-- What is pulled into a group. -/
theorem mergedGroup_spec : ∀ (joined : List VotingGroup) (group : VotingGroup),
    group.personIds.Nodup → group.apartmentIds.Nodup → group.personIds ≠ [] →
      let merged := joined.foldl (fun group other => { group with
        personIds := addAll other.personIds group.personIds
        apartmentIds := addAll other.apartmentIds group.apartmentIds }) group
      merged.made = group.made ∧
      (merged.personIds.Nodup ∧ merged.apartmentIds.Nodup ∧ merged.personIds ≠ []) ∧
      (∀ p, p ∈ merged.personIds ↔ p ∈ group.personIds ∨ ∃ g ∈ joined, p ∈ g.personIds) ∧
      ∀ a, a ∈ merged.apartmentIds ↔ a ∈ group.apartmentIds ∨ ∃ g ∈ joined, a ∈ g.apartmentIds
  | [], group, hp, ha, hne => ⟨rfl, ⟨hp, ha, hne⟩, by simp, by simp⟩
  | other :: joined, group, hp, ha, hne => by
    have hne' : addAll other.personIds group.personIds ≠ [] := by
      obtain ⟨p, hmem⟩ := List.exists_mem_of_ne_nil _ hne
      exact List.ne_nil_of_mem (mem_addAll.mpr (.inr hmem))
    obtain ⟨hmade, hnodup, hpersons, hapartments⟩ := mergedGroup_spec joined { group with
      personIds := addAll other.personIds group.personIds
      apartmentIds := addAll other.apartmentIds group.apartmentIds }
      (nodup_addAll hp) (nodup_addAll ha) hne'
    refine ⟨hmade, hnodup, fun p => (hpersons p).trans ?_, fun a => (hapartments a).trans ?_⟩
    · simp only [mem_addAll, List.exists_mem_cons_iff]
      rw [or_comm (a := p ∈ other.personIds), or_assoc]
    · simp only [mem_addAll, List.exists_mem_cons_iff]
      rw [or_comm (a := a ∈ other.apartmentIds), or_assoc]

theorem getKey_claimed (group : VotingGroup) (other : String) :
    ∀ (apartmentIds : List String) (claims : List (String × VotingGroup)),
      getKey other (apartmentIds.foldl (fun claims apartmentId => setKey apartmentId group claims)
        claims) = if other ∈ apartmentIds then some group else getKey other claims
  | [], claims => by simp
  | apartmentId :: apartmentIds, claims => by
    rw [List.foldl_cons, getKey_claimed group other apartmentIds, getKey_setKey]
    by_cases hmem : other ∈ apartmentIds
    · rw [if_pos hmem, if_pos (List.mem_cons_of_mem _ hmem)]
    · rw [if_neg hmem]
      by_cases heq : other = apartmentId
      · rw [if_pos heq, if_pos (heq ▸ List.mem_cons_self)]
      · rw [if_neg heq, if_neg (by simp [heq, hmem])]

section Turn

variable {members : List MembershipOnTheDay} {merging : Merging} {member : MembershipOnTheDay}
  {g : VotingGroup}

/-- The groups that a member joins. -/
abbrev joinedBy (merging : Merging) (member : MembershipOnTheDay) : List VotingGroup :=
  joinedGroups merging.groupOfApartment member.apartmentIds

/-- The group that a turn makes. -/
abbrev madeBy (merging : Merging) (member : MembershipOnTheDay) : VotingGroup :=
  mergedGroup merging.made member (joinedBy merging member)

/-- A member joins the groups that hold what the member holds. -/
theorem Merged.mem_joinedBy (h : Merged members merging) : g ∈ joinedBy merging member ↔
    g ∈ merging.groups ∧ ∃ a, a ∈ g.apartmentIds ∧ a ∈ member.apartmentIds := by
  have hlive : ∀ a g, getKey a merging.groupOfApartment = some g → g ∈ merging.groups :=
    fun a g hget => ((h.claims a g).mp hget).1
  refine (mem_joinedGroups hlive h.made_inj g member.apartmentIds [] (by simp)).trans ?_
  simp only [h.claims, List.not_mem_nil, or_false]
  constructor
  · rintro ⟨a, ha, hg, hga⟩
    exact ⟨hg, a, hga, ha⟩
  · rintro ⟨hg, a, hga, ha⟩
    exact ⟨a, ha, hg, hga⟩

/-- What the group that is made has of its own, of whom, and of what. -/
theorem madeBy_spec (merging : Merging) (hheld : member.apartmentIds.Nodup) :
    (madeBy merging member).made = merging.made ∧
      ((madeBy merging member).personIds.Nodup ∧ (madeBy merging member).apartmentIds.Nodup ∧
        (madeBy merging member).personIds ≠ []) ∧
      (∀ p, p ∈ (madeBy merging member).personIds ↔
        p ∈ [member.personId] ∨ ∃ g ∈ joinedBy merging member, p ∈ g.personIds) ∧
      ∀ a, a ∈ (madeBy merging member).apartmentIds ↔
        a ∈ member.apartmentIds ∨ ∃ g ∈ joinedBy merging member, a ∈ g.apartmentIds :=
  mergedGroup_spec (joinedBy merging member) ⟨merging.made, [member.personId], member.apartmentIds⟩
    (List.nodup_singleton _) hheld (List.cons_ne_nil _ _)

/-- After a turn there are the group it made and those that hold nothing of the member's. -/
theorem Merged.mem_groups (h : Merged members merging) : g ∈ (mergeMember merging member).groups ↔
    g = madeBy merging member ∨
      g ∈ merging.groups ∧ ∀ a ∈ g.apartmentIds, a ∉ member.apartmentIds := by
  have hdropped : ∀ g ∈ merging.groups, g.made ∈ (joinedBy merging member).map (·.made) ↔
      g ∈ joinedBy merging member := by
    intro g hg
    refine ⟨fun hmem => ?_, List.mem_map_of_mem⟩
    obtain ⟨g', hg', hsame⟩ := List.mem_map.mp hmem
    rwa [← h.made_inj g' (h.mem_joinedBy.mp hg').1 g hg hsame]
  show g ∈ (merging.groups.filter fun other =>
    other.made ∉ (joinedBy merging member).map (·.made)) ++ [madeBy merging member] ↔ _
  rw [List.mem_append, List.mem_singleton, List.mem_filter, or_comm]
  refine or_congr_right (and_congr_right fun hg => ?_)
  rw [decide_eq_true_eq, hdropped g hg, h.mem_joinedBy]
  simp only [hg, true_and, not_exists, not_and]

/-- The number of the group that is made is new. -/
theorem Merged.made_inj_step (h : Merged members merging) (hheld : member.apartmentIds.Nodup) :
    ∀ g ∈ (mergeMember merging member).groups, ∀ g' ∈ (mergeMember merging member).groups,
      g.made = g'.made → g = g' := by
  obtain ⟨hmade, -⟩ := madeBy_spec merging hheld
  intro g hg g' hg' hsame
  obtain rfl | ⟨hg, -⟩ := h.mem_groups.mp hg
  · obtain rfl | ⟨hg', -⟩ := h.mem_groups.mp hg'
    · rfl
    · have hlt := h.made_lt g' hg'
      omega
  · obtain rfl | ⟨hg', -⟩ := h.mem_groups.mp hg'
    · have hlt := h.made_lt g hg
      omega
    · exact h.made_inj g hg g' hg' hsame

/-- Each apartment is claimed for the group that holds it. -/
theorem Merged.claims_step (h : Merged members merging) (hheld : member.apartmentIds.Nodup)
    (a : String) : getKey a (mergeMember merging member).groupOfApartment = some g ↔
      g ∈ (mergeMember merging member).groups ∧ a ∈ g.apartmentIds := by
  obtain ⟨-, -, -, hapartments⟩ := madeBy_spec merging hheld
  rw [h.mem_groups]
  refine (congrArg (· = some g) (getKey_claimed (madeBy merging member) a
    (madeBy merging member).apartmentIds _)).to_iff.trans ?_
  have ha := hapartments a
  split_ifs with hmem
  · rw [Option.some.injEq]
    constructor
    · rintro rfl
      exact ⟨.inl rfl, hmem⟩
    · rintro ⟨rfl | ⟨hg, hfree⟩, hga⟩
      · rfl
      · -- the apartment is another group's, which was joined or is the member's
        exfalso
        obtain hheld | ⟨g', hg', hga'⟩ := ha.mp hmem
        · exact hfree a hga hheld
        · obtain ⟨hlive, b, hb, hbm⟩ := h.mem_joinedBy.mp hg'
          obtain rfl := h.blocks.keys_apart g hg g' hlive a hga hga'
          exact hfree b hb hbm
  · rw [h.claims]
    constructor
    · rintro ⟨hg, hga⟩
      refine ⟨.inr ⟨hg, fun b hb hbm => ?_⟩, hga⟩
      exact hmem (ha.mpr (.inr ⟨g, h.mem_joinedBy.mpr ⟨hg, b, hb, hbm⟩, hga⟩))
    · rintro ⟨rfl | ⟨hg, -⟩, hga⟩
      · exact absurd hga hmem
      · exact ⟨hg, hga⟩

theorem Merged.blocks_step (h : Merged members merging) (hheld : member.apartmentIds.Nodup)
    (hnew : member.personId ∉ members.map (·.personId)) :
    GroupBlocks (members ++ [member]) (mergeMember merging member).groups := by
  obtain ⟨-, -, hpersons, hapartments⟩ := madeBy_spec merging hheld
  have hamong : ∀ p a, heldAmong members p a → p ∈ members.map (·.personId) := by
    rintro p a ⟨m, hm, hp, -⟩
    exact hp ▸ List.mem_map_of_mem hm
  have habsorb := h.blocks.absorb hnew hamong (fun g => h.mem_groups (g := g))
    (fun p => (hpersons p).trans ?_) (fun a => (hapartments a).trans ?_)
  · refine habsorb.congr (fun p => ?_) fun p a => ?_
    · simp only [List.map_append, List.mem_append, List.map_singleton, List.mem_singleton]
      rw [or_comm]
    · unfold heldAmong
      simp only [List.mem_append, List.mem_singleton]
      constructor
      · rintro (⟨m, hm, hp, ha⟩ | ⟨rfl, ha⟩)
        · exact ⟨m, .inl hm, hp, ha⟩
        · exact ⟨member, .inr rfl, rfl, ha⟩
      · rintro ⟨m, hm | rfl, hp, ha⟩
        · exact .inl ⟨m, hm, hp, ha⟩
        · exact .inr ⟨hp.symm, ha⟩
  · rw [List.mem_singleton]
    refine or_congr_right (exists_congr fun g => ?_)
    rw [h.mem_joinedBy, and_assoc]
  · refine or_congr_right (exists_congr fun g => ?_)
    rw [h.mem_joinedBy, and_assoc]

/-- **A turn of the merge** adds one member. -/
theorem Merged.step (h : Merged members merging)
    (hnew : member.personId ∉ members.map (·.personId)) (hheld : member.apartmentIds.Nodup) :
    Merged (members ++ [member]) (mergeMember merging member) := by
  obtain ⟨hmade, hnodup, -⟩ := madeBy_spec merging hheld
  refine ⟨fun g hg => ?_, h.made_inj_step hheld, fun a g => h.claims_step hheld a, fun g hg => ?_, ?_,
    h.blocks_step hheld hnew⟩
  · show g.made < merging.made + 1
    obtain rfl | ⟨hg, -⟩ := h.mem_groups.mp hg
    · omega
    · exact Nat.lt_succ_of_lt (h.made_lt g hg)
  · obtain rfl | ⟨hg, -⟩ := h.mem_groups.mp hg
    · exact hnodup
    · exact h.nodup g hg
  · show ((merging.groups.filter _) ++ [madeBy merging member]).Nodup
    refine List.nodup_append.mpr ⟨h.groups_nodup.filter _, List.nodup_singleton _, ?_⟩
    rintro g hg g' hg' rfl
    have hlt := h.made_lt g (List.mem_filter.mp hg).1
    rw [List.mem_singleton.mp hg'] at hlt
    omega

end Turn

theorem Merged.foldl : ∀ (more : List MembershipOnTheDay) {members : List MembershipOnTheDay}
    {merging : Merging}, Merged members merging → ((members ++ more).map (·.personId)).Nodup →
      (∀ member ∈ more, member.apartmentIds.Nodup) →
      Merged (members ++ more) (more.foldl mergeMember merging)
  | [], members, merging, h, _, _ => by rwa [List.append_nil]
  | member :: more, members, merging, h, hnodup, hheld => by
    have hsplit : members ++ member :: more = members ++ [member] ++ more := by simp
    have hnew : member.personId ∉ members.map (·.personId) := by
      rw [List.map_append, List.map_cons] at hnodup
      intro hmem
      exact (List.nodup_append.mp hnodup).2.2 _ hmem _ List.mem_cons_self rfl
    rw [hsplit] at hnodup ⊢
    exact (h.step hnew (hheld member List.mem_cons_self)).foldl more hnodup
      fun m hm => hheld m (List.mem_cons_of_mem _ hm)

/-- **The groups** of the merge are the blocks of its members. -/
theorem merged_mergeJointHoldings {members : List MembershipOnTheDay}
    (hnodup : (members.map (·.personId)).Nodup)
    (hheld : ∀ member ∈ members, member.apartmentIds.Nodup) :
    Merged members (members.foldl mergeMember {}) := by
  have hempty : Merged [] {} := by
    refine ⟨by simp, by simp, by simp [getKey], by simp, List.nodup_nil, ?_⟩
    exact ⟨by simp, by simp, by simp, by simp, by simp, by simp⟩
  exact hempty.foldl members hnodup hheld

end Merge

end OpenBrf.Meetings
