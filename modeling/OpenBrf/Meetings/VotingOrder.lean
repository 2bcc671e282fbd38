import OpenBrf.Meetings.VotingLines

/-!
# Meetings.VotingOrder — the register whichever order its rows are read in

Groups are told apart by their members, and lines are put in order by them, so only the order of
one person's events could matter; it does where a day and a time of writing are shared by events
of two kinds.
-/

namespace OpenBrf.Meetings

open Lang Shared Registers Grouping Timeline

variable {Row : Type} [RegisterRow Row]

/-! ### Members, whichever order the events are in -/

/-- What is read of an event. -/
def eventKey (event : ResolvedRegisterEvent Row) : MembershipEventType × Int × Int :=
  (event.eventType, event.eventOn, event.createdAt)

/-- Whether the periods paired from events of these kinds and days cover the meeting day. -/
def coveredBy (meetingDay : Int) : Option Int → List (MembershipEventType × Int × Int) → Bool
  | opened, [] => opened.any (· ≤ meetingDay)
  | opened, (.ENTRY, day, _) :: keys => coveredBy meetingDay (opened.or (some day)) keys
  | opened, (.EXIT, day, _) :: keys =>
    (opened.all (· ≤ meetingDay) && meetingDay < day) || coveredBy meetingDay none keys

theorem coversDay_ofNumber (meetingDay : Int) (period : MembershipPeriod Row) :
    coversDay (.ofNumber meetingDay) period =
      ((period.entry.all fun entry => entry.eventOn ≤ meetingDay) &&
        period.exit.all fun exit => meetingDay < exit.eventOn) := by
  have hle : ∀ day : Int, (day - meetingDay ≤ 0) = (day ≤ meetingDay) := fun day =>
    propext (by omega)
  have hlt : ∀ day : Int, (0 < day - meetingDay) = (meetingDay < day) := fun day =>
    propext (by omega)
  unfold coversDay compareLocalDays
  simp only [LocalDay.number_ofNumber, hle, hlt]

theorem any_pairEvents (meetingDay : Int) (personId : String) :
    ∀ (events : List (ResolvedRegisterEvent Row)) (opened : Option (ResolvedRegisterEvent Row)),
      (pairEvents personId opened events).any (coversDay (.ofNumber meetingDay)) =
        coveredBy meetingDay (opened.map (·.eventOn)) (events.map eventKey)
  | [], none => rfl
  | [], some entry => by
    simp [pairEvents, coveredBy, coversDay_ofNumber]
  | event :: events, opened => by
    rw [pairEvents, List.map_cons, eventKey]
    cases htype : event.eventType with
    | ENTRY =>
      dsimp only
      rw [any_pairEvents meetingDay personId events (opened.or (some event)), coveredBy]
      cases opened <;> rfl
    | EXIT =>
      dsimp only
      rw [List.any_cons, any_pairEvents meetingDay personId events none, coversDay_ofNumber,
        coveredBy, Option.all_map]
      rfl

/-- One person's events have the periods they are paired into. -/
theorem mem_membershipPeriods {events : List (ResolvedRegisterEvent Row)} {personId : String}
    (h : ∀ event ∈ events, event.personId = personId) (period : MembershipPeriod Row) :
    period ∈ membershipPeriods events ↔ period ∈ pairEvents personId none (chronologically events) := by
  have hself : (events.filter fun event => event.personId = personId) = events :=
    List.filter_eq_self.mpr fun event hevent => by simpa using h event hevent
  unfold membershipPeriods
  rw [List.mem_flatMap]
  constructor
  · rintro ⟨p, hp, hperiod⟩
    rw [List.mem_eraseDups] at hp
    obtain ⟨event, hevent, rfl⟩ := List.mem_map.mp hp
    rw [h event hevent, hself] at hperiod
    exact hperiod
  · intro hperiod
    cases events with
    | nil => cases hperiod
    | cons event events =>
      refine ⟨personId, ?_, by rwa [hself]⟩
      rw [List.mem_eraseDups]
      exact List.mem_map.mpr ⟨event, List.mem_cons_self, h event List.mem_cons_self⟩

theorem isMemberOn_eq (events : List (ResolvedRegisterEvent Row)) (meetingDay : Int)
    (personId : String) : isMemberOn events (.ofNumber meetingDay) personId =
      coveredBy meetingDay none ((chronologically
        (events.filter fun event => event.personId = personId)).map eventKey) := by
  have hperson : ∀ event ∈ events.filter fun event => event.personId = personId,
      event.personId = personId := by
    intro event hevent
    simpa using (List.mem_filter.mp hevent).2
  refine (?_ : _ = _).trans (any_pairEvents meetingDay personId _ none)
  unfold isMemberOn
  rw [Bool.eq_iff_iff, List.any_eq_true, List.any_eq_true]
  exact exists_congr fun period => and_congr_left fun _ => mem_membershipPeriods hperson period

/-- Events of one person written at one time about one day are of one kind. -/
def NoTies (events : List (ResolvedRegisterEvent Row)) : Prop :=
  ∀ first ∈ events, ∀ second ∈ events, first.personId = second.personId →
    first.eventOn = second.eventOn → first.createdAt = second.createdAt →
    first.eventType = second.eventType

/-- A person's events are read alike in every order they may come in. -/
theorem keys_eq_of_perm {events events' : List (ResolvedRegisterEvent Row)}
    (hperm : events.Perm events') (hties : NoTies events) (personId : String) :
    (chronologically (events.filter fun event => event.personId = personId)).map eventKey =
      (chronologically (events'.filter fun event => event.personId = personId)).map eventKey := by
  let before : MembershipEventType × Int × Int → MembershipEventType × Int × Int → Prop :=
    fun a b => a.2.1 < b.2.1 ∨ a.2.1 = b.2.1 ∧ a.2.2 ≤ b.2.2
  have hsorted : ∀ events : List (ResolvedRegisterEvent Row),
      ((chronologically events).map eventKey).Pairwise before :=
    fun events => List.pairwise_map.mpr (pairwise_chronologically events)
  have hmem : ∀ key ∈ (chronologically
      (events.filter fun event => event.personId = personId)).map eventKey,
      ∃ event ∈ events, event.personId = personId ∧ eventKey event = key := by
    intro key hkey
    obtain ⟨event, hevent, rfl⟩ := List.mem_map.mp hkey
    obtain ⟨hevent, hperson⟩ := List.mem_filter.mp (mem_chronologically.mp hevent)
    exact ⟨event, hevent, by simpa using hperson, rfl⟩
  have hkeys : ((chronologically (events.filter fun event => event.personId = personId)).map
      eventKey).Perm ((chronologically (events'.filter fun event =>
        event.personId = personId)).map eventKey) :=
    (((List.perm_insertionSort _ _).trans (hperm.filter _)).trans
      (List.perm_insertionSort _ _).symm).map _
  refine hkeys.eq_of_pairwise ?_ (hsorted _) (hsorted _)
  intro a b ha hb hab hba
  obtain ⟨first, hfirst, hperson, rfl⟩ := hmem a ha
  obtain ⟨second, hsecond, hperson', rfl⟩ := hmem b (hkeys.mem_iff.mpr hb)
  have hday : first.eventOn = second.eventOn := by
    simp only [before, eventKey] at hab hba
    omega
  have htime : first.createdAt = second.createdAt := by
    simp only [before, eventKey] at hab hba
    omega
  have htype := hties first hfirst second hsecond (hperson.trans hperson'.symm) hday htime
  unfold eventKey
  rw [htype, hday, htime]

/-! ### Inputs that differ in order -/

/-- Two inputs with the same rows. -/
structure Reordered (input input' : VotingRegisterInput Row) : Prop where
  events : input.events.Perm input'.events
  meetingDay : input.meetingDay = input'.meetingDay
  holdings : input.holdings.Perm input'.holdings
  attendances : input.attendances.Perm input'.attendances
  proxyAuthorisations : input.proxyAuthorisations.Perm input'.proxyAuthorisations
  storageOnlyVoteLimited : input.storageOnlyVoteLimited = input'.storageOnlyVoteLimited

section Reordered

variable {input input' : VotingRegisterInput Row}

theorem Reordered.member_iff (h : Reordered input input') (hties : NoTies input.events)
    (personId : String) : Member input personId ↔ Member input' personId := by
  unfold Member
  rw [isMemberOn_eq, isMemberOn_eq, keys_eq_of_perm h.events hties, h.meetingDay]

theorem Reordered.holds_iff (h : Reordered input input') (hties : NoTies input.events)
    (personId apartmentId : String) :
    Holds input personId apartmentId ↔ Holds input' personId apartmentId := by
  unfold Holds
  rw [h.member_iff hties, h.holdings.mem_iff]

omit [RegisterRow Row] in
theorem Reordered.stands_iff (h : Reordered input input') (capacity : AttendanceCapacity)
    (personId : String) : Stands input capacity personId ↔ Stands input' capacity personId := by
  unfold Stands
  simp only [h.attendances.mem_iff]

theorem Reordered.authorises_iff (h : Reordered input input') (hties : NoTies input.events)
    (memberPersonId holder : String) :
    Authorises input memberPersonId holder ↔ Authorises input' memberPersonId holder := by
  unfold Authorises
  simp only [h.proxyAuthorisations.mem_iff, h.meetingDay, h.member_iff hties]

omit [RegisterRow Row] in
theorem Reordered.oneStanding (h : Reordered input input') (hone : OneStanding input) :
    OneStanding input' := by
  intro first hfirst second hsecond
  exact hone first (h.proxyAuthorisations.mem_iff.mpr hfirst) second
    (h.proxyAuthorisations.mem_iff.mpr hsecond)

omit [RegisterRow Row] in
theorem Reordered.symm (h : Reordered input input') : Reordered input' input :=
  ⟨h.events.symm, h.meetingDay.symm, h.holdings.symm, h.attendances.symm,
    h.proxyAuthorisations.symm, h.storageOnlyVoteLimited.symm⟩

theorem Reordered.noTies (h : Reordered input input') (hties : NoTies input.events) :
    NoTies input'.events := by
  intro first hfirst second hsecond
  exact hties first (h.events.mem_iff.mpr hfirst) second (h.events.mem_iff.mpr hsecond)

theorem Reordered.standing_eq (h : Reordered input input') (hties : NoTies input.events)
    (hone : OneStanding input) (memberPersonId : String) :
    getKey memberPersonId (standingOf input) = getKey memberPersonId (standingOf input') := by
  ext holder
  rw [getKey_standingOf hone, getKey_standingOf (h.oneStanding hone), h.authorises_iff hties]

end Reordered

/-! ### Lines, whichever order the groups are in -/

section Lines

theorem sorted_eq_of_perm {ids ids' : List String} (h : ids.Perm ids') : sorted ids = sorted ids' := by
  have hperm : (sorted ids).Perm (sorted ids') :=
    ((List.perm_insertionSort _ ids).trans h).trans (List.perm_insertionSort _ ids').symm
  exact hperm.eq_of_pairwise (fun _ _ _ _ => le_antisymm) (List.pairwise_insertionSort _ _)
    (List.pairwise_insertionSort _ _)

/-- A line is what its members, its apartments and those present make it. -/
theorem lineOf_congr {present present' : AttendanceCapacity → List String}
    {standing standing' : List (String × String)} {group group' : VotingGroup}
    (hpersons : group.personIds.Perm group'.personIds)
    (hapartments : group.apartmentIds.Perm group'.apartmentIds)
    (hpresent : ∀ capacity p, p ∈ present capacity ↔ p ∈ present' capacity)
    (hstanding : ∀ m, getKey m standing = getKey m standing') :
    lineOf present standing group = lineOf present' standing' group' := by
  unfold lineOf proxyHoldersOf
  simp only [hpresent, hstanding, sorted_eq_of_perm hpersons, sorted_eq_of_perm hapartments]

variable {input input' : VotingRegisterInput Row}

/-- A group of one reading is a group of the other. -/
theorem Reordered.exists_group (h : Reordered input input') (hties : NoTies input.events)
    {group : VotingGroup} (hgroup : group ∈ groupsOf input) :
    ∃ group' ∈ groupsOf input', group.personIds.Perm group'.personIds ∧
      group.apartmentIds.Perm group'.apartmentIds := by
  obtain ⟨hpersons, hapartments, hne⟩ := (merged_groupsOf input).nodup group hgroup
  obtain ⟨p, hp⟩ := List.exists_mem_of_ne_nil _ hne
  have hblocks := blocks_groupsOf input
  have hblocks' := blocks_groupsOf input'
  have hheld : Holds input = Holds input' :=
    funext fun q => funext fun a => propext (h.holds_iff hties q a)
  have hmember := (h.member_iff hties p).mp (hblocks.sound group hgroup p hp)
  obtain ⟨group', hgroup', hp'⟩ := hblocks'.covers p hmember
  have hsame : ∀ q, q ∈ group.personIds ↔ q ∈ group'.personIds := by
    intro q
    rw [hblocks.items_iff (fun _ _ hk => hk.1) hgroup hp, hheld,
      ← hblocks'.items_iff (fun _ _ hk => hk.1) hgroup' hp']
  obtain ⟨hpersons', hapartments', -⟩ := (merged_groupsOf input').nodup group' hgroup'
  refine ⟨group', hgroup', (List.perm_ext_iff_of_nodup hpersons hpersons').mpr hsame,
    (List.perm_ext_iff_of_nodup hapartments hapartments').mpr fun a => ?_⟩
  rw [hblocks.keys_iff group hgroup, hblocks'.keys_iff group' hgroup', hheld]
  simp only [hsame]

theorem Reordered.line_mem (h : Reordered input input') (hties : NoTies input.events)
    (hone : OneStanding input) {line : VotingRegisterLine}
    (hline : line ∈ (groupsOf input).map (lineFor input)) :
    line ∈ (groupsOf input').map (lineFor input') := by
  obtain ⟨group, hgroup, rfl⟩ := List.mem_map.mp hline
  obtain ⟨group', hgroup', hpersons, hapartments⟩ := h.exists_group hties hgroup
  refine List.mem_map.mpr ⟨group', hgroup', (lineOf_congr hpersons hapartments ?_ ?_).symm⟩
  · intro capacity p
    rw [mem_presentAs_iff, mem_presentAs_iff, h.stands_iff]
  · exact h.standing_eq hties hone

theorem Reordered.lines_perm (h : Reordered input input') (hties : NoTies input.events)
    (hone : OneStanding input) :
    ((groupsOf input).map (lineFor input)).Perm ((groupsOf input').map (lineFor input')) :=
  (List.perm_ext_iff_of_nodup (nodup_lines input) (nodup_lines input')).mpr fun _ =>
    ⟨h.line_mem hties hone, h.symm.line_mem (h.noTies hties) (h.oneStanding hone)⟩

end Lines

/-! ### The order of the lines -/

/-- An id without a blank, as every cuid is. -/
def Unblank (id : String) : Prop := ' ' ∉ id.toList

/-- What stands before the first blank. -/
theorem append_blank_inj : ∀ {a b x y : List Char}, ' ' ∉ a → ' ' ∉ b →
    a ++ ' ' :: x = b ++ ' ' :: y → a = b ∧ x = y
  | [], [], _, _, _, _, h => ⟨rfl, (List.cons.inj h).2⟩
  | [], c :: b, _, _, _, hb, h => absurd ((List.cons.inj h).1 ▸ List.mem_cons_self) hb
  | c :: a, [], _, _, ha, _, h => absurd ((List.cons.inj h).1 ▸ List.mem_cons_self) ha
  | c :: a, d :: b, x, y, ha, hb, h => by
    obtain ⟨rfl, htail⟩ := List.cons.inj h
    obtain ⟨rfl, rfl⟩ := append_blank_inj (mt (List.mem_cons_of_mem _) ha)
      (mt (List.mem_cons_of_mem _) hb) htail
    exact ⟨rfl, rfl⟩

theorem toList_joined_cons (a b : String) (ids : List String) :
    (" ".intercalate (a :: b :: ids)).toList = a.toList ++ ' ' :: (" ".intercalate (b :: ids)).toList := by
  rw [String.intercalate_cons_cons, String.toList_append, String.toList_append, List.append_assoc]
  rfl

/-- Ids joined by blanks tell the ids. -/
theorem intercalate_inj : ∀ {ids ids' : List String}, ids ≠ [] → ids' ≠ [] →
    (∀ id ∈ ids, Unblank id) → (∀ id ∈ ids', Unblank id) →
    " ".intercalate ids = " ".intercalate ids' → ids = ids'
  | [], _, h, _, _, _, _ => absurd rfl h
  | _, [], _, h, _, _, _ => absurd rfl h
  | [a], [b], _, _, _, _, h => by rwa [String.intercalate_singleton, String.intercalate_singleton,
      ← List.singleton_inj] at h
  | [a], b :: c :: ids, _, _, ha, _, h => by
    have hchars := congrArg String.toList h
    rw [String.intercalate_singleton, toList_joined_cons] at hchars
    exact absurd (hchars ▸ by simp) (ha a List.mem_cons_self)
  | a :: b :: ids, [c], _, _, _, hc, h => by
    have hchars := congrArg String.toList h
    rw [String.intercalate_singleton, toList_joined_cons] at hchars
    exact absurd (hchars ▸ by simp) (hc c List.mem_cons_self)
  | a :: b :: ids, c :: d :: ids', _, _, ha, hc, h => by
    have hchars := congrArg String.toList h
    rw [toList_joined_cons, toList_joined_cons] at hchars
    obtain ⟨hfirst, hrest⟩ := append_blank_inj (ha a List.mem_cons_self) (hc c List.mem_cons_self)
      hchars
    have ih := intercalate_inj (List.cons_ne_nil b ids) (List.cons_ne_nil d ids')
      (fun id hid => ha id (List.mem_cons_of_mem _ hid))
      (fun id hid => hc id (List.mem_cons_of_mem _ hid)) (String.toList_inj.mp hrest)
    rw [String.toList_inj.mp hfirst, ih]

section Drawn

variable {input input' : VotingRegisterInput Row}

theorem personId_of_member {personId : String} (h : Member input personId) :
    ∃ event ∈ input.events, event.personId = personId := by
  by_contra hnone
  push Not at hnone
  have hnil : (input.events.filter fun event => event.personId = personId) = [] := by
    rw [List.filter_eq_nil_iff]
    exact fun event hevent => by simpa using hnone event hevent
  unfold Member isMemberOn at h
  rw [hnil] at h
  cases h

/-- Lines that are put in one place are one line. -/
theorem eq_of_joined (hids : ∀ event ∈ input.events, Unblank event.personId)
    {line line' : VotingRegisterLine} (hline : line ∈ (groupsOf input).map (lineFor input))
    (hline' : line' ∈ (groupsOf input).map (lineFor input)) (h : line.joined = line'.joined) :
    line = line' := by
  obtain ⟨group, hgroup, rfl⟩ := List.mem_map.mp hline
  obtain ⟨group', hgroup', rfl⟩ := List.mem_map.mp hline'
  have hunblank : ∀ group ∈ groupsOf input, ∀ id ∈ sorted group.personIds, Unblank id := by
    intro group hgroup id hid
    obtain ⟨event, hevent, rfl⟩ := personId_of_member
      ((blocks_groupsOf input).sound group hgroup id (mem_sorted.mp hid))
    exact hids event hevent
  have hne : ∀ group ∈ groupsOf input, sorted group.personIds ≠ [] := by
    intro group hgroup
    obtain ⟨p, hp⟩ := List.exists_mem_of_ne_nil _ ((merged_groupsOf input).nodup group hgroup).2.2
    exact List.ne_nil_of_mem (mem_sorted.mpr hp)
  have hmembers : sorted group.personIds = sorted group'.personIds :=
    intercalate_inj (hne group hgroup) (hne group' hgroup') (hunblank group hgroup)
      (hunblank group' hgroup') h
  rw [lineFor_inj hgroup hgroup' hmembers]

omit [RegisterRow Row] in
theorem Reordered.present_perm (h : Reordered input input') (capacity : AttendanceCapacity) :
    (presentAs input.attendances capacity).Perm (presentAs input'.attendances capacity) := by
  refine (List.perm_ext_iff_of_nodup (nodup_presentAs capacity _ [] List.nodup_nil)
    (nodup_presentAs capacity _ [] List.nodup_nil)).mpr fun p => ?_
  exact mem_presentAs_iff.trans ((h.stands_iff capacity p).trans mem_presentAs_iff.symm)

theorem Reordered.lines_eq (h : Reordered input input') (hties : NoTies input.events)
    (hids : ∀ event ∈ input.events, Unblank event.personId) (hone : OneStanding input) :
    (votingRegister input).lines = (votingRegister input').lines := by
  have hperm := h.lines_perm hties hone
  rw [lines_votingRegister, lines_votingRegister]
  have hsort : ∀ lines : List VotingRegisterLine, (lines.insertionSort fun left right =>
      left.joined ≤ right.joined).Pairwise fun left right => left.joined ≤ right.joined := by
    intro lines
    have : IsTrans VotingRegisterLine fun left right => left.joined ≤ right.joined :=
      ⟨fun _ _ _ => le_trans⟩
    have : Std.Total fun left right : VotingRegisterLine => left.joined ≤ right.joined :=
      ⟨fun _ _ => le_total _ _⟩
    exact List.pairwise_insertionSort _ _
  refine (((List.perm_insertionSort _ _).trans hperm).trans
    (List.perm_insertionSort _ _).symm).eq_of_pairwise ?_ (hsort _) (hsort _)
  intro line line' hline hline' hle hge
  exact eq_of_joined hids ((List.mem_insertionSort _).mp hline)
    (hperm.mem_iff.mpr ((List.mem_insertionSort _).mp hline')) (le_antisymm hle hge)

/-- Somebody who stands as a member and is on no line. -/
theorem mem_presentWithoutMembership {personId : String} :
    personId ∈ (votingRegister input).presentWithoutMembership ↔
      Stands input .MEMBER personId ∧
        ¬∃ line ∈ (votingRegister input).lines, personId ∈ line.memberPersonIds := by
  have hmembers := (drawn_groups (presentAs input.attendances) (standingOf input) (groupsOf input)
    {}).2.1
  show personId ∈ sorted (List.filter _ _) ↔ _
  rw [mem_sorted, List.mem_filter, decide_eq_true_eq, mem_presentAs_iff, hmembers]
  refine and_congr_right fun _ => not_congr ?_
  simp only [List.not_mem_nil, or_false, mem_lines]
  constructor
  · rintro ⟨group, hgroup, hmember⟩
    exact ⟨_, ⟨group, hgroup, rfl⟩, hmember⟩
  · rintro ⟨_, ⟨group, hgroup, rfl⟩, hmember⟩
    exact ⟨group, hgroup, hmember⟩

/-- Sorted ids without repeats are told by which they are. -/
theorem sorted_filter_eq {ids ids' : List String} {p p' : String → Bool} (hids : ids.Nodup)
    (hids' : ids'.Nodup)
    (h : ∀ id, id ∈ sorted (ids.filter p) ↔ id ∈ sorted (ids'.filter p')) :
    sorted (ids.filter p) = sorted (ids'.filter p') := by
  apply sorted_eq_of_perm
  refine (List.perm_ext_iff_of_nodup (hids.filter p) (hids'.filter p')).mpr fun id => ?_
  exact mem_sorted.symm.trans ((h id).trans mem_sorted)

/-- **The register is the same** in whichever order its rows are read. -/
theorem votingRegister_reordered (h : Reordered input input') (hties : NoTies input.events)
    (hids : ∀ event ∈ input.events, Unblank event.personId) (hone : OneStanding input) :
    votingRegister input = votingRegister input' := by
  have hlines := h.lines_eq hties hids hone
  have hnodup : ∀ (input : VotingRegisterInput Row) capacity,
      (presentAs input.attendances capacity).Nodup :=
    fun input capacity => nodup_presentAs capacity _ [] List.nodup_nil
  apply VotingRegister.ext
  · exact hlines
  · exact congrArg List.length hlines
  · exact congrArg (fun lines => (lines.filter (·.votePresent)).length) hlines
  · exact (h.present_perm .ASSISTANT).length_eq
  · refine sorted_filter_eq (hnodup input _) (hnodup input' _) fun id => ?_
    refine mem_presentWithoutMembership.trans (Iff.trans ?_ mem_presentWithoutMembership.symm)
    rw [hlines, h.stands_iff]
  · refine sorted_filter_eq (hnodup input _) (hnodup input' _) fun id => ?_
    refine mem_proxyHoldersWithoutVote.trans (Iff.trans ?_ mem_proxyHoldersWithoutVote.symm)
    rw [hlines, h.stands_iff]
  · exact h.storageOnlyVoteLimited

end Drawn

/-! ### The voting register -/

/-- **The voting register** is drawn from its rows, and is the same in whichever order they are
read, where the events of each person have an order of their own. -/
theorem votingRegister_drawn (input : VotingRegisterInput Row) (hone : OneStanding input)
    (hids : ∀ event ∈ input.events, Unblank event.personId) :
    DrawnFrom input (votingRegister input) ∧ (NoTies input.events →
      ∀ input', Reordered input input' → votingRegister input' = votingRegister input) :=
  ⟨drawnFrom_votingRegister hone, fun hties _ h =>
    (votingRegister_reordered h hties hids hone).symm⟩

/-- Two joint holders, of whom one is there and one has sent somebody. -/
def jointHolders : VotingRegisterInput MemberRegisterEvent where
  events := resolveRegisterEvents
    [⟨"e1", "p1", .ENTRY, 100, none, 1⟩, ⟨"e2", "p2", .ENTRY, 100, none, 1⟩]
  meetingDay := 200
  holdings := [⟨"p1", "a1"⟩, ⟨"p2", "a1"⟩]
  attendances := [⟨"p1", .MEMBER, none⟩, ⟨"p3", .PROXY_HOLDER, none⟩]
  proxyAuthorisations := [⟨"p2", "p3", .SPOUSE_OR_COHABITANT, 150, none⟩]
  storageOnlyVoteLimited := false

theorem votingRegister_drawn_jointHolders :
    (OneStanding jointHolders ∧ (∀ event ∈ jointHolders.events, Unblank event.personId) ∧
      NoTies jointHolders.events) ∧
    DrawnFrom jointHolders (votingRegister jointHolders) ∧
      ∀ input', Reordered jointHolders input' →
        votingRegister input' = votingRegister jointHolders := by
  have hone : OneStanding jointHolders := by
    unfold OneStanding
    decide
  have hids : ∀ event ∈ jointHolders.events, Unblank event.personId := by
    unfold Unblank
    decide
  have hties : NoTies jointHolders.events := by
    unfold NoTies
    decide
  obtain ⟨hdrawn, hsame⟩ := votingRegister_drawn jointHolders hone hids
  exact ⟨⟨hone, hids, hties⟩, hdrawn, hsame hties⟩

/-- An entry and an exit of one day, written at one time. -/
def tied (rows : List MemberRegisterEvent) : VotingRegisterInput MemberRegisterEvent where
  events := resolveRegisterEvents rows
  meetingDay := 200
  holdings := []
  attendances := []
  proxyAuthorisations := []
  storageOnlyVoteLimited := false

/-- A tie is read in the order the rows come in. -/
theorem votingRegister_tied :
    let entry : MemberRegisterEvent := ⟨"e1", "p1", .ENTRY, 100, none, 1⟩
    let exit : MemberRegisterEvent := ⟨"e2", "p1", .EXIT, 100, none, 1⟩
    (OneStanding (tied [entry, exit]) ∧
      (∀ event ∈ (tied [entry, exit]).events, Unblank event.personId) ∧
      Reordered (tied [entry, exit]) (tied [exit, entry])) ∧
    (votingRegister (tied [entry, exit])).votesTotal = 0 ∧
    (votingRegister (tied [exit, entry])).votesTotal = 1 := by
  intro entry exit
  refine ⟨⟨?_, ?_, ?_⟩, ?_, ?_⟩
  · intro first hfirst
    cases hfirst
  · unfold Unblank
    decide
  · exact ⟨List.Perm.swap _ _ _, rfl, .refl _, .refl _, .refl _, rfl⟩
  · decide +kernel
  · decide +kernel

end OpenBrf.Meetings
