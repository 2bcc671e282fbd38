import OpenBrf.Meetings.JointHoldings

/-!
# Meetings.VotingLines — the lines of the voting register are its votes

Each line is a component of the members under "shares an apartment", and its vote is present
through a member or through an authority that stands.  The register is the same whichever order
its rows are read in, as long as the rows of one person have an order of their own.
-/

namespace OpenBrf.Meetings

open Lang Shared Registers Grouping

variable {Row : Type} [RegisterRow Row]

/-! ### What the register is about -/

section Terms

variable (input : VotingRegisterInput Row)

def Member (personId : String) : Prop :=
  isMemberOn input.events (.ofNumber input.meetingDay) personId = true

/-- A member covers an apartment on the day. -/
def Holds (personId apartmentId : String) : Prop :=
  Member input personId ∧ ⟨personId, apartmentId⟩ ∈ input.holdings

/-- A person stands on the list in a capacity. -/
def Stands (capacity : AttendanceCapacity) (personId : String) : Prop :=
  ∃ attendance ∈ input.attendances, attendance.personId = personId ∧
    attendance.capacity = capacity ∧ attendance.withdrawnAt = none

/-- A member's authority stands, is current on the day, and names somebody who may hold it. -/
def Authorises (memberPersonId holder : String) : Prop :=
  ∃ authorisation ∈ input.proxyAuthorisations, authorisation.memberPersonId = memberPersonId ∧
    authorisation.proxyHolderPersonId = holder ∧ authorisation.withdrawnAt = none ∧
    isProxyAuthorityCurrent (.ofNumber authorisation.authorisedOn) (.ofNumber input.meetingDay) ∧
    (authorisation.ground = .MEMBER → Member input holder)

/-- A member has at most one standing authority. -/
def OneStanding : Prop :=
  ∀ first ∈ input.proxyAuthorisations, ∀ second ∈ input.proxyAuthorisations,
    first.withdrawnAt = none → second.withdrawnAt = none →
    first.memberPersonId = second.memberPersonId → first = second

/-- The rows the register is drawn from, as they are read. -/
abbrev membersOf : List MembershipOnTheDay :=
  membersOn input.events (.ofNumber input.meetingDay) input.holdings

abbrev groupsOf : List VotingGroup := mergeJointHoldings (membersOf input)

abbrev standingOf : List (String × String) :=
  currentAuthorities input.proxyAuthorisations (.ofNumber input.meetingDay)
    ((membersOf input).map (·.personId))

abbrev lineFor (group : VotingGroup) : VotingRegisterLine :=
  lineOf (presentAs input.attendances) (standingOf input) group

end Terms

variable {input : VotingRegisterInput Row}

/-! ### Presence -/

theorem mem_presentAs (capacity : AttendanceCapacity) (personId : String) :
    ∀ (attendances : List VotingRegisterAttendance) (present : List String),
      (personId ∈ attendances.foldl (fun present attendance =>
        if attendance.withdrawnAt = none ∧ attendance.capacity = capacity then
          addTo attendance.personId present
        else present) present ↔
      (∃ attendance ∈ attendances, attendance.personId = personId ∧
        attendance.capacity = capacity ∧ attendance.withdrawnAt = none) ∨ personId ∈ present)
  | [], present => by simp
  | attendance :: attendances, present => by
    rw [List.foldl_cons, mem_presentAs capacity personId attendances]
    simp only [List.exists_mem_cons_iff]
    split_ifs with h
    · rw [mem_addTo]
      constructor
      · rintro (h' | rfl | h')
        · exact .inl (.inr h')
        · exact .inl (.inl ⟨rfl, h.2, h.1⟩)
        · exact .inr h'
      · rintro ((⟨rfl, -⟩ | h') | h')
        · exact .inr (.inl rfl)
        · exact .inl h'
        · exact .inr (.inr h')
    · constructor
      · exact fun h' => h'.imp_left .inr
      · rintro ((⟨-, hcapacity, hstanding⟩ | h') | h')
        · exact absurd ⟨hstanding, hcapacity⟩ h
        · exact .inl h'
        · exact .inr h'

omit [RegisterRow Row] in
/-- **Those present** in a capacity are those standing on the list in it. -/
theorem mem_presentAs_iff {capacity : AttendanceCapacity} {personId : String} :
    personId ∈ presentAs input.attendances capacity ↔ Stands input capacity personId := by
  refine (mem_presentAs capacity personId input.attendances []).trans ?_
  simp only [List.not_mem_nil, or_false]
  rfl

theorem nodup_presentAs (capacity : AttendanceCapacity) :
    ∀ (attendances : List VotingRegisterAttendance) (present : List String), present.Nodup →
      (attendances.foldl (fun present attendance =>
        if attendance.withdrawnAt = none ∧ attendance.capacity = capacity then
          addTo attendance.personId present
        else present) present).Nodup
  | [], _, h => h
  | attendance :: attendances, present, h => by
    rw [List.foldl_cons]
    apply nodup_presentAs capacity attendances
    split_ifs
    · exact nodup_addTo h
    · exact h

/-! ### Authorities -/

/-- Whether an authority is read. -/
def isRead (meetingDay : LocalDay) (members : List String)
    (authorisation : VotingRegisterProxyAuthorisation) : Bool :=
  authorisation.withdrawnAt = none &&
    isProxyAuthorityCurrent (.ofNumber authorisation.authorisedOn) meetingDay &&
    (authorisation.ground ≠ .MEMBER || authorisation.proxyHolderPersonId ∈ members)

/-- What one authority does to the holders. -/
theorem authority_step (meetingDay : LocalDay) (members : List String)
    (holders : List (String × String)) (authorisation : VotingRegisterProxyAuthorisation) :
    (if authorisation.withdrawnAt ≠ none then holders
      else if ¬isProxyAuthorityCurrent (.ofNumber authorisation.authorisedOn) meetingDay then holders
      else if authorisation.ground = .MEMBER ∧ authorisation.proxyHolderPersonId ∉ members then
        holders
      else setKey authorisation.memberPersonId authorisation.proxyHolderPersonId holders) =
    if isRead meetingDay members authorisation then
      setKey authorisation.memberPersonId authorisation.proxyHolderPersonId holders
    else holders := by
  unfold isRead
  by_cases hstanding : authorisation.withdrawnAt = none
  · cases hcurrent : isProxyAuthorityCurrent (.ofNumber authorisation.authorisedOn) meetingDay
    · simp
    · by_cases hground : authorisation.ground = .MEMBER
      · by_cases hmember : authorisation.proxyHolderPersonId ∈ members
        · simp [hstanding, hmember]
        · simp [hstanding, hground, hmember]
      · simp [hstanding, hground]
  · simp [hstanding]

/-- A member's holder is the one of the last authority that is read. -/
theorem getKey_authorities (meetingDay : LocalDay) (members : List String) (memberPersonId : String) :
    ∀ (authorisations : List VotingRegisterProxyAuthorisation) (holders : List (String × String)),
      getKey memberPersonId (authorisations.foldl (fun holders authorisation =>
        if authorisation.withdrawnAt ≠ none then holders
        else if ¬isProxyAuthorityCurrent (.ofNumber authorisation.authorisedOn) meetingDay then
          holders
        else if authorisation.ground = .MEMBER ∧ authorisation.proxyHolderPersonId ∉ members then
          holders
        else setKey authorisation.memberPersonId authorisation.proxyHolderPersonId holders) holders) =
      (((authorisations.filter fun authorisation =>
        isRead meetingDay members authorisation && authorisation.memberPersonId = memberPersonId).map
          (·.proxyHolderPersonId)).getLast?).or (getKey memberPersonId holders)
  | [], holders => by simp
  | authorisation :: authorisations, holders => by
    rw [List.foldl_cons, getKey_authorities meetingDay members memberPersonId authorisations,
      List.filter_cons, authority_step]
    by_cases hread : isRead meetingDay members authorisation = true
    · rw [if_pos hread, getKey_setKey]
      by_cases hmember : memberPersonId = authorisation.memberPersonId
      · rw [if_pos hmember, if_pos (by simp [hread, hmember]), List.map_cons, List.getLast?_cons]
        cases ((authorisations.filter fun authorisation => isRead meetingDay members authorisation &&
          authorisation.memberPersonId = memberPersonId).map (·.proxyHolderPersonId)).getLast? <;>
          simp
      · rw [if_neg hmember, if_neg (by simp [Ne.symm hmember])]
    · rw [if_neg hread, if_neg (by simp [hread])]

/-- **The standing authorities**, as the register reads them. -/
theorem getKey_standingOf (hone : OneStanding input) {memberPersonId holder : String} :
    getKey memberPersonId (standingOf input) = some holder ↔
      Authorises input memberPersonId holder := by
  have hread : ∀ authorisation, isRead (.ofNumber input.meetingDay)
      ((membersOf input).map (·.personId)) authorisation = true ↔ authorisation.withdrawnAt = none ∧
        isProxyAuthorityCurrent (.ofNumber authorisation.authorisedOn)
          (.ofNumber input.meetingDay) = true ∧
        (authorisation.ground = .MEMBER → Member input authorisation.proxyHolderPersonId) := by
    intro authorisation
    unfold isRead
    simp only [Bool.and_eq_true, Bool.or_eq_true, decide_eq_true_eq, and_assoc,
      personId_mem_membersOn]
    rw [ne_eq, ← imp_iff_not_or]
    rfl
  have hlast := getKey_authorities (.ofNumber input.meetingDay)
    ((membersOf input).map (·.personId)) memberPersonId input.proxyAuthorisations []
  refine (congrArg (· = some holder) hlast).to_iff.trans ?_
  rw [show getKey memberPersonId ([] : List (String × String)) = none from rfl, Option.or_none]
  constructor
  · intro h
    obtain ⟨authorisation, hmem, rfl⟩ := List.mem_map.mp (List.mem_of_getLast? h)
    rw [List.mem_filter, Bool.and_eq_true, decide_eq_true_eq, hread] at hmem
    obtain ⟨hmem, ⟨hstanding, hcurrent, hground⟩, hmember⟩ := hmem
    exact ⟨authorisation, hmem, hmember, rfl, hstanding, hcurrent, hground⟩
  · rintro ⟨authorisation, hmem, hmember, rfl, hstanding, hcurrent, hground⟩
    have hselected : authorisation ∈ input.proxyAuthorisations.filter fun authorisation =>
        isRead (.ofNumber input.meetingDay) ((membersOf input).map (·.personId)) authorisation &&
          authorisation.memberPersonId = memberPersonId := by
      rw [List.mem_filter, Bool.and_eq_true, decide_eq_true_eq, hread]
      exact ⟨hmem, ⟨hstanding, hcurrent, hground⟩, hmember⟩
    -- every authority that is selected is this one
    obtain ⟨last, hget⟩ := Option.ne_none_iff_exists'.mp
      (mt List.getLast?_eq_none_iff.mp (List.ne_nil_of_mem hselected))
    have hlastmem := List.mem_of_getLast? hget
    rw [List.mem_filter, Bool.and_eq_true, decide_eq_true_eq, hread] at hlastmem
    obtain rfl := hone last hlastmem.1 authorisation hmem hlastmem.2.1.1 hstanding
      (hlastmem.2.2.trans hmember.symm)
    rw [List.getLast?_map, hget]
    rfl

/-! ### Lines -/

theorem drawn_groups (present : AttendanceCapacity → List String)
    (standing : List (String × String)) : ∀ (groups : List VotingGroup) (drawing : Drawing),
      let drawn := groups.foldl (drawLine present standing) drawing
      drawn.lines = drawing.lines ++ groups.map (lineOf present standing) ∧
      (∀ p, p ∈ drawn.memberOfSomeLine ↔
        (∃ g ∈ groups, p ∈ (lineOf present standing g).memberPersonIds) ∨
          p ∈ drawing.memberOfSomeLine) ∧
      ∀ p, p ∈ drawn.authorityUsed ↔
        (∃ g ∈ groups, ∃ holder ∈ (lineOf present standing g).proxyHolders, holder.personId = p) ∨
          p ∈ drawing.authorityUsed
  | [], drawing => by simp
  | group :: groups, drawing => by
    obtain ⟨hlines, hmembers, hused⟩ := drawn_groups present standing groups
      (drawLine present standing drawing group)
    refine ⟨?_, fun p => (hmembers p).trans ?_, fun p => (hused p).trans ?_⟩
    · rw [List.foldl_cons, hlines, List.map_cons, drawLine, List.append_assoc, List.singleton_append]
    · simp only [drawLine, mem_addAll, List.exists_mem_cons_iff]
      rw [or_left_comm, or_assoc]
    · simp only [drawLine, mem_addAll, List.exists_mem_cons_iff, List.mem_map]
      rw [or_left_comm, or_assoc]

theorem mem_lines {line : VotingRegisterLine} : line ∈ (votingRegister input).lines ↔
    ∃ group ∈ groupsOf input, lineFor input group = line := by
  have hlines := (drawn_groups (presentAs input.attendances) (standingOf input) (groupsOf input)
    {}).1
  show line ∈ List.insertionSort _ _ ↔ _
  rw [List.mem_insertionSort, hlines, List.nil_append, List.mem_map]

theorem mem_sorted {id : String} {ids : List String} : id ∈ sorted ids ↔ id ∈ ids :=
  List.mem_insertionSort _

theorem merged_groupsOf (input : VotingRegisterInput Row) :
    Merged (membersOf input) ((membersOf input).foldl mergeMember {}) :=
  merged_mergeJointHoldings nodup_membersOn fun _ hmember => (mem_membersOn hmember).2.1

/-- **The groups are the blocks** of the members and what they hold. -/
theorem blocks_groupsOf (input : VotingRegisterInput Row) :
    Blocks (Member input) (Holds input) (fun (g : VotingGroup) p => p ∈ g.personIds)
      (fun g a => a ∈ g.apartmentIds) (· ∈ groupsOf input) := by
  refine (merged_groupsOf input).blocks.congr personId_mem_membersOn fun personId apartmentId => ?_
  constructor
  · rintro ⟨member, hmember, rfl, ha⟩
    obtain ⟨his, -, hholds⟩ := mem_membersOn hmember
    exact ⟨his, (hholds apartmentId).mp ha⟩
  · rintro ⟨his, ha⟩
    obtain ⟨member, hmember, rfl⟩ := List.mem_map.mp ((personId_mem_membersOn personId).mpr his)
    exact ⟨member, hmember, rfl, ((mem_membersOn hmember).2.2 apartmentId).mpr ha⟩

theorem Holds.member {personId apartmentId : String} (h : Holds input personId apartmentId) :
    Member input personId := h.1

/-- A proxy holder on a line, and for whom. -/
theorem mem_proxyHoldersOf (hone : OneStanding input) {memberPersonIds : List String}
    {holder : VotingRegisterProxyHolder} :
    holder ∈ proxyHoldersOf (presentAs input.attendances) (standingOf input) memberPersonIds ↔
      holder.memberPersonId ∈ memberPersonIds ∧ ¬Stands input .MEMBER holder.memberPersonId ∧
        Stands input .PROXY_HOLDER holder.personId ∧
        Authorises input holder.memberPersonId holder.personId := by
  unfold proxyHoldersOf
  rw [List.mem_filterMap]
  constructor
  · rintro ⟨memberPersonId, hmem, hsome⟩
    split_ifs at hsome with hpresent
    split at hsome
    next => cases hsome
    next found hget =>
      split_ifs at hsome with hfound
      obtain rfl := Option.some.inj hsome
      exact ⟨hmem, fun h => hpresent (mem_presentAs_iff.mpr h), mem_presentAs_iff.mp hfound,
        (getKey_standingOf hone).mp hget⟩
  · rintro ⟨hmem, habsent, hstands, hauthorises⟩
    refine ⟨holder.memberPersonId, hmem, ?_⟩
    rw [if_neg fun h => habsent (mem_presentAs_iff.mp h), (getKey_standingOf hone).mpr hauthorises]
    exact if_pos (mem_presentAs_iff.mpr hstands)

/-- A member is there, or somebody with a current authority of theirs is. -/
def Votes (input : VotingRegisterInput Row) (personId : String) : Prop :=
  Stands input .MEMBER personId ∨ ¬Stands input .MEMBER personId ∧
    ∃ holder, Stands input .PROXY_HOLDER holder ∧ Authorises input personId holder

theorem votePresent_lineFor (hone : OneStanding input) (group : VotingGroup) :
    (lineFor input group).votePresent = true ↔ ∃ p ∈ group.personIds, Votes input p := by
  show decide _ = true ↔ _
  rw [decide_eq_true_eq, List.length_pos_iff_exists_mem, List.length_pos_iff_exists_mem]
  constructor
  · rintro (⟨p, hp⟩ | ⟨holder, hholder⟩)
    · rw [List.mem_filter, mem_sorted, decide_eq_true_eq, mem_presentAs_iff] at hp
      exact ⟨p, hp.1, .inl hp.2⟩
    · obtain ⟨hmem, habsent, hstands, hauthorises⟩ := (mem_proxyHoldersOf hone).mp hholder
      exact ⟨_, mem_sorted.mp hmem, .inr ⟨habsent, _, hstands, hauthorises⟩⟩
  · rintro ⟨p, hp, hstands | ⟨habsent, holder, hstands, hauthorises⟩⟩
    · refine .inl ⟨p, ?_⟩
      rw [List.mem_filter, mem_sorted, decide_eq_true_eq, mem_presentAs_iff]
      exact ⟨hp, hstands⟩
    · exact .inr ⟨⟨holder, p⟩, (mem_proxyHoldersOf hone).mpr
        ⟨mem_sorted.mpr hp, habsent, hstands, hauthorises⟩⟩

/-- A proxy holder who stands on the list is on a line, or told of as without a vote. -/
theorem mem_proxyHoldersWithoutVote {personId : String} :
    personId ∈ (votingRegister input).proxyHoldersWithoutVote ↔
      Stands input .PROXY_HOLDER personId ∧ ¬∃ line ∈ (votingRegister input).lines,
        ∃ holder ∈ line.proxyHolders, holder.personId = personId := by
  have hused := (drawn_groups (presentAs input.attendances) (standingOf input) (groupsOf input)
    {}).2.2
  show personId ∈ sorted (List.filter _ _) ↔ _
  rw [mem_sorted, List.mem_filter, decide_eq_true_eq, mem_presentAs_iff, hused]
  refine and_congr_right fun _ => not_congr ?_
  simp only [List.not_mem_nil, or_false, mem_lines]
  constructor
  · rintro ⟨group, hgroup, hholder⟩
    exact ⟨_, ⟨group, hgroup, rfl⟩, hholder⟩
  · rintro ⟨_, ⟨group, hgroup, rfl⟩, hholder⟩
    exact ⟨group, hgroup, hholder⟩

/-- **A register drawn from its rows**: its lines are the components of the members of the day, and
a vote is present through the line's own members or their authorities. -/
structure DrawnFrom (input : VotingRegisterInput Row) (register : VotingRegister) : Prop where
  inhabited : ∀ line ∈ register.lines, line.memberPersonIds ≠ []
  members : ∀ line ∈ register.lines, ∀ p ∈ line.memberPersonIds, Member input p
  component : ∀ line ∈ register.lines, ∀ p ∈ line.memberPersonIds, ∀ q,
    q ∈ line.memberPersonIds ↔ Linked (Holds input) p q
  once : ∀ p, Member input p → ∃! line, line ∈ register.lines ∧ p ∈ line.memberPersonIds
  apartments : ∀ line ∈ register.lines, ∀ a,
    a ∈ line.apartmentIds ↔ ∃ p ∈ line.memberPersonIds, Holds input p a
  apartment_once : ∀ line ∈ register.lines, ∀ line' ∈ register.lines, ∀ a,
    a ∈ line.apartmentIds → a ∈ line'.apartmentIds → line = line'
  alone : ∀ line ∈ register.lines, ∀ p ∈ line.memberPersonIds, (∀ a, ¬Holds input p a) →
    line.memberPersonIds = [p]
  total : register.lines.Nodup ∧ register.votesTotal = register.lines.length
  present : ∀ line ∈ register.lines,
    line.votePresent = true ↔ ∃ p ∈ line.memberPersonIds, Votes input p
  holders : ∀ p, Stands input .PROXY_HOLDER p → (p ∈ register.proxyHoldersWithoutVote ↔
    ¬∃ line ∈ register.lines, ∃ holder ∈ line.proxyHolders, holder.personId = p)

/-- Lines with a member in common are one line. -/
theorem lineFor_inj {group group' : VotingGroup} (hgroup : group ∈ groupsOf input)
    (hgroup' : group' ∈ groupsOf input)
    (h : (lineFor input group).memberPersonIds = (lineFor input group').memberPersonIds) :
    group = group' := by
  obtain ⟨p, hp⟩ := List.exists_mem_of_ne_nil _ ((merged_groupsOf input).nodup group hgroup).2.2
  have hsame : sorted group.personIds = sorted group'.personIds := h
  have hp' : p ∈ sorted group'.personIds := hsame ▸ mem_sorted.mpr hp
  exact (blocks_groupsOf input).apart group hgroup group' hgroup' p hp (mem_sorted.mp hp')

theorem nodup_lines (input : VotingRegisterInput Row) :
    ((groupsOf input).map (lineFor input)).Nodup :=
  List.Nodup.map_on (fun _ hg _ hg' h => lineFor_inj hg hg' (congrArg _ h))
    (merged_groupsOf input).groups_nodup

theorem lines_votingRegister (input : VotingRegisterInput Row) : (votingRegister input).lines =
    ((groupsOf input).map (lineFor input)).insertionSort
      fun left right => left.joined ≤ right.joined :=
  congrArg (List.insertionSort fun left right : VotingRegisterLine => left.joined ≤ right.joined)
    (drawn_groups (presentAs input.attendances) (standingOf input) (groupsOf input) {}).1

theorem drawnFrom_votingRegister (hone : OneStanding input) :
    DrawnFrom input (votingRegister input) := by
  have hblocks := blocks_groupsOf input
  have hheld : ∀ p a, Holds input p a → Member input p := fun _ _ h => h.1
  have hgroup : ∀ line ∈ (votingRegister input).lines, ∃ group ∈ groupsOf input,
      lineFor input group = line := fun line hline => mem_lines.mp hline
  have hmember : ∀ (group : VotingGroup) p,
      p ∈ (lineFor input group).memberPersonIds ↔ p ∈ group.personIds := fun _ _ => mem_sorted
  have hapartment : ∀ (group : VotingGroup) a,
      a ∈ (lineFor input group).apartmentIds ↔ a ∈ group.apartmentIds := fun _ _ => mem_sorted
  refine ⟨?_, ?_, ?_, ?_, ?_, ?_, ?_, ⟨?_, rfl⟩, ?_, ?_⟩
  · intro line hline
    obtain ⟨group, hmem, rfl⟩ := hgroup line hline
    obtain ⟨p, hp⟩ := List.exists_mem_of_ne_nil _ ((merged_groupsOf input).nodup group hmem).2.2
    exact List.ne_nil_of_mem ((hmember group p).mpr hp)
  · intro line hline p hp
    obtain ⟨group, hmem, rfl⟩ := hgroup line hline
    exact hblocks.sound group hmem p ((hmember group p).mp hp)
  · intro line hline p hp q
    obtain ⟨group, hmem, rfl⟩ := hgroup line hline
    rw [hmember]
    exact hblocks.items_iff hheld hmem ((hmember group p).mp hp) q
  · intro p hp
    obtain ⟨group, hmem, hgp⟩ := hblocks.covers p hp
    refine ⟨lineFor input group, ⟨mem_lines.mpr ⟨group, hmem, rfl⟩, (hmember group p).mpr hgp⟩, ?_⟩
    rintro line ⟨hline, hlp⟩
    obtain ⟨group', hmem', rfl⟩ := hgroup line hline
    rw [hblocks.apart group hmem group' hmem' p hgp ((hmember group' p).mp hlp)]
  · intro line hline a
    obtain ⟨group, hmem, rfl⟩ := hgroup line hline
    simp only [hmember]
    exact (hapartment group a).trans (hblocks.keys_iff group hmem a)
  · intro line hline line' hline' a ha ha'
    obtain ⟨group, hmem, rfl⟩ := hgroup line hline
    obtain ⟨group', hmem', rfl⟩ := hgroup line' hline'
    rw [hblocks.keys_apart group hmem group' hmem' a ((hapartment group a).mp ha)
      ((hapartment group' a).mp ha')]
  · intro line hline p hp hnone
    obtain ⟨group, hmem, rfl⟩ := hgroup line hline
    have hgp := (hmember group p).mp hp
    have hsingle : group.personIds = [p] := by
      refine List.perm_singleton.mp ((List.perm_ext_iff_of_nodup
        ((merged_groupsOf input).nodup group hmem).1 (List.nodup_singleton p)).mpr fun q => ?_)
      rw [List.mem_singleton]
      exact ⟨hblocks.alone hheld hmem hgp hnone, fun h => h ▸ hgp⟩
    show sorted group.personIds = [p]
    rw [hsingle]
    rfl
  · rw [lines_votingRegister]
    exact (List.perm_insertionSort _ _).nodup_iff.mpr (nodup_lines input)
  · intro line hline
    obtain ⟨group, hmem, rfl⟩ := hgroup line hline
    simp only [hmember]
    exact votePresent_lineFor hone group
  · intro p hstands
    rw [mem_proxyHoldersWithoutVote]
    exact and_iff_right hstands

end OpenBrf.Meetings
