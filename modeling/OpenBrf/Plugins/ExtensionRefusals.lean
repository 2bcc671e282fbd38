import Mathlib.Data.List.Dedup
import OpenBrf.Lang.Sorting
import OpenBrf.Plugins.ExtensionGroups

/-!
# Plugins.ExtensionRefusals — no group holds both kinds of a rule (`manifest.ts`)
-/

namespace OpenBrf.Plugins

open Lang

variable {Route : Type}

/-! ### The rules -/

/-- The permissions that read the register. -/
def REGISTER_READING_PERMISSIONS : List String :=
  ["addressBook:read", "addressBook:readContact", "finances:read"]

def WEBSITE_PERSONAL_DATA : List String := ["freeText", "photograph"]

def DEVICE_PERSONAL_DATA : List String :=
  ["name", "apartment", "residency", "freeText", "photograph"]

/-- The permissions in a list that reach the members' details. -/
def memberDataPermissions (permissions : List String) : List String :=
  permissions.filter fun permission =>
    permission ∈ REGISTER_READING_PERMISSIONS || permission = "addressBook:proposeImport"

/-- The categories in a list that describe the members. -/
def memberPersonalData (categories : List String) : List String :=
  categories.filter fun category => category ∉ WEBSITE_PERSONAL_DATA

/-- Whether a plugin reaches the members' details. -/
def reachesMemberData (plugin : ExtensionGroupRuleMember Route) : Bool :=
  0 < (memberDataPermissions plugin.permissions).length ||
    0 < (memberPersonalData (plugin.personalData.getD [])).length

def deviceWithheldPermissions (permissions : List String) : List String :=
  (memberDataPermissions permissions).filter (· ≠ "addressBook:read")

/-- Whether a plugin reaches what a device may not show. -/
def reachesWhatDeviceWithholds (plugin : ExtensionGroupRuleMember Route) : Bool :=
  0 < (deviceWithheldPermissions plugin.permissions).length ||
    (plugin.personalData.getD []).any fun category => category ∉ DEVICE_PERSONAL_DATA

/-- Whether an addon extends two or more of the plugins standing. -/
def joinsTwo (member : ExtensionGroupRuleMember Route) (standing : List String) : Bool :=
  1 < (member.extensions.filter (· ∈ standing)).dedup.length

inductive ExtensionGroupRuleRefusal where
  | extensionGroupRefused (website register : List String)
  | extensionDeviceGroupRefused (device register : List String)
  deriving DecidableEq, Repr

/-- One pair of kinds a group joined by extensions never holds both of. -/
structure ExtensionGroupRule (Route : Type) where
  shown : ExtensionGroupRuleMember Route → Bool
  reaches : ExtensionGroupRuleMember Route → Bool
  refusal : List String → List String → ExtensionGroupRuleRefusal

/-- The website and the register. -/
def WEBSITE_GROUP_RULE : ExtensionGroupRule Route where
  shown member := "site:blocks" ∈ member.permissions
  reaches := reachesMemberData
  refusal := .extensionGroupRefused

/-- The website rule, then a device and what it may not show. -/
def GROUP_RULES : List (ExtensionGroupRule Route) :=
  [WEBSITE_GROUP_RULE,
    { shown := fun member => 0 < member.deviceRoutes.length
      reaches := reachesWhatDeviceWithholds
      refusal := .extensionDeviceGroupRefused }]

/-! ### The refusals -/

/-- Which addons give way, and how far the group reaches. -/
structure GroupYield (Route : Type) where
  whole : Bool
  yields : ExtensionGroupRuleMember Route → List String → Bool

def groupYields (rule : ExtensionGroupRule Route) : List (GroupYield Route) :=
  [⟨false, fun member _ => rule.shown member⟩,
    ⟨false, fun member _ => rule.reaches member⟩,
    ⟨true, joinsTwo⟩]

/-- The refusals, by id. -/
abbrev Refusals := List (String × ExtensionGroupRuleRefusal)

/-- The members no refusal names. -/
def standingOf (members : List (ExtensionGroupRuleMember Route)) (refused : Refusals) :
    List (ExtensionGroupRuleMember Route) :=
  members.filter fun member => (getKey member.id refused).isNone

/-- How far the groups of a turn reach. -/
def reachOf (whole : Bool) (ids : List String) (member : ExtensionGroupRuleMember Route) : Bool :=
  if whole then true else !joinsTwo member ids

/-- The addons of a group that holds both kinds give way. -/
def refuseIn (rule : ExtensionGroupRule Route)
    (yields : ExtensionGroupRuleMember Route → List String → Bool) (ids : List String)
    (refused : Refusals) (group : List (ExtensionGroupRuleMember Route)) : Refusals :=
  let shown := toSorted (idsOf (group.filter rule.shown))
  let register := toSorted (idsOf (group.filter rule.reaches))
  if shown.length = 0 ∨ register.length = 0 then refused
  else
    group.foldl (fun refused member =>
      if 0 < member.extensions.length && yields member ids then
        setKey member.id (rule.refusal shown register) refused
      else refused) refused

/-- One turn: the addons of one kind under one rule, in the groups of those standing. -/
def turn (members : List (ExtensionGroupRuleMember Route)) (rule : ExtensionGroupRule Route)
    (refused : Refusals) (giving : GroupYield Route) : Refusals :=
  let standing := standingOf members refused
  let ids := idsOf standing
  (extensionGroups standing (reachOf giving.whole ids)).foldl (refuseIn rule giving.yields ids)
    refused

/-- One pass over the rules. -/
def pass (rules : List (ExtensionGroupRule Route))
    (members : List (ExtensionGroupRuleMember Route)) (refused : Refusals) : Refusals :=
  rules.foldl (fun refused rule => (groupYields rule).foldl (turn members rule) refused) refused

/-- The passes repeat until one refuses nothing more; none where `n` of them do not suffice. -/
def passes (rules : List (ExtensionGroupRule Route))
    (members : List (ExtensionGroupRuleMember Route)) : ℕ → Refusals → Option Refusals
  | 0, _ => none
  | n + 1, refused =>
    let after := pass rules members refused
    if after.length > refused.length then passes rules members n after else some after

def groupRefusals (rules : List (ExtensionGroupRule Route))
    (members : List (ExtensionGroupRuleMember Route)) (n : ℕ) : Option Refusals :=
  passes rules members n []

/-- The addons refused because the plugins joined to them hold both kinds of a rule. -/
def extensionGroupRuleRefusals (members : List (ExtensionGroupRuleMember Route)) (n : ℕ) :
    Option Refusals :=
  groupRefusals GROUP_RULES members n

/-! ### What a turn leaves -/

section Turns

variable {members members' : List (ExtensionGroupRuleMember Route)}
  {rule : ExtensionGroupRule Route} {refused refused' : Refusals}
  {yields : ExtensionGroupRuleMember Route → List String → Bool} {ids : List String}
  {giving : GroupYield Route}

/-- A group holds both kinds of a rule. -/
def holdsBoth (rule : ExtensionGroupRule Route)
    (group : List (ExtensionGroupRuleMember Route)) : Bool :=
  group.any rule.shown && group.any rule.reaches

/-- An addon of the kind that gives way. -/
def gives (yields : ExtensionGroupRuleMember Route → List String → Bool) (ids : List String)
    (member : ExtensionGroupRuleMember Route) : Bool :=
  0 < member.extensions.length && yields member ids

/-- The refusal of a group's addons. -/
def refusalOf (rule : ExtensionGroupRule Route)
    (group : List (ExtensionGroupRuleMember Route)) : ExtensionGroupRuleRefusal :=
  rule.refusal (toSorted (idsOf (group.filter rule.shown)))
    (toSorted (idsOf (group.filter rule.reaches)))

theorem length_sorted_eq_zero (kind : ExtensionGroupRuleMember Route → Bool)
    (group : List (ExtensionGroupRuleMember Route)) :
    (toSorted (idsOf (group.filter kind))).length = 0 ↔ group.any kind = false := by
  unfold idsOf
  rw [length_toSorted, List.length_map, List.length_eq_zero_iff, List.filter_eq_nil_iff,
    List.any_eq_false]

theorem refuseIn_eq (group : List (ExtensionGroupRuleMember Route)) :
    refuseIn rule yields ids refused group = if holdsBoth rule group = true then
      group.foldl (fun refused member =>
        if gives yields ids member = true then setKey member.id (refusalOf rule group) refused
        else refused) refused
    else refused := by
  have hneither : (toSorted (idsOf (group.filter rule.shown))).length = 0 ∨
      (toSorted (idsOf (group.filter rule.reaches))).length = 0 ↔ ¬holdsBoth rule group = true := by
    unfold holdsBoth
    rw [length_sorted_eq_zero, length_sorted_eq_zero, Bool.and_eq_true, not_and_or,
      Bool.not_eq_true, Bool.not_eq_true]
  unfold refuseIn
  by_cases h : holdsBoth rule group = true
  · rw [if_pos h]
    exact if_neg fun hzero => hneither.mp hzero h
  · rw [if_neg h]
    exact if_pos (hneither.mpr h)

/-- What is refused in turn under one refusal. -/
theorem getKey_refused (c : ExtensionGroupRuleMember Route → Bool)
    (refusal : ExtensionGroupRuleRefusal) (key : String) :
    ∀ (group : List (ExtensionGroupRuleMember Route)) (refused : Refusals),
      getKey key (group.foldl (fun refused member =>
        if c member = true then setKey member.id refusal refused else refused) refused) =
        if group.any (fun member => c member && member.id = key) = true then some refusal
        else getKey key refused
  | [], _ => rfl
  | member :: group, refused => by
    rw [List.foldl_cons, getKey_refused c refusal key group, List.any_cons]
    by_cases hrest : group.any (fun member => c member && member.id = key) = true
    · rw [if_pos hrest, if_pos (by rw [hrest, Bool.or_true])]
    · rw [if_neg hrest, Bool.eq_false_iff.mpr hrest, Bool.or_false]
      by_cases hc : c member = true
      · rw [if_pos hc, getKey_setKey, hc, Bool.true_and]
        by_cases hid : key = member.id
        · rw [if_pos hid, if_pos (decide_eq_true hid.symm)]
        · rw [if_neg hid, if_neg fun h => hid (of_decide_eq_true h).symm]
      · rw [if_neg hc, Bool.eq_false_iff.mpr hc, Bool.false_and, if_neg Bool.false_ne_true]

theorem getKey_refuseIn (key : String) (group : List (ExtensionGroupRuleMember Route)) :
    getKey key (refuseIn rule yields ids refused group) =
      if (holdsBoth rule group &&
          group.any fun member => gives yields ids member && member.id = key) = true then
        some (refusalOf rule group)
      else getKey key refused := by
  rw [refuseIn_eq]
  by_cases h : holdsBoth rule group = true
  · rw [if_pos h, getKey_refused, h, Bool.true_and]
  · rw [if_neg h, Bool.eq_false_iff.mpr h, Bool.false_and, if_neg Bool.false_ne_true]

/-- Groups without a plugin of an id leave that id as it was. -/
theorem getKey_other {key : String} : ∀ {groups : List (List (ExtensionGroupRuleMember Route))}
    {refused : Refusals}, (∀ group ∈ groups, ∀ member ∈ group, member.id ≠ key) →
      getKey key (groups.foldl (refuseIn rule yields ids) refused) = getKey key refused
  | [], _, _ => rfl
  | group :: groups, refused, h => by
    obtain ⟨hgroup, hgroups⟩ := List.forall_mem_cons.mp h
    rw [List.foldl_cons, getKey_other hgroups, getKey_refuseIn, if_neg]
    intro hany
    obtain ⟨member, hmember, hkey⟩ := List.any_eq_true.mp (Bool.and_eq_true_iff.mp hany).2
    exact hgroup member hmember (of_decide_eq_true (Bool.and_eq_true_iff.mp hkey).2)

theorem mem_standingOf {member : ExtensionGroupRuleMember Route} :
    member ∈ standingOf members refused ↔ member ∈ members ∧ getKey member.id refused = none := by
  unfold standingOf
  rw [List.mem_filter, Option.isNone_iff_eq_none]

theorem nodup_standingOf (hids : (idsOf members).Nodup) (refused : Refusals) :
    (idsOf (standingOf members refused)).Nodup :=
  hids.sublist (List.filter_sublist.map _)

/-- The groups of a turn. -/
def groupsOf (members : List (ExtensionGroupRuleMember Route)) (refused : Refusals)
    (giving : GroupYield Route) : List (List (ExtensionGroupRuleMember Route)) :=
  extensionGroups (standingOf members refused)
    (reachOf giving.whole (idsOf (standingOf members refused)))

theorem components_groupsOf (hids : (idsOf members).Nodup) (refused : Refusals)
    (giving : GroupYield Route) :
    Grouping.Components (Extends (standingOf members refused)
        (reachOf giving.whole (idsOf (standingOf members refused))))
      (standingOf members refused) (groupsOf members refused giving) :=
  components_extensionGroups (nodup_standingOf hids refused)

/-- **A turn on a plugin that stands**: it is refused where its group holds both kinds and it is of
the kind that gives way. -/
theorem getKey_turn (hids : (idsOf members).Nodup)
    {group : List (ExtensionGroupRuleMember Route)} (hgroup : group ∈ groupsOf members refused giving)
    {member : ExtensionGroupRuleMember Route} (hmember : member ∈ group) :
    getKey member.id (turn members rule refused giving) =
      if (holdsBoth rule group &&
          gives giving.yields (idsOf (standingOf members refused)) member) = true then
        some (refusalOf rule group)
      else none := by
  have hcomponents := components_groupsOf hids refused giving
  obtain ⟨before, after, hsplit⟩ := List.append_of_mem hgroup
  have hflat := List.nodup_flatten.mp
    (hcomponents.once.nodup_iff.mpr ((nodup_standingOf hids refused).of_map _))
  have hsame : ∀ {group'}, group' ∈ groupsOf members refused giving → ∀ other ∈ group',
      other.id = member.id → other = member := by
    intro group' hgroup' other hother hid
    exact member_inj (nodup_standingOf hids refused) (hcomponents.mem hgroup' hother)
      (hcomponents.mem hgroup hmember) hid
  rw [hsplit, List.pairwise_append] at hflat
  obtain ⟨-, -, hafter, hbefore⟩ := hflat
  have hstands := (mem_standingOf.mp (hcomponents.mem hgroup hmember)).2
  show getKey member.id ((groupsOf members refused giving).foldl (refuseIn rule giving.yields _)
    refused) = _
  rw [hsplit, List.foldl_append, List.foldl_cons, getKey_other, getKey_refuseIn, getKey_other,
    hstands]
  · -- of the plugins in its group only itself has its id
    have hany : (group.any fun other => gives giving.yields (idsOf (standingOf members refused)) other
        && other.id = member.id) =
        gives giving.yields (idsOf (standingOf members refused)) member := by
      refine Bool.eq_iff_iff.mpr ⟨fun h => ?_, fun h => ?_⟩
      · obtain ⟨other, hother, hboth⟩ := List.any_eq_true.mp h
        obtain ⟨hgives, hid⟩ := Bool.and_eq_true_iff.mp hboth
        rwa [← hsame hgroup other hother (of_decide_eq_true hid)]
      · exact List.any_eq_true.mpr ⟨member, hmember, by simp [h]⟩
    rw [hany]
  · intro group' hgroup' other hother hid
    obtain rfl := hsame (hsplit ▸ List.mem_append_left _ hgroup') other hother hid
    exact hbefore group' hgroup' group List.mem_cons_self hother hmember
  · intro group' hgroup' other hother hid
    obtain rfl := hsame (hsplit ▸ List.mem_append_right _ (List.mem_cons_of_mem _ hgroup')) other
      hother hid
    exact (List.pairwise_cons.mp hafter).1 group' hgroup' hmember hother

/-- **A turn on any other id**: it is left as it was. -/
theorem getKey_turn_other (hids : (idsOf members).Nodup) {key : String}
    (hkey : key ∉ idsOf (standingOf members refused)) :
    getKey key (turn members rule refused giving) = getKey key refused := by
  refine getKey_other fun group hgroup member hmember hid => hkey ?_
  exact mem_idsOf.mpr ⟨member, (components_groupsOf hids refused giving).mem hgroup hmember, hid⟩

end Turns

/-! ### What a run leaves -/

section Runs

variable {members members' : List (ExtensionGroupRuleMember Route)}
  {rules : List (ExtensionGroupRule Route)} {rule : ExtensionGroupRule Route}
  {refused refused' refused'' : Refusals} {giving : GroupYield Route}

/-- Refusals of addons among the members, each once. -/
structure AddonsOnly (members : List (ExtensionGroupRuleMember Route)) (refused : Refusals) : Prop where
  nodup : (refused.map (·.1)).Nodup
  named : ∀ key ∈ refused.map (·.1),
    ∃ member ∈ members, member.id = key ∧ member.extensions ≠ []

/-- What is refused stays refused. -/
def Grows (refused refused' : Refusals) : Prop :=
  ∀ key refusal, getKey key refused = some refusal → getKey key refused' = some refusal

/-- The same refusals, in whatever order they were set. -/
def Same (refused refused' : Refusals) : Prop := ∀ key, getKey key refused = getKey key refused'

theorem Grows.trans (h : Grows refused refused') (h' : Grows refused' refused'') :
    Grows refused refused'' := fun key refusal hget => h' key refusal (h key refusal hget)

theorem Same.grows (h : Same refused refused') : Grows refused refused' :=
  fun key _ hget => (h key).symm.trans hget

theorem Same.symm (h : Same refused refused') : Same refused' refused := fun key => (h key).symm

theorem Grows.antisymm (h : Grows refused refused') (h' : Grows refused' refused) :
    Same refused refused' := by
  intro key
  cases hget : getKey key refused with
  | some refusal => exact (h key refusal hget).symm
  | none =>
    cases hget' : getKey key refused' with
    | none => rfl
    | some refusal => exact absurd (hget.symm.trans (h' key refusal hget')) (by simp)

theorem mem_keys_iff {key : String} :
    key ∈ refused.map (·.1) ↔ ∃ refusal, getKey key refused = some refusal := by
  unfold getKey
  rw [← Option.isSome_iff_exists, Option.isSome_map, List.find?_isSome, List.mem_map]
  simp

theorem Grows.keys (h : Grows refused refused') : refused.map (·.1) ⊆ refused'.map (·.1) := by
  intro key hkey
  obtain ⟨refusal, hget⟩ := mem_keys_iff.mp hkey
  exact mem_keys_iff.mpr ⟨refusal, h key refusal hget⟩

theorem Grows.length_le (h : Grows refused refused') (hnodup : (refused.map (·.1)).Nodup) :
    refused.length ≤ refused'.length := by
  have hle := (List.subperm_of_subset hnodup h.keys).length_le
  rwa [List.length_map, List.length_map] at hle

/-- Refusals that grow to no more than they were are the same. -/
theorem Grows.same (h : Grows refused refused') (hnodup : (refused.map (·.1)).Nodup)
    (hlen : refused'.length ≤ refused.length) : Same refused refused' := by
  intro key
  cases hget : getKey key refused with
  | some refusal => exact (h key refusal hget).symm
  | none =>
    cases hget' : getKey key refused' with
    | none => rfl
    | some refusal =>
      have hnew : key ∉ refused.map (·.1) := by
        intro hmem
        obtain ⟨refusal, hsome⟩ := mem_keys_iff.mp hmem
        rw [hget] at hsome
        cases hsome
      have hsub : key :: refused.map (·.1) ⊆ refused'.map (·.1) :=
        List.cons_subset.mpr ⟨mem_keys_iff.mpr ⟨refusal, hget'⟩, h.keys⟩
      have hle := (List.subperm_of_subset (List.nodup_cons.mpr ⟨hnew, hnodup⟩) hsub).length_le
      rw [List.length_cons, List.length_map, List.length_map] at hle
      omega

theorem AddonsOnly.length_le (h : AddonsOnly members refused) : refused.length ≤ members.length := by
  have hsub : refused.map (·.1) ⊆ idsOf members := by
    intro key hkey
    obtain ⟨member, hmember, hid, -⟩ := h.named key hkey
    exact mem_idsOf.mpr ⟨member, hmember, hid⟩
  have hle := (List.subperm_of_subset h.nodup hsub).length_le
  rwa [List.length_map, idsOf, List.length_map] at hle

theorem addonsOnly_setKey {member : ExtensionGroupRuleMember Route} (hmember : member ∈ members)
    (hextends : member.extensions ≠ []) (refusal : ExtensionGroupRuleRefusal)
    (h : AddonsOnly members refused) : AddonsOnly members (setKey member.id refusal refused) := by
  refine ⟨nodup_keys_setKey h.nodup, fun key hkey => ?_⟩
  rcases mem_keys_setKey.mp hkey with rfl | hkey
  · exact ⟨member, hmember, rfl, hextends⟩
  · exact h.named key hkey

theorem addonsOnly_refuseIn {yields : ExtensionGroupRuleMember Route → List String → Bool}
    {ids : List String} {group : List (ExtensionGroupRuleMember Route)}
    (hgroup : ∀ member ∈ group, member ∈ members) (h : AddonsOnly members refused) :
    AddonsOnly members (refuseIn rule yields ids refused group) := by
  rw [refuseIn_eq]
  by_cases hboth : holdsBoth rule group = true
  · rw [if_pos hboth]
    generalize refusalOf rule group = refusal
    clear hboth
    induction group generalizing refused with
    | nil => exact h
    | cons member group ih =>
      obtain ⟨hmember, hgroup⟩ := List.forall_mem_cons.mp hgroup
      refine ih hgroup ?_
      show AddonsOnly members (if gives yields ids member = true then
        setKey member.id refusal refused else refused)
      by_cases hgives : gives yields ids member = true
      · have hextends : member.extensions ≠ [] :=
          List.length_pos_iff.mp (of_decide_eq_true (Bool.and_eq_true_iff.mp hgives).1)
        rw [if_pos hgives]
        exact addonsOnly_setKey hmember hextends refusal h
      · rwa [if_neg hgives]
  · rwa [if_neg hboth]

/-- **A turn names addons of the members.** -/
theorem addonsOnly_turn (hids : (idsOf members).Nodup) (h : AddonsOnly members refused) :
    AddonsOnly members (turn members rule refused giving) := by
  have hall : ∀ (ids : List String) (groups : List (List (ExtensionGroupRuleMember Route)))
      (refused : Refusals), (∀ group ∈ groups, ∀ member ∈ group, member ∈ members) →
      AddonsOnly members refused →
      AddonsOnly members (groups.foldl (refuseIn rule giving.yields ids) refused) := by
    intro ids groups
    induction groups with
    | nil => exact fun _ _ h => h
    | cons group groups ih =>
      intro refused hgroups h
      obtain ⟨hgroup, hgroups⟩ := List.forall_mem_cons.mp hgroups
      exact ih _ hgroups (addonsOnly_refuseIn hgroup h)
  refine hall _ _ _ (fun group hgroup member hmember => ?_) h
  exact (mem_standingOf.mp ((components_groupsOf hids refused giving).mem hgroup hmember)).1

/-- **A turn adds to what was refused.** -/
theorem grows_turn (hids : (idsOf members).Nodup) :
    Grows refused (turn members rule refused giving) := by
  intro key refusal hget
  rw [getKey_turn_other hids, hget]
  intro hmem
  obtain ⟨member, hmember, hid⟩ := mem_idsOf.mp hmem
  have hnone := (mem_standingOf.mp hmember).2
  rw [hid, hget] at hnone
  cases hnone

theorem perm_standingOf (hperm : members.Perm members') (hsame : Same refused refused') :
    (standingOf members refused).Perm (standingOf members' refused') := by
  unfold standingOf
  have hfilter : (fun member : ExtensionGroupRuleMember Route => (getKey member.id refused).isNone) =
      fun member => (getKey member.id refused').isNone := by
    ext member
    rw [hsame]
  rw [hfilter]
  exact hperm.filter _

theorem joinsTwo_congr {ids ids' : List String} (h : ∀ id, id ∈ ids ↔ id ∈ ids')
    (member : ExtensionGroupRuleMember Route) : joinsTwo member ids = joinsTwo member ids' := by
  have hfilter : (fun plugin => decide (plugin ∈ ids)) = fun plugin => decide (plugin ∈ ids') := by
    ext plugin
    rw [decide_eq_decide.mpr (h plugin)]
  unfold joinsTwo
  rw [hfilter]

/-- Who gives way is read from the plugins standing, not from their order. -/
theorem yields_congr (hgiving : giving ∈ groupYields rule) {ids ids' : List String}
    (h : ∀ id, id ∈ ids ↔ id ∈ ids') (member : ExtensionGroupRuleMember Route) :
    giving.yields member ids = giving.yields member ids' := by
  unfold groupYields at hgiving
  rw [List.mem_cons, List.mem_cons, List.mem_singleton] at hgiving
  rcases hgiving with rfl | rfl | rfl
  · rfl
  · rfl
  · exact joinsTwo_congr h member

theorem holdsBoth_perm {group group' : List (ExtensionGroupRuleMember Route)}
    (h : group.Perm group') : holdsBoth rule group = holdsBoth rule group' := by
  unfold holdsBoth
  rw [h.any_eq, h.any_eq]

theorem refusalOf_perm {group group' : List (ExtensionGroupRuleMember Route)}
    (h : group.Perm group') : refusalOf rule group = refusalOf rule group' := by
  unfold refusalOf idsOf
  rw [toSorted_perm ((h.filter _).map _), toSorted_perm ((h.filter _).map _)]

/-- **A turn on the members in another order** refuses the same. -/
theorem same_turn (hids : (idsOf members).Nodup) (hperm : members.Perm members')
    (hgiving : giving ∈ groupYields rule) (hsame : Same refused refused') :
    Same (turn members rule refused giving) (turn members' rule refused' giving) := by
  have hids' : (idsOf members').Nodup := (hperm.map _).nodup_iff.mp hids
  have hstanding := perm_standingOf hperm hsame
  have hstandingIds : ∀ id, id ∈ idsOf (standingOf members refused) ↔
      id ∈ idsOf (standingOf members' refused') := fun id => (hstanding.map _).mem_iff
  intro key
  by_cases hkey : key ∈ idsOf (standingOf members refused)
  · obtain ⟨member, hmember, rfl⟩ := mem_idsOf.mp hkey
    have hreach : (reachOf giving.whole (idsOf (standingOf members refused)) :
        ExtensionGroupRuleMember Route → Bool) =
        reachOf giving.whole (idsOf (standingOf members' refused')) := by
      ext other
      unfold reachOf
      rw [joinsTwo_congr hstandingIds]
    have hcomponents := components_groupsOf hids refused giving
    have hcomponents' := components_groupsOf hids' refused' giving
    obtain ⟨group, hgroup, hin⟩ := hcomponents.exists_group hmember
    obtain ⟨group', hgroup', hin'⟩ := hcomponents'.exists_group (hstanding.mem_iff.mp hmember)
    have hgroups : group.Perm group' := by
      rw [← Extends.perm hstanding, ← hreach] at hcomponents'
      exact hcomponents.group_perm (hcomponents'.perm hstanding.symm)
        ((nodup_standingOf hids refused).of_map _) hgroup hgroup' hin hin'
    have hgives : gives giving.yields (idsOf (standingOf members refused)) member =
        gives giving.yields (idsOf (standingOf members' refused')) member := by
      unfold gives
      rw [yields_congr hgiving hstandingIds]
    rw [getKey_turn hids hgroup hin, getKey_turn hids' hgroup' hin', holdsBoth_perm hgroups,
      refusalOf_perm hgroups, hgives]
  · rw [getKey_turn_other hids hkey,
      getKey_turn_other hids' fun hmem => hkey ((hstandingIds key).mpr hmem)]
    exact hsame key

/-! ### Passes -/

/-- The turns of a pass. -/
def turnsOf (rules : List (ExtensionGroupRule Route)) :
    List (ExtensionGroupRule Route × GroupYield Route) :=
  rules.flatMap fun rule => (groupYields rule).map fun giving => (rule, giving)

/-- Some turns, one after the other. -/
def takeTurns (members : List (ExtensionGroupRuleMember Route))
    (turns : List (ExtensionGroupRule Route × GroupYield Route)) (refused : Refusals) : Refusals :=
  turns.foldl (fun refused now => turn members now.1 refused now.2) refused

theorem pass_eq (rules : List (ExtensionGroupRule Route)) (refused : Refusals) :
    pass rules members refused = takeTurns members (turnsOf rules) refused := by
  unfold pass takeTurns turnsOf
  rw [List.foldl_flatMap]
  simp only [List.foldl_map]

theorem mem_turnsOf {now : ExtensionGroupRule Route × GroupYield Route} :
    now ∈ turnsOf rules ↔ now.1 ∈ rules ∧ now.2 ∈ groupYields now.1 := by
  unfold turnsOf
  rw [List.mem_flatMap]
  constructor
  · rintro ⟨rule, hrule, hnow⟩
    obtain ⟨giving, hgiving, rfl⟩ := List.mem_map.mp hnow
    exact ⟨hrule, hgiving⟩
  · rintro ⟨hrule, hgiving⟩
    exact ⟨now.1, hrule, List.mem_map.mpr ⟨now.2, hgiving, rfl⟩⟩

theorem takeTurns_append (turns turns' : List (ExtensionGroupRule Route × GroupYield Route))
    (refused : Refusals) :
    takeTurns members (turns ++ turns') refused = takeTurns members turns' (takeTurns members turns refused) :=
  List.foldl_append

theorem addonsOnly_run (hids : (idsOf members).Nodup) :
    ∀ (turns : List (ExtensionGroupRule Route × GroupYield Route)) {refused : Refusals},
      AddonsOnly members refused → AddonsOnly members (takeTurns members turns refused)
  | [], _, h => h
  | _ :: turns, _, h => addonsOnly_run hids turns (addonsOnly_turn hids h)

theorem grows_run (hids : (idsOf members).Nodup) :
    ∀ (turns : List (ExtensionGroupRule Route × GroupYield Route)) (refused : Refusals),
      Grows refused (takeTurns members turns refused)
  | [], _ => fun _ _ h => h
  | _ :: turns, _ => (grows_turn hids).trans (grows_run hids turns _)

theorem same_run (hids : (idsOf members).Nodup) (hperm : members.Perm members') :
    ∀ (turns : List (ExtensionGroupRule Route × GroupYield Route)) {refused refused' : Refusals},
      (∀ now ∈ turns, now.2 ∈ groupYields now.1) → Same refused refused' →
      Same (takeTurns members turns refused) (takeTurns members' turns refused')
  | [], _, _, _, h => h
  | now :: turns, _, _, hturns, h => by
    obtain ⟨hnow, hturns⟩ := List.forall_mem_cons.mp hturns
    exact same_run hids hperm turns hturns (same_turn hids hperm hnow h)

theorem addonsOnly_pass (rules : List (ExtensionGroupRule Route)) (hids : (idsOf members).Nodup) (h : AddonsOnly members refused) :
    AddonsOnly members (pass rules members refused) := by
  rw [pass_eq]
  exact addonsOnly_run hids _ h

theorem grows_pass (rules : List (ExtensionGroupRule Route)) (hids : (idsOf members).Nodup) (refused : Refusals) :
    Grows refused (pass rules members refused) := by
  rw [pass_eq]
  exact grows_run hids _ refused

theorem same_pass (rules : List (ExtensionGroupRule Route)) (hids : (idsOf members).Nodup) (hperm : members.Perm members')
    (h : Same refused refused') : Same (pass rules members refused) (pass rules members' refused') := by
  rw [pass_eq, pass_eq]
  exact same_run hids hperm _ (fun now hnow => (mem_turnsOf.mp hnow).2) h

/-- Refusals that are the same are as many. -/
theorem Same.length_eq (h : Same refused refused') (hnodup : (refused.map (·.1)).Nodup)
    (hnodup' : (refused'.map (·.1)).Nodup) : refused.length = refused'.length :=
  Nat.le_antisymm (h.grows.length_le hnodup) (h.symm.grows.length_le hnodup')

/-- **Termination**: a pass that is not the last refuses an addon more, and there are no more of
them than members. -/
theorem passes_ends (rules : List (ExtensionGroupRule Route)) (hids : (idsOf members).Nodup) :
    ∀ (n : ℕ) {refused : Refusals},
    AddonsOnly members refused → members.length < n + refused.length →
      ∃ final, (∀ m, n ≤ m → passes rules members m refused = some final) ∧
        ∃ k, final = (pass rules members)^[k + 1] refused ∧
          ((pass rules members)^[k + 1] refused).length ≤ ((pass rules members)^[k] refused).length
  | 0, refused, h, hlen => by
    have hle := h.length_le
    omega
  | n + 1, refused, h, hlen => by
    have hsucc : ∀ m, n + 1 ≤ m → ∃ m', m = m' + 1 ∧ n ≤ m' := by
      intro m hm
      exact ⟨m - 1, by omega, by omega⟩
    by_cases hmore : (pass rules members refused).length > refused.length
    · obtain ⟨final, hfinal, k, hk, hlast⟩ :=
        passes_ends rules hids n (addonsOnly_pass rules hids h) (by omega)
      refine ⟨final, fun m hm => ?_, k + 1, hk, hlast⟩
      obtain ⟨m', rfl, hm'⟩ := hsucc m hm
      exact (if_pos hmore).trans (hfinal m' hm')
    · refine ⟨pass rules members refused, fun m hm => ?_, 0, rfl, Nat.le_of_not_lt hmore⟩
      obtain ⟨m', rfl, -⟩ := hsucc m hm
      exact if_neg hmore

/-- **The order of the members** changes nothing but the order the refusals are set in. -/
theorem same_passes (hids : (idsOf members).Nodup) (hperm : members.Perm members') :
    ∀ (n : ℕ) {refused refused' final : Refusals}, AddonsOnly members refused →
      AddonsOnly members' refused' → Same refused refused' →
      passes rules members n refused = some final →
      ∃ final', passes rules members' n refused' = some final' ∧ Same final final'
  | 0, _, _, _, _, _, _, hfinal => nomatch hfinal
  | n + 1, refused, refused', final, h, h', hsame, hfinal => by
    have hids' : (idsOf members').Nodup := (hperm.map _).nodup_iff.mp hids
    have hafter := same_pass rules hids hperm hsame
    have hpass := addonsOnly_pass rules hids h
    have hpass' := addonsOnly_pass rules hids' h'
    have hlen := hsame.length_eq h.nodup h'.nodup
    have hlen' := hafter.length_eq hpass.nodup hpass'.nodup
    by_cases hmore : (pass rules members refused).length > refused.length
    · have hmore' : (pass rules members' refused').length > refused'.length := by
        rwa [← hlen, ← hlen']
      have hgo : passes rules members n (pass rules members refused) = some final :=
        (if_pos hmore).symm.trans hfinal
      obtain ⟨final', hfinal', hsame'⟩ := same_passes hids hperm n hpass hpass' hafter hgo
      exact ⟨final', (if_pos hmore').trans hfinal', hsame'⟩
    · have hmore' : ¬(pass rules members' refused').length > refused'.length := by
        rwa [← hlen, ← hlen']
      have hstop : some (pass rules members refused) = some final :=
        (if_neg hmore).symm.trans hfinal
      obtain rfl := Option.some.inj hstop
      exact ⟨_, if_neg hmore', hafter⟩

/-! ### What a named plugin's turn found -/

/-- A turn of the run named a plugin: the one before which it stood. -/
theorem named_in_run (hids : (idsOf members).Nodup) {key : String}
    {refusal : ExtensionGroupRuleRefusal} :
    ∀ (turns : List (ExtensionGroupRule Route × GroupYield Route)) {refused : Refusals},
      getKey key refused = none → getKey key (takeTurns members turns refused) = some refusal →
      ∃ earlier now later, turns = earlier ++ now :: later ∧
        getKey key (takeTurns members earlier refused) = none ∧
        getKey key (turn members now.1 (takeTurns members earlier refused) now.2) = some refusal
  | [], _, hnone, hsome => by
    have hsame := hnone.symm.trans hsome
    cases hsame
  | now :: turns, refused, hnone, hsome => by
    cases hnow : getKey key (turn members now.1 refused now.2) with
    | some refusal' =>
      have hkept := grows_run hids turns _ key refusal' hnow
      obtain rfl := Option.some.inj (hkept.symm.trans hsome)
      exact ⟨[], now, turns, rfl, hnone, hnow⟩
    | none =>
      obtain ⟨earlier, now', later, rfl, hbefore, hafter⟩ := named_in_run hids turns hnow hsome
      exact ⟨now :: earlier, now', later, rfl, hbefore, hafter⟩

/-- What had been refused before a turn of the run. -/
def refusedBefore (members : List (ExtensionGroupRuleMember Route))
    (rules : List (ExtensionGroupRule Route)) (k : ℕ)
    (earlier : List (ExtensionGroupRule Route × GroupYield Route)) : Refusals :=
  takeTurns members earlier ((pass rules members)^[k] [])

theorem named_in_passes (hids : (idsOf members).Nodup) {key : String}
    {refusal : ExtensionGroupRuleRefusal} : ∀ {n : ℕ},
      getKey key ((pass rules members)^[n] []) = some refusal →
      ∃ k earlier now later, turnsOf rules = earlier ++ now :: later ∧
        getKey key (refusedBefore members rules k earlier) = none ∧
        getKey key (turn members now.1 (refusedBefore members rules k earlier) now.2) = some refusal
  | 0, h => nomatch h
  | n + 1, h => by
    cases hbefore : getKey key ((pass rules members)^[n] []) with
    | some refusal' =>
      rw [Function.iterate_succ_apply'] at h
      have hkept := grows_pass rules hids _ key refusal' hbefore
      obtain rfl := Option.some.inj (hkept.symm.trans h)
      exact named_in_passes hids hbefore
    | none =>
      rw [Function.iterate_succ_apply', pass_eq] at h
      obtain ⟨earlier, now, later, hturns, hnone, hsome⟩ := named_in_run hids _ hbefore h
      exact ⟨n, earlier, now, later, hturns, hnone, hsome⟩

end Runs

end OpenBrf.Plugins
