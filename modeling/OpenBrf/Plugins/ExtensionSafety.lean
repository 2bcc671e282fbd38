import OpenBrf.Plugins.ExtensionRefusals

/-!
# Plugins.ExtensionSafety — what is left holds no path from the members to a screen or the website

Once no turn refuses more, a group that holds both kinds of a rule has no addon that joins two
plugins, so it is one star; and of a star with both kinds no addon is of either, which leaves the
one plugin of it that extends nothing.
-/

namespace OpenBrf.Plugins

open Lang

variable {Route : Type} {members : List (ExtensionGroupRuleMember Route)}
  {rules : List (ExtensionGroupRule Route)} {rule : ExtensionGroupRule Route}
  {refused final : Refusals} {giving : GroupYield Route}

/-! ### Nothing more is refused -/

theorem standingOf_congr (h : Same refused final) :
    standingOf members refused = standingOf members final := by
  unfold standingOf
  congr 1
  ext member
  rw [h]

/-- In no group that holds both kinds is there an addon that would give way. -/
def Quiet (members : List (ExtensionGroupRuleMember Route)) (rule : ExtensionGroupRule Route)
    (final : Refusals) (giving : GroupYield Route) : Prop :=
  ∀ group ∈ groupsOf members final giving, holdsBoth rule group = true →
    ∀ member ∈ group, gives giving.yields (idsOf (standingOf members final)) member = false

theorem quiet_of_same (hids : (idsOf members).Nodup) (hsame : Same refused final)
    (hturn : Same refused (turn members rule refused giving)) :
    Quiet members rule final giving := by
  intro group hgroup hboth member hmember
  unfold groupsOf at hgroup
  rw [← standingOf_congr hsame] at hgroup ⊢
  have hstands := (mem_standingOf.mp
    ((components_groupsOf hids refused giving).mem hgroup hmember)).2
  rw [hturn, getKey_turn hids hgroup hmember, hboth, Bool.true_and] at hstands
  refine Bool.eq_false_iff.mpr fun hgives => ?_
  rw [if_pos hgives] at hstands
  cases hstands

/-- **The last pass** found no turn to refuse more. -/
theorem quiet_of_pass (hids : (idsOf members).Nodup)
    (hnodup : (refused.map (·.1)).Nodup)
    (hlast : (pass rules members refused).length ≤ refused.length) (hrule : rule ∈ rules)
    (hgiving : giving ∈ groupYields rule) :
    Quiet members rule (pass rules members refused) giving := by
  have hsame : Same refused (pass rules members refused) :=
    (grows_pass rules hids refused).same hnodup hlast
  obtain ⟨earlier, later, hturns⟩ :=
    List.append_of_mem (mem_turnsOf.mpr ⟨hrule, hgiving⟩ : (rule, giving) ∈ turnsOf rules)
  -- before that turn and behind it stands what stands at the end
  have hall : pass rules members refused = takeTurns members later
      (turn members rule (takeTurns members earlier refused) giving) := by
    rw [pass_eq, hturns, takeTurns_append]
    rfl
  have hearlier := grows_run hids earlier refused
  have hturn : Grows (takeTurns members earlier refused)
      (turn members rule (takeTurns members earlier refused) giving) := grows_turn hids
  have hlater := grows_run hids later (turn members rule (takeTurns members earlier refused) giving)
  rw [← hall] at hlater
  have hback := hsame.symm.grows.trans hearlier
  exact quiet_of_same hids ((hturn.trans hlater).antisymm hback)
    (hturn.antisymm (hlater.trans hback))

/-! ### Stars -/

/-- An addon that joins two plugins extends something. -/
theorem extends_of_joinsTwo {member : ExtensionGroupRuleMember Route} {ids : List String}
    (h : joinsTwo member ids = true) : 0 < member.extensions.length := by
  unfold joinsTwo at h
  have hlen := of_decide_eq_true h
  cases hext : member.extensions with
  | nil =>
    rw [hext] at hlen
    exact absurd hlen (Nat.not_lt_zero 1)
  | cons _ _ => exact Nat.succ_pos _

/-- A plugin that joins no two extends one of those standing at most. -/
theorem extends_one {standing : List (ExtensionGroupRuleMember Route)}
    (hids : (idsOf standing).Nodup) {a b c : ExtensionGroupRuleMember Route}
    (hab : Extends standing (reachOf false (idsOf standing)) a b)
    (hac : Extends standing (reachOf false (idsOf standing)) a c) : b = c := by
  obtain ⟨-, hreach, hb, hab⟩ := hab
  obtain ⟨-, -, hc, hac⟩ := hac
  have hone : ¬joinsTwo a (idsOf standing) = true := by
    intro hjoins
    unfold reachOf at hreach
    rw [hjoins] at hreach
    cases hreach
  refine member_inj hids hb hc ?_
  by_contra hne
  refine hone (decide_eq_true ?_)
  have hsub : [b.id, c.id] ⊆ (a.extensions.filter (· ∈ idsOf standing)).dedup := by
    intro id hid
    rw [List.mem_dedup, List.mem_filter]
    rcases List.mem_cons.mp hid with rfl | hid
    · exact ⟨hab, decide_eq_true (List.mem_map_of_mem hb)⟩
    · obtain rfl := List.mem_singleton.mp hid
      exact ⟨hac, decide_eq_true (List.mem_map_of_mem hc)⟩
  have hnodup : [b.id, c.id].Nodup := by simpa using hne
  exact (List.subperm_of_subset hnodup hsub).length_le

/-- **One star**: a group without an addon that joins two plugins is joined by those that do not. -/
theorem star_of_group {standing group : List (ExtensionGroupRuleMember Route)}
    (hcomponents : Grouping.Components (Extends standing fun _ => true) standing
      (extensionGroups standing fun _ => true))
    (hgroup : group ∈ extensionGroups standing fun _ => true)
    (hnone : ∀ member ∈ group, joinsTwo member (idsOf standing) = false)
    {a b : ExtensionGroupRuleMember Route} (ha : a ∈ group) (hb : b ∈ group) :
    Relation.EqvGen (Extends standing (reachOf false (idsOf standing))) a b := by
  have hinside : ∀ x y, Relation.EqvGen (Extends standing fun _ => true) x y →
      (x ∈ group ↔ y ∈ group) ∧
        (x ∈ group → Relation.EqvGen (Extends standing (reachOf false (idsOf standing))) x y) := by
    intro x y hxy
    induction hxy with
    | rel x y hextends =>
      refine ⟨⟨fun hx => ?_, fun hy => ?_⟩, fun hx => ?_⟩
      · exact (hcomponents.linked group hgroup x hx y hextends.2.2.1).mpr (.rel _ _ hextends)
      · exact (hcomponents.linked group hgroup y hy x hextends.1).mpr ((Relation.EqvGen.rel _ _ hextends).symm)
      · refine .rel _ _ ⟨hextends.1, ?_, hextends.2.2⟩
        unfold reachOf
        rw [hnone x hx]
        rfl
    | refl x => exact ⟨Iff.rfl, fun _ => .refl x⟩
    | symm x y _ ih => exact ⟨ih.1.symm, fun hy => (ih.2 (ih.1.mpr hy)).symm⟩
    | trans x y z _ _ ih ih' =>
      exact ⟨ih.1.trans ih'.1, fun hx => (ih.2 hx).trans _ _ _ (ih'.2 (ih.1.mp hx))⟩
  have hstanding := hcomponents.mem hgroup hb
  exact (hinside a b ((hcomponents.linked group hgroup a ha b hstanding).mp hb)).2 ha

/-- **Safety under a rule**: of a group that still holds both kinds, one plugin extends nothing and
is of both. -/
theorem host_of_both (hids : (idsOf members).Nodup)
    (hquiet : ∀ giving ∈ groupYields rule, Quiet members rule final giving)
    {group : List (ExtensionGroupRuleMember Route)}
    (hgroup : group ∈ extensionGroups (standingOf members final) fun _ => true)
    {a b : ExtensionGroupRuleMember Route} (ha : a ∈ group) (hb : b ∈ group)
    (hshown : rule.shown a = true) (hreaches : rule.reaches b = true) :
    a.extensions = [] ∧ rule.reaches a = true := by
  have hstanding := nodup_standingOf hids final
  have hwhole : Grouping.Components (Extends (standingOf members final) fun _ => true)
      (standingOf members final) (extensionGroups (standingOf members final) fun _ => true) :=
    components_extensionGroups hstanding
  have hboth : holdsBoth rule group = true :=
    Bool.and_eq_true_iff.mpr ⟨List.any_eq_true.mpr ⟨a, ha, hshown⟩,
      List.any_eq_true.mpr ⟨b, hb, hreaches⟩⟩
  -- no addon of the group joins two plugins
  have hnone : ∀ member ∈ group, joinsTwo member (idsOf (standingOf members final)) = false := by
    intro member hmember
    refine Bool.eq_false_iff.mpr fun hjoins => ?_
    have hgives : gives joinsTwo (idsOf (standingOf members final)) member = false :=
      hquiet ⟨true, joinsTwo⟩ (by simp [groupYields]) group hgroup hboth member hmember
    unfold gives at hgives
    rw [hjoins, decide_eq_true (extends_of_joinsTwo hjoins)] at hgives
    cases hgives
  -- so it is one star
  have hlinked := star_of_group hwhole hgroup hnone ha hb
  have hstars := components_groupsOf hids final (⟨false, fun member _ => rule.shown member⟩ :
    GroupYield Route)
  obtain ⟨star, hstar, hin⟩ := hstars.exists_group (hwhole.mem hgroup ha)
  have hin' : b ∈ star := (hstars.linked star hstar a hin b (hwhole.mem hgroup hb)).mpr hlinked
  have hstarBoth : holdsBoth rule star = true :=
    Bool.and_eq_true_iff.mpr ⟨List.any_eq_true.mpr ⟨a, hin, hshown⟩,
      List.any_eq_true.mpr ⟨b, hin', hreaches⟩⟩
  -- of which no addon is of either kind
  have hhost : ∀ kind : ExtensionGroupRuleMember Route → Bool,
      (⟨false, fun member _ => kind member⟩ : GroupYield Route) ∈ groupYields rule →
      ∀ member ∈ star, kind member = true → member.extensions = [] := by
    intro kind hkind member hmember hof
    have hgives : (decide (0 < member.extensions.length) && kind member) = false :=
      hquiet _ hkind star hstar hstarBoth member hmember
    rw [hof, Bool.and_true] at hgives
    exact List.length_eq_zero_iff.mp (Nat.eq_zero_of_not_pos (of_decide_eq_false hgives))
  have haHost := hhost rule.shown (by simp [groupYields]) a hin hshown
  have hbHost := hhost rule.reaches (by simp [groupYields]) b hin' hreaches
  have hsink : ∀ {member : ExtensionGroupRuleMember Route}, member.extensions = [] → ∀ other,
      ¬Extends (standingOf members final)
        (reachOf false (idsOf (standingOf members final))) member other := by
    intro member hext other hextends
    rw [Extends, hext] at hextends
    exact List.not_mem_nil hextends.2.2.2
  have hone : ∀ x y z, Extends (standingOf members final)
      (reachOf false (idsOf (standingOf members final))) x y →
      Extends (standingOf members final)
        (reachOf false (idsOf (standingOf members final))) x z → y = z :=
    fun _ _ _ => extends_one hstanding
  obtain rfl : a = b := Grouping.sink_unique hone hlinked (hsink haHost) (hsink hbHost)
  exact ⟨haHost, hreaches⟩

/-! ### What a named plugin stood in -/

/-- The stars: the groups formed without the addons that join two of the plugins standing. -/
def starsOf (members : List (ExtensionGroupRuleMember Route)) (refused : Refusals) :
    List (List (ExtensionGroupRuleMember Route)) :=
  extensionGroups (standingOf members refused) fun member =>
    !joinsTwo member (idsOf (standingOf members refused))

/-- **Named for its star**: a plugin that joins no two is refused where its star held both kinds. -/
theorem star_of_named (hids : (idsOf members).Nodup) (hgiving : giving ∈ groupYields rule)
    {member : ExtensionGroupRuleMember Route} (hmember : member ∈ members)
    (hstood : getKey member.id refused = none) {refusal : ExtensionGroupRuleRefusal}
    (hnamed : getKey member.id (turn members rule refused giving) = some refusal)
    (hone : joinsTwo member (idsOf (standingOf members refused)) = false) :
    ∃ star ∈ starsOf members refused, member ∈ star ∧ holdsBoth rule star = true ∧
      refusal = refusalOf rule star := by
  obtain ⟨group, hgroup, hin⟩ := (components_groupsOf hids refused giving).exists_group
    (mem_standingOf.mpr ⟨hmember, hstood⟩)
  rw [getKey_turn hids hgroup hin] at hnamed
  by_cases hgives : (holdsBoth rule group &&
      gives giving.yields (idsOf (standingOf members refused)) member) = true
  · rw [if_pos hgives] at hnamed
    obtain ⟨hboth, hyields⟩ := Bool.and_eq_true_iff.mp hgives
    have hwhole : giving.whole = false := by
      unfold groupYields at hgiving
      rw [List.mem_cons, List.mem_cons, List.mem_singleton] at hgiving
      rcases hgiving with rfl | rfl | rfl
      · rfl
      · rfl
      · have hjoins := (Bool.and_eq_true_iff.mp hyields).2
        exact absurd (hone.symm.trans hjoins) Bool.false_ne_true
    unfold groupsOf reachOf at hgroup
    rw [hwhole] at hgroup
    exact ⟨group, hgroup, hin, hboth, (Option.some.inj hnamed).symm⟩
  · rw [if_neg hgives] at hnamed
    cases hnamed

/-! ### The rules on groups -/

/-- **The rules on groups**: the groups are the components of what extends what, in whatever order
the members are listed; the refusals end, and are the same for every order; of what they leave, a
group that holds both kinds of a rule has a plugin that extends nothing and is of both; they name
addons only, and one that joins no two of the plugins then standing only for a star of both
kinds. -/
theorem refusals_hold (members : List (ExtensionGroupRuleMember Route))
    (hids : (idsOf members).Nodup) :
    (∀ ordered, ordered.Perm members → Grouping.Components (Extends members fun _ => true) members
      (extensionGroups ordered fun _ => true)) ∧
    ∃ final, (∀ n, members.length < n → extensionGroupRuleRefusals members n = some final) ∧
      (∀ ordered, ordered.Perm members → ∃ final', Same final final' ∧
        ∀ n, members.length < n → extensionGroupRuleRefusals ordered n = some final') ∧
      (∀ rule ∈ GROUP_RULES, ∀ group ∈ extensionGroups (standingOf members final) fun _ => true,
        ∀ a ∈ group, ∀ b ∈ group, rule.shown a = true → rule.reaches b = true →
          ∃ host ∈ group, host.extensions = [] ∧ rule.shown host = true ∧
            rule.reaches host = true) ∧
      (∀ key ∈ final.map (·.1), ∃ member ∈ members, member.id = key ∧ member.extensions ≠ []) ∧
      ∀ member ∈ members, ∀ refusal, getKey member.id final = some refusal →
        ∃ k earlier now later, turnsOf GROUP_RULES = earlier ++ now :: later ∧
          getKey member.id (refusedBefore members GROUP_RULES k earlier) = none ∧
          getKey member.id (turn members now.1 (refusedBefore members GROUP_RULES k earlier) now.2) =
            some refusal ∧
          (joinsTwo member
              (idsOf (standingOf members (refusedBefore members GROUP_RULES k earlier))) = false →
            ∃ star ∈ starsOf members (refusedBefore members GROUP_RULES k earlier),
              member ∈ star ∧ holdsBoth now.1 star = true ∧ refusal = refusalOf now.1 star) := by
  have hnone : ∀ members : List (ExtensionGroupRuleMember Route), AddonsOnly members [] :=
    fun _ => ⟨List.nodup_nil, nofun⟩
  have hids' : ∀ {ordered}, ordered.Perm members → (idsOf ordered).Nodup :=
    fun hperm => (hperm.map _).nodup_iff.mpr hids
  have hpasses : ∀ k, AddonsOnly members ((pass GROUP_RULES members)^[k] []) := by
    intro k
    induction k with
    | zero => exact hnone members
    | succ k ih =>
      rw [Function.iterate_succ_apply']
      exact addonsOnly_pass GROUP_RULES hids ih
  obtain ⟨final, hfinal, k, rfl, hlast⟩ :=
    passes_ends GROUP_RULES hids (members.length + 1) (hnone members)
      (Nat.lt_succ_self _)
  refine ⟨fun ordered hperm => ?_, _, fun n hn => hfinal n hn, fun ordered hperm => ?_, ?_,
    (hpasses (k + 1)).named, ?_⟩
  · rw [← Extends.perm hperm]
    exact (components_extensionGroups (hids' hperm)).perm hperm
  · obtain ⟨final', hfinal', hsame⟩ := same_passes hids hperm.symm (members.length + 1)
      (hnone members) (hnone ordered) (fun _ => rfl) (hfinal _ (Nat.le_refl _))
    obtain ⟨stopped, hstopped, -⟩ := passes_ends GROUP_RULES (hids' hperm)
      (members.length + 1) (hnone ordered) (hperm.length_eq ▸ Nat.lt_succ_self _)
    obtain rfl := Option.some.inj ((hstopped _ (Nat.le_refl _)).symm.trans hfinal')
    exact ⟨stopped, hsame, fun n hn => hstopped n hn⟩
  · intro rule hrule group hgroup a ha b hb hshown hreaches
    rw [Function.iterate_succ_apply'] at hgroup hlast
    have hquiet : ∀ giving ∈ groupYields rule, Quiet members rule
        (pass GROUP_RULES members ((pass GROUP_RULES members)^[k] [])) giving :=
      fun giving hgiving => quiet_of_pass hids (hpasses k).nodup hlast hrule hgiving
    obtain ⟨hhost, hboth⟩ := host_of_both hids hquiet hgroup ha hb hshown hreaches
    exact ⟨a, ha, hhost, hshown, hboth⟩
  · intro member hmember refusal hnamed
    obtain ⟨j, earlier, now, later, hturns, hstood, hturn⟩ := named_in_passes hids hnamed
    refine ⟨j, earlier, now, later, hturns, hstood, hturn, fun hone => ?_⟩
    have hnow := mem_turnsOf.mp (hturns ▸ List.mem_append_right _ List.mem_cons_self)
    exact star_of_named hids hnow.2 hmember hstood hturn hone

/-- A device's host plugin with an addon that reads the finances. -/
theorem refusals_hold_for_signage :
    (idsOf [(⟨"signage", [], [], none, [()]⟩ : ExtensionGroupRuleMember Unit),
      ⟨"arrears", ["finances:read"], ["signage"], none, []⟩]).Nodup ∧
    ∃ final, ∀ n, 2 < n → extensionGroupRuleRefusals
      [(⟨"signage", [], [], none, [()]⟩ : ExtensionGroupRuleMember Unit),
        ⟨"arrears", ["finances:read"], ["signage"], none, []⟩] n = some final := by
  have hids : (idsOf [(⟨"signage", [], [], none, [()]⟩ : ExtensionGroupRuleMember Unit),
      ⟨"arrears", ["finances:read"], ["signage"], none, []⟩]).Nodup := by decide
  obtain ⟨-, final, hends, -⟩ := refusals_hold _ hids
  exact ⟨hids, final, hends⟩

end OpenBrf.Plugins
