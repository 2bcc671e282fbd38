import OpenBrf.Grouping.Forest
import OpenBrf.Lang

/-!
# Plugins.ExtensionGroups — plugins joined by extensions (`manifest.ts`)

An extension joins an addon to its host plugin.  A plugin is read as its id, its permissions, what
it extends, the personal data it declares and its device routes; `find` climbs at most as many
parents as there are, which is where its loop ends.
-/

namespace OpenBrf.Plugins

open Lang

/-- A plugin as the rules on groups read it; of a device route they read only that it is there. -/
structure ExtensionGroupRuleMember (Route : Type) where
  id : String
  permissions : List String
  /-- The plugins its `extends` names. -/
  extensions : List String
  personalData : Option (List String)
  deviceRoutes : List Route

variable {Route : Type}

/-! ### The groups -/

/-- The loop of `find`: up to the plugin that is its own parent, or has none. -/
def findFrom (root : List (String × String)) : ℕ → String → String
  | 0, current => current
  | n + 1, current =>
    match getKey current root with
    | some parent => if parent ≠ current then findFrom root n parent else current
    | none => current

def find (root : List (String × String)) (id : String) : String := findFrom root root.length id

/-- One extension: the root of the addon is given that of its host plugin. -/
def joinOne (id : String) (root : List (String × String)) (plugin : String) :
    List (String × String) :=
  if (getKey plugin root).isSome then setKey (find root id) (find root plugin) root else root

/-- Every member its own root, and the extensions of the members `joins` keeps. -/
def rootsOf (members : List (ExtensionGroupRuleMember Route))
    (joins : ExtensionGroupRuleMember Route → Bool) : List (String × String) :=
  (members.filter joins).foldl (fun root member => member.extensions.foldl (joinOne member.id) root)
    (members.foldl (fun root member => setKey member.id member.id root) [])

/-- The plugins joined to one another by extensions, each group in the order of `members`. -/
def extensionGroups (members : List (ExtensionGroupRuleMember Route))
    (joins : ExtensionGroupRuleMember Route → Bool) : List (List (ExtensionGroupRuleMember Route)) :=
  let root := rootsOf members joins
  (members.foldl (fun groups member => pushKey (find root member.id) member groups) []).map (·.2)

/-! ### Climbing -/

/-- The parent of a plugin, as `find` reads it. -/
def parentOf (root : List (String × String)) (id : String) : String := (getKey id root).getD id

theorem findFrom_eq (root : List (String × String)) :
    ∀ (n : ℕ) (id : String), findFrom root n id = (parentOf root)^[n] id
  | 0, _ => rfl
  | n + 1, id => by
    rw [Function.iterate_succ_apply, findFrom, parentOf]
    cases h : getKey id root with
    | none =>
      have hself : parentOf root id = id := by
        unfold parentOf
        rw [h]
        rfl
      exact (Grouping.iterate_root hself n).symm
    | some parent =>
      show (if parent ≠ id then findFrom root n parent else id) = (parentOf root)^[n] parent
      by_cases hne : parent = id
      · have hself : parentOf root id = id := by
          unfold parentOf
          rw [h, hne]
          rfl
        rw [if_neg (not_not.mpr hne), hne, Grouping.iterate_root hself n]
      · rw [if_pos hne, findFrom_eq root n parent]

/-- The plugins that have a parent. -/
def keysOf (root : List (String × String)) : List String := root.map (·.1)

/-- **Where `find` ends** is the root its climb would reach with any number of turns. -/
theorem find_eq (root : List (String × String)) (id : String) :
    find root id = (parentOf root)^[(keysOf root).length] id := by
  unfold find keysOf
  rw [findFrom_eq, List.length_map]

theorem keysOf_setKey {root : List (String × String)} {id plugin : String} (h : id ∈ keysOf root) :
    keysOf (setKey id plugin root) = keysOf root := by
  unfold keysOf at h ⊢
  induction root with
  | nil => cases h
  | cons entry root ih =>
    unfold setKey
    by_cases hkey : entry.1 = id
    · rw [if_pos hkey, List.map_cons, List.map_cons, hkey]
    · rw [if_neg hkey, List.map_cons, List.map_cons, ih]
      rw [List.map_cons, List.mem_cons] at h
      exact h.resolve_left (Ne.symm hkey)

theorem parentOf_setKey (root : List (String × String)) (id plugin : String) :
    parentOf (setKey id plugin root) = Function.update (parentOf root) id plugin := by
  ext other
  unfold parentOf
  rw [getKey_setKey]
  by_cases h : other = id
  · rw [if_pos h, h, Function.update_self]
    rfl
  · rw [if_neg h, Function.update_of_ne h]

theorem isSome_getKey {root : List (String × String)} {id : String} :
    (getKey id root).isSome = true ↔ id ∈ keysOf root := by
  unfold getKey keysOf
  rw [Option.isSome_map, List.find?_isSome, List.mem_map]
  simp

/-! ### The roots of the members -/

section Roots

variable {root : List (String × String)} {E : String → String → Prop}

/-- One extension joins the two plugins, where the host plugin is there. -/
theorem forest_joinOne (h : Grouping.Forest (keysOf root) (parentOf root) E) {id : String}
    (hid : id ∈ keysOf root) (plugin : String) :
    keysOf (joinOne id root plugin) = keysOf root ∧
      Grouping.Forest (keysOf root) (parentOf (joinOne id root plugin))
        fun x y => E x y ∨ x = id ∧ y = plugin ∧ plugin ∈ keysOf root := by
  unfold joinOne
  by_cases hplugin : plugin ∈ keysOf root
  · rw [if_pos (isSome_getKey.mpr hplugin)]
    have htop : find root id ∈ keysOf root := find_eq root id ▸ h.top_mem hid _
    refine ⟨keysOf_setKey htop, ?_⟩
    rw [parentOf_setKey, find_eq, find_eq]
    have hjoin := h.join hid hplugin
    simpa only [hplugin, and_true] using hjoin
  · rw [if_neg fun hsome => hplugin (isSome_getKey.mp hsome)]
    refine ⟨rfl, ?_⟩
    simpa only [hplugin, and_false, or_false] using h

theorem forest_extensions {id : String} : ∀ (extensions : List String)
    {root : List (String × String)} {E : String → String → Prop},
    Grouping.Forest (keysOf root) (parentOf root) E → id ∈ keysOf root →
      keysOf (extensions.foldl (joinOne id) root) = keysOf root ∧
        Grouping.Forest (keysOf root) (parentOf (extensions.foldl (joinOne id) root))
          fun x y => E x y ∨ x = id ∧ y ∈ extensions ∧ y ∈ keysOf root
  | [], root, E, h, _ => by
    refine ⟨rfl, ?_⟩
    simpa using h
  | plugin :: extensions, root, E, h, hid => by
    obtain ⟨hkeys, hone⟩ := forest_joinOne h hid plugin
    rw [← hkeys] at hone hid
    obtain ⟨hkeys', hall⟩ := forest_extensions extensions hone hid
    refine ⟨hkeys'.trans hkeys, ?_⟩
    rw [hkeys] at hall
    refine hall.congr fun x y => ?_
    rw [List.mem_cons, or_assoc]
    refine or_congr_right ?_
    constructor
    · rintro (⟨rfl, rfl, hy⟩ | ⟨rfl, hy, hkey⟩)
      · exact ⟨rfl, .inl rfl, hy⟩
      · exact ⟨rfl, .inr hy, hkey⟩
    · rintro ⟨rfl, rfl | hy, hkey⟩
      · exact .inl ⟨rfl, rfl, hkey⟩
      · exact .inr ⟨rfl, hy, hkey⟩

theorem forest_members : ∀ (members : List (ExtensionGroupRuleMember Route))
    {root : List (String × String)} {E : String → String → Prop},
    Grouping.Forest (keysOf root) (parentOf root) E →
      (∀ member ∈ members, member.id ∈ keysOf root) →
      keysOf (members.foldl (fun root member =>
          member.extensions.foldl (joinOne member.id) root) root) = keysOf root ∧
        Grouping.Forest (keysOf root) (parentOf (members.foldl (fun root member =>
          member.extensions.foldl (joinOne member.id) root) root))
          fun x y => E x y ∨ ∃ member ∈ members, x = member.id ∧ y ∈ member.extensions ∧
            y ∈ keysOf root
  | [], root, E, h, _ => by
    refine ⟨rfl, ?_⟩
    simpa using h
  | member :: members, root, E, h, hmembers => by
    obtain ⟨hid, hmembers⟩ := List.forall_mem_cons.mp hmembers
    obtain ⟨hkeys, hone⟩ := forest_extensions member.extensions h hid
    rw [← hkeys] at hone hmembers
    obtain ⟨hkeys', hall⟩ := forest_members members hone hmembers
    refine ⟨hkeys'.trans hkeys, ?_⟩
    rw [hkeys] at hall
    refine hall.congr fun x y => ?_
    rw [or_assoc, List.exists_mem_cons_iff]

end Roots

section Groups

variable {members members' : List (ExtensionGroupRuleMember Route)}
  {joins : ExtensionGroupRuleMember Route → Bool}

def idsOf (members : List (ExtensionGroupRuleMember Route)) : List String := members.map (·.id)

theorem mem_idsOf {id : String} : id ∈ idsOf members ↔ ∃ member ∈ members, member.id = id :=
  List.mem_map

/-- Before any extension is read, every member is its own root. -/
theorem start_roots : ∀ (members : List (ExtensionGroupRuleMember Route))
    (root : List (String × String)), (∀ id, parentOf root id = id) →
      (∀ id, parentOf (members.foldl (fun root member => setKey member.id member.id root) root) id =
        id) ∧
      ∀ id, id ∈ keysOf (members.foldl (fun root member => setKey member.id member.id root) root) ↔
        id ∈ idsOf members ∨ id ∈ keysOf root
  | [], root, h => by
    refine ⟨h, fun id => ?_⟩
    simp [idsOf]
  | member :: members, root, h => by
    have hone : ∀ id, parentOf (setKey member.id member.id root) id = id := by
      intro id
      rw [parentOf_setKey]
      by_cases hid : id = member.id
      · rw [hid, Function.update_self]
      · rw [Function.update_of_ne hid, h]
    obtain ⟨hparents, hkeys⟩ := start_roots members _ hone
    refine ⟨hparents, fun id => ?_⟩
    rw [List.foldl_cons, hkeys]
    unfold keysOf idsOf
    rw [mem_keys_setKey, List.map_cons, List.mem_cons, or_left_comm, or_assoc]

/-- A member that is joined names the other among the plugins it extends. -/
def Extends (members : List (ExtensionGroupRuleMember Route))
    (joins : ExtensionGroupRuleMember Route → Bool) (a b : ExtensionGroupRuleMember Route) : Prop :=
  a ∈ members ∧ joins a = true ∧ b ∈ members ∧ b.id ∈ a.extensions

theorem Extends.perm (h : members.Perm members') :
    Extends members joins = Extends members' joins := by
  ext a b
  unfold Extends
  rw [h.mem_iff, h.mem_iff]

theorem member_inj (hids : (idsOf members).Nodup) {a b : ExtensionGroupRuleMember Route}
    (ha : a ∈ members) (hb : b ∈ members) (h : a.id = b.id) : a = b :=
  List.inj_on_of_nodup_map hids ha hb h

/-- The same of their ids. -/
def Names (members : List (ExtensionGroupRuleMember Route))
    (joins : ExtensionGroupRuleMember Route → Bool) (x y : String) : Prop :=
  ∃ member ∈ members.filter joins, x = member.id ∧ y ∈ member.extensions ∧ y ∈ idsOf members

/-- Ids are linked where their members are. -/
theorem linked_ids (hids : (idsOf members).Nodup) {a b : ExtensionGroupRuleMember Route}
    (ha : a ∈ members) (hb : b ∈ members) :
    Relation.EqvGen (Names members joins) a.id b.id ↔
      Relation.EqvGen (Extends members joins) a b := by
  constructor
  · intro hlinked
    -- what is linked to another id is a member's
    have hboth : ∀ x y, Relation.EqvGen (Names members joins) x y → x = y ∨
        ∃ a ∈ members, ∃ b ∈ members, a.id = x ∧ b.id = y ∧
          Relation.EqvGen (Extends members joins) a b := by
      intro x y hxy
      induction hxy with
      | rel x y hname =>
        obtain ⟨member, hmember, rfl, hy, hid⟩ := hname
        obtain ⟨host, hhost, rfl⟩ := mem_idsOf.mp hid
        obtain ⟨hmember, hjoins⟩ := List.mem_filter.mp hmember
        exact .inr ⟨member, hmember, host, hhost, rfl, rfl, .rel _ _ ⟨hmember, hjoins, hhost, hy⟩⟩
      | refl x => exact .inl rfl
      | symm x y _ ih =>
        rcases ih with heq | ⟨a, ha, b, hb, hax, hby, hab⟩
        · exact .inl heq.symm
        · exact .inr ⟨b, hb, a, ha, hby, hax, hab.symm⟩
      | trans x y z _ _ ih ih' =>
        rcases ih with rfl | ⟨a, ha, b, hb, hax, hby, hab⟩
        · exact ih'
        · rcases ih' with rfl | ⟨b', hb', c, hc, hby', hcz, hbc⟩
          · exact .inr ⟨a, ha, b, hb, hax, hby, hab⟩
          · obtain rfl := member_inj hids hb hb' (hby.trans hby'.symm)
            exact .inr ⟨a, ha, c, hc, hax, hcz, hab.trans _ _ _ hbc⟩
    rcases hboth _ _ hlinked with heq | ⟨a', ha', b', hb', haa, hbb, hlinked'⟩
    · obtain rfl := member_inj hids ha hb heq
      exact .refl a
    · obtain rfl := member_inj hids ha' ha haa
      obtain rfl := member_inj hids hb' hb hbb
      exact hlinked'
  · intro hlinked
    clear ha hb
    induction hlinked with
    | rel a b hextends =>
      obtain ⟨ha, hjoins, hb, hid⟩ := hextends
      exact .rel _ _ ⟨a, List.mem_filter.mpr ⟨ha, hjoins⟩, rfl, hid, List.mem_map_of_mem hb⟩
    | refl a => exact .refl _
    | symm a b _ ih => exact ih.symm
    | trans a b c _ _ ih ih' => exact ih.trans _ _ _ ih'

/-- The roots are a forest over the members. -/
theorem forest_rootsOf (members : List (ExtensionGroupRuleMember Route))
    (joins : ExtensionGroupRuleMember Route → Bool) :
    (∀ id, id ∈ keysOf (rootsOf members joins) ↔ id ∈ idsOf members) ∧
      Grouping.Forest (keysOf (rootsOf members joins)) (parentOf (rootsOf members joins))
        (Names members joins) := by
  obtain ⟨hself, hkeys⟩ := start_roots members [] fun _ => rfl
  have hmem : ∀ id, id ∈ keysOf
      (members.foldl (fun root member => setKey member.id member.id root) []) ↔
        id ∈ idsOf members := by
    intro id
    rw [hkeys id]
    simp [keysOf]
  obtain ⟨hkept, hforest⟩ := forest_members (members.filter joins)
    (Grouping.Forest.start fun k _ => hself k) fun member hmember =>
      (hmem _).mpr (List.mem_map_of_mem (List.mem_filter.mp hmember).1)
  unfold rootsOf
  rw [hkept]
  exact ⟨hmem, hforest.congr fun x y => by simp only [hmem, false_or, Names]⟩

/-- **One root** is found for two members exactly where extensions link them. -/
theorem find_iff (hids : (idsOf members).Nodup) {a b : ExtensionGroupRuleMember Route}
    (ha : a ∈ members) (hb : b ∈ members) :
    find (rootsOf members joins) a.id = find (rootsOf members joins) b.id ↔
      Relation.EqvGen (Extends members joins) a b := by
  obtain ⟨hmem, hforest⟩ := forest_rootsOf members joins
  rw [find_eq, find_eq, ← linked_ids hids ha hb]
  exact hforest.roots a.id ((hmem _).mpr (List.mem_map_of_mem ha)) b.id
    ((hmem _).mpr (List.mem_map_of_mem hb))

/-- What is pushed under keys, read in the order of the keys. -/
theorem values_pushed {κ α : Type} [DecidableEq κ] (key : α → κ) (items : List α) :
    ∃ keys : List κ, keys.Nodup ∧ (∀ k, k ∈ keys ↔ ∃ a ∈ items, key a = k) ∧
      (items.foldl (fun entries a => pushKey (key a) a entries) []).map (·.2) =
        keys.map fun k => items.filter fun a => key a = k := by
  have hkeys : ∀ (items : List α) (entries : List (κ × List α)), (entries.map (·.1)).Nodup →
      ((items.foldl (fun entries a => pushKey (key a) a entries) entries).map (·.1)).Nodup ∧
        ∀ k, k ∈ (items.foldl (fun entries a => pushKey (key a) a entries) entries).map (·.1) ↔
          (∃ a ∈ items, key a = k) ∨ k ∈ entries.map (·.1) := by
    intro items
    induction items with
    | nil => exact fun entries h => ⟨h, fun k => by simp⟩
    | cons a items ih =>
      intro entries h
      obtain ⟨hnodup, hmem⟩ := ih (pushKey (key a) a entries) (nodup_keys_setKey h)
      refine ⟨hnodup, fun k => ?_⟩
      rw [List.foldl_cons, hmem, pushKey, mem_keys_setKey, List.exists_mem_cons_iff, or_left_comm,
        or_assoc, eq_comm]
  obtain ⟨hnodup, hmem⟩ := hkeys items [] List.nodup_nil
  refine ⟨_, hnodup, fun k => (hmem k).trans (by simp), ?_⟩
  rw [List.map_map]
  refine List.map_congr_left fun entry hentry => ?_
  have hget := (mem_iff_getKey hnodup).mp hentry
  have hall := getKey_foldl_pushKey entry.1 (items.map fun a => (key a, a)) []
  rw [List.foldl_map, hget, List.filter_map, List.map_map] at hall
  simpa [getKey, Function.comp_def] using hall

/-- **The groups are the components** of what extensions join. -/
theorem components_extensionGroups (hids : (idsOf members).Nodup) :
    Grouping.Components (Extends members joins) members (extensionGroups members joins) := by
  have hnodup : members.Nodup := hids.of_map _
  obtain ⟨keys, hkeys, hmem, hvalues⟩ :=
    values_pushed (fun member => find (rootsOf members joins) member.id) members
  unfold extensionGroups
  rw [hvalues]
  exact Grouping.components_of_buckets hnodup hkeys hmem fun a ha b hb => find_iff hids ha hb

end Groups

end OpenBrf.Plugins
