import Mathlib.Data.List.Induction
import QueryCompiler.Proofs.Lists
import QueryCompiler.Proofs.OrderedMap
import QueryCompiler.Proofs.Outcome
import QueryCompiler.SelectionSet.Merge

/-!
# What merging inline fragments gives

Inline fragments that are reached through the same fields can always be merged. The result is
written down without the possibility of failure: one inline fragment for each key, with the
selections of all fragments of that key in order. What is read off the fragments of a key is the
same before and after, as long as it is read off each of them in turn.
-/

namespace QueryCompiler

open Outcome

/-- What stands at one key of a list without repetitions stands there once, if it stands there at
all. -/
theorem flatMap_ite_of_nodup {κ α : Type} [DecidableEq κ] {keys : List κ} {key : κ}
    {members : List α} (h : keys.Nodup) (hmembers : key ∉ keys → members = []) :
    (keys.flatMap fun k => if k = key then members else []) = members := by
  induction keys with
  | nil => exact (hmembers List.not_mem_nil).symm
  | cons first rest ih =>
      obtain ⟨hfirst, hrest⟩ := List.nodup_cons.mp h
      rw [List.flatMap_cons]
      by_cases hk : first = key
      · subst hk
        have hothers : (rest.flatMap fun k => if k = first then members else []) = [] := by
          rw [List.flatMap_eq_nil_iff]
          intro k hmem
          have hne : k ≠ first := by
            rintro rfl
            exact hfirst hmem
          rw [if_neg hne]
        rw [if_pos rfl, hothers, List.append_nil]
      · rw [if_neg hk, List.nil_append]
        refine ih hrest fun hnot => hmembers ?_
        rw [List.mem_cons, not_or]
        exact ⟨fun he => hk he.symm, hnot⟩

/-- Reading something off some members only is reading it off those. -/
theorem flatMap_ite_eq_flatMap_filter {α β : Type} (p : α → Prop) [DecidablePred p]
    (f : α → List β) (members : List α) :
    (members.flatMap fun a => if p a then f a else []) =
      (members.filter fun a => p a).flatMap f := by
  induction members with
  | nil => rfl
  | cons first rest ih =>
      rw [List.flatMap_cons, ih, List.filter_cons]
      by_cases h : p first
      · simp [h]
      · simp [h]

/-- What holds of the members of a list and of everything that others bring holds of all of it. -/
theorem forall_mem_append_flatMap {α β : Type} {p : β → Prop} {own : List β} {others : List α}
    {f : α → List β} (hown : ∀ b ∈ own, p b) (hothers : ∀ a ∈ others, ∀ b ∈ f a, p b) :
    ∀ b ∈ own ++ others.flatMap f, p b := by
  intro b hb
  rcases List.mem_append.mp hb with hmem | hmem
  · exact hown b hmem
  · obtain ⟨a, ha, hba⟩ := List.mem_flatMap.mp hmem
    exact hothers a ha b hba

/-- The members of a list by key, in the order in which the keys appear first. -/
def groupBy {α κ : Type} [DecidableEq κ] (key : α → κ) (members : List α) : List (List α) :=
  (members.map key).eraseDups.map fun k => members.filter fun a => key a = k

section Grouping

variable {α β κ : Type} [DecidableEq κ]

/-- The groups: for each member those with its key, in their order. -/
theorem mem_groupBy_iff {key : α → κ} {members group : List α} :
    group ∈ groupBy key members ↔
      ∃ a ∈ members, group = members.filter fun b => key b = key a := by
  simp only [groupBy, List.mem_map, List.mem_eraseDups]
  constructor
  · rintro ⟨_, ⟨a, ha, rfl⟩, rfl⟩
    exact ⟨a, ha, rfl⟩
  · rintro ⟨a, ha, rfl⟩
    exact ⟨_, ⟨a, ha, rfl⟩, rfl⟩

/-- Two members stand in one group exactly if they have the same key. -/
theorem exists_mem_groupBy_iff {key : α → κ} {members : List α} {a b : α} :
    (∃ group ∈ groupBy key members, a ∈ group ∧ b ∈ group) ↔
      a ∈ members ∧ b ∈ members ∧ key a = key b := by
  constructor
  · rintro ⟨group, hgroup, hmema, hmemb⟩
    obtain ⟨first, _, rfl⟩ := mem_groupBy_iff.mp hgroup
    obtain ⟨ha, hkeya⟩ := List.mem_filter.mp hmema
    obtain ⟨hb, hkeyb⟩ := List.mem_filter.mp hmemb
    exact ⟨ha, hb, (of_decide_eq_true hkeya).trans (of_decide_eq_true hkeyb).symm⟩
  · rintro ⟨ha, hb, hkey⟩
    refine ⟨_, mem_groupBy_iff.mpr ⟨a, ha, rfl⟩, ?_, ?_⟩
    · simp [ha]
    · simp [hb, hkey]

/-- No group is empty. -/
theorem ne_nil_of_mem_groupBy {key : α → κ} {members group : List α}
    (h : group ∈ groupBy key members) : group ≠ [] := by
  obtain ⟨a, ha, rfl⟩ := mem_groupBy_iff.mp h
  exact List.ne_nil_of_mem (a := a) (by simp [ha])

/-- Lists whose members correspond and have the same keys fall into corresponding groups. -/
theorem forall₂_groupBy {R : α → β → Prop} {f : α → κ} {g : β → κ} {as : List α} {bs : List β}
    (h : List.Forall₂ R as bs) (hkey : ∀ a b, R a b → f a = g b) :
    List.Forall₂ (List.Forall₂ R) (groupBy f as) (groupBy g bs) := by
  have hkeys : as.map f = bs.map g := by
    rw [← List.forall₂_eq_eq_eq, List.forall₂_map_left_iff, List.forall₂_map_right_iff]
    exact h.imp hkey
  rw [groupBy, groupBy, hkeys, List.forall₂_map_left_iff, List.forall₂_map_right_iff,
    List.forall₂_same]
  intro k _
  refine List.rel_filter ?_ h
  intro a b hab
  simp [hkey a b hab]

/-! Members that are put one after the other under their keys of an ordered map. -/

private theorem keys_foldl_push (key : α → κ) (members : List α) :
    (members.foldl (fun gathered a => gathered.push (key a) a) OrderedMap.empty).keys =
      (members.map key).eraseDups := by
  -- The induction follows the loop: one more member comes at the end.
  induction members using List.reverseRecOn with
  | nil => rfl
  | append_singleton members a ih =>
      rw [List.foldl_append, List.foldl_cons, List.foldl_nil, OrderedMap.keys_push, ih,
        List.map_append, List.map_cons, List.map_nil, eraseDups_append_one]
      by_cases ha : key a ∈ members.map key
      · rw [if_pos (List.mem_eraseDups.mpr ha), if_pos ha, List.append_nil]
      · rw [if_neg fun h => ha (List.mem_eraseDups.mp h), if_neg ha]

private theorem get?_foldl_push (key : α → κ) (members : List α) (k : κ) :
    (members.foldl (fun gathered a => gathered.push (key a) a) OrderedMap.empty).get? k =
      if k ∈ members.map key then some (members.filter fun a => key a = k) else none := by
  induction members using List.reverseRecOn generalizing k with
  | nil => rfl
  | append_singleton members a ih =>
      -- A key that has not appeared yet leads to no members.
      have hbefore : ((members.foldl (fun gathered a => gathered.push (key a) a)
          OrderedMap.empty).get? (key a)).getD [] = members.filter fun b => key b = key a := by
        rw [ih]
        split
        · rfl
        next hnot =>
          symm
          rw [Option.getD_none, List.filter_eq_nil_iff]
          intro b hb he
          exact hnot (List.mem_map.mpr ⟨b, hb, of_decide_eq_true he⟩)
      rw [List.foldl_append, List.foldl_cons, List.foldl_nil, OrderedMap.get?_push, hbefore, ih]
      by_cases hk : k = key a
      · subst hk
        simp
      · have hne : ¬ key a = k := fun he => hk he.symm
        simp [hk, hne]

/-- Putting members one after the other under their keys groups them. -/
theorem values_foldl_push (key : α → κ) (members : List α) :
    (members.foldl (fun gathered a => gathered.push (key a) a) OrderedMap.empty).values =
      groupBy key members := by
  rw [OrderedMap.values_eq_map_keys, keys_foldl_push, groupBy, List.map_inj_left]
  intro k hk
  rw [get?_foldl_push, if_pos (List.mem_eraseDups.mp hk), Option.getD_some]

end Grouping

namespace SelectionSet

/-- The selections of others behind those of a first, in order. The `__typename` fields of the
others are left out. -/
def followedBy (a : SelectionSet) (others : List SelectionSet) : SelectionSet :=
  { a with
    scalars := a.scalars ++ others.flatMap fun b => b.scalars.filter fun field => !field.isTypename
    spreads := a.spreads ++ others.flatMap spreads
    objects := a.objects ++ others.flatMap objects
    inlines := a.inlines ++ others.flatMap inlines }

@[simp] theorem followedBy_nil (a : SelectionSet) : a.followedBy [] = a := by
  cases a
  simp [followedBy]

/-- Selection sets follow one after the other. -/
theorem followedBy_cons (a b : SelectionSet) (others : List SelectionSet) :
    a.followedBy (b :: others) = (a.followedBy [b]).followedBy others := by
  simp [followedBy]

/-- Two selection sets can be merged if they are on the same type and reached through the same
fields. -/
theorem merged_eq_ok_iff {a b m : SelectionSet} :
    a.merged b = .ok m ↔ a.typeName = b.typeName ∧
      a.traversed.map SelectedField.strip = b.traversed.map SelectedField.strip ∧
      a.followedBy [b] = m := by
  unfold merged
  by_cases htype : a.typeName = b.typeName
  · by_cases hpath : a.traversed.map SelectedField.strip = b.traversed.map SelectedField.strip
    · simp [htype, hpath, followedBy]
    · simp [htype, hpath]
  · simp [htype]

end SelectionSet

namespace InlineFragment

variable {inlines : List InlineFragment} {path : List SelectedField}

/-- An inline fragment with the selections of others behind its own. -/
def followedBy (first : InlineFragment) (others : List InlineFragment) : InlineFragment :=
  { first with selectionSet := first.selectionSet.followedBy (others.map selectionSet) }

@[simp] theorem followedBy_nil (first : InlineFragment) : first.followedBy [] = first := by
  cases first
  simp [followedBy]

/-- Inline fragments follow one after the other. -/
theorem followedBy_cons (first other : InlineFragment) (others : List InlineFragment) :
    first.followedBy (other :: others) = (first.followedBy [other]).followedBy others := by
  rw [followedBy, List.map_cons, SelectionSet.followedBy_cons]
  rfl

/-- The inline fragment that a group becomes, if there is anything in it. -/
def united : List InlineFragment → List InlineFragment
  | [] => []
  | first :: others => [first.followedBy others]

/-- One inline fragment for each key, in the order in which the keys appear first. -/
def unitedAll (inlines : List InlineFragment) : List InlineFragment :=
  (groups inlines).flatMap united

/-- Fragments on one type that are reached through the same fields are absorbed one by one. -/
theorem foldlM_absorb_eq_ok {first : InlineFragment} {others : List InlineFragment}
    (h : ∀ other ∈ others, first.selectionSet.typeName = other.selectionSet.typeName ∧
      first.selectionSet.traversed.map SelectedField.strip =
        other.selectionSet.traversed.map SelectedField.strip) :
    others.foldlM absorb first = .ok (first.followedBy others) := by
  induction others generalizing first with
  | nil => rw [List.foldlM_nil, followedBy_nil, pure_eq_ok_iff]
  | cons other rest ih =>
      obtain ⟨⟨htype, hpath⟩, hrest⟩ := List.forall_mem_cons.mp h
      have habsorb : first.absorb other = .ok (first.followedBy [other]) := by
        rw [absorb, bind_eq_ok_iff]
        exact ⟨_, SelectionSet.merged_eq_ok_iff.mpr ⟨htype, hpath, rfl⟩, rfl⟩
      -- The type and the path of the first fragment are those of what it has absorbed.
      have htail := @ih (first.followedBy [other]) hrest
      rw [List.foldlM_cons, bind_eq_ok_iff]
      refine ⟨_, habsorb, htail.trans ?_⟩
      rw [followedBy_cons first other rest]

/-- What follows does not change the key. -/
theorem mergeKey_followedBy (first : InlineFragment) (others : List InlineFragment) :
    (first.followedBy others).mergeKey = first.mergeKey := rfl

/-- The groups that the program gathers in a map are those of `groupBy`. -/
theorem groups_eq_groupBy (inlines : List InlineFragment) :
    groups inlines = groupBy mergeKey inlines :=
  values_foldl_push mergeKey inlines

/-- The groups, one for each key in the order of first use. -/
theorem groups_eq (inlines : List InlineFragment) :
    groups inlines = (inlines.map mergeKey).eraseDups.map fun key =>
      inlines.filter fun i => i.mergeKey = key := by
  -- The two sides compare keys through different instances.
  rw [groups_eq_groupBy, groupBy, lawful_beq_subsingleton instBEqOfDecidableEq instBEqProd]

/-- A group consists of the fragments of one key, which some fragment has. -/
theorem mem_groups_iff {group : List InlineFragment} :
    group ∈ groups inlines ↔
      ∃ i ∈ inlines, group = inlines.filter fun other => other.mergeKey = i.mergeKey := by
  rw [groups_eq_groupBy, mem_groupBy_iff]

/-- All fragments of a group have the key of the first. -/
theorem mergeKey_eq_of_group {first other : InlineFragment} {others : List InlineFragment}
    (h : first :: others ∈ groups inlines) (hother : other ∈ first :: others) :
    other ∈ inlines ∧ other.mergeKey = first.mergeKey := by
  obtain ⟨i, _, hgroup⟩ := mem_groups_iff.mp h
  have hall : ∀ member ∈ first :: others, member ∈ inlines ∧ member.mergeKey = i.mergeKey := by
    rw [hgroup]
    intro member hmember
    simpa using List.mem_filter.mp hmember
  obtain ⟨hmem, hkey⟩ := hall other hother
  exact ⟨hmem, hkey.trans (hall first List.mem_cons_self).2.symm⟩

/-- The first of the fragments of a key has that key. -/
theorem mergeKey_of_filter_eq_cons {first : InlineFragment} {others : List InlineFragment}
    {key : Name × String} (h : (inlines.filter fun i => i.mergeKey = key) = first :: others) :
    first.mergeKey = key := by
  have hmem : first ∈ inlines.filter fun i => i.mergeKey = key := h ▸ List.mem_cons_self
  exact of_decide_eq_true (List.mem_filter.mp hmem).2

/-- Inline fragments that are reached through the same fields can be merged. -/
theorem mergeAll_eq_ok
    (h : ∀ i ∈ inlines, i.selectionSet.traversed.map SelectedField.strip = path) :
    mergeAll inlines = .ok (unitedAll inlines) := by
  have hgroups : (groups inlines).mapM mergeGroup = .ok ((groups inlines).map united) := by
    rw [mapM_eq_ok_iff, List.forall₂_map_right_iff, List.forall₂_same]
    intro group hgroup
    cases group with
    | nil => rfl
    | cons first others =>
        rw [mergeGroup, bind_eq_ok_iff]
        refine ⟨_, foldlM_absorb_eq_ok ?_, rfl⟩
        intro other hother
        obtain ⟨hmem, hkey⟩ := mergeKey_eq_of_group hgroup (List.mem_cons_of_mem _ hother)
        obtain ⟨hfirst, _⟩ := mergeKey_eq_of_group hgroup List.mem_cons_self
        exact ⟨(congrArg Prod.fst hkey).symm, (h first hfirst).trans (h other hmem).symm⟩
  rw [mergeAll, bind_eq_ok_iff]
  exact ⟨_, hgroups, rfl⟩

/-- What a merged inline fragment is made of. -/
theorem exists_group_of_mem_unitedAll {i : InlineFragment} (h : i ∈ unitedAll inlines) :
    ∃ first others, first ∈ inlines ∧ i = first.followedBy others ∧
      ∀ other ∈ others, other ∈ inlines ∧ other.mergeKey = first.mergeKey := by
  obtain ⟨group, hgroup, hi⟩ := List.mem_flatMap.mp h
  cases group with
  | nil => cases hi
  | cons first others =>
      refine ⟨first, others, (mergeKey_eq_of_group hgroup List.mem_cons_self).1,
        List.mem_singleton.mp hi, ?_⟩
      intro other hother
      exact mergeKey_eq_of_group hgroup (List.mem_cons_of_mem _ hother)

/-- Reading a list off all fragments of a key gives the same before and after merging, if it gives
the same for one group. -/
theorem flatMap_filter_unitedAll {α : Type} {f : InlineFragment → List α}
    (hf : ∀ first others, f (first.followedBy others) = (first :: others).flatMap f)
    (inlines : List InlineFragment) (key : Name × String) :
    ((unitedAll inlines).filter fun i => i.mergeKey = key).flatMap f =
      (inlines.filter fun i => i.mergeKey = key).flatMap f := by
  -- Each group is united into one fragment, which has the key of the group.
  have hgroup : ∀ k ∈ (inlines.map mergeKey).eraseDups,
      ((united (inlines.filter fun i => i.mergeKey = k)).filter
          fun i => i.mergeKey = key).flatMap f =
        if k = key then (inlines.filter fun i => i.mergeKey = key).flatMap f else [] := by
    intro k _
    cases hmembers : inlines.filter fun i => i.mergeKey = k with
    | nil =>
        by_cases hk : k = key
        · subst hk
          simp [united, hmembers]
        · simp [united, hk]
    | cons first others =>
        have hfirst := mergeKey_of_filter_eq_cons hmembers
        by_cases hk : k = key
        · subst hk
          simp [united, mergeKey_followedBy, hfirst, hmembers, hf]
        · simp [united, mergeKey_followedBy, hfirst, hk]
  calc
    _ = (inlines.map mergeKey).eraseDups.flatMap fun k =>
          ((united (inlines.filter fun i => i.mergeKey = k)).filter
            fun i => i.mergeKey = key).flatMap f := by
      rw [unitedAll, groups_eq, List.flatMap_map, List.filter_flatMap, List.flatMap_assoc]
    _ = (inlines.map mergeKey).eraseDups.flatMap fun k =>
          if k = key then (inlines.filter fun i => i.mergeKey = key).flatMap f else [] :=
      List.flatMap_congr hgroup
    _ = (inlines.filter fun i => i.mergeKey = key).flatMap f := by
      refine flatMap_ite_of_nodup (nodup_eraseDups _) fun hkey => ?_
      have hnone : (inlines.filter fun i => i.mergeKey = key) = [] := by
        rw [List.filter_eq_nil_iff]
        intro i hi he
        apply hkey
        rw [List.mem_eraseDups, List.mem_map]
        exact ⟨i, hi, by simpa using he⟩
      rw [hnone, List.flatMap_nil]

end InlineFragment

end QueryCompiler
