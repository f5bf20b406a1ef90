import Mathlib.Data.List.Induction
import QueryCompiler.Proofs.SelectionSet.Merge

/-!
# Merging inline fragments groups them stably

A selection set whose inline fragments are all reached through the same fields can be merged. The
merged fragments stand for the keys of the fragments, each key once and in the order in which the
keys appear first, and each of them has the selections of all fragments of its key in order. A
second merge has nothing left to do. Merging two selection sets is associative where it succeeds.
-/

namespace QueryCompiler

open Outcome

section FirstAppearance

variable {α β κ : Type} [DecidableEq κ]

/-- Dropping repetitions keeps the members in the order of their first appearance. -/
theorem pairwise_idxOf_eraseDups (keys : List κ) :
    keys.eraseDups.Pairwise fun k l => keys.idxOf k < keys.idxOf l := by
  induction keys using List.reverseRecOn with
  | nil => exact .nil
  | append_singleton keys key ih =>
      -- What has appeared before is found where it was found before.
      have hbefore : keys.eraseDups.Pairwise fun k l =>
          (keys ++ [key]).idxOf k < (keys ++ [key]).idxOf l := by
        refine ih.imp_of_mem ?_
        intro k l hk hl hkl
        rw [List.idxOf_append_of_mem (List.mem_eraseDups.mp hk),
          List.idxOf_append_of_mem (List.mem_eraseDups.mp hl)]
        exact hkl
      rw [eraseDups_append_one]
      by_cases hmem : key ∈ keys
      · rw [if_pos hmem, List.append_nil]
        exact hbefore
      · rw [if_neg hmem, List.pairwise_append]
        refine ⟨hbefore, List.pairwise_singleton _ _, ?_⟩
        intro k hk l hl
        have hk := List.mem_eraseDups.mp hk
        rw [List.mem_singleton.mp hl, List.idxOf_append_of_mem hk,
          List.idxOf_append_of_notMem hmem]
        exact Nat.lt_add_right _ (List.idxOf_lt_length_of_mem hk)

/-- A member whose key no other member has is the only one of its key. -/
theorem filter_key_of_nodup {key : α → κ} {members : List α} (h : (members.map key).Nodup) {a : α}
    (ha : a ∈ members) : (members.filter fun b => key b = key a) = [a] := by
  induction members with
  | nil => cases ha
  | cons first rest ih =>
      obtain ⟨hfirst, hrest⟩ := List.nodup_cons.mp h
      rcases List.mem_cons.mp ha with rfl | hmem
      · have hnone : (rest.filter fun b => key b = key a) = [] := by
          rw [List.filter_eq_nil_iff]
          intro b hb he
          exact hfirst (List.mem_map.mpr ⟨b, hb, of_decide_eq_true he⟩)
        rw [List.filter_cons_of_pos (by simp), hnone]
      · have hne : ¬ key first = key a := by
          intro he
          exact hfirst (he ▸ List.mem_map_of_mem hmem)
        rw [List.filter_cons_of_neg (by simpa using hne), ih hrest hmem]

/-- Members that each become one correspond to what they become. -/
theorem forall₂_flatMap {R : α → β → Prop} {f : α → List β} {members : List α}
    (h : ∀ a ∈ members, ∃ b, f a = [b] ∧ R a b) : List.Forall₂ R members (members.flatMap f) := by
  induction members with
  | nil => exact .nil
  | cons first rest ih =>
      obtain ⟨⟨b, hb, hR⟩, hrest⟩ := List.forall_mem_cons.mp h
      rw [List.flatMap_cons, hb]
      exact .cons hR (ih hrest)

end FirstAppearance

namespace SelectionSet

/-- Two selection sets are reached through the same fields, wherever those are written. -/
def SamePath (a b : SelectionSet) : Prop :=
  a.traversed.map SelectedField.strip = b.traversed.map SelectedField.strip

instance (a b : SelectionSet) : Decidable (a.SamePath b) := inferInstanceAs (Decidable (_ = _))

/-- Two selection sets are not merged if they are on two types or at two places. -/
theorem merged_eq_error_iff {a b : SelectionSet} :
    (∃ error, a.merged b = .error error) ↔ a.typeName ≠ b.typeName ∨ ¬ a.SamePath b := by
  unfold merged SamePath
  by_cases htype : a.typeName = b.typeName
  · by_cases hpath : a.traversed.map SelectedField.strip = b.traversed.map SelectedField.strip
    · simp [htype, hpath]
    · simp [htype, hpath]
  · simp [htype]

/-- Putting selection sets together is associative. -/
theorem followedBy_followedBy (a b c : SelectionSet) :
    a.followedBy [b.followedBy [c]] = (a.followedBy [b]).followedBy [c] := by
  simp [followedBy]

/-- It does not matter which two of three selection sets are merged first. -/
theorem merged_assoc {a b c m : SelectionSet} :
    (a.merged b >>= fun ab => ab.merged c) = .ok m ↔
      (b.merged c >>= fun bc => a.merged bc) = .ok m := by
  simp only [bind_eq_ok_iff, merged_eq_ok_iff]
  constructor
  · rintro ⟨_, ⟨htype, hpath, rfl⟩, htype', hpath', rfl⟩
    exact ⟨_, ⟨htype.symm.trans htype', hpath.symm.trans hpath', rfl⟩, htype, hpath,
      followedBy_followedBy a b c⟩
  · rintro ⟨_, ⟨htype, hpath, rfl⟩, htype', hpath', rfl⟩
    exact ⟨_, ⟨htype', hpath', rfl⟩, htype'.trans htype, hpath'.trans hpath,
      (followedBy_followedBy a b c).symm⟩

end SelectionSet

namespace InlineFragment

/-- An inline fragment has taken up the selections of others behind those of a first, and is the
first in all else. -/
structure Unites (first : InlineFragment) (others : List InlineFragment) (i : InlineFragment) :
    Prop where
  condition : i.condition = first.condition
  directives : i.directives = first.directives
  typeName : i.selectionSet.typeName = first.selectionSet.typeName
  kind : i.selectionSet.kind = first.selectionSet.kind
  traversed : i.selectionSet.traversed = first.selectionSet.traversed
  scalars : i.selectionSet.scalars = first.selectionSet.scalars ++
    others.flatMap fun other => other.selectionSet.scalars.filter fun field => !field.isTypename
  spreads : i.selectionSet.spreads =
    (first :: others).flatMap fun member => member.selectionSet.spreads
  objects : i.selectionSet.objects =
    (first :: others).flatMap fun member => member.selectionSet.objects
  inlines : i.selectionSet.inlines =
    (first :: others).flatMap fun member => member.selectionSet.inlines

/-- Inline fragments put together are united. -/
theorem unites_followedBy (first : InlineFragment) (others : List InlineFragment) :
    first.Unites others (first.followedBy others) where
  condition := rfl
  directives := rfl
  typeName := rfl
  kind := rfl
  traversed := rfl
  scalars := by simp only [followedBy, SelectionSet.followedBy, List.flatMap_map]
  spreads := by
    simp only [followedBy, SelectionSet.followedBy, List.flatMap_map, List.flatMap_cons]
  objects := by
    simp only [followedBy, SelectionSet.followedBy, List.flatMap_map, List.flatMap_cons]
  inlines := by
    simp only [followedBy, SelectionSet.followedBy, List.flatMap_map, List.flatMap_cons]

/-- The united fragments stand for the keys, each for the fragments of its own. -/
theorem forall₂_unitedAll (inlines : List InlineFragment) :
    List.Forall₂ (fun key i => ∃ first others,
        (inlines.filter fun member => member.mergeKey = key) = first :: others ∧
          i = first.followedBy others)
      (inlines.map mergeKey).eraseDups (unitedAll inlines) := by
  rw [unitedAll, groups_eq, List.flatMap_map]
  refine forall₂_flatMap ?_
  intro key hkey
  obtain ⟨i, hi, rfl⟩ := List.mem_map.mp (List.mem_eraseDups.mp hkey)
  have hmem : i ∈ inlines.filter fun member => member.mergeKey = i.mergeKey := by
    simpa using hi
  cases hgroup : inlines.filter fun member => member.mergeKey = i.mergeKey with
  | nil =>
      rw [hgroup] at hmem
      cases hmem
  | cons first others => exact ⟨_, rfl, first, others, rfl, rfl⟩

/-- The keys of the united inline fragments are those of the given ones, each once. -/
theorem map_mergeKey_unitedAll (inlines : List InlineFragment) :
    (unitedAll inlines).map mergeKey = (inlines.map mergeKey).eraseDups := by
  have hkeys := map_eq_map_of_forall₂ (f := id) (g := mergeKey) (forall₂_unitedAll inlines) ?_
  · rw [← hkeys, List.map_id]
  · rintro key _ ⟨first, others, hgroup, rfl⟩
    exact (mergeKey_of_filter_eq_cons hgroup).symm

/-- A united inline fragment unites all those of its key. -/
theorem exists_unites_of_mem_unitedAll {inlines : List InlineFragment} {i : InlineFragment}
    (h : i ∈ unitedAll inlines) : ∃ first others,
      (inlines.filter fun member => member.mergeKey = i.mergeKey) = first :: others ∧
        first.Unites others i := by
  obtain ⟨key, _, first, others, hgroup, rfl⟩ :=
    exists_of_forall₂_of_mem_right (forall₂_unitedAll inlines) h
  refine ⟨first, others, ?_, unites_followedBy first others⟩
  rw [mergeKey_followedBy, mergeKey_of_filter_eq_cons hgroup, hgroup]

/-- Fragments that all have keys of their own are left as they are. -/
theorem mergeAll_of_nodup {inlines : List InlineFragment} (h : (inlines.map mergeKey).Nodup) :
    mergeAll inlines = .ok inlines := by
  have hgroups : groups inlines = inlines.map fun i => [i] := by
    rw [groups_eq, eraseDups_of_nodup h, List.map_map, List.map_inj_left]
    intro i hi
    exact filter_key_of_nodup h hi
  have hmerged : (groups inlines).mapM mergeGroup = .ok (inlines.map fun i => [i]) := by
    rw [mapM_eq_ok_iff, hgroups, List.forall₂_map_left_iff, List.forall₂_map_right_iff,
      List.forall₂_same]
    intro i _
    rfl
  rw [mergeAll, bind_eq_ok_iff]
  refine ⟨_, hmerged, ?_⟩
  rw [pure_eq_ok_iff, ← List.flatMap_def, List.flatMap_singleton']

end InlineFragment

namespace SelectionSet

/-- A selection set is another one with its inline fragments grouped by key: there is one fragment
for each key, in the order in which the keys appear first, and it unites the fragments of that
key. -/
structure GroupsInto (s m : SelectionSet) : Prop where
  others : m = { s with inlines := m.inlines }
  keys : ∀ key, key ∈ m.inlines.map InlineFragment.mergeKey ↔
    key ∈ s.inlines.map InlineFragment.mergeKey
  distinct : (m.inlines.map InlineFragment.mergeKey).Nodup
  order : (m.inlines.map InlineFragment.mergeKey).Pairwise fun k l =>
    (s.inlines.map InlineFragment.mergeKey).idxOf k <
      (s.inlines.map InlineFragment.mergeKey).idxOf l
  unites : ∀ i ∈ m.inlines, ∃ first others,
    (s.inlines.filter fun member => member.mergeKey = i.mergeKey) = first :: others ∧
      first.Unites others i

/-- Uniting the inline fragments groups them. -/
theorem groupsInto_unitedAll (s : SelectionSet) :
    s.GroupsInto { s with inlines := InlineFragment.unitedAll s.inlines } where
  others := rfl
  keys := by
    intro key
    rw [InlineFragment.map_mergeKey_unitedAll, List.mem_eraseDups]
  distinct := by
    rw [InlineFragment.map_mergeKey_unitedAll]
    exact nodup_eraseDups _
  order := by
    have horder := pairwise_idxOf_eraseDups (s.inlines.map InlineFragment.mergeKey)
    -- The two sides compare keys through different instances.
    rw [lawful_beq_subsingleton instBEqOfDecidableEq instBEqProd] at horder
    rw [InlineFragment.map_mergeKey_unitedAll]
    exact horder
  unites := fun _ hi => InlineFragment.exists_unites_of_mem_unitedAll hi

/-- Merging replaces the inline fragments and nothing else. -/
theorem mergeInlines_eq_ok_iff {s m : SelectionSet} :
    s.mergeInlines = .ok m ↔
      ∃ inlines, InlineFragment.mergeAll s.inlines = .ok inlines ∧ { s with inlines } = m := by
  rw [mergeInlines, bind_eq_ok_iff]
  simp only [pure_eq_ok_iff]

/-- Inline fragments that are reached through the same fields are grouped stably, once and for all.
Merging two selection sets is associative, and fails exactly if they are on different types or
reached through different fields. -/
theorem mergeInlines_stable :
    (∀ s : SelectionSet,
      (∀ i ∈ s.inlines, ∀ j ∈ s.inlines, i.selectionSet.SamePath j.selectionSet) →
        ∃ m, s.mergeInlines = .ok m ∧ s.GroupsInto m ∧ m.mergeInlines = .ok m) ∧
    (∀ a b c m : SelectionSet, (a.merged b >>= fun ab => ab.merged c) = .ok m ↔
      (b.merged c >>= fun bc => a.merged bc) = .ok m) ∧
    ∀ a b : SelectionSet, (∃ error, a.merged b = .error error) ↔
      a.typeName ≠ b.typeName ∨ ¬ a.SamePath b := by
  refine ⟨?_, fun _ _ _ _ => merged_assoc, fun _ _ => merged_eq_error_iff⟩
  intro s hpaths
  have hmerged : InlineFragment.mergeAll s.inlines =
      .ok (InlineFragment.unitedAll s.inlines) := by
    cases hinlines : s.inlines with
    | nil => rfl
    | cons first rest =>
        rw [hinlines] at hpaths
        exact InlineFragment.mergeAll_eq_ok fun i hi => hpaths i hi first List.mem_cons_self
  have hgroups := s.groupsInto_unitedAll
  exact ⟨_, mergeInlines_eq_ok_iff.mpr ⟨_, hmerged, rfl⟩, hgroups,
    mergeInlines_eq_ok_iff.mpr ⟨_, InlineFragment.mergeAll_of_nodup hgroups.distinct, rfl⟩⟩

/-- A selection set with an inline fragment on each of the given types, which spreads the given
fragments. -/
def withInlines (members : List (Name × List Name)) : SelectionSet :=
  ⟨"Node", .interface, [], [.typename], [], [], members.map fun (type, names) =>
    ⟨type, [], ⟨type, .object, [], [.typename], names.map fun name => ⟨none, name, []⟩, [], []⟩⟩⟩

/-- Another type stands between two inline fragments on the same type. The second of them goes to
the first, without its `__typename`. -/
theorem mergeInlines_stable_interleaved :
    let s := withInlines [("Person", ["A"]), ("Robot", ["B"]), ("Person", ["C"])]
    let m := withInlines [("Person", ["A", "C"]), ("Robot", ["B"])]
    (∀ i ∈ s.inlines, ∀ j ∈ s.inlines, i.selectionSet.SamePath j.selectionSet) ∧
      s.mergeInlines = .ok m ∧ s.GroupsInto m ∧ m.mergeInlines = .ok m := by
  intro s m
  have hpaths : ∀ i ∈ s.inlines, ∀ j ∈ s.inlines, i.selectionSet.SamePath j.selectionSet := by
    decide
  have hcomputed : s.mergeInlines = .ok m := by decide +kernel
  obtain ⟨m', hmerged, hgroups, hagain⟩ := mergeInlines_stable.1 s hpaths
  obtain rfl : m = m' := Except.ok.inj (hcomputed.symm.trans hmerged)
  exact ⟨hpaths, hmerged, hgroups, hagain⟩

end SelectionSet

end QueryCompiler
