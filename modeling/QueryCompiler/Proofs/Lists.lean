import Mathlib.Data.List.Forall2
import Mathlib.Data.List.Nodup

/-!
# Lists

Lists that correspond member by member, lists without repetitions, and searching lists that are
joined from others.
-/

namespace QueryCompiler

variable {α β γ : Type}

/-! ### Member by member -/

/-- If members that a test picks correspond to members that a function keeps, what is picked
corresponds to what is kept. -/
theorem forall₂_filter_filterMap {R : α → β → Prop} {S : α → γ → Prop} {p : α → Bool}
    {f : β → Option γ} {as : List α} {bs : List β} (h : List.Forall₂ R as bs)
    (hstep : ∀ a b, R a b →
      p a = true ∧ (∃ c, f b = some c ∧ S a c) ∨ p a = false ∧ f b = none) :
    List.Forall₂ S (as.filter p) (bs.filterMap f) := by
  induction h with
  | nil => exact .nil
  | cons hfirst _ ih =>
      rcases hstep _ _ hfirst with ⟨hp, c, hf, hS⟩ | ⟨hp, hf⟩
      · rw [List.filter_cons_of_pos hp, List.filterMap_cons_some hf]
        exact .cons hS ih
      · rw [List.filter_cons_of_neg (by simp [hp]), List.filterMap_cons_none hf]
        exact ih

/-- Members that correspond by way of a third list. -/
theorem forall₂_comp {R : α → β → Prop} {S : β → γ → Prop} {T : α → γ → Prop} {as : List α}
    {bs : List β} {cs : List γ} (hR : List.Forall₂ R as bs) (hS : List.Forall₂ S bs cs)
    (hT : ∀ a b c, R a b → S b c → T a c) : List.Forall₂ T as cs := by
  induction hR generalizing cs with
  | nil =>
      cases hS
      exact .nil
  | cons hfirst _ ih =>
      cases hS with
      | cons hnext hrest => exact .cons (hT _ _ _ hfirst hnext) (ih hrest)

/-- Relations that agree on the members of a list relate it to the same lists. -/
theorem forall₂_congr_left {R S : α → β → Prop} {as : List α} {bs : List β}
    (h : ∀ a ∈ as, ∀ b, R a b ↔ S a b) : List.Forall₂ R as bs ↔ List.Forall₂ S as bs := by
  induction as generalizing bs with
  | nil => rw [List.forall₂_nil_left_iff, List.forall₂_nil_left_iff]
  | cons first rest ih =>
      obtain ⟨hfirst, hrest⟩ := List.forall_mem_cons.mp h
      simp only [List.forall₂_cons_left_iff, hfirst, ih hrest]

/-- Related members with equal images give equal lists of images. -/
theorem map_eq_map_of_forall₂ {R : α → β → Prop} {f : α → γ} {g : β → γ} {as : List α} {bs : List β}
    (h : List.Forall₂ R as bs) (hstep : ∀ a b, R a b → f a = g b) : as.map f = bs.map g := by
  induction h with
  | nil => rfl
  | cons hfirst _ ih => rw [List.map_cons, List.map_cons, ih, hstep _ _ hfirst]

/-- Every member of the second list has its partner in the first one. -/
theorem exists_of_forall₂_of_mem_right {R : α → β → Prop} {as : List α} {bs : List β}
    (h : List.Forall₂ R as bs) {b : β} (hb : b ∈ bs) : ∃ a ∈ as, R a b := by
  induction h with
  | nil => cases hb
  | cons hfirst _ ih =>
      rcases List.mem_cons.mp hb with rfl | hrest
      · exact ⟨_, List.mem_cons_self, hfirst⟩
      · obtain ⟨a, ha, hab⟩ := ih hrest
        exact ⟨a, List.mem_cons_of_mem _ ha, hab⟩

/-- Every member of the first list has its partner in the second one. -/
theorem exists_of_forall₂_of_mem_left {R : α → β → Prop} {as : List α} {bs : List β}
    (h : List.Forall₂ R as bs) {a : α} (ha : a ∈ as) : ∃ b ∈ bs, R a b :=
  exists_of_forall₂_of_mem_right h.flip ha

/-- If a function gives something for every member, then dropping the others drops none. -/
theorem map_some_filterMap {f : α → Option β} {as : List α} (h : ∀ a ∈ as, ∃ b, f a = some b) :
    (as.filterMap f).map some = as.map f := by
  induction as with
  | nil => rfl
  | cons first rest ih =>
      obtain ⟨⟨b, hb⟩, hrest⟩ := List.forall_mem_cons.mp h
      rw [List.filterMap_cons_some hb, List.map_cons, List.map_cons, ih hrest, hb]

/-! ### Repetitions -/

/-- Dropping repetitions leaves every member once. -/
theorem nodup_eraseDups [BEq α] [LawfulBEq α] (members : List α) : members.eraseDups.Nodup := by
  induction h : members.length using Nat.strongRecOn generalizing members with
  | _ n ih =>
      cases members with
      | nil => exact List.nodup_nil
      | cons first rest =>
          have hshorter : (rest.filter fun b => !b == first).length < n := by
            have hle := List.length_filter_le (fun b => !b == first) rest
            rw [List.length_cons] at h
            omega
          rw [List.eraseDups_cons, List.nodup_cons]
          exact ⟨by simp, ih _ hshorter _ rfl⟩

/-- Without repetitions nothing is left out. -/
theorem eraseDups_of_nodup [BEq α] [LawfulBEq α] {members : List α} (h : members.Nodup) :
    members.eraseDups = members := by
  induction members with
  | nil => rfl
  | cons first rest ih =>
      obtain ⟨hfirst, hrest⟩ := List.nodup_cons.mp h
      have hothers : (rest.filter fun b => !b == first) = rest := by
        rw [List.filter_eq_self]
        intro b hb
        have hne : b ≠ first := fun he => hfirst (he ▸ hb)
        simpa using hne
      rw [List.eraseDups_cons, hothers, ih hrest]

/-- One more member is kept unless it is there already. -/
theorem eraseDups_append_one [DecidableEq α] (members : List α) (a : α) :
    (members ++ [a]).eraseDups = members.eraseDups ++ if a ∈ members then [] else [a] := by
  rw [List.eraseDups_append]
  by_cases ha : a ∈ members
  · simp [List.removeAll, ha]
  · simp [List.removeAll, ha, eraseDups_of_nodup (List.nodup_singleton a)]

/-- A further member stays if it is new. -/
theorem eraseDups_append_singleton [DecidableEq α] {members : List α} (h : members.Nodup) (a : α) :
    (members ++ [a]).eraseDups = members ++ if a ∈ members then [] else [a] := by
  rw [eraseDups_append_one, eraseDups_of_nodup h]

/-! ### Searching -/

/-- A key is looked up in one list after the other. -/
theorem lookup_flatMap [BEq α] (f : γ → List (α × β)) (members : List γ) (key : α) :
    (members.flatMap f).lookup key = members.findSome? fun member => (f member).lookup key := by
  induction members with
  | nil => rfl
  | cons member rest ih =>
      rw [List.flatMap_cons, List.lookup_append, ih, List.findSome?_cons]
      cases (f member).lookup key <;> rfl

end QueryCompiler
