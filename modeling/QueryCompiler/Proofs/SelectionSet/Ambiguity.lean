import QueryCompiler.Proofs.SelectionSet.Origin

/-!
# Which fields are marked as ambiguous

A field with sub-selections is marked if another field of its selection set has them on the same
type. The marks are set before inline fragments are merged and not set again: they tell about the
fields that are written in one pair of braces. So every mark is right, and marks are missing exactly
where merging brings together fields on one type that are not marked already.
-/

namespace QueryCompiler

open Outcome

/-! ### Fields on the same type -/

/-- Whether each name of a list stands in it more than once. -/
def repeats (names : List Name) : List Bool := names.map fun name => 1 < names.count name

/-- Something that stands in a list at one place stands at another one too if it is counted more
than once. -/
theorem exists_ne_getElem?_iff {α β : Type} [DecidableEq β] {f : α → β} {members : List α}
    {index : Nat} {a : α} (h : members[index]? = some a) :
    (∃ other b, other ≠ index ∧ members[other]? = some b ∧ f b = f a) ↔
      1 < (members.map f).count (f a) := by
  induction members generalizing index with
  | nil => simp at h
  | cons first rest ih =>
      cases index with
      | zero =>
          obtain rfl : first = a := by simpa using h
          have hrest : 1 < ((first :: rest).map f).count (f first) ↔ ∃ b ∈ rest, f b = f first := by
            rw [List.map_cons, List.count_cons_self, Nat.lt_add_left_iff_pos, List.count_pos_iff,
              List.mem_map]
          rw [hrest]
          constructor
          · rintro ⟨other, b, hne, hb, hfb⟩
            obtain ⟨other, rfl⟩ := Nat.exists_eq_succ_of_ne_zero hne
            exact ⟨b, List.mem_of_getElem? hb, hfb⟩
          · rintro ⟨b, hb, hfb⟩
            obtain ⟨other, hother⟩ := List.mem_iff_getElem?.mp hb
            exact ⟨other + 1, b, Nat.succ_ne_zero other, hother, hfb⟩
      | succ index =>
          have ha : rest[index]? = some a := h
          by_cases hfirst : f first = f a
          · have hpos : 0 < (rest.map f).count (f a) :=
              List.count_pos_iff.mpr (List.mem_map_of_mem (List.mem_of_getElem? ha))
            rw [List.map_cons, hfirst, List.count_cons_self, Nat.lt_add_left_iff_pos]
            refine iff_of_true ⟨0, first, (Nat.succ_ne_zero index).symm, rfl, hfirst⟩ hpos
          · rw [List.map_cons, List.count_cons_of_ne hfirst, ← ih ha]
            constructor
            · rintro ⟨other, b, hne, hb, hfb⟩
              cases other with
              | zero =>
                  obtain rfl : first = b := by simpa using hb
                  exact absurd hfb hfirst
              | succ other => exact ⟨other, b, fun he => hne (congrArg _ he), hb, hfb⟩
            · rintro ⟨other, b, hne, hb, hfb⟩
              exact ⟨other + 1, b, fun he => hne (Nat.succ.inj he), hb, hfb⟩

/-- Lists that are put together from blocks of one length each agree if all blocks do. -/
theorem flatMap_map_eq_iff {α β γ : Type} {blocks : List α} {f : α → List β} {g : α → β → γ}
    {k : β → γ} :
    (blocks.flatMap fun a => (f a).map (g a)) = (blocks.flatMap f).map k ↔
      ∀ a ∈ blocks, ∀ b ∈ f a, g a b = k b := by
  induction blocks with
  | nil => simp
  | cons first rest ih =>
      rw [List.flatMap_cons, List.flatMap_cons, List.map_append, List.forall_mem_cons, ← ih,
        ← List.map_inj_left]
      constructor
      · exact fun he => List.append_inj he (by simp)
      · rintro ⟨hfirst, hrest⟩
        rw [hfirst, hrest]

private theorem count_le_count_flatMap {α β : Type} [DecidableEq β] (f : α → List β)
    {blocks : List α} {a : α} (h : a ∈ blocks) (b : β) :
    (f a).count b ≤ (blocks.flatMap f).count b := by
  have hsublist : (f a).Sublist (blocks.map f).flatten :=
    List.sublist_flatten_of_mem (List.mem_map_of_mem h)
  exact hsublist.count_le b

/-! ### Documents -/

/-- The types of the fields with sub-selections, in order. -/
def Written.objectTypes (w : Written) (c : Catalog) : List Name :=
  (w.objects c).map fun o => o.first.type.name

namespace Origin

/-- The types of the fields with sub-selections, in order. -/
def objectTypes (o : Origin) (c : Catalog) : List Name :=
  o.members.flatMap fun w => w.objectTypes c

/-- Whether each field with sub-selections shares its type with another that is written in the same
pair of braces. -/
def marks (o : Origin) (c : Catalog) : List Bool :=
  o.members.flatMap fun w => repeats (w.objectTypes c)

/-- Merging does not bring together fields on one type, unless they are ambiguous where they are
written. -/
def Apart (c : Catalog) (o : Origin) : Prop :=
  ∀ w ∈ o.members, ∀ name ∈ w.objectTypes c,
    1 < (o.objectTypes c).count name → 1 < (w.objectTypes c).count name

/-- The marks are those of all fields together exactly if merging keeps fields on one type apart. -/
theorem marks_eq_repeats_iff {o : Origin} {c : Catalog} :
    o.marks c = repeats (o.objectTypes c) ↔ o.Apart c := by
  unfold marks repeats objectTypes
  rw [flatMap_map_eq_iff]
  refine forall₂_congr fun w hw => forall₂_congr fun name _ => ?_
  have hle := count_le_count_flatMap (fun w => w.objectTypes c) hw name
  rw [decide_eq_decide]
  exact ⟨Iff.mpr, fun himp => ⟨fun hown => Nat.lt_of_lt_of_le hown hle, himp⟩⟩

end Origin

/-! ### Selection sets -/

namespace SelectionSet

/-- The types of the fields with sub-selections, in order. -/
def objectTypes (set : SelectionSet) : List Name :=
  set.objects.map fun o => o.selectionSet.typeName

/-- Which of the fields with sub-selections are marked, in order. -/
def marks (set : SelectionSet) : List Bool := set.objects.map ObjectField.isAmbiguous

/-- A field other than the one at the given position has sub-selections on a type. -/
def SharedBeside (set : SelectionSet) (index : Nat) (typeName : Name) : Prop :=
  ∃ other o, other ≠ index ∧ set.objects[other]? = some o ∧ o.selectionSet.typeName = typeName

/-- Every mark is right. -/
def MarksSound (set : SelectionSet) : Prop :=
  ∀ index o, set.objects[index]? = some o →
    o.isAmbiguous = true → set.SharedBeside index o.selectionSet.typeName

/-- Every mark is right, and no mark is missing. -/
def MarksExact (set : SelectionSet) : Prop :=
  ∀ index o, set.objects[index]? = some o →
    (o.isAmbiguous = true ↔ set.SharedBeside index o.selectionSet.typeName)

/-- A type is shared beside a field if it is that of more than one field. -/
theorem sharedBeside_iff {set : SelectionSet} {index : Nat} {o : ObjectField}
    (h : set.objects[index]? = some o) :
    set.SharedBeside index o.selectionSet.typeName ↔
      1 < set.objectTypes.count o.selectionSet.typeName :=
  exists_ne_getElem?_iff (f := fun o : ObjectField => o.selectionSet.typeName) h

/-- Marks are sound if marked fields share their type. -/
theorem marksSound_iff {set : SelectionSet} :
    set.MarksSound ↔ ∀ o ∈ set.objects, o.isAmbiguous = true →
      1 < set.objectTypes.count o.selectionSet.typeName := by
  constructor
  · intro h o ho hmark
    obtain ⟨index, hindex⟩ := List.mem_iff_getElem?.mp ho
    exact (sharedBeside_iff hindex).mp (h index o hindex hmark)
  · intro h index o ho hmark
    exact (sharedBeside_iff ho).mpr (h o (List.mem_of_getElem? ho) hmark)

/-- Marks are exact if the marked fields are those that share their type. -/
theorem marksExact_iff {set : SelectionSet} :
    set.MarksExact ↔ ∀ o ∈ set.objects,
      (o.isAmbiguous = true ↔ 1 < set.objectTypes.count o.selectionSet.typeName) := by
  constructor
  · intro h o ho
    obtain ⟨index, hindex⟩ := List.mem_iff_getElem?.mp ho
    rw [← sharedBeside_iff hindex]
    exact h index o hindex
  · intro h index o ho
    rw [sharedBeside_iff ho]
    exact h o (List.mem_of_getElem? ho)

/-- Marks are exact if they mark the repetitions among the types. -/
theorem marksExact_iff_marks_eq {set : SelectionSet} :
    set.MarksExact ↔ set.marks = repeats set.objectTypes := by
  rw [marksExact_iff, marks, repeats, objectTypes, List.map_map, List.map_inj_left]
  refine forall₂_congr fun o _ => ?_
  exact (Bool.eq_iff_iff.trans (iff_congr Iff.rfl decide_eq_true_iff)).symm

/-- Selection sets put together have the types of all of them. -/
theorem objectTypes_followedBy (a : SelectionSet) (others : List SelectionSet) :
    (a.followedBy others).objectTypes = (a :: others).flatMap objectTypes := by
  rw [objectTypes, followedBy, List.map_append, List.map_flatMap]
  rfl

/-- Selection sets put together keep the marks of all of them. -/
theorem marks_followedBy (a : SelectionSet) (others : List SelectionSet) :
    (a.followedBy others).marks = (a :: others).flatMap marks := by
  rw [marks, followedBy, List.map_append, List.map_flatMap]
  rfl

/-- Marks that are right stay right when other selections are added. -/
theorem marksSound_followedBy {a : SelectionSet} {others : List SelectionSet}
    (h : ∀ b ∈ a :: others, b.MarksSound) : (a.followedBy others).MarksSound := by
  rw [marksSound_iff]
  intro o ho hmark
  have ho : o ∈ (a :: others).flatMap objects := ho
  obtain ⟨b, hb, hob⟩ := List.mem_flatMap.mp ho
  have hown := marksSound_iff.mp (h b hb) o hob hmark
  rw [objectTypes_followedBy]
  exact Nat.lt_of_lt_of_le hown (count_le_count_flatMap objectTypes hb _)

end SelectionSet

/-- Before any merging the marks are exact. -/
theorem SelectionParts.marksExact_united (parts : SelectionParts) (type : CompositeType)
    (traversed : List SelectedField) : (parts.united type traversed).MarksExact := by
  have htypes : (parts.united type traversed).objectTypes =
      parts.objects.map fun o => o.selectionSet.typeName := by
    simp only [SelectionSet.objectTypes, united, ObjectField.flagAmbiguous, List.map_map,
      Function.comp_def]
  rw [SelectionSet.marksExact_iff, htypes]
  intro o ho
  obtain ⟨source, _, rfl⟩ := List.mem_map.mp ho
  rw [List.count, List.countP_map, ObjectField.isShared, decide_eq_true_iff]
  rfl

namespace Written.Makes

variable {w : Written} {s : Scope} {traversed : List SelectedField} {set : SelectionSet}

/-- The marks of selections that were not merged are exact. -/
theorem marksExact (h : w.Makes s traversed set) : set.MarksExact := by
  obtain ⟨parts, _, rfl⟩ := h.exists_comeFrom
  exact parts.marksExact_united w.type traversed

/-- The types of the fields with selections are read off the document. -/
theorem objectTypes_eq (h : w.Makes s traversed set) :
    set.objectTypes = w.objectTypes s.catalog := by
  rw [SelectionSet.objectTypes, Written.objectTypes, ← List.forall₂_eq_eq_eq,
    List.forall₂_map_left_iff, List.forall₂_map_right_iff]
  exact h.objects.imp fun _ _ hmade => hmade.typeName_eq

/-- The marks are read off the document. -/
theorem marks_eq (h : w.Makes s traversed set) :
    set.marks = repeats (w.objectTypes s.catalog) := by
  rw [← h.objectTypes_eq]
  exact SelectionSet.marksExact_iff_marks_eq.mp h.marksExact

end Written.Makes

private theorem flatMap_eq_of_forall₂ {α β γ : Type} {R : α → β → Prop} {f : α → List γ}
    {g : β → List γ} {as : List α} {bs : List β} (h : List.Forall₂ R as bs)
    (hfg : ∀ a b, R a b → f a = g b) : as.flatMap f = bs.flatMap g := by
  induction h with
  | nil => rfl
  | cons hab _ ih => rw [List.flatMap_cons, List.flatMap_cons, hfg _ _ hab, ih]

namespace SelectionSet.MadeFrom

variable {s : Scope} {set : SelectionSet} {o : Origin}

/-- The marks of a merged selection set are read off the document. -/
theorem marks_eq (h : set.MadeFrom s o) : set.marks = o.marks s.catalog := by
  obtain ⟨path, traversed, first, others, hmembers, rfl⟩ := h
  rw [marks_followedBy]
  exact flatMap_eq_of_forall₂ hmembers fun _ _ hmakes => hmakes.marks_eq

/-- The types of a merged selection set are read off the document. -/
theorem objectTypes_eq (h : set.MadeFrom s o) : set.objectTypes = o.objectTypes s.catalog := by
  obtain ⟨path, traversed, first, others, hmembers, rfl⟩ := h
  rw [objectTypes_followedBy]
  exact flatMap_eq_of_forall₂ hmembers fun _ _ hmakes => hmakes.objectTypes_eq

/-- The marks of a merged selection set are sound. -/
theorem marksSound (h : set.MadeFrom s o) : set.MarksSound := by
  obtain ⟨path, traversed, first, others, hmembers, rfl⟩ := h
  have hsound := hmembers.imp fun _ _ hmakes =>
    And.intro (fun index o ho => (hmakes.marksExact index o ho).mp) hmakes
  exact marksSound_followedBy ((List.forall₂_and_left _ _).mp hsound).1

/-- The marks of a merged selection set are exact if no type is shared between what was merged. -/
theorem marksExact_iff (h : set.MadeFrom s o) : set.MarksExact ↔ o.Apart s.catalog := by
  rw [marksExact_iff_marks_eq, h.marks_eq, h.objectTypes_eq, Origin.marks_eq_repeats_iff]

end SelectionSet.MadeFrom

namespace Registry

variable {r : Registry} {c : Catalog} {compiled : Compiled}

/-- At every depth of what is compiled, a field is marked if another field in the same pair of
braces of the document has sub-selections on the same type. All marks are right. They are exact
everywhere if and only if merging never brings together fields on one type that are not marked
already. -/
theorem marks_of_compile (h : r.compile c = .ok compiled) :
    r.Mirrors c compiled (fun set o => set.marks = o.marks c) ∧
      compiled.Everywhere SelectionSet.MarksSound ∧
      (compiled.Everywhere SelectionSet.MarksExact ↔ r.Everywhere c (Origin.Apart c)) := by
  refine ⟨mirrors_of_compile h ?_, ?_, everywhere_iff_of_compile h ?_⟩
  · rintro s rfl set o hmade
    exact hmade.marks_eq
  · have hsound := everywhere_iff_of_compile (P := SelectionSet.MarksSound) (Q := fun _ => True) h
      fun s _ set o hmade => iff_of_true hmade.marksSound trivial
    exact hsound.mpr fun _ _ _ _ _ _ => trivial
  · rintro s rfl set o hmade
    exact hmade.marksExact_iff

end Registry

/-- A query whose two inline fragments are merged. The first has two fields on one type, and the
second has a third. -/
def Registry.companions : Registry where
  sources := .empty
  operations := .ofList [("Companions", ⟨none, .query, some "Companions", [], [],
    [.inline none (some "Person") [] [
        .field none (some "a") "friend" [] [] [.field none none "id" [] [] []],
        .field none (some "b") "friend" [] [] [.field none none "id" [] [] []]],
      .inline none (some "Person") [] [
        .field none (some "c") "friend" [] [] [.field none none "id" [] [] []]]]⟩)]
  fragments := .empty

namespace Registry

/-- What the query is compiled to. -/
theorem compile_companions :
    ∃ compiled set inner, Registry.companions.compile .person = .ok compiled ∧
      set ∈ compiled.selectionSets ∧ set.follow? [.inline 0] = some inner ∧
      inner.marks = [true, true, false] ∧ ¬ inner.MarksExact := by
  have hcomputed : ((Registry.companions.compile .person).toOption.bind fun compiled =>
      compiled.selectionSets.head?.bind fun set =>
        (set.follow? [.inline 0]).map fun inner => (inner.marks, repeats inner.objectTypes)) =
          some ([true, true, false], [true, true, true]) := by
    cbv
  simp only [Option.bind_eq_some_iff, Option.map_eq_some_iff, toOption_eq_some_iff] at hcomputed
  obtain ⟨compiled, hcompiled, set, hset, inner, hinner, hmarks⟩ := hcomputed
  obtain ⟨hactual, hexpected⟩ := Prod.mk.inj hmarks
  refine ⟨compiled, set, inner, hcompiled, List.mem_of_mem_head? hset, hinner, hactual, ?_⟩
  rw [SelectionSet.marksExact_iff_marks_eq, hactual, hexpected]
  decide

/-- The field of the second inline fragment is not marked, although it stands beside two fields on
its type. -/
theorem exists_missing_mark :
    ∃ compiled, Registry.companions.compile .person = .ok compiled ∧
      ¬ compiled.Everywhere SelectionSet.MarksExact := by
  obtain ⟨compiled, set, inner, hcompiled, hset, hinner, _, hmissing⟩ := compile_companions
  exact ⟨compiled, hcompiled, fun hall => hmissing (hall set hset _ inner hinner)⟩

/-- The marks of the first inline fragment are kept and are right. The second brings a field without
a mark, because the two are not apart. -/
theorem marks_companions :
    ∃ compiled set inner, Registry.companions.compile .person = .ok compiled ∧
      set ∈ compiled.selectionSets ∧ set.follow? [.inline 0] = some inner ∧
      inner.marks = [true, true, false] ∧ inner.MarksSound ∧
      Registry.companions.Mirrors .person compiled (fun set o => set.marks = o.marks .person) ∧
      ¬ Registry.companions.Everywhere .person (Origin.Apart .person) := by
  obtain ⟨compiled, set, inner, hcompiled, hset, hinner, hmarks, hmissing⟩ := compile_companions
  obtain ⟨hmirrors, hsound, hexact⟩ := marks_of_compile hcompiled
  refine ⟨compiled, set, inner, hcompiled, hset, hinner, hmarks, hsound set hset _ inner hinner,
    hmirrors, fun hapart => ?_⟩
  exact hmissing (hexact.mpr hapart set hset _ inner hinner)

end Registry

end QueryCompiler
