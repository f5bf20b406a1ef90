import QueryCompiler.Proofs.Nullability
import QueryCompiler.Proofs.SelectionSet.Ambiguity

/-!
# Names of generated types

The name that is generated for a field with sub-selections is that of its type, with the response
key in front if another field beside it has its sub-selections on the same type. Two fields can
still get one name. If they are on one type, this happens exactly if their response keys differ only
in the case of the first letter. If they are on different types, it happens exactly if what goes in
front of one name, together with the beginning of the other, spells the same text.
-/

namespace QueryCompiler

open Outcome
open Text (upperFirst)

/-! ### Texts -/

/-- Two ways to cut one text into two parts: one of the cuts is further to the right. -/
theorem append_eq_append_iff_exists {a b c d : String} :
    a ++ b = c ++ d ↔
      (∃ middle, a = c ++ middle ∧ d = middle ++ b) ∨
        ∃ middle, c = a ++ middle ∧ b = middle ++ d := by
  constructor
  · intro h
    have hchars : a.toList ++ b.toList = c.toList ++ d.toList := by
      rw [← String.toList_append, h, String.toList_append]
    rcases List.append_eq_append_iff.mp hchars with ⟨middle, hc, hb⟩ | ⟨middle, ha, hd⟩
    · exact Or.inr ⟨.ofList middle, String.ext (by simpa using hc), String.ext (by simpa using hb)⟩
    · exact Or.inl ⟨.ofList middle, String.ext (by simpa using ha), String.ext (by simpa using hd)⟩
  · rintro (⟨middle, rfl, rfl⟩ | ⟨middle, rfl, rfl⟩)
    · exact String.append_assoc ..
    · exact (String.append_assoc ..).symm

/-- Lists and options do not touch what is changed inside. -/
theorem ResolvedType.base_mapBase (f : TypeBase → TypeBase) (r : ResolvedType) :
    (r.mapBase f).base = f r.base := by
  induction r with
  | value base => rfl
  | optional inner ih => exact ih
  | list item ih => exact ih

/-- The name by which generated code refers to a type of the schema. -/
def Catalog.targetName (c : Catalog) (name : Name) : String := (c.typeBase name).targetName

/-! ### Fields -/

namespace ObjectField

/-- The name of the type that is generated for a field. -/
def generatedName (o : ObjectField) : String := o.typeIdentifier.base.targetName

/-- The type of the schema that a field comes down to. -/
def declaredType (o : ObjectField) : Name := o.field.definition.type.innermost

/-- A field has the type that a catalog gives its declaration, and its sub-selections on the
composite type that this comes down to. -/
structure Declared (o : ObjectField) (c : Catalog) : Prop where
  typed : c.resolve o.field.definition.type = .ok o.field.type
  nested : ∃ type, c.composite? o.declaredType = some type ∧ o.selectionSet.typeName = type.name

variable {c : Catalog} {o p : ObjectField}

/-- Fields with one declared type have their sub-selections on one type. -/
theorem Declared.typeName_eq (ho : o.Declared c) (hp : p.Declared c)
    (h : o.declaredType = p.declaredType) :
    o.selectionSet.typeName = p.selectionSet.typeName := by
  obtain ⟨type, htype, hname⟩ := ho.nested
  obtain ⟨other, hother, hotherName⟩ := hp.nested
  rw [h, hother, Option.some.injEq] at htype
  rw [hname, hotherName, htype]

/-- The generated name of a field: its own name if it is marked, before that of its type. -/
theorem Declared.generatedName_eq (ho : o.Declared c) :
    o.generatedName =
      (if o.isAmbiguous = true then upperFirst o.field.responseKey else "") ++
        c.targetName o.declaredType := by
  have hbase : o.field.type.base = c.typeBase o.declaredType := TypeRef.base_of_resolve ho.typed
  unfold generatedName typeIdentifier
  split
  · rw [ResolvedType.base_mapBase, hbase]
    rfl
  · rw [hbase, String.empty_append]
    rfl

end ObjectField

namespace Scope

variable {s : Scope} {type : CompositeType} {traversed : List SelectedField}

/-- The fields of a selection are declared with their types. -/
theorem declared_of_resolveSelection {selection : Selection} {parts : SelectionParts}
    (h : s.resolveSelection type traversed selection = .ok parts) :
    ∀ o ∈ parts.objects, o.Declared s.catalog := by
  cases selection with
  | field location aliasName name arguments directives selections =>
      cases selections with
      | nil =>
          obtain ⟨definition, resolved, _, _, rfl⟩ := resolveSelection_leaf_eq_ok_iff.mp h
          nofun
      | cons first rest =>
          obtain ⟨definition, resolved, nested, set, enums, _, hresolved, hnested, hset, rfl⟩ :=
            resolveSelection_object_eq_ok_iff.mp h
          obtain ⟨inner, _, rfl, _⟩ := selectionSet_eq_ok_iff.mp hset
          intro o ho
          rw [List.mem_singleton.mp ho]
          exact ⟨hresolved, nested, hnested, rfl⟩
  | spread location name directives =>
      obtain ⟨_, rfl⟩ := resolveSelection_spread_eq_ok_iff.mp h
      nofun
  | inline location condition directives selections =>
      obtain ⟨nested, set, enums, _, _, rfl⟩ := resolveSelection_inline_eq_ok_iff.mp h
      nofun

/-- The fields of selections are declared with their types. -/
theorem declared_of_resolveSelections {selections : List Selection} {parts : SelectionParts}
    (h : s.resolveSelections type traversed selections = .ok parts) :
    ∀ o ∈ parts.objects, o.Declared s.catalog := by
  induction selections generalizing parts with
  | nil =>
      obtain rfl := resolveSelections_nil_eq_ok_iff.mp h
      nofun
  | cons selection rest ih =>
      obtain ⟨first, others, hfirst, hothers, rfl⟩ := resolveSelections_cons_eq_ok_iff.mp h
      exact List.forall_mem_append.mpr ⟨declared_of_resolveSelection hfirst, ih hothers⟩

end Scope

/-- Marking fields does not change what they are. -/
theorem SelectionParts.declared_united {parts : SelectionParts} {c : Catalog} (type : CompositeType)
    (traversed : List SelectedField) (h : ∀ o ∈ parts.objects, o.Declared c) :
    ∀ o ∈ (parts.united type traversed).objects, o.Declared c := by
  intro o ho
  obtain ⟨source, hsource, rfl⟩ := List.mem_map.mp ho
  exact ⟨(h source hsource).typed, (h source hsource).nested⟩

/-! ### Names beside each other -/

namespace SelectionSet

/-- What goes in front of the name of a field's type. It is the response key if another field of the
selection set has its sub-selections on the same type. -/
def addition (set : SelectionSet) (o : ObjectField) : String :=
  if 1 < set.objectTypes.count o.selectionSet.typeName then upperFirst o.field.responseKey else ""

/-- Fields under different response keys have different generated names. -/
def NamesSeparate (set : SelectionSet) : Prop :=
  ∀ o ∈ set.objects, ∀ p ∈ set.objects, o.field.responseKey ≠ p.field.responseKey →
    o.generatedName ≠ p.generatedName

/-- How one name comes to be generated for two fields. -/
inductive Clash (set : SelectionSet) (c : Catalog) (o p : ObjectField) : Prop
  /-- The fields are on one type, and their response keys are the same with the first letter
  raised. -/
  | letterCase : o.declaredType = p.declaredType →
      upperFirst o.field.responseKey = upperFirst p.field.responseKey → Clash set c o p
  /-- What goes in front of the first name continues into the name of the second type. -/
  | firstContinues (middle : String) : o.declaredType ≠ p.declaredType →
      set.addition o = set.addition p ++ middle →
      c.targetName p.declaredType = middle ++ c.targetName o.declaredType → Clash set c o p
  /-- What goes in front of the second name continues into the name of the first type. -/
  | secondContinues (middle : String) : o.declaredType ≠ p.declaredType →
      set.addition p = set.addition o ++ middle →
      c.targetName o.declaredType = middle ++ c.targetName p.declaredType → Clash set c o p

variable {set : SelectionSet} {c : Catalog} {o p : ObjectField}

/-- Fields of one type clash if their names differ in the case of the first letter only. -/
theorem clash_iff_of_eq (h : o.declaredType = p.declaredType) :
    set.Clash c o p ↔ upperFirst o.field.responseKey = upperFirst p.field.responseKey := by
  constructor
  · rintro (⟨_, hkeys⟩ | ⟨_, hne, _, _⟩ | ⟨_, hne, _, _⟩)
    · exact hkeys
    · exact absurd h hne
    · exact absurd h hne
  · exact .letterCase h

/-- Fields of two types clash if the additions hide the difference of the type names. -/
theorem clash_iff_of_ne (h : o.declaredType ≠ p.declaredType) :
    set.Clash c o p ↔ set.addition o ++ c.targetName o.declaredType =
      set.addition p ++ c.targetName p.declaredType := by
  rw [append_eq_append_iff_exists]
  constructor
  · rintro (⟨heq, _⟩ | ⟨middle, _, hfront, hname⟩ | ⟨middle, _, hfront, hname⟩)
    · exact absurd heq h
    · exact Or.inl ⟨middle, hfront, hname⟩
    · exact Or.inr ⟨middle, hfront, hname⟩
  · rintro (⟨middle, hfront, hname⟩ | ⟨middle, hfront, hname⟩)
    · exact .firstContinues middle h hfront hname
    · exact .secondContinues middle h hfront hname

/-- With exact marks the generated name is read off the selection set. -/
theorem MarksExact.generatedName_eq (hmarks : set.MarksExact) (ho : o ∈ set.objects)
    (hdeclared : o.Declared c) :
    o.generatedName = set.addition o ++ c.targetName o.declaredType := by
  have hmark := marksExact_iff.mp hmarks o ho
  rw [hdeclared.generatedName_eq, addition]
  by_cases hshared : 1 < set.objectTypes.count o.selectionSet.typeName
  · rw [if_pos (hmark.mpr hshared), if_pos hshared]
  · rw [if_neg fun h => hshared (hmark.mp h), if_neg hshared]

/-- A field that stands beside another one on its type has its response key in front. -/
theorem addition_of_typeName_eq (ho : o ∈ set.objects) (hp : p ∈ set.objects) (hne : o ≠ p)
    (h : o.selectionSet.typeName = p.selectionSet.typeName) :
    set.addition o = upperFirst o.field.responseKey := by
  obtain ⟨index, hindex⟩ := List.mem_iff_getElem?.mp ho
  obtain ⟨other, hother⟩ := List.mem_iff_getElem?.mp hp
  have hplaces : other ≠ index := by
    rintro rfl
    rw [hother, Option.some.injEq] at hindex
    exact hne hindex.symm
  have hshared : set.SharedBeside index o.selectionSet.typeName :=
    ⟨other, p, hplaces, hother, h.symm⟩
  rw [addition, if_pos ((sharedBeside_iff hindex).mp hshared)]

/-- Where marks are exact, one name is generated for two fields exactly if they clash. -/
theorem MarksExact.generatedName_eq_iff (hmarks : set.MarksExact)
    (hdeclared : ∀ o ∈ set.objects, o.Declared c) (ho : o ∈ set.objects) (hp : p ∈ set.objects)
    (hkeys : o.field.responseKey ≠ p.field.responseKey) :
    o.generatedName = p.generatedName ↔ set.Clash c o p := by
  rw [hmarks.generatedName_eq ho (hdeclared o ho), hmarks.generatedName_eq hp (hdeclared p hp)]
  by_cases htypes : o.declaredType = p.declaredType
  · have hne : o ≠ p := fun he => hkeys (he ▸ rfl)
    have hnames := (hdeclared o ho).typeName_eq (hdeclared p hp) htypes
    rw [clash_iff_of_eq htypes, addition_of_typeName_eq ho hp hne hnames,
      addition_of_typeName_eq hp ho hne.symm hnames.symm, htypes, String.append_left_inj]
  · rw [clash_iff_of_ne htypes]

end SelectionSet

namespace Scope

variable {s : Scope} {type : CompositeType} {traversed : List SelectedField}
  {selections : List Selection} {set : SelectionSet} {enums : List (Name × EnumType)}

/-- The generated names of the fields of a selection set, and when two of them are one. They are
different for different response keys if no two of these differ only in the case of the first letter
and no name of a type ends in that of another. -/
theorem generatedName_of_selectionSet
    (h : s.selectionSet type traversed selections = .ok (set, enums)) :
    (∀ o ∈ set.objects,
      o.generatedName = set.addition o ++ s.catalog.targetName o.declaredType) ∧
    (∀ o ∈ set.objects, ∀ p ∈ set.objects, o.field.responseKey ≠ p.field.responseKey →
      (o.generatedName = p.generatedName ↔ set.Clash s.catalog o p)) ∧
    ((∀ o ∈ set.objects, ∀ p ∈ set.objects, o.field.responseKey ≠ p.field.responseKey →
        (o.declaredType = p.declaredType →
          upperFirst o.field.responseKey ≠ upperFirst p.field.responseKey) ∧
        (o.declaredType ≠ p.declaredType → ∀ front : String,
          s.catalog.targetName o.declaredType ≠ front ++ s.catalog.targetName p.declaredType)) →
      set.NamesSeparate) := by
  obtain ⟨parts, hparts, rfl, _⟩ := selectionSet_eq_ok_iff.mp h
  have hmarks := parts.marksExact_united type traversed
  have hdeclared := SelectionParts.declared_united type traversed
    (declared_of_resolveSelections hparts)
  refine ⟨fun o ho => hmarks.generatedName_eq ho (hdeclared o ho), ?_, ?_⟩
  · intro o ho p hp hkeys
    exact hmarks.generatedName_eq_iff hdeclared ho hp hkeys
  · intro hapart o ho p hp hkeys hsame
    obtain ⟨hcase, hends⟩ := hapart o ho p hp hkeys
    obtain ⟨_, hends'⟩ := hapart p hp o ho hkeys.symm
    cases (hmarks.generatedName_eq_iff hdeclared ho hp hkeys).mp hsame with
    | letterCase heq hraised => exact hcase heq hraised
    | firstContinues middle hne _ hname => exact hends' hne.symm middle hname
    | secondContinues middle hne _ hname => exact hends hne middle hname

end Scope

/-- Two fields on one type. Their response keys are one letter in both cases. -/
def Selection.bothCases : List Selection := [
  .field none (some "a") "friend" [] [] [.field none none "id" [] [] []],
  .field none (some "A") "friend" [] [] [.field none none "id" [] [] []]]

/-- Two fields under different response keys that are both marked as ambiguous, and one name that is
generated for both of them. -/
theorem Scope.exists_generatedName_twice :
    let s := Scope.start .person .empty (.fragment "Parts")
    ∃ type set enums, s.catalog.composite? "Person" = some type ∧
      s.selectionSet type [] Selection.bothCases = .ok (set, enums) ∧
      set.marks = [true, true] ∧ ¬ set.NamesSeparate := by
  intro s
  have hcomputed : ((s.catalog.composite? "Person").bind fun type =>
      (s.selectionSet type [] Selection.bothCases).toOption.map fun found =>
        (found.1.marks, found.1.objects.map fun o => (o.field.responseKey, o.generatedName))) =
      some ([true, true], [("a", "APerson"), ("A", "APerson")]) := by
    decide +kernel
  simp only [Option.bind_eq_some_iff, Option.map_eq_some_iff, toOption_eq_some_iff] at hcomputed
  obtain ⟨type, htype, ⟨set, enums⟩, hset, hnames⟩ := hcomputed
  obtain ⟨hmarks, hobjects⟩ := Prod.mk.inj hnames
  refine ⟨type, set, enums, htype, hset, hmarks, ?_⟩
  intro hseparate
  have htwo : set.objects.length = 2 := by simpa using congrArg List.length hobjects
  obtain ⟨o, p, hop⟩ := List.length_eq_two.mp htwo
  rw [hop] at hobjects
  simp only [List.map_cons, List.map_nil, List.cons.injEq, Prod.mk.injEq, and_true] at hobjects
  obtain ⟨⟨hokey, honame⟩, hpkey, hpname⟩ := hobjects
  have hkeys : o.field.responseKey ≠ p.field.responseKey := by
    rw [hokey, hpkey]
    decide
  exact hseparate o (by simp [hop]) p (by simp [hop]) hkeys (honame.trans hpname.symm)

/-- A catalog in which the name of one type ends in the name of another. -/
def Catalog.allies : Catalog where
  outputSchemaName := "Schema"
  queryType := "Person"
  mutationType := none
  subscriptionType := none
  types := .ofList [
    ("Person", .object ⟨"Person", none, [], .ofList [
      ("friend", ⟨"friend", none, [], .named "Person", false, none⟩),
      ("ally", ⟨"ally", none, [], .list (.named "FriendPerson"), false, none⟩)]⟩),
    ("FriendPerson", .object ⟨"FriendPerson", none, [], .empty⟩)]
  warnings := []

/-- Two fields on one type, and one on the type whose name ends in the name of that type. -/
def Selection.friendsAndAlly : List Selection := [
  .field none none "friend" [] [] [.field none none "__typename" [] [] []],
  .field none (some "other") "friend" [] [] [.field none none "__typename" [] [] []],
  .field none none "ally" [] [] [.field none none "__typename" [] [] []]]

/-- The names of the two fields on one type are different. The name of the first of them is also
that of the third field, which has nothing in front of the name of its type. -/
theorem Scope.generatedName_friendsAndAlly :
    let s := Scope.start .allies .empty (.fragment "Parts")
    ∃ type set enums o p q, s.catalog.composite? "Person" = some type ∧
      s.selectionSet type [] Selection.friendsAndAlly = .ok (set, enums) ∧
      set.objects = [o, p, q] ∧ ¬ set.Clash s.catalog o p ∧ set.Clash s.catalog o q ∧
      "FriendPerson" = set.addition o ++ s.catalog.targetName o.declaredType ∧
      "OtherPerson" = set.addition p ++ s.catalog.targetName p.declaredType ∧
      "FriendPerson" = set.addition q ++ s.catalog.targetName q.declaredType := by
  intro s
  have hcomputed : ((s.catalog.composite? "Person").bind fun type =>
      (s.selectionSet type [] Selection.friendsAndAlly).toOption.map fun found =>
        found.1.objects.map fun o => (o.field.responseKey, o.generatedName)) =
      some [("friend", "FriendPerson"), ("other", "OtherPerson"), ("ally", "FriendPerson")] := by
    decide +kernel
  simp only [Option.bind_eq_some_iff, Option.map_eq_some_iff, toOption_eq_some_iff] at hcomputed
  obtain ⟨type, htype, ⟨set, enums⟩, hset, hobjects⟩ := hcomputed
  have hthree : set.objects.length = 3 := by simpa using congrArg List.length hobjects
  obtain ⟨o, p, q, hopq⟩ := List.length_eq_three.mp hthree
  simp only [hopq, List.map_cons, List.map_nil, List.cons.injEq, Prod.mk.injEq, and_true]
    at hobjects
  obtain ⟨⟨hokey, honame⟩, ⟨hpkey, hpname⟩, hqkey, hqname⟩ := hobjects
  have ho : o ∈ set.objects := by simp [hopq]
  have hp : p ∈ set.objects := by simp [hopq]
  have hq : q ∈ set.objects := by simp [hopq]
  have hop : o.field.responseKey ≠ p.field.responseKey := by
    rw [hokey, hpkey]
    decide
  have hoq : o.field.responseKey ≠ q.field.responseKey := by
    rw [hokey, hqkey]
    decide
  obtain ⟨hspelled, hclash, _⟩ := generatedName_of_selectionSet hset
  refine ⟨type, set, enums, o, p, q, htype, hset, hopq, ?_, ?_, ?_, ?_, ?_⟩
  · rw [← hclash o ho p hp hop, honame, hpname]
    decide
  · rw [← hclash o ho q hq hoq, honame, hqname]
  · rw [← hspelled o ho, honame]
  · rw [← hspelled p hp, hpname]
  · rw [← hspelled q hq, hqname]

end QueryCompiler
