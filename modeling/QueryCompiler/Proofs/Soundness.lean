import QueryCompiler.Proofs.Dependencies
import QueryCompiler.Proofs.Failure
import QueryCompiler.Proofs.Schema.Build

/-!
# Inconsistencies on a sound schema

A schema is sound if the types of its fields can be resolved and lead to types that it has, and
those of its input fields can be resolved and lead to types whose values can be sent. Documents can
then bring only one kind of inconsistency to light: a variable whose type cannot be sent. Selections
are always resolved or break a rule, and operations always find the type that they start from.
-/

namespace QueryCompiler

open Outcome

/-! ### Sound schemas -/

/-- The name of a built-in scalar or of a type of the catalog. -/
def Catalog.IsKnown (c : Catalog) (name : Name) : Prop :=
  (BuiltInScalar.ofName? name).isSome = true ∨ (c.get? name).isSome = true

/-- A field whose type can be resolved and exists. -/
def FieldDefinition.SoundIn (c : Catalog) (field : FieldDefinition) : Prop :=
  field.type.WellMarked ∧ c.IsKnown field.type.innermost

/-- An input field whose type can be resolved and sent. -/
def InputValueDefinition.SoundIn (c : Catalog) (field : InputValueDefinition) : Prop :=
  field.type.WellMarked ∧ c.IsInput field.type.innermost

/-- A type whose fields are sound. Those of a union are the fields that can be selected on it. -/
def TypeDefinition.SoundIn (c : Catalog) : TypeDefinition → Prop
  | .object t => ∀ field ∈ t.fields.values, field.SoundIn c
  | .interface t => ∀ field ∈ t.fields.values, field.SoundIn c
  | .union t => ∀ field ∈ t.fields.values, field.SoundIn c
  | .inputObject t => ∀ field ∈ t.fields.values, field.SoundIn c
  | .scalar _ => True
  | .enum _ => True

/-- All types of a catalog are sound. -/
def Catalog.Sound (c : Catalog) : Prop := ∀ definition ∈ c.types.values, definition.SoundIn c

instance (c : Catalog) (name : Name) : Decidable (c.IsInput name) :=
  decidable_of_iff ((c.enum? name).isSome = true ∨ (c.inputObject? name).isSome = true ∨
    c.isScalar name = true) (by simp only [Catalog.IsInput, Option.isSome_iff_exists])

instance (c : Catalog) (field : FieldDefinition) : Decidable (field.SoundIn c) :=
  inferInstanceAs (Decidable (field.type.WellMarked ∧ (_ = true ∨ _ = true)))

instance (c : Catalog) (field : InputValueDefinition) : Decidable (field.SoundIn c) :=
  inferInstanceAs (Decidable (_ ∧ _))

instance (c : Catalog) : (definition : TypeDefinition) → Decidable (definition.SoundIn c)
  | .object t => inferInstanceAs (Decidable (∀ field ∈ t.fields.values, field.SoundIn c))
  | .interface t => inferInstanceAs (Decidable (∀ field ∈ t.fields.values, field.SoundIn c))
  | .union t => inferInstanceAs (Decidable (∀ field ∈ t.fields.values, field.SoundIn c))
  | .inputObject t => inferInstanceAs (Decidable (∀ field ∈ t.fields.values, field.SoundIn c))
  | .scalar _ => inferInstanceAs (Decidable True)
  | .enum _ => inferInstanceAs (Decidable True)

instance (c : Catalog) : Decidable c.Sound :=
  inferInstanceAs (Decidable (∀ definition ∈ c.types.values, definition.SoundIn c))

namespace Catalog

variable {c : Catalog} {name : Name}

/-- The types of a sound schema are sound. -/
theorem Sound.get? (hsound : c.Sound) {definition : TypeDefinition}
    (h : c.get? name = some definition) : definition.SoundIn c :=
  hsound definition (List.mem_map_of_mem (OrderedMap.get?_eq_some_iff.mp h))

/-- Every field that can be selected on a type of a sound catalog is sound. -/
theorem Sound.declares (hsound : c.Sound) {type : CompositeType} {field : Name}
    {definition : FieldDefinition} (htype : c.composite? name = some type)
    (h : type.Declares field definition) : definition.SoundIn c := by
  cases h with
  | typename _ _ => exact ⟨by decide, Or.inl rfl⟩
  | own hown =>
      have hmem : definition ∈ type.fields.values :=
        List.mem_map_of_mem (OrderedMap.get?_eq_some_iff.mp hown)
      obtain ⟨found, hget, hof⟩ := Option.bind_eq_some_iff.mp htype
      have hfound := hsound.get? hget
      cases found with
      | object t =>
          cases hof
          exact hfound definition hmem
      | interface t =>
          cases hof
          exact hfound definition hmem
      | union t =>
          cases hof
          exact hfound definition hmem
      | scalar t => cases hof
      | enum t => cases hof
      | inputObject t => cases hof

/-- The fields of the input objects of a sound schema are sound. -/
theorem Sound.inputField (hsound : c.Sound) {o : InputObjectType} {field : InputValueDefinition}
    (ho : c.inputObject? name = some o) (hfield : field ∈ o.fields.values) : field.SoundIn c := by
  obtain ⟨found, hget, hof⟩ := Option.bind_eq_some_iff.mp ho
  have hfound := hsound.get? hget
  cases found with
  | inputObject t =>
      cases hof
      exact hfound field hfield
  | scalar t => cases hof
  | object t => cases hof
  | interface t => cases hof
  | union t => cases hof
  | enum t => cases hof

/-- Every type of a catalog can be selected on or sent. -/
theorem exists_composite?_of_not_isInput {definition : TypeDefinition}
    (hget : c.get? name = some definition) (h : ¬ c.IsInput name) :
    ∃ type, c.composite? name = some type := by
  simp only [IsInput, isScalar, enum?, inputObject?, scalar?, hget] at h
  simp only [composite?, hget]
  cases definition with
  | object t => exact ⟨_, rfl⟩
  | interface t => exact ⟨_, rfl⟩
  | union t => exact ⟨_, rfl⟩
  | scalar t => simp [TypeDefinition.scalar?] at h
  | enum t => simp [TypeDefinition.enum?] at h
  | inputObject t => simp [TypeDefinition.inputObject?] at h

end Catalog

/-! ### Selections -/

/-- On a sound schema a selection never fails with an inconsistency, at any depth. -/
theorem Selection.Fails.ne_inconsistency {s : Scope} {type : CompositeType}
    {traversed : List SelectedField} {selection : Selection} {failure : Failure}
    (h : selection.Fails s type traversed failure) (hsound : s.catalog.Sound)
    (hlisted : ∃ name, s.catalog.composite? name = some type) (e : Inconsistency) :
    failure ≠ .inconsistency e := by
  induction h with
  | broken _ => exact nofun
  | contradicted hcontradicts =>
      obtain ⟨name, htype⟩ := hlisted
      cases hcontradicts with
      | type hdeclares hresolve =>
          obtain ⟨resolved, hresolved⟩ :=
            TypeRef.exists_resolve_eq_ok_iff.mpr
              (hsound.declares htype hdeclares).1
          rw [Catalog.resolve, hresolved] at hresolve
          cases hresolve
      | nowhere hdeclares hscalar hget _ =>
          have hknown := (hsound.declares htype hdeclares).2
          simp [Catalog.IsKnown, hscalar, hget] at hknown
  | subfield _ _ hnested _ _ ih => exact ih hsound ⟨_, hnested⟩
  | inline hon _ _ ih =>
      apply ih hsound
      cases hon with
      | bare => exact hlisted
      | condition hcomposite _ => exact ⟨_, hcomposite⟩

/-! ### Variables -/

/-- What the type of a variable brings to light: a type that can only be selected on, or none at
all. -/
inductive VariableDefinition.Blamed (v : VariableDefinition) (c : Catalog) : Inconsistency → Prop
  | output {type : CompositeType} : c.composite? v.type.innermost = some type →
      Blamed v c (.unexpectedTypeKind v.type.innermost ("$" ++ v.name)
        "a scalar, enum, or input object type")
  | unknown : c.get? v.type.innermost = none → BuiltInScalar.ofName? v.type.innermost = none →
      Blamed v c (.unresolvedType v.type.innermost ("`$" ++ v.name ++ "`"))

/-- An inconsistency that is found elsewhere than at a variable: between selection sets that are to
be merged, at a type with one non-null marker on another, at the root of an operation or at a
field. -/
inductive Inconsistency.Elsewhere : Inconsistency → Prop
  | mergedTypes {type other : Name} : Elsewhere (.mergeTypeMismatch type other)
  | mergedPaths {type : Name} {path other : String} :
      Elsewhere (.mergePathMismatch type path other)
  | marker {type : TypeRef} : Elsewhere (.doubleNonNull type)
  | root {type : Name} {kind : OperationKind} :
      Elsewhere (.unresolvedType type ("the " ++ kind.keyword ++ " root operation"))
  | field {type field : Name} : Elsewhere (.unresolvedType type ("field `" ++ field ++ "`"))

/-- A variable is blamed for its own fault only. -/
theorem VariableDefinition.Blamed.not_elsewhere {v : VariableDefinition} {c : Catalog}
    {e : Inconsistency} (h : v.Blamed c e) : ¬ e.Elsewhere := by
  intro helsewhere
  cases h with
  | output _ => cases helsewhere
  | unknown _ _ =>
      -- The words for what refers to the type begin with different characters.
      generalize hwords : "`$" ++ v.name ++ "`" = words at helsewhere
      cases helsewhere with
      | root => simpa using congrArg String.toList hwords
      | field => simpa using congrArg String.toList hwords

/-- On a sound schema only the references that a run starts with can end it: what input objects
refer to can be followed. -/
theorem Dependencies.exists_reference_of_collect {c : Catalog} (hsound : c.Sound)
    {d : Dependencies} {references : List TypeReference} {e : Inconsistency}
    (h : collect c d references = .error e) :
    ∃ r ∈ references, ¬ c.IsInput r.type ∧ r.check c = .error e := by
  fun_induction collect c d references with
  | case1 d => cases h
  | case2 d r rest type henum ih =>
      obtain ⟨other, hmem, hother⟩ := ih h
      exact ⟨other, List.mem_cons_of_mem _ hmem, hother⟩
  | case3 d r rest _ o ho hseen ih =>
      obtain ⟨other, hmem, hother⟩ := ih h
      exact ⟨other, List.mem_cons_of_mem _ hmem, hother⟩
  | case4 d r rest _ o ho _ e' he =>
      -- The types of input fields are well marked, so that resolving them does not fail.
      have hmarked : ∀ field ∈ o.fields.values, field.type.WellMarked :=
        fun field hfield => (hsound.inputField ho hfield).1
      obtain ⟨fields, hfields⟩ := InputObjectType.exists_resolveFields_eq_ok_iff.mpr hmarked
      rw [he] at hfields
      cases hfields
  | case5 d r rest _ o ho _ fields hfields _ ih =>
      obtain ⟨other, hmem, hinput, hother⟩ := ih h
      -- The fault is not with a field of the input object, whose type can be sent.
      rcases List.mem_append.mp hmem with hfields | hrest
      · obtain ⟨field, hfield, rfl⟩ := List.mem_map.mp hfields
        exact absurd (hsound.inputField ho hfield).2 hinput
      · exact ⟨other, List.mem_cons_of_mem _ hrest, hinput, hother⟩
  | case6 d r rest henum ho e' he =>
      cases h
      refine ⟨r, List.mem_cons_self, ?_, he⟩
      rintro (⟨type, htype⟩ | ⟨o, hinput⟩ | hscalar)
      · rw [henum] at htype
        cases htype
      · rw [ho] at hinput
        cases hinput
      · rw [TypeReference.check_eq_ok_iff.mpr hscalar] at he
        cases he
  | case7 d r rest henum ho hcheck ih =>
      obtain ⟨other, hmem, hother⟩ := ih h
      exact ⟨other, List.mem_cons_of_mem _ hmem, hother⟩

/-- A variable whose type cannot be sent is to blame for what checking it reports. -/
theorem VariableDefinition.blamed_of_check {v : VariableDefinition} {c : Catalog}
    {e : Inconsistency} (hinput : ¬ c.IsInput v.type.innermost)
    (h : (TypeReference.ofVariable v.name v.type).check c = .error e) : v.Blamed c e := by
  have hscalar : ¬ c.isScalar v.type.innermost = true := fun hs => hinput (Or.inr (Or.inr hs))
  unfold TypeReference.check TypeReference.ofVariable at h
  rw [if_neg hscalar] at h
  cases hget : c.get? v.type.innermost with
  | some definition =>
      obtain ⟨type, htype⟩ := Catalog.exists_composite?_of_not_isInput hget hinput
      simp only [hget, Except.error.injEq] at h
      exact h ▸ .output htype
  | none =>
      have hbuiltIn : BuiltInScalar.ofName? v.type.innermost = none := by
        cases hname : BuiltInScalar.ofName? v.type.innermost with
        | none => rfl
        | some scalar => simp [Catalog.isScalar, hname] at hscalar
      simp only [hget, Except.error.injEq] at h
      have hwords : "`" ++ ("$" ++ v.name) ++ "`" = "`$" ++ v.name ++ "`" := by
        rw [← String.append_assoc]
        rfl
      rw [← h, hwords]
      exact .unknown hget hbuiltIn

/-! ### Documents -/

/-- On a sound schema an operation fails with an inconsistency only because of one of its
variables. -/
theorem Operation.Fails.exists_blamed {configuration : Configuration}
    {schema : Introspection.Schema} {c : Catalog} {o : Operation}
    {fragments : OrderedMap Name Fragment} {failure : Failure} {e : Inconsistency}
    (h : o.Fails c fragments failure) (hfailure : failure = .inconsistency e)
    (hc : Catalog.ofSchema configuration schema = .ok c) (hsound : c.Sound)
    (hmarked : ∀ v ∈ o.parameters, v.type.WellMarked) :
    Dependencies.empty.collect c (o.parameters.map fun v => .ofVariable v.name v.type) = .error e ∧
      ∃ v ∈ o.parameters, v.Blamed c e := by
  cases h with
  | anonymous _ => cases hfailure
  | undefinedRoot _ _ => cases hfailure
  | default _ _ _ _ => cases hfailure
  | unresolvedRoot hroot hcomposite =>
      obtain ⟨type, hget⟩ := Catalog.object_of_root? hc hroot
      simp [Catalog.composite?, hget, CompositeType.of?] at hcomposite
  | parameter hv hresolve =>
      obtain ⟨resolved, hresolved⟩ :=
        (@TypeRef.exists_resolve_eq_ok_iff c.typeBase _).mpr (hmarked _ hv)
      rw [Catalog.resolve, hresolved] at hresolve
      cases hresolve
  | selection _ _ htype _ hfails =>
      exact absurd hfailure (hfails.ne_inconsistency hsound ⟨_, htype⟩ e)
  | needs hcollect =>
      cases hfailure
      refine ⟨hcollect, ?_⟩
      obtain ⟨r, hr, hinput, hcheck⟩ := Dependencies.exists_reference_of_collect hsound hcollect
      obtain ⟨v, hv, rfl⟩ := List.mem_map.mp hr
      exact ⟨v, hv, VariableDefinition.blamed_of_check hinput hcheck⟩

/-- Fragments find no fault with a sound schema. -/
theorem Fragment.Fails.ne_inconsistency {c : Catalog} {f : Fragment}
    {fragments : OrderedMap Name Fragment} {failure : Failure} (h : f.Fails c fragments failure)
    (hsound : c.Sound) (e : Inconsistency) : failure ≠ .inconsistency e := by
  cases h with
  | undefinedCondition _ => exact nofun
  | selection htype _ hfails => exact hfails.ne_inconsistency hsound ⟨_, htype⟩ e

namespace Registry

/-- Documents that are compiled against the catalog of a sound schema, and whose variables have
types that can be resolved, fail with an inconsistency only while the types of the variables of some
operation are followed, and then because of a variable whose type can only be selected on or does
not exist. No inconsistency is found anywhere else. -/
theorem inconsistency_of_compile {configuration : Configuration} {schema : Introspection.Schema}
    {c : Catalog} {r : Registry} {e : Inconsistency}
    (hc : Catalog.ofSchema configuration schema = .ok c) (hsound : c.Sound)
    (hmarked : ∀ o ∈ r.operations.values, ∀ v ∈ o.parameters, v.type.WellMarked)
    (h : r.compile c = .error (.inconsistency e)) :
    (∃ o ∈ r.operations.values,
      Dependencies.empty.collect c (o.parameters.map fun v => .ofVariable v.name v.type) =
        .error e ∧
      ∃ v ∈ o.parameters, v.Blamed c e) ∧
    ¬ e.Elsewhere := by
  rcases exists_fails_of_compile h with ⟨o, ho, hfails⟩ | ⟨f, _, hfails⟩
  · obtain ⟨hcollect, v, hv, hblamed⟩ := hfails.exists_blamed rfl hc hsound (hmarked o ho)
    exact ⟨⟨o, ho, hcollect, v, hv, hblamed⟩, hblamed.not_elsewhere⟩
  · exact absurd rfl (hfails.ne_inconsistency hsound e)

end Registry

/-- A sound schema with an input object that refers to itself. -/
def Introspection.Schema.orders : Introspection.Schema where
  queryType := some ⟨none, "Query"⟩
  mutationType := none
  subscriptionType := none
  types := [
    ⟨.object, some "Query", none, [⟨"order", none, [], .named "Order", false, none⟩], [], [], [],
      [], none⟩,
    ⟨.object, some "Order", none,
      [⟨"state", none, [], .nonNull (.named "State"), false, none⟩,
        ⟨"related", none, [], .list (.nonNull (.named "Order")), false, none⟩],
      [], [], [], [], none⟩,
    ⟨.enum, some "State", none, [], [], [], [], [], none⟩,
    ⟨.inputObject, some "Filter", none, [],
      [⟨"state", none, .named "State", none⟩,
        ⟨"any", none, .list (.nonNull (.named "Filter")), none⟩],
      [], [], [], none⟩]

/-- A query with a variable that can be sent and one that cannot. -/
def Registry.orders : Registry where
  sources := .empty
  operations := .ofList [("Find", ⟨none, .query, some "Find",
    [⟨none, "filter", none, .nonNull (.named "Filter"), none, []⟩,
      ⟨none, "order", none, .list (.named "Order"), none, []⟩], [],
    [.field none none "order" [] [] [.field none none "state" [] [] []]]⟩)]
  fragments := .empty

namespace Registry

/-- The input object is followed through its circle, and the variable of an object type is
blamed. -/
theorem inconsistency_orders :
    ∃ c, ∃ e : Inconsistency, Catalog.ofSchema .standard .orders = .ok c ∧ c.Sound ∧
      e = .unexpectedTypeKind "Order" "$order" "a scalar, enum, or input object type" ∧
      Registry.orders.compile c = .error (.inconsistency e) ∧
      (∃ o ∈ Registry.orders.operations.values, ∃ v ∈ o.parameters, v.Blamed c e) ∧
      ¬ e.Elsewhere := by
  have hcomputed : ((Catalog.ofSchema .standard .orders).toOption.map fun c =>
      (decide c.Sound, Registry.orders.compile c)) = some (true, .error (.inconsistency
        (.unexpectedTypeKind "Order" "$order" "a scalar, enum, or input object type"))) := by
    cbv
  obtain ⟨c, hc, hresults⟩ := Option.map_eq_some_iff.mp hcomputed
  obtain ⟨hsound, hcompile⟩ := Prod.mk.inj hresults
  have hc := toOption_eq_some_iff.mp hc
  have hsound := of_decide_eq_true hsound
  have hmarked : ∀ o ∈ Registry.orders.operations.values, ∀ v ∈ o.parameters,
      v.type.WellMarked := by
    decide
  obtain ⟨⟨o, ho, _, hblamed⟩, helsewhere⟩ := inconsistency_of_compile hc hsound hmarked hcompile
  exact ⟨c, _, hc, hsound, rfl, hcompile, ⟨o, ho, hblamed⟩, helsewhere⟩

end Registry

end QueryCompiler
