import QueryCompiler.Compiled
import QueryCompiler.Proofs.Nullability
import QueryCompiler.Proofs.OrderedMap

/-!
# Dependencies are the reachable closure

The names that variables reach are the innermost names of their types and, for every input object
among them, those of its fields. Following references takes up each of these names and no other, on
every catalog: input objects that refer to each other in circles are taken up once. It fails exactly
if it meets a name that cannot be sent, or an input object with a field that cannot be resolved.

The work is described by what one reference can do (`Dependencies.Takes`); what holds of a whole run
is derived from that.
-/

namespace QueryCompiler

open Outcome

namespace Catalog

/-- The type names that given names lead to through the fields of input objects. -/
inductive Reaches (c : Catalog) (roots : List Name) : Name → Prop
  | root {name : Name} : name ∈ roots → Reaches c roots name
  | field {name : Name} {o : InputObjectType} {field : InputValueDefinition} :
      Reaches c roots name → c.inputObject? name = some o → field ∈ o.fields.values →
      Reaches c roots field.type.innermost

/-- The name of a type whose values can be sent: an enum, an input object or a scalar. -/
def IsInput (c : Catalog) (name : Name) : Prop :=
  (∃ type, c.enum? name = some type) ∨ (∃ o, c.inputObject? name = some o) ∨
    c.isScalar name = true

/-- Every field of the input object of a name, if it is one, has a type that can be resolved. -/
def FieldsWellMarked (c : Catalog) (name : Name) : Prop :=
  ∀ o, c.inputObject? name = some o → ∀ field ∈ o.fields.values, field.type.WellMarked

/-- Names that are reached from reached names are reached. -/
theorem Reaches.trans {c : Catalog} {roots others : List Name} {name : Name}
    (h : c.Reaches others name) (hothers : ∀ other ∈ others, c.Reaches roots other) :
    c.Reaches roots name := by
  induction h with
  | root hmem => exact hothers _ hmem
  | field _ ho hfield ih => exact .field ih ho hfield

/-- More names lead to more. -/
theorem Reaches.cons {c : Catalog} {roots : List Name} {root name : Name}
    (h : c.Reaches roots name) : c.Reaches (root :: roots) name :=
  h.trans fun _ hother => .root (List.mem_cons_of_mem _ hother)

/-- No name is that of an enum and of an input object. -/
theorem inputObject?_eq_none_of_enum? {c : Catalog} {name : Name} {type : EnumType}
    (h : c.enum? name = some type) : c.inputObject? name = none := by
  simp only [enum?, inputObject?] at h ⊢
  cases hget : c.get? name with
  | none => rfl
  | some definition =>
      rw [hget] at h
      cases definition with
      | enum t => rfl
      | scalar t => cases h
      | object t => cases h
      | interface t => cases h
      | union t => cases h
      | inputObject t => cases h

end Catalog

namespace InputObjectType

variable {o : InputObjectType} {c : Catalog}

/-- The fields of an input object are resolved one by one, each from its own declaration. -/
theorem resolveFields_eq_ok_iff {fields : List ResolvedInput} :
    o.resolveFields c = .ok fields ↔
      fields.map ResolvedInput.definition = o.fields.values ∧
        ∀ field ∈ fields, c.resolve field.definition.type = .ok field.type := by
  rw [resolveFields, mapM_eq_ok_iff]
  simp only [bind_eq_ok_iff, pure_eq_ok_iff]
  generalize o.fields.values = declarations
  induction declarations generalizing fields with
  | nil =>
      rw [List.forall₂_nil_left_iff, List.map_eq_nil_iff]
      constructor
      · rintro rfl
        exact ⟨rfl, by simp⟩
      · exact And.left
  | cons declaration rest ih =>
      rw [List.forall₂_cons_left_iff]
      constructor
      · rintro ⟨field, others, ⟨type, htype, rfl⟩, hothers, rfl⟩
        obtain ⟨hmap, hall⟩ := ih.mp hothers
        refine ⟨by simp [hmap], ?_⟩
        rw [List.forall_mem_cons]
        exact ⟨htype, hall⟩
      · rintro ⟨hmap, hall⟩
        cases fields with
        | nil => cases hmap
        | cons field others =>
            obtain ⟨rfl, hothers⟩ := List.cons.inj hmap
            rw [List.forall_mem_cons] at hall
            exact ⟨field, others, ⟨field.type, hall.1, rfl⟩, ih.mpr ⟨hothers, hall.2⟩, rfl⟩

/-- The fields of an input object can be resolved exactly if all of their types can. -/
theorem exists_resolveFields_eq_ok_iff :
    (∃ fields, o.resolveFields c = .ok fields) ↔
      ∀ field ∈ o.fields.values, field.type.WellMarked := by
  rw [resolveFields, exists_mapM_eq_ok_iff]
  apply forall₂_congr
  intro field _
  rw [← @TypeRef.exists_resolve_eq_ok_iff c.typeBase]
  simp only [bind_eq_ok_iff, pure_eq_ok_iff, Catalog.resolve]
  constructor
  · rintro ⟨_, type, htype, _⟩
    exact ⟨type, htype⟩
  · rintro ⟨type, htype⟩
    exact ⟨_, type, htype, rfl⟩

end InputObjectType

/-- A reference to something that is no enum and no input object must lead to a scalar. -/
theorem TypeReference.check_eq_ok_iff {r : TypeReference} {c : Catalog} :
    r.check c = .ok () ↔ c.isScalar r.type = true := by
  unfold TypeReference.check
  by_cases h : c.isScalar r.type = true
  · simp [h]
  · rw [if_neg h, iff_false_right h]
    cases c.get? r.type <;> simp

namespace Dependencies

variable {c : Catalog} {roots : List Name} {d next result : Dependencies}
  {r : TypeReference} {more references : List TypeReference}

/-! ### One reference -/

/-- What following one reference can do: what is needed then, and the references that come up. -/
inductive Takes (c : Catalog) (d : Dependencies) (r : TypeReference) :
    Dependencies → List TypeReference → Prop
  | enum {type : EnumType} : c.enum? r.type = some type →
      Takes c d r ⟨d.enums.insertNew r.type type, d.inputObjects⟩ []
  | seen {o : InputObjectType} : c.inputObject? r.type = some o →
      d.inputObjects.contains r.type = true → Takes c d r d []
  | input {o : InputObjectType} {fields : List ResolvedInput} :
      c.inputObject? r.type = some o → o.resolveFields c = .ok fields →
      Takes c d r ⟨d.enums, d.inputObjects.insert r.type ⟨o, fields⟩⟩
        (TypeReference.ofFields r.type o)
  | scalar : c.isScalar r.type = true → c.enum? r.type = none → c.inputObject? r.type = none →
      Takes c d r d []

/-- References followed one after the other, until none is left. -/
inductive Follows (c : Catalog) : Dependencies → List TypeReference → Dependencies → Prop
  | done {d : Dependencies} : Follows c d [] d
  | step {d next result : Dependencies} {r : TypeReference} {more rest : List TypeReference} :
      Takes c d r next more → Follows c next (more ++ rest) result → Follows c d (r :: rest) result

/-- A search that succeeds followed its references one after the other. -/
theorem follows_of_collect (h : collect c d references = .ok result) :
    Follows c d references result := by
  fun_induction collect c d references with
  | case1 d =>
      cases h
      exact .done
  | case2 d r rest type henum ih => exact .step (.enum henum) (ih h)
  | case3 d r rest _ o ho hseen ih => exact .step (.seen ho hseen) (ih h)
  | case4 d r rest _ o ho _ e he => cases h
  | case5 d r rest _ o ho _ fields hfields _ ih => exact .step (.input ho hfields) (ih h)
  | case6 d r rest _ _ e he => cases h
  | case7 d r rest henum ho hcheck ih =>
      exact .step (.scalar (TypeReference.check_eq_ok_iff.mp hcheck) henum ho) (ih h)

/-! ### Nothing else is taken up -/

/-- Whatever is needed is reached, and is held with the catalog's own definition. -/
structure OnlyReached (c : Catalog) (roots : List Name) (d : Dependencies) : Prop where
  enums : ∀ name type, d.enums.get? name = some type →
    c.Reaches roots name ∧ c.enum? name = some type
  inputObjects : ∀ name resolved, d.inputObjects.get? name = some resolved →
    c.Reaches roots name ∧ c.inputObject? name = some resolved.definition ∧
      resolved.definition.resolveFields c = .ok resolved.fields

private theorem onlyReached_empty : OnlyReached c roots empty :=
  ⟨fun _ _ h => by simp [empty] at h, fun _ _ h => by simp [empty] at h⟩

/-- A reference that is reached brings up references that are reached. -/
theorem Takes.reaches_more (h : Takes c d r next more) (hr : c.Reaches roots r.type) :
    ∀ other ∈ more, c.Reaches roots other.type := by
  cases h with
  | enum _ => simp
  | seen _ _ => simp
  | scalar _ _ _ => simp
  | input ho _ =>
      intro other hother
      obtain ⟨field, hfield, rfl⟩ := List.mem_map.mp hother
      exact .field hr ho hfield

/-- A step that takes up a reached reference holds nothing that is not reached. -/
theorem Takes.onlyReached (h : Takes c d r next more) (hr : c.Reaches roots r.type)
    (hd : OnlyReached c roots d) : OnlyReached c roots next := by
  cases h with
  | seen _ _ => exact hd
  | scalar _ _ _ => exact hd
  | @enum type henum =>
      refine ⟨?_, hd.inputObjects⟩
      intro name found hget
      rw [OrderedMap.get?_insertNew, Option.or_eq_some_iff] at hget
      rcases hget with hold | ⟨_, hnew⟩
      · exact hd.enums name found hold
      · by_cases hname : name = r.type
        · rw [if_pos hname, Option.some.injEq] at hnew
          rw [hname, ← hnew]
          exact ⟨hr, henum⟩
        · rw [if_neg hname] at hnew
          cases hnew
  | @input o fields ho hfields =>
      refine ⟨hd.enums, ?_⟩
      intro name resolved hget
      rw [OrderedMap.get?_insert] at hget
      by_cases hname : name = r.type
      · rw [if_pos hname, Option.some.injEq] at hget
        rw [hname, ← hget]
        exact ⟨hr, ho, hfields⟩
      · rw [if_neg hname] at hget
        exact hd.inputObjects name resolved hget

/-- A run takes up nothing but what its references reach. -/
theorem Follows.onlyReached (h : Follows c d references result)
    (hreferences : ∀ r ∈ references, c.Reaches roots r.type) (hd : OnlyReached c roots d) :
    OnlyReached c roots result := by
  induction h with
  | done => exact hd
  | step htakes _ ih =>
      rw [List.forall_mem_cons] at hreferences
      refine ih ?_ (htakes.onlyReached hreferences.1 hd)
      rw [List.forall_mem_append]
      exact ⟨htakes.reaches_more hreferences.1, hreferences.2⟩

/-! ### Everything is taken up -/

/-- A name that need not be followed any more. -/
def TakenUp (c : Catalog) (d : Dependencies) (name : Name) : Prop :=
  (∃ type, c.enum? name = some type ∧ d.enums.contains name = true) ∨
    (∃ o, c.inputObject? name = some o ∧ d.inputObjects.contains name = true) ∨
    (c.isScalar name = true ∧ c.enum? name = none ∧ c.inputObject? name = none)

/-- The fields of input objects lead to names that are taken up or still referred to. The references
that an input object makes are pending from the moment on when it is taken up itself, so this holds
also inside a circle of input objects. -/
def Frontier (c : Catalog) (d : Dependencies) (pending : List TypeReference) : Prop :=
  ∀ name o, d.inputObjects.contains name = true → c.inputObject? name = some o →
    ∀ field ∈ o.fields.values,
      TakenUp c d field.type.innermost ∨ ∃ r ∈ pending, r.type = field.type.innermost

/-- What is taken up can be sent. -/
theorem TakenUp.isInput {name : Name} (h : TakenUp c d name) : c.IsInput name := by
  rcases h with ⟨type, henum, _⟩ | ⟨o, ho, _⟩ | ⟨hscalar, _⟩
  · exact Or.inl ⟨type, henum⟩
  · exact Or.inr (Or.inl ⟨o, ho⟩)
  · exact Or.inr (Or.inr hscalar)

/-- An enum that is taken up is held. -/
theorem TakenUp.contains_enum {name : Name} {type : EnumType} (h : TakenUp c d name)
    (htype : c.enum? name = some type) : d.enums.contains name = true := by
  rcases h with ⟨_, _, hheld⟩ | ⟨o, ho, _⟩ | ⟨_, hnone, _⟩
  · exact hheld
  · rw [Catalog.inputObject?_eq_none_of_enum? htype] at ho
    cases ho
  · rw [htype] at hnone
    cases hnone

/-- An input object that is taken up is held. -/
theorem TakenUp.contains_inputObject {name : Name} {o : InputObjectType} (h : TakenUp c d name)
    (ho : c.inputObject? name = some o) : d.inputObjects.contains name = true := by
  rcases h with ⟨type, henum, _⟩ | ⟨_, _, hheld⟩ | ⟨_, _, hnone⟩
  · rw [Catalog.inputObject?_eq_none_of_enum? henum] at ho
    cases ho
  · exact hheld
  · rw [ho] at hnone
    cases hnone

/-- Following a reference drops nothing. -/
theorem Takes.contains_mono (h : Takes c d r next more) (name : Name) :
    (d.enums.contains name = true → next.enums.contains name = true) ∧
      (d.inputObjects.contains name = true → next.inputObjects.contains name = true) := by
  cases h with
  | seen _ _ => exact ⟨id, id⟩
  | scalar _ _ _ => exact ⟨id, id⟩
  | enum _ =>
      refine ⟨?_, id⟩
      intro hheld
      obtain ⟨old, hold⟩ := OrderedMap.contains_iff.mp hheld
      exact OrderedMap.contains_iff.mpr ⟨old, by rw [OrderedMap.get?_insertNew, hold]; rfl⟩
  | input _ _ =>
      refine ⟨id, ?_⟩
      intro hheld
      simp [OrderedMap.contains_insert, hheld]

/-- What is taken up stays so. -/
theorem TakenUp.mono {name : Name} (h : TakenUp c d name) (htakes : Takes c d r next more) :
    TakenUp c next name := by
  obtain ⟨henums, hinputs⟩ := htakes.contains_mono name
  rcases h with ⟨type, htype, hheld⟩ | ⟨o, ho, hheld⟩ | hscalar
  · exact Or.inl ⟨type, htype, henums hheld⟩
  · exact Or.inr (Or.inl ⟨o, ho, hinputs hheld⟩)
  · exact Or.inr (Or.inr hscalar)

/-- The name that a reference leads to is taken up when the reference is followed. -/
theorem Takes.takenUp (h : Takes c d r next more) : TakenUp c next r.type := by
  cases h with
  | @enum type henum =>
      refine Or.inl ⟨type, henum, OrderedMap.contains_iff.mpr ?_⟩
      rw [OrderedMap.get?_insertNew, if_pos rfl]
      cases d.enums.get? r.type with
      | none => exact ⟨type, rfl⟩
      | some old => exact ⟨old, rfl⟩
  | @seen o ho hheld => exact Or.inr (Or.inl ⟨o, ho, hheld⟩)
  | @input o fields ho _ => exact Or.inr (Or.inl ⟨o, ho, by simp [OrderedMap.contains_insert]⟩)
  | scalar hscalar henum ho => exact Or.inr (Or.inr ⟨hscalar, henum, ho⟩)

/-- An input object that is held after a step was held before, or its fields have come up. -/
theorem Takes.old_or_field (h : Takes c d r next more) {name : Name} {o : InputObjectType}
    (hheld : next.inputObjects.contains name = true) (ho : c.inputObject? name = some o) :
    d.inputObjects.contains name = true ∨
      ∀ field ∈ o.fields.values, ∃ r ∈ more, r.type = field.type.innermost := by
  cases h with
  | enum _ => exact Or.inl hheld
  | seen _ _ => exact Or.inl hheld
  | scalar _ _ _ => exact Or.inl hheld
  | @input taken fields htaken _ =>
      rw [OrderedMap.contains_insert, Bool.or_eq_true, decide_eq_true_eq] at hheld
      rcases hheld with rfl | hold
      · rw [htaken, Option.some.injEq] at ho
        subst ho
        right
        intro field hfield
        exact ⟨_, List.mem_map_of_mem hfield, rfl⟩
      · exact Or.inl hold

/-- A step replaces its reference by those that it brings up. -/
theorem Takes.frontier {rest : List TypeReference} (h : Takes c d r next more)
    (hd : Frontier c d (r :: rest)) : Frontier c next (more ++ rest) := by
  intro name o hheld ho field hfield
  rcases h.old_or_field hheld ho with hold | hmore
  · rcases hd name o hold ho field hfield with htaken | ⟨other, hother, htype⟩
    · exact Or.inl (htaken.mono h)
    · rcases List.mem_cons.mp hother with rfl | hrest
      · exact Or.inl (htype ▸ h.takenUp)
      · exact Or.inr ⟨other, List.mem_append_right _ hrest, htype⟩
  · obtain ⟨other, hother, htype⟩ := hmore field hfield
    exact Or.inr ⟨other, List.mem_append_left _ hother, htype⟩

/-- A run keeps what was taken up, takes up all that it was asked for, and leaves nothing open. -/
theorem Follows.takenUp (h : Follows c d references result) (hd : Frontier c d references) :
    Frontier c result [] ∧ ∀ name,
      TakenUp c d name ∨ (∃ r ∈ references, r.type = name) → TakenUp c result name := by
  induction h with
  | done => exact ⟨hd, fun name hname => by simpa using hname⟩
  | @step d next result r more rest htakes _ ih =>
      obtain ⟨hfrontier, hall⟩ := ih (htakes.frontier hd)
      refine ⟨hfrontier, ?_⟩
      rintro name (htaken | ⟨other, hother, rfl⟩)
      · exact hall name (Or.inl (htaken.mono htakes))
      · rcases List.mem_cons.mp hother with rfl | hrest
        · exact hall _ (Or.inl htakes.takenUp)
        · exact hall _ (Or.inr ⟨other, List.mem_append_right _ hrest, rfl⟩)

/-- A run from nothing takes up every name that its references reach. -/
theorem Follows.takenUp_of_reaches (h : Follows c empty references result) {name : Name}
    (hname : c.Reaches (references.map TypeReference.type) name) : TakenUp c result name := by
  have hempty : Frontier c empty references := fun _ _ hheld => by cases hheld
  obtain ⟨hfrontier, hall⟩ := h.takenUp hempty
  induction hname with
  | root hmem => exact hall _ (Or.inr (List.mem_map.mp hmem))
  | field _ ho hfield ih =>
      have hheld := ih.contains_inputObject ho
      rcases hfrontier _ _ hheld ho _ hfield with htaken | ⟨_, hnone, _⟩
      · exact htaken
      · cases hnone

/-! ### Success -/

/-- Nothing ends a run early if every name that is reached can be sent and resolved. -/
theorem exists_collect_eq_ok (h : ∀ name, c.Reaches (references.map TypeReference.type) name →
    c.IsInput name ∧ c.FieldsWellMarked name) : ∃ result, collect c d references = .ok result := by
  fun_induction collect c d references with
  | case1 d => exact ⟨d, rfl⟩
  | case2 d r rest type henum ih =>
      exact ih fun name hname => h name hname.cons
  | case3 d r rest _ o ho hseen ih =>
      exact ih fun name hname => h name hname.cons
  | case4 d r rest _ o ho _ e he =>
      have hmarked := (h r.type (.root List.mem_cons_self)).2 o ho
      obtain ⟨fields, hfields⟩ := InputObjectType.exists_resolveFields_eq_ok_iff.mpr hmarked
      rw [he] at hfields
      cases hfields
  | case5 d r rest _ o ho _ fields hfields _ ih =>
      -- What the fields of the input object lead to was reached from it already.
      apply ih
      intro name hname
      refine h name (hname.trans ?_)
      rw [List.map_append, List.forall_mem_append]
      constructor
      · intro other hother
        obtain ⟨_, hreference, rfl⟩ := List.mem_map.mp hother
        obtain ⟨field, hfield, rfl⟩ := List.mem_map.mp hreference
        exact .field (.root List.mem_cons_self) ho hfield
      · intro other hother
        exact .root (List.mem_cons_of_mem _ hother)
  | case6 d r rest henum ho e he =>
      have hinput := (h r.type (.root List.mem_cons_self)).1
      have hcheck : r.check c = .ok () := by
        rw [TypeReference.check_eq_ok_iff]
        simpa [Catalog.IsInput, henum, ho] using hinput
      rw [he] at hcheck
      cases hcheck
  | case7 d r rest henum ho hcheck ih =>
      exact ih fun name hname => h name hname.cons

/-! ### Runs from nothing -/

/-- A run from nothing finds what is reached and nothing else. -/
theorem onlyReached_of_collect {result : Dependencies}
    (h : collect c empty references = .ok result) :
    OnlyReached c (references.map TypeReference.type) result :=
  (follows_of_collect h).onlyReached (fun _ hr => .root (List.mem_map_of_mem hr))
    onlyReached_empty

/-- A run from nothing finds the enums among the names that are reached. -/
theorem mem_keys_enums_iff {result : Dependencies} (h : collect c empty references = .ok result)
    {name : Name} :
    name ∈ result.enums.keys ↔ c.Reaches (references.map TypeReference.type) name ∧
      ∃ type, c.enum? name = some type := by
  rw [OrderedMap.mem_keys_iff]
  constructor
  · rintro ⟨type, hget⟩
    obtain ⟨hreached, htype⟩ := (onlyReached_of_collect h).enums name type hget
    exact ⟨hreached, type, htype⟩
  · rintro ⟨hreached, type, htype⟩
    have htaken := (follows_of_collect h).takenUp_of_reaches hreached
    exact OrderedMap.contains_iff.mp (htaken.contains_enum htype)

/-- A run from nothing finds the input objects among the names that are reached. -/
theorem mem_keys_inputObjects_iff {result : Dependencies}
    (h : collect c empty references = .ok result) {name : Name} :
    name ∈ result.inputObjects.keys ↔ c.Reaches (references.map TypeReference.type) name ∧
      ∃ o, c.inputObject? name = some o := by
  rw [OrderedMap.mem_keys_iff]
  constructor
  · rintro ⟨resolved, hget⟩
    obtain ⟨hreached, ho, _⟩ := (onlyReached_of_collect h).inputObjects name resolved hget
    exact ⟨hreached, _, ho⟩
  · rintro ⟨hreached, o, ho⟩
    have htaken := (follows_of_collect h).takenUp_of_reaches hreached
    exact OrderedMap.contains_iff.mp (htaken.contains_inputObject ho)

/-- A run from nothing succeeds exactly if every name that is reached can be sent and resolved. -/
theorem exists_collect_empty_iff :
    (∃ result, collect c empty references = .ok result) ↔
      ∀ name, c.Reaches (references.map TypeReference.type) name →
        c.IsInput name ∧ c.FieldsWellMarked name := by
  constructor
  · rintro ⟨result, h⟩ name hname
    have htaken := (follows_of_collect h).takenUp_of_reaches hname
    refine ⟨htaken.isInput, ?_⟩
    intro o ho
    obtain ⟨resolved, hget⟩ := OrderedMap.contains_iff.mp (htaken.contains_inputObject ho)
    obtain ⟨_, hdefinition, hfields⟩ :=
      (onlyReached_of_collect h).inputObjects name resolved hget
    rw [ho, Option.some.injEq] at hdefinition
    rw [hdefinition]
    exact InputObjectType.exists_resolveFields_eq_ok_iff.mp ⟨_, hfields⟩
  · exact exists_collect_eq_ok

end Dependencies

namespace Scope

variable {s : Scope} {parameters : List VariableDefinition}

/-- The type names that variables need, directly or through input objects. -/
def Needs (s : Scope) (parameters : List VariableDefinition) : Name → Prop :=
  s.catalog.Reaches (parameters.map fun v => v.type.innermost)

/-- The needs of variables are those of the references that the variables make. -/
theorem variableDependencies_eq_ok_iff {d : Dependencies} :
    s.variableDependencies parameters = .ok d ↔
      Dependencies.empty.collect s.catalog
        (parameters.map fun v => .ofVariable v.name v.type) = .ok d := by
  rw [variableDependencies, mapError_eq_ok_iff]

/-- A name that variables need is one that their references lead to. -/
theorem needs_iff {name : Name} :
    s.Needs parameters name ↔ s.catalog.Reaches
      ((parameters.map fun v => TypeReference.ofVariable v.name v.type).map TypeReference.type)
      name := by
  rw [List.map_map]
  rfl

/-- What variables need can be found exactly if every needed name can be sent and resolved. -/
theorem exists_variableDependencies_iff :
    (∃ d, s.variableDependencies parameters = .ok d) ↔
      ∀ name, s.Needs parameters name →
        s.catalog.IsInput name ∧ s.catalog.FieldsWellMarked name := by
  simp only [variableDependencies_eq_ok_iff, needs_iff]
  exact Dependencies.exists_collect_empty_iff

/-- The dependencies of variables are exactly the enums and input objects among the names that they
need, each once and with the catalog's own definition, also where input objects refer to each other
in circles. They are found exactly if every needed name is that of an enum, an input object or a
scalar, and no field of a needed input object has one non-null marker directly on another. -/
theorem variableDependencies_eq_closure (s : Scope) (parameters : List VariableDefinition) :
    ((∃ d, s.variableDependencies parameters = .ok d) ↔
      (∀ name, s.Needs parameters name → s.catalog.IsInput name) ∧
        ∀ name o, s.Needs parameters name → s.catalog.inputObject? name = some o →
          ∀ field ∈ o.fields.values, field.type.WellMarked) ∧
    ∀ d, s.variableDependencies parameters = .ok d →
      d.enums.keys.Nodup ∧ d.inputObjects.keys.Nodup ∧
      (∀ name, name ∈ d.enums.keys ↔
        s.Needs parameters name ∧ ∃ type, s.catalog.enum? name = some type) ∧
      (∀ name type, d.enums.get? name = some type → s.catalog.enum? name = some type) ∧
      (∀ name, name ∈ d.inputObjects.keys ↔
        s.Needs parameters name ∧ ∃ o, s.catalog.inputObject? name = some o) ∧
      ∀ name resolved, d.inputObjects.get? name = some resolved →
        s.catalog.inputObject? name = some resolved.definition ∧
        resolved.fields.map ResolvedInput.definition = resolved.definition.fields.values ∧
        ∀ field ∈ resolved.fields, s.catalog.resolve field.definition.type = .ok field.type := by
  constructor
  · rw [exists_variableDependencies_iff]
    constructor
    · intro h
      exact ⟨fun name hname => (h name hname).1, fun name o hname => (h name hname).2 o⟩
    · rintro ⟨hinput, hmarked⟩ name hname
      exact ⟨hinput name hname, fun o => hmarked name o hname⟩
  · intro d hd
    have hcollect := variableDependencies_eq_ok_iff.mp hd
    have honly := Dependencies.onlyReached_of_collect hcollect
    refine ⟨d.enums.nodup, d.inputObjects.nodup, ?_, ?_, ?_, ?_⟩
    · intro name
      rw [needs_iff]
      exact Dependencies.mem_keys_enums_iff hcollect
    · intro name type hget
      exact (honly.enums name type hget).2
    · intro name
      rw [needs_iff]
      exact Dependencies.mem_keys_inputObjects_iff hcollect
    · intro name resolved hget
      obtain ⟨_, ho, hfields⟩ := honly.inputObjects name resolved hget
      exact ⟨ho, InputObjectType.resolveFields_eq_ok_iff.mp hfields⟩

end Scope

/-- An enum, and two input objects that refer to each other, one of them through a list. -/
def Catalog.circular : Catalog where
  outputSchemaName := "Schema"
  queryType := "Query"
  mutationType := none
  subscriptionType := none
  types := .ofList [
    ("Filter", .inputObject ⟨"Filter", none, .ofList [
      ("all", ⟨"all", none, .nonNull (.list (.nonNull (.named "Filter"))), none⟩),
      ("range", ⟨"range", none, .named "Range", none⟩)]⟩),
    ("Range", .inputObject ⟨"Range", none, .ofList [
      ("filter", ⟨"filter", none, .nonNull (.named "Filter"), none⟩),
      ("unit", ⟨"unit", none, .named "Unit", none⟩),
      ("size", ⟨"size", none, .named "Int", none⟩)]⟩),
    ("Unit", .enum ⟨"Unit", none, .empty⟩)]
  warnings := []

namespace Scope

/-- Both input objects of a circle are found from one of them, once each. -/
theorem variableDependencies_circular :
    let s := Scope.start .circular .empty (.operation .query "Find")
    let parameters : List VariableDefinition :=
      [⟨none, "filter", none, .list (.named "Filter"), none, []⟩]
    ∃ d, s.variableDependencies parameters = .ok d ∧
      d.inputObjects.keys = ["Filter", "Range"] ∧ s.Needs parameters "Unit" := by
  intro s parameters
  have hkeys : (s.variableDependencies parameters).toOption.map
      (fun d => (d.enums.keys, d.inputObjects.keys)) = some (["Unit"], ["Filter", "Range"]) := by
    cbv
  obtain ⟨d, hd, hkeys⟩ := Option.map_eq_some_iff.mp hkeys
  have hd := toOption_eq_some_iff.mp hd
  obtain ⟨henums, hinputs⟩ := Prod.mk.inj hkeys
  obtain ⟨_, _, hneeds, _⟩ := (variableDependencies_eq_closure s parameters).2 d hd
  refine ⟨d, hd, hinputs, ((hneeds "Unit").mp ?_).1⟩
  rw [henums]
  exact List.mem_singleton.mpr rfl

end Scope

end QueryCompiler
