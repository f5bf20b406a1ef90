import QueryCompiler.Proofs.Lists
import QueryCompiler.Proofs.OrderedMap
import QueryCompiler.Proofs.Outcome
import QueryCompiler.Schema.Build

/-!
# Completing interfaces and unions

What the object types behind an interface or a union are, where the fields of a union come from, and
that interfaces and unions with different names are completed one by one: the list of names that
`AbstractEntry.complete` carries along has no part in it then.
-/

namespace QueryCompiler

open Outcome
open Introspection (NamedRef TypeKind)

/-! ### References -/

/-- A reference passes if it gives no kind or the expected one. -/
theorem Introspection.NamedRef.expect_eq_ok_iff {reference : NamedRef} {kind : TypeKind}
    {expected : String} {referencedBy name : Name} :
    reference.expect kind expected referencedBy = .ok name ↔
      (reference.kind = none ∨ reference.kind = some kind) ∧ reference.name = name := by
  unfold expect
  by_cases hkind : reference.kind = none ∨ reference.kind = some kind
  · simp [hkind]
  · simp [hkind]

/-- A reference of another kind is refused, with its name and that of the type it stands in. -/
theorem Introspection.NamedRef.expect_eq_error_iff {reference : NamedRef} {kind : TypeKind}
    {expected : String} {referencedBy : Name} {e : Inconsistency} :
    reference.expect kind expected referencedBy = .error e ↔
      ¬ (reference.kind = none ∨ reference.kind = some kind) ∧
        .unexpectedTypeKind reference.name referencedBy expected = e := by
  unfold expect
  by_cases hkind : reference.kind = none ∨ reference.kind = some kind
  · simp [hkind]
  · simp [hkind]

/-- The interfaces of a listed type can be read if no reference to them claims another kind. -/
theorem CatalogEntry.exists_interfaceNames_eq_ok_iff {name : Name} {references : List NamedRef} :
    (∃ names, interfaceNames name references = .ok names) ↔
      ∀ reference ∈ references, reference.kind = none ∨ reference.kind = some .interface := by
  simp only [interfaceNames, exists_mapM_eq_ok_iff, NamedRef.expect_eq_ok_iff, exists_and_left,
    exists_eq', and_true]

/-- Interfaces are refused for one of them that has another kind. -/
theorem CatalogEntry.exists_of_interfaceNames_eq_error {name : Name} {references : List NamedRef}
    {e : Inconsistency} (h : interfaceNames name references = .error e) :
    ∃ reference ∈ references, ¬ (reference.kind = none ∨ reference.kind = some .interface) ∧
      .unexpectedTypeKind reference.name name "an interface" = e := by
  obtain ⟨before, reference, after, rfl, _, herror⟩ := mapM_eq_error_iff.mp h
  exact ⟨reference, List.mem_append_right _ List.mem_cons_self,
    NamedRef.expect_eq_error_iff.mp herror⟩

/-- The interfaces of a listed type are those that it refers to, in order. -/
theorem CatalogEntry.eq_map_of_interfaceNames {name : Name} {references : List NamedRef}
    {names : List Name} (h : interfaceNames name references = .ok names) :
    names = references.map NamedRef.name := by
  rw [interfaceNames, mapM_eq_ok_iff] at h
  have hnames := map_eq_map_of_forall₂ (g := id) h fun _ _ hstep =>
    (NamedRef.expect_eq_ok_iff.mp hstep).2
  rw [hnames, List.map_id]

namespace AbstractEntry

variable {types : OrderedMap Name TypeDefinition} {sub : Name → List Name}

/-- The object type of a name. -/
def object? (types : OrderedMap Name TypeDefinition) (name : Name) : Option ObjectType :=
  (types.get? name).bind TypeDefinition.object?

/-- The name of the object type that one reference leads to. -/
def objectName (types : OrderedMap Name TypeDefinition) (parent : Name) (reference : NamedRef) :
    Except Inconsistency Name := do
  let name ← reference.expect .object "an object" parent
  match object? types name with
  | some _ => return name
  | none => throw (.undefinedPossibleType name parent)

private theorem objectNames_eq {parent : Name} {references : List NamedRef} :
    objectNames types parent references =
      (do return (← references.mapM (objectName types parent)).eraseDups) := rfl

/-- A reference leads to an object type if it claims no other kind, and if there is one of its
name. -/
theorem objectName_eq_ok_iff {parent : Name} {reference : NamedRef} {name : Name} :
    objectName types parent reference = .ok name ↔
      ((reference.kind = none ∨ reference.kind = some .object) ∧
        ∃ o, object? types reference.name = some o) ∧ reference.name = name := by
  rw [objectName, bind_eq_ok_iff]
  constructor
  · rintro ⟨found, hexpect, hfound⟩
    obtain ⟨hkind, rfl⟩ := NamedRef.expect_eq_ok_iff.mp hexpect
    cases hobject : object? types reference.name with
    | none => simp [hobject, throw, throwThe, MonadExceptOf.throw] at hfound
    | some o =>
        simp only [hobject, pure_eq_ok_iff] at hfound
        exact ⟨⟨hkind, o, rfl⟩, hfound⟩
  · rintro ⟨⟨hkind, o, hobject⟩, rfl⟩
    refine ⟨reference.name, NamedRef.expect_eq_ok_iff.mpr ⟨hkind, rfl⟩, ?_⟩
    simp only [hobject, pure_eq_ok_iff]

/-- If a reference does not lead to an object type, it claims another kind or there is none of its
name. -/
theorem objectName_eq_error_iff {parent : Name} {reference : NamedRef} {e : Inconsistency} :
    objectName types parent reference = .error e ↔
      ¬ (reference.kind = none ∨ reference.kind = some .object) ∧
          .unexpectedTypeKind reference.name parent "an object" = e ∨
        (reference.kind = none ∨ reference.kind = some .object) ∧
          object? types reference.name = none ∧
          .undefinedPossibleType reference.name parent = e := by
  rw [objectName, bind_eq_error_iff, NamedRef.expect_eq_error_iff]
  apply or_congr_right
  constructor
  · rintro ⟨found, hexpect, hfound⟩
    obtain ⟨hkind, rfl⟩ := NamedRef.expect_eq_ok_iff.mp hexpect
    cases hobject : object? types reference.name with
    | none =>
        simp only [hobject, throw, throwThe, MonadExceptOf.throw, Except.error.injEq] at hfound
        exact ⟨hkind, rfl, hfound⟩
    | some o => simp [hobject, pure_ne_error] at hfound
  · rintro ⟨hkind, hobject, rfl⟩
    refine ⟨reference.name, NamedRef.expect_eq_ok_iff.mpr ⟨hkind, rfl⟩, ?_⟩
    simp only [hobject, throw, throwThe, MonadExceptOf.throw]

/-- Possible types are refused for one of them. -/
theorem exists_of_objectNames_eq_error {parent : Name} {references : List NamedRef}
    {e : Inconsistency} (h : objectNames types parent references = .error e) :
    ∃ reference ∈ references, objectName types parent reference = .error e := by
  simp only [objectNames_eq, bind_eq_error_iff, pure_ne_error, and_false, exists_false,
    or_false] at h
  obtain ⟨before, reference, after, rfl, _, herror⟩ := mapM_eq_error_iff.mp h
  exact ⟨reference, List.mem_append_right _ List.mem_cons_self, herror⟩

/-- References lead to object types if each of them does. Their names are kept in order then, each
where it occurs first. -/
theorem objectNames_eq_ok_iff {parent : Name} {references : List NamedRef} {names : List Name} :
    objectNames types parent references = .ok names ↔
      (∀ reference ∈ references, (reference.kind = none ∨ reference.kind = some .object) ∧
        ∃ o, object? types reference.name = some o) ∧
      (references.map NamedRef.name).eraseDups = names := by
  have hall (found : List Name) :
      references.mapM (objectName types parent) = .ok found ↔
        (∀ reference ∈ references, (reference.kind = none ∨ reference.kind = some .object) ∧
          ∃ o, object? types reference.name = some o) ∧ references.map NamedRef.name = found := by
    simp only [mapM_eq_ok_iff, objectName_eq_ok_iff]
    rw [List.forall₂_and_left, ← List.forall₂_eq_eq_eq, List.forall₂_map_left_iff]
  simp only [objectNames_eq, bind_eq_ok_iff, pure_eq_ok_iff, hall]
  constructor
  · rintro ⟨_, ⟨hreferences, rfl⟩, hnames⟩
    exact ⟨hreferences, hnames⟩
  · rintro ⟨hreferences, hnames⟩
    exact ⟨_, ⟨hreferences, rfl⟩, hnames⟩

/-! ### Fields of unions -/

/-- A field of a union is that of the first member that declares it. -/
theorem get?_memberFields {members : List Name} {field : Name} :
    (memberFields types members).get? field =
      members.findSome? fun member => (object? types member).bind fun o => o.fields.get? field := by
  rw [memberFields, OrderedMap.get?_insertAllNew, OrderedMap.get?_empty, Option.none_or,
    lookup_flatMap]
  congr 1
  funext member
  unfold object?
  cases (types.get? member).bind TypeDefinition.object? <;> rfl

/-! ### One after the other -/

/-- The name of an interface or union. -/
def name : AbstractEntry → Name
  | interface name _ _ _ _ => name
  | union name _ _ => name

/-- Complete one interface or union. -/
def completed (types : OrderedMap Name TypeDefinition) (sub : Name → List Name) :
    AbstractEntry → Except Inconsistency TypeDefinition
  | interface name description interfaces fields references => do
      let possible ← objectNames types name references
      return .interface ⟨name, description, interfaces, fields, possible, sub name⟩
  | union name description references => do
      let possible ← objectNames types name references
      return .union ⟨name, description, possible, memberFields types possible⟩

/-- What an interface or union becomes when it is completed. -/
inductive CompletesTo (types : OrderedMap Name TypeDefinition) (sub : Name → List Name) :
    AbstractEntry → TypeDefinition → Prop
  | interface {name description interfaces fields references possible} :
      objectNames types name references = .ok possible →
      CompletesTo types sub (interface name description interfaces fields references)
        (.interface ⟨name, description, interfaces, fields, possible, sub name⟩)
  | union {name description references possible} :
      objectNames types name references = .ok possible →
      CompletesTo types sub (union name description references)
        (.union ⟨name, description, possible, memberFields types possible⟩)

/-- A draft is completed as the relation says. -/
theorem completed_eq_ok_iff {entry : AbstractEntry} {definition : TypeDefinition} :
    entry.completed types sub = .ok definition ↔ entry.CompletesTo types sub definition := by
  constructor
  · intro h
    cases entry with
    | interface name description interfaces fields references =>
        simp only [completed, bind_eq_ok_iff, pure_eq_ok_iff] at h
        obtain ⟨possible, hpossible, rfl⟩ := h
        exact .interface hpossible
    | union name description references =>
        simp only [completed, bind_eq_ok_iff, pure_eq_ok_iff] at h
        obtain ⟨possible, hpossible, rfl⟩ := h
        exact .union hpossible
  · intro h
    cases h with
    | interface hpossible => exact bind_eq_ok_iff.mpr ⟨_, hpossible, rfl⟩
    | union hpossible => exact bind_eq_ok_iff.mpr ⟨_, hpossible, rfl⟩

/-- A completed draft keeps its name. -/
theorem CompletesTo.name_eq {entry : AbstractEntry} {definition : TypeDefinition}
    (h : entry.CompletesTo types sub definition) : definition.name = entry.name := by
  cases h <;> rfl

/-- A completed draft is no object. -/
theorem CompletesTo.object?_eq_none {entry : AbstractEntry} {definition : TypeDefinition}
    (h : entry.CompletesTo types sub definition) : definition.object? = none := by
  cases h <;> rfl

/-- Interfaces and unions with different names are completed one by one. -/
theorem complete_eq_mapM {taken : List Name} {entries : List AbstractEntry}
    (h : (entries.map name).Nodup) (hnew : ∀ entry ∈ entries, entry.name ∉ taken) :
    complete types sub taken entries = entries.mapM (completed types sub) := by
  induction entries generalizing taken with
  | nil => rfl
  | cons entry rest ih =>
      rw [List.map_cons, List.nodup_cons] at h
      rw [List.forall_mem_cons] at hnew
      cases entry with
      | interface name description interfaces fields references =>
          have hrest : ∀ entry ∈ rest, entry.name ∉ name :: taken := by
            intro entry hentry hmem
            rcases List.mem_cons.mp hmem with heq | htaken
            · exact h.1 (List.mem_map.mpr ⟨entry, hentry, heq⟩)
            · exact hnew.2 entry hentry htaken
          have hfirst : taken.contains name = false := by
            rw [List.contains_eq_mem, decide_eq_false_iff_not]
            exact hnew.1
          simp only [complete, List.mapM_cons, completed, ih h.2 hrest, hfirst, Bool.false_eq_true,
            if_false, bind_assoc, pure_bind]
      | union name description references =>
          simp only [complete, List.mapM_cons, completed, ih h.2 hnew.2, bind_assoc, pure_bind]

/-! ### Names that are used again -/

/-- The references to the types behind an interface or union. -/
def references : AbstractEntry → List NamedRef
  | interface _ _ _ _ references => references
  | union _ _ references => references

/-- The interfaces that an interface names as its own. -/
def interfaces : AbstractEntry → List Name
  | interface _ _ interfaces _ _ => interfaces
  | union .. => []

/-- The name of an interface. -/
def interfaceName? : AbstractEntry → Option Name
  | interface name _ _ _ _ => some name
  | union .. => none

/-- What is left of the sub-interfaces when those of some names have been taken. -/
def remaining (sub : Name → List Name) (taken : List Name) (name : Name) : List Name :=
  if taken.contains name then [] else sub name

/-- The sub-interfaces that remain: those of a name that was not taken yet. -/
theorem mem_remaining_iff {taken : List Name} {name member : Name} :
    member ∈ remaining sub taken name ↔ name ∉ taken ∧ member ∈ sub name := by
  unfold remaining
  by_cases htaken : name ∈ taken
  · simp [htaken]
  · simp [htaken]

/-- The first of a list is completed, and then the others without the sub-interfaces that the first
has taken. -/
theorem complete_cons {taken : List Name} {entry : AbstractEntry} {rest : List AbstractEntry} :
    complete types sub taken (entry :: rest) = (do
      let definition ← entry.completed types (remaining sub taken)
      let others ← complete types sub (entry.interfaceName?.toList ++ taken) rest
      return definition :: others) := by
  cases entry with
  | interface name description interfaces fields references =>
      simp only [complete, completed, bind_assoc, pure_bind]
      rfl
  | union name description references =>
      simp only [complete, completed, bind_assoc, pure_bind]
      rfl

/-- The first draft is completed, its name is taken and the others follow. -/
theorem complete_cons_eq_ok_iff {taken : List Name} {entry : AbstractEntry}
    {rest : List AbstractEntry} {definitions : List TypeDefinition} :
    complete types sub taken (entry :: rest) = .ok definitions ↔
      ∃ definition others, entry.CompletesTo types (remaining sub taken) definition ∧
        complete types sub (entry.interfaceName?.toList ++ taken) rest = .ok others ∧
        definition :: others = definitions := by
  simp only [complete_cons, bind_eq_ok_iff, pure_eq_ok_iff, completed_eq_ok_iff, exists_and_left]

/-- Each interface and union is completed, with sub-interfaces of which only those know that stand
before it. -/
theorem forall₂_of_complete {taken : List Name} {entries : List AbstractEntry}
    {definitions : List TypeDefinition} (h : complete types sub taken entries = .ok definitions) :
    List.Forall₂ (fun entry definition => ∃ own, entry.CompletesTo types own definition) entries
      definitions := by
  induction entries generalizing taken definitions with
  | nil =>
      cases h
      exact .nil
  | cons entry rest ih =>
      obtain ⟨definition, others, hfirst, hothers, rfl⟩ := complete_cons_eq_ok_iff.mp h
      exact .cons ⟨_, hfirst⟩ (ih hothers)

/-- Completed drafts keep their names and their order. -/
theorem map_name_of_complete {taken : List Name} {entries : List AbstractEntry}
    {definitions : List TypeDefinition} (h : complete types sub taken entries = .ok definitions) :
    definitions.map TypeDefinition.name = entries.map name := by
  symm
  apply map_eq_map_of_forall₂ (forall₂_of_complete h)
  rintro entry definition ⟨_, hcompletes⟩
  exact hcompletes.name_eq.symm

/-- If a list cannot be completed, then a reference in it does not lead to an object type. -/
theorem exists_of_complete_eq_error {taken : List Name} {entries : List AbstractEntry}
    {e : Inconsistency} (h : complete types sub taken entries = .error e) :
    ∃ entry ∈ entries, ∃ reference ∈ entry.references,
      objectName types entry.name reference = .error e := by
  induction entries generalizing taken with
  | nil => cases h
  | cons entry rest ih =>
      simp only [complete_cons, bind_eq_error_iff, pure_ne_error, and_false, exists_false,
        or_false] at h
      rcases h with hfirst | ⟨_, _, hrest⟩
      · refine ⟨entry, List.mem_cons_self, ?_⟩
        cases entry with
        | interface name description interfaces fields references =>
            simp only [completed, bind_eq_error_iff, pure_ne_error, and_false, exists_false,
              or_false] at hfirst
            exact exists_of_objectNames_eq_error hfirst
        | union name description references =>
            simp only [completed, bind_eq_error_iff, pure_ne_error, and_false, exists_false,
              or_false] at hfirst
            exact exists_of_objectNames_eq_error hfirst
      · obtain ⟨other, hother, hreference⟩ := ih hrest
        exact ⟨other, List.mem_cons_of_mem _ hother, hreference⟩

/-- What stands at a place of the completed list comes from the entry at this place. It has the
sub-interfaces of its name unless an interface of that name stands before it. -/
theorem exists_entry_of_complete {taken : List Name} {entries : List AbstractEntry}
    {first last : List TypeDefinition} {definition : TypeDefinition}
    (h : complete types sub taken entries = .ok (first ++ definition :: last)) :
    ∃ before entry after, entries = before ++ entry :: after ∧
      last.map TypeDefinition.name = after.map name ∧
      entry.CompletesTo types
        (remaining sub ((before.filterMap interfaceName?).reverse ++ taken)) definition := by
  induction first generalizing taken entries with
  | nil =>
      cases entries with
      | nil => cases h
      | cons entry rest =>
          obtain ⟨_, _, hfirst, hothers, heq⟩ := complete_cons_eq_ok_iff.mp h
          obtain ⟨rfl, rfl⟩ := List.cons.inj heq
          exact ⟨[], entry, rest, rfl, map_name_of_complete hothers, hfirst⟩
  | cons _ others ih =>
      cases entries with
      | nil => cases h
      | cons earlier rest =>
          obtain ⟨_, _, _, hothers, heq⟩ := complete_cons_eq_ok_iff.mp h
          obtain ⟨rfl, rfl⟩ := List.cons.inj heq
          obtain ⟨before, entry, after, rfl, hlast, hcompletes⟩ := ih hothers
          refine ⟨earlier :: before, entry, after, rfl, hlast, ?_⟩
          have htaken : ((earlier :: before).filterMap interfaceName?).reverse ++ taken =
              (before.filterMap interfaceName?).reverse ++
                (earlier.interfaceName?.toList ++ taken) := by
            cases hname : earlier.interfaceName? <;> simp [hname]
          rw [htaken]
          exact hcompletes

end AbstractEntry

end QueryCompiler
