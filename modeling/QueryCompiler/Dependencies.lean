import QueryCompiler.Schema.Catalog

/-!
# Dependencies

The enums and input objects that must be generated along with an operation or fragment. Those that
variables need are found by following the fields of input objects, each input object once, so that
input objects may refer to each other in circles.
-/

namespace QueryCompiler

/-- A field of an input object with its resolved type. -/
structure ResolvedInput where
  definition : InputValueDefinition
  type : ResolvedType
  deriving DecidableEq

/-- An input object with the resolved types of its fields. -/
structure ResolvedInputObject where
  definition : InputObjectType
  fields : List ResolvedInput
  deriving DecidableEq

/-- The enums and input objects that are needed. -/
structure Dependencies where
  enums : OrderedMap Name EnumType
  inputObjects : OrderedMap Name ResolvedInputObject
  deriving DecidableEq

namespace InputObjectType

/-- Resolve the types of the fields of an input object. -/
def resolveFields (o : InputObjectType) (c : Catalog) :
    Except Inconsistency (List ResolvedInput) :=
  o.fields.values.mapM fun field => do return ⟨field, ← c.resolve field.type⟩

end InputObjectType

/-- The name of a type together with what refers to it. -/
structure TypeReference where
  referencedBy : String
  type : Name
  deriving DecidableEq, Repr

namespace TypeReference

/-- The reference that a variable makes. -/
def ofVariable (name : Name) (type : TypeRef) : TypeReference := ⟨"$" ++ name, type.innermost⟩

/-- The references that the fields of an input object make. -/
def ofFields (name : Name) (o : InputObjectType) : List TypeReference :=
  o.fields.values.map fun field => ⟨name ++ "." ++ field.name, field.type.innermost⟩

/-- Why a reference to something that is no enum and no input object cannot be followed. -/
def check (r : TypeReference) (c : Catalog) : Except Inconsistency Unit :=
  if c.isScalar r.type then .ok ()
  else
    match c.get? r.type with
    | some _ =>
        .error (.unexpectedTypeKind r.type r.referencedBy "a scalar, enum, or input object type")
    | none => .error (.unresolvedType r.type ("`" ++ r.referencedBy ++ "`"))

end TypeReference

namespace Dependencies

/-- Nothing is needed. -/
def empty : Dependencies := ⟨.empty, .empty⟩

/-- Whether nothing is needed. -/
def isEmpty (d : Dependencies) : Bool := d.enums.isEmpty && d.inputObjects.isEmpty

/-- Add what others need, keeping what is there. -/
def extend (d other : Dependencies) : Dependencies :=
  ⟨d.enums.insertAllNew other.enums.entries, d.inputObjects.insertAllNew other.inputObjects.entries⟩

/-- Only enums are needed. -/
def ofEnums (enums : List (Name × EnumType)) : Dependencies :=
  ⟨OrderedMap.empty.insertAllNew enums, .empty⟩

/-- The types of a catalog that have not been taken up as input objects. -/
def remaining (d : Dependencies) (c : Catalog) : List Name :=
  c.types.keys.filter fun name => !d.inputObjects.contains name

/-- Taking up an input object of the catalog that was not taken up yet leaves fewer to take up: the
measure of the search. -/
theorem length_remaining_insert_lt {d : Dependencies} {c : Catalog} {name : Name}
    {o : InputObjectType} (resolved : ResolvedInputObject) (hname : c.inputObject? name = some o)
    (hnew : ¬ d.inputObjects.contains name = true) :
    (remaining ⟨d.enums, d.inputObjects.insert name resolved⟩ c).length
      < (d.remaining c).length := by
  have hmem : name ∈ d.remaining c := by
    rw [Catalog.inputObject?, Option.bind_eq_some_iff] at hname
    obtain ⟨definition, hget, _⟩ := hname
    exact List.mem_filter.2 ⟨OrderedMap.mem_keys_of_get?_eq_some hget, by simpa using hnew⟩
  have hfilter : remaining ⟨d.enums, d.inputObjects.insert name resolved⟩ c
      = (d.remaining c).filter fun other => !decide (other = name) := by
    simp only [remaining, List.filter_filter, OrderedMap.contains_insert, Bool.not_or]
  rw [hfilter]
  exact List.length_filter_lt_length_iff_exists.2 ⟨name, hmem, by simp⟩

/-- Follow references one after the other. The references that an input object makes come before
those that follow it. -/
def collect (c : Catalog) (d : Dependencies) :
    List TypeReference → Except Inconsistency Dependencies
  | [] => .ok d
  | r :: rest =>
      match c.enum? r.type with
      | some type => collect c ⟨d.enums.insertNew r.type type, d.inputObjects⟩ rest
      | none =>
          match hname : c.inputObject? r.type with
          | some o =>
              if hnew : d.inputObjects.contains r.type then collect c d rest
              else
                match o.resolveFields c with
                | .error e => .error e
                | .ok fields =>
                    have := length_remaining_insert_lt ⟨o, fields⟩ hname hnew
                    collect c ⟨d.enums, d.inputObjects.insert r.type ⟨o, fields⟩⟩
                      (TypeReference.ofFields r.type o ++ rest)
          | none =>
              match r.check c with
              | .error e => .error e
              | .ok () => collect c d rest
  termination_by references => ((d.remaining c).length, references.length)
  decreasing_by
    · exact Prod.Lex.right _ (Nat.lt_succ_self _)
    · exact Prod.Lex.right _ (Nat.lt_succ_self _)
    · exact Prod.Lex.left _ _ this
    · exact Prod.Lex.right _ (Nat.lt_succ_self _)

end Dependencies

end QueryCompiler
