import QueryCompiler.Proofs.Nullability
import QueryCompiler.Proofs.SelectionSet.Written

/-!
# From resolved types back to type references

Resolving a type reference loses nothing: where the type reference marks what is never null, the
resolved type marks the rest. The way back puts a non-null marker everywhere, and every optional
marker takes one away again. It leads back from every resolved type on which no optional marker
stands directly on another, and these are exactly the types that resolving gives.
-/

namespace QueryCompiler

/-- No optional marker stands directly on another. -/
def ResolvedType.WellMarked : ResolvedType → Prop
  | value _ => True
  | optional inner => inner.isOptional = false ∧ inner.WellMarked
  | list item => item.WellMarked

/-- A type reference without the non-null marker around it, if there is one. -/
def TypeRef.withoutMarker : TypeRef → TypeRef
  | nonNull inner => inner
  | named name => named name
  | list item => list item

namespace ResolvedType

/-- The type reference that a resolved type stands for, over the given name: every position is
non-null, except that an optional marker takes exactly one non-null marker away. -/
def typeRef (name : Name) : ResolvedType → TypeRef
  | value _ => .nonNull (.named name)
  | optional inner => (inner.typeRef name).withoutMarker
  | list item => .nonNull (.list (item.typeRef name))

variable {base : Name → TypeBase} {name : Name} {r : ResolvedType}

/-- A position that is not optional is marked as non-null. -/
theorem typeRef_eq_nonNull (h : r.isOptional = false) :
    r.typeRef name = .nonNull (r.typeRef name).withoutMarker := by
  cases r with
  | value b => rfl
  | list item => rfl
  | optional inner => cases h

/-- The type reference that a resolved type stands for is resolved to it. -/
theorem resolve_typeRef (hmarked : r.WellMarked) (hbase : r.base = base name) :
    (r.typeRef name).resolve base = .ok r := by
  induction r with
  | value b =>
      have hb : b = base name := hbase
      rw [typeRef, TypeRef.resolve_nonNull_eq_ok_iff, TypeRef.resolve, hb]
  | list item ih =>
      have hitem : (item.typeRef name).resolve base = .ok item := ih hmarked hbase
      rw [typeRef, TypeRef.resolve_nonNull_eq_ok_iff, TypeRef.resolve_list_eq_ok_iff]
      exact ⟨item, hitem, rfl⟩
  | optional inner ih =>
      obtain ⟨hoptional, hinner⟩ := hmarked
      have hresolve : (inner.typeRef name).resolve base = .ok inner := ih hinner hbase
      -- The marker that is taken away here is the one that resolving would have to take off.
      rw [typeRef_eq_nonNull hoptional] at hresolve
      exact TypeRef.resolve_nonNull_eq_ok_iff.mp hresolve

end ResolvedType

namespace TypeRef

variable {base : Name → TypeBase} {type other : TypeRef} {r : ResolvedType}

/-- Resolving never puts one optional marker directly on another. -/
theorem wellMarked_of_resolve (h : type.resolve base = .ok r) : r.WellMarked := by
  induction type generalizing r with
  | named name =>
      cases h
      exact ⟨rfl, trivial⟩
  | list item ih =>
      obtain ⟨resolved, hresolved, rfl⟩ := resolve_list_eq_ok_iff.mp h
      have hitem : resolved.WellMarked := ih hresolved
      exact ⟨rfl, hitem⟩
  | nonNull inner ih =>
      have hinner : (ResolvedType.optional r).WellMarked := ih (resolve_nonNull_eq_ok_iff.mp h)
      exact hinner.2

/-- The way back from what a type reference is resolved to leads to the type reference. -/
theorem typeRef_of_resolve (h : type.resolve base = .ok r) : r.typeRef type.innermost = type := by
  induction type generalizing r with
  | named name =>
      cases h
      rfl
  | list item ih =>
      obtain ⟨resolved, hresolved, rfl⟩ := resolve_list_eq_ok_iff.mp h
      have hitem : resolved.typeRef item.innermost = item := ih hresolved
      rw [innermost, ResolvedType.typeRef, ResolvedType.typeRef, hitem, withoutMarker]
  | nonNull inner ih =>
      have hmarked : (nonNull inner).WellMarked := exists_resolve_eq_ok_iff.mp ⟨r, h⟩
      have hoptional : r.isOptional = false := isOptional_of_resolve hmarked h
      have hinner : (r.typeRef inner.innermost).withoutMarker = inner :=
        ih (resolve_nonNull_eq_ok_iff.mp h)
      rw [innermost, ResolvedType.typeRef_eq_nonNull hoptional, hinner]

/-- Type references that are resolved to the same type are the same, if different names stand for
different bases. -/
theorem eq_of_resolve_eq (hbase : Function.Injective base) (h : type.resolve base = .ok r)
    (hother : other.resolve base = .ok r) : type = other := by
  have hname : type.innermost = other.innermost := by
    apply hbase
    rw [← base_of_resolve h, ← base_of_resolve hother]
  calc
    type = r.typeRef type.innermost := (typeRef_of_resolve h).symm
    _ = r.typeRef other.innermost := by rw [hname]
    _ = other := typeRef_of_resolve hother

/-- Resolving gives the well-marked types over the bases that names stand for. -/
theorem exists_resolve_eq_iff :
    (∃ type : TypeRef, type.resolve base = .ok r) ↔ r.WellMarked ∧ ∃ name, base name = r.base := by
  constructor
  · rintro ⟨type, h⟩
    exact ⟨wellMarked_of_resolve h, type.innermost, (base_of_resolve h).symm⟩
  · rintro ⟨hmarked, name, hname⟩
    exact ⟨r.typeRef name, ResolvedType.resolve_typeRef hmarked hname.symm⟩

end TypeRef

/-- Different names stand for different bases. -/
theorem Catalog.typeBase_injective (c : Catalog) : Function.Injective c.typeBase := by
  intro name other h
  rw [← c.schemaName_typeBase name, h, c.schemaName_typeBase]

/-- Resolving loses nothing, whatever names stand for, as long as different names stand for
different bases, as they do in every catalog. It succeeds exactly on well-marked type references,
takes no two of them to the same type, and gives exactly the well-marked types over the bases of
names. What it gives is optional at the outside unless the type reference is non-null there, and its
base is that of the innermost name. -/
theorem TypeRef.resolve_lossless :
    (∀ c : Catalog, (∀ name, (c.typeBase name).schemaName = name) ∧
      Function.Injective c.typeBase) ∧
    ∀ base : Name → TypeBase, Function.Injective base →
      (∀ type : TypeRef, (∃ r, type.resolve base = .ok r) ↔ type.WellMarked) ∧
      (∀ type other : TypeRef, ∀ r, type.resolve base = .ok r → other.resolve base = .ok r →
        type = other) ∧
      (∀ r : ResolvedType, (∃ type : TypeRef, type.resolve base = .ok r) ↔
        r.WellMarked ∧ ∃ name, base name = r.base) ∧
      ∀ type : TypeRef, ∀ r, type.resolve base = .ok r →
        (r.isOptional = true ↔ type.isNonNull = false) ∧ r.base = base type.innermost := by
  refine ⟨fun c => ⟨c.schemaName_typeBase, c.typeBase_injective⟩, fun base hbase => ?_⟩
  refine ⟨fun type => exists_resolve_eq_ok_iff,
    fun type other r h hother => eq_of_resolve_eq hbase h hother,
    fun r => exists_resolve_eq_iff, fun type r h => ⟨?_, base_of_resolve h⟩⟩
  have hmarked : type.WellMarked := exists_resolve_eq_ok_iff.mp ⟨r, h⟩
  rw [isOptional_of_resolve hmarked h, Bool.not_eq_true']

/-- A list of lists with markers at every other position, over a name that a catalog declares. The
type reference can be read off the resolved type again, and one more optional marker on it is not
the resolved form of any type reference. -/
theorem TypeRef.resolve_lossless_nested :
    let type : TypeRef := .list (.nonNull (.list (.nonNull (.named "Person"))))
    let r : ResolvedType := .optional (.list (.list (.value (.named "Person"))))
    Function.Injective Catalog.person.typeBase ∧
      type.resolve Catalog.person.typeBase = .ok r ∧ type.WellMarked ∧ r.WellMarked ∧
      (∀ other : TypeRef, other.resolve Catalog.person.typeBase = .ok r → other = type) ∧
      ∀ other : TypeRef, other.resolve Catalog.person.typeBase ≠ .ok (.optional r) := by
  intro type r
  obtain ⟨hcatalogs, hbases⟩ := resolve_lossless
  have hinjective : Function.Injective Catalog.person.typeBase := (hcatalogs .person).2
  obtain ⟨hsucceeds, hunique, himage, _⟩ := hbases Catalog.person.typeBase hinjective
  have hresolve : type.resolve Catalog.person.typeBase = .ok r := by decide +kernel
  refine ⟨hinjective, hresolve, (hsucceeds type).mp ⟨r, hresolve⟩,
    ((himage r).mp ⟨type, hresolve⟩).1,
    fun other hother => hunique other type r hother hresolve, ?_⟩
  intro other hother
  have hmarked := ((himage (.optional r)).mp ⟨other, hother⟩).1
  exact absurd hmarked.1 (by decide)

end QueryCompiler
