import QueryCompiler.Proofs.Outcome
import QueryCompiler.ResolvedType

/-!
# Nullability of resolved types

A type reference can be resolved exactly if no non-null marker stands directly on another, whatever
its innermost name stands for. The outermost position of the resolved type is optional unless the
type reference marks it as non-null.
-/

namespace QueryCompiler

open Outcome

/-- No non-null marker stands directly on another. -/
def TypeRef.WellMarked : TypeRef → Prop
  | named _ => True
  | list item => item.WellMarked
  | nonNull inner => inner.isNonNull = false ∧ inner.WellMarked

instance TypeRef.decidableWellMarked : (type : TypeRef) → Decidable type.WellMarked
  | .named _ => inferInstanceAs (Decidable True)
  | .list item => decidableWellMarked item
  | .nonNull inner =>
      have := decidableWellMarked inner
      inferInstanceAs (Decidable (inner.isNonNull = false ∧ inner.WellMarked))

namespace TypeRef

variable {base : Name → TypeBase}

/-- A non-null marker can only be taken off an optional type. -/
theorem resolve_nonNull_eq_ok_iff {inner : TypeRef} {r : ResolvedType} :
    (nonNull inner).resolve base = .ok r ↔ inner.resolve base = .ok (.optional r) := by
  rw [resolve, bind_eq_ok_iff]
  constructor
  · rintro ⟨resolved, hresolved, h⟩
    cases resolved with
    | optional stripped =>
        rw [pure_eq_ok_iff] at h
        rw [hresolved, h]
    | value b => cases h
    | list item => cases h
  · intro h
    exact ⟨.optional r, h, rfl⟩

/-- A list type is resolved to an optional list of its resolved item type. -/
theorem resolve_list_eq_ok_iff {item : TypeRef} {r : ResolvedType} :
    (list item).resolve base = .ok r ↔
      ∃ resolved, item.resolve base = .ok resolved ∧ .optional (.list resolved) = r := by
  simp only [resolve, bind_eq_ok_iff, pure_eq_ok_iff]

/-- The outermost position is optional unless it is marked as non-null. -/
theorem isOptional_of_resolve {type : TypeRef} {r : ResolvedType} (hmarked : type.WellMarked)
    (h : type.resolve base = .ok r) : r.isOptional = !type.isNonNull := by
  cases type with
  | named name =>
      cases h
      rfl
  | list item =>
      obtain ⟨resolved, _, rfl⟩ := resolve_list_eq_ok_iff.mp h
      rfl
  | nonNull inner =>
      have hinner := resolve_nonNull_eq_ok_iff.mp h
      -- The marker below is a list or a name, so its resolved form has one optional marker only.
      cases inner with
      | named name =>
          cases hinner
          rfl
      | list item =>
          obtain ⟨resolved, _, hr⟩ := resolve_list_eq_ok_iff.mp hinner
          cases hr
          rfl
      | nonNull innermost => exact absurd hmarked.1 (by simp [isNonNull])

/-- The innermost name is resolved to a base, whatever markers are around it. -/
theorem base_of_resolve {type : TypeRef} {r : ResolvedType} (h : type.resolve base = .ok r) :
    r.base = base type.innermost := by
  induction type generalizing r with
  | named name =>
      cases h
      rfl
  | list item ih =>
      obtain ⟨resolved, hresolved, rfl⟩ := resolve_list_eq_ok_iff.mp h
      have hitem := ih hresolved
      exact hitem
  | nonNull inner ih =>
      have hinner := ih (resolve_nonNull_eq_ok_iff.mp h)
      exact hinner

/-- A type reference can be resolved exactly if it is well marked. -/
theorem exists_resolve_eq_ok_iff {type : TypeRef} :
    (∃ r, type.resolve base = .ok r) ↔ type.WellMarked := by
  induction type with
  | named name => exact ⟨fun _ => trivial, fun _ => ⟨_, rfl⟩⟩
  | list item ih =>
      rw [WellMarked, ← ih]
      constructor
      · rintro ⟨r, h⟩
        obtain ⟨resolved, hresolved, _⟩ := resolve_list_eq_ok_iff.mp h
        exact ⟨resolved, hresolved⟩
      · rintro ⟨resolved, h⟩
        exact ⟨_, resolve_list_eq_ok_iff.mpr ⟨resolved, h, rfl⟩⟩
  | nonNull inner ih =>
      constructor
      · rintro ⟨r, h⟩
        have hinner := resolve_nonNull_eq_ok_iff.mp h
        have hmarked := ih.mp ⟨_, hinner⟩
        refine ⟨?_, hmarked⟩
        simpa [ResolvedType.isOptional] using isOptional_of_resolve hmarked hinner
      · rintro ⟨hnull, hmarked⟩
        obtain ⟨resolved, hresolved⟩ := ih.mpr hmarked
        have hoptional := isOptional_of_resolve hmarked hresolved
        rw [hnull] at hoptional
        cases resolved with
        | optional stripped => exact ⟨stripped, resolve_nonNull_eq_ok_iff.mpr hresolved⟩
        | value b => cases hoptional
        | list item => cases hoptional

end TypeRef

end QueryCompiler
