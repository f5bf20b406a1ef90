import QueryCompiler.Proofs.Compiled
import QueryCompiler.Proofs.SelectionSet.Failure

/-!
# Why documents cannot be compiled

For an operation and for a fragment, everything that can keep it from being compiled. What a whole
registry fails with is what its first operation fails with that cannot be compiled, or else its
first such fragment.
-/

namespace QueryCompiler

open Outcome

/-- An operation cannot be compiled. -/
inductive Operation.Fails (o : Operation) (c : Catalog) (fragments : OrderedMap Name Fragment) :
    Failure → Prop
  | anonymous : o.name = none →
      Fails o c fragments (.validation ⟨o.location, none, .anonymousOperation o.kind⟩)
  | undefinedRoot {name} : o.name = some name → c.root? o.kind = none →
      Fails o c fragments (.validation ⟨o.location, some ⟨.operation o.kind name, []⟩,
        .undefinedRootOperation name o.kind⟩)
  | unresolvedRoot {root} : c.root? o.kind = some root → c.composite? root = none →
      Fails o c fragments (.inconsistency
        (.unresolvedType root ("the " ++ o.kind.keyword ++ " root operation")))
  | default {name v value finding} : o.name = some name → v ∈ o.parameters →
      v.defaultValue = some value → Constant.ofValue value = .error finding →
      Fails o c fragments
        (.validation (finding.locate v.location ⟨.operation o.kind name, []⟩))
  | parameter {v e} : v ∈ o.parameters → c.resolve v.type = .error e →
      Fails o c fragments (.inconsistency e)
  | selection {name root type selection failure} : o.name = some name →
      c.root? o.kind = some root → c.composite? root = some type → selection ∈ o.selections →
      selection.Fails (.start c fragments (.operation o.kind name)) type [] failure →
      Fails o c fragments failure
  | needs {e} : Dependencies.empty.collect c
        (o.parameters.map fun v => .ofVariable v.name v.type) = .error e →
      Fails o c fragments (.inconsistency e)

/-- A fragment cannot be compiled. -/
inductive Fragment.Fails (f : Fragment) (c : Catalog) (fragments : OrderedMap Name Fragment) :
    Failure → Prop
  | undefinedCondition : c.composite? f.condition = none →
      Fails f c fragments (.validation ⟨f.location, some ⟨.fragment f.name, []⟩,
        .undefinedTypeCondition f.name f.condition⟩)
  | selection {type selection failure} : c.composite? f.condition = some type →
      selection ∈ f.selections →
      selection.Fails (.start c fragments (.fragment f.name)) type [] failure →
      Fails f c fragments failure

variable {c : Catalog} {fragments : OrderedMap Name Fragment} {failure : Failure}

namespace Operation

variable {o : Operation} {name : Name}

/-- An operation without a type to start at fails for that. -/
theorem fails_of_rootType (hname : o.name = some name)
    (h : (Scope.start c fragments (.operation o.kind name)).rootType o name = .error failure) :
    o.Fails c fragments failure := by
  unfold Scope.rootType at h
  cases hroot : c.root? o.kind with
  | none =>
      simp only [hroot, Scope.violation_eq_error_iff] at h
      exact h ▸ .undefinedRoot hname hroot
  | some root =>
      cases hcomposite : c.composite? root with
      | none =>
          simp only [hroot, hcomposite, Except.error.injEq] at h
          exact h ▸ .unresolvedRoot hroot hcomposite
      | some type => simp [hroot, hcomposite] at h

/-- An operation fails as one of its variables does. -/
theorem fails_of_resolveVariable {v : VariableDefinition} (hname : o.name = some name)
    (hv : v ∈ o.parameters)
    (h : (Scope.start c fragments (.operation o.kind name)).resolveVariable v = .error failure) :
    o.Fails c fragments failure := by
  simp only [Scope.resolveVariable, bind_eq_error_iff, mapError_eq_error_iff, pure_ne_error,
    and_false, exists_false, or_false] at h
  rcases h with hdefault | ⟨_, _, e, hresolve, rfl⟩
  · unfold Scope.defaultValue at hdefault
    cases hvalue : v.defaultValue with
    | none => simp [hvalue] at hdefault
    | some value =>
        cases hconstant : Constant.ofValue value with
        | ok constant => simp [hvalue, hconstant] at hdefault
        | error finding =>
            simp only [hvalue, hconstant, Except.error.injEq] at hdefault
            exact hdefault ▸ .default hname hv hvalue hconstant
  · exact .parameter hv hresolve

/-- Whenever an operation cannot be compiled there is a reason for it. -/
theorem fails_of_compile (h : o.compile c fragments = .error failure) :
    o.Fails c fragments failure := by
  unfold compile at h
  cases hname : o.name with
  | none =>
      simp only [hname, Except.error.injEq] at h
      exact h ▸ .anonymous hname
  | some name =>
      simp only [hname, bind_eq_error_iff, pure_ne_error, and_false, exists_false, or_false] at h
      rcases h with hroot | ⟨type, hroot, hparameters | ⟨_, _, hset | ⟨_, _, hneeded⟩⟩⟩
      · exact fails_of_rootType hname hroot
      · obtain ⟨before, v, after, hsplit, _, hv⟩ := mapM_eq_error_iff.mp hparameters
        have hmem : v ∈ o.parameters := by
          rw [hsplit]
          exact List.mem_append_right _ List.mem_cons_self
        exact fails_of_resolveVariable hname hmem hv
      · obtain ⟨root, hkind, htype⟩ := Scope.rootType_eq_ok_iff.mp hroot
        obtain ⟨selection, hmem, hfails⟩ := Scope.exists_fails_of_selectionSet hset
        exact .selection hname hkind htype hmem hfails
      · obtain ⟨e, hcollect, rfl⟩ := mapError_eq_error_iff.mp hneeded
        exact .needs hcollect

end Operation

/-- Whenever a fragment cannot be compiled there is a reason for it. -/
theorem Fragment.fails_of_compile {f : Fragment} (h : f.compile c fragments = .error failure) :
    f.Fails c fragments failure := by
  unfold compile at h
  cases htype : c.composite? f.condition with
  | none =>
      simp only [htype, Scope.violation_eq_error_iff] at h
      exact h ▸ .undefinedCondition htype
  | some type =>
      simp only [htype, bind_eq_error_iff, pure_ne_error, and_false, exists_false, or_false] at h
      obtain ⟨selection, hmem, hfails⟩ := Scope.exists_fails_of_selectionSet h
      exact .selection htype hmem hfails

namespace Registry

variable {r : Registry}

/-- Compiling ends with the first operation that cannot be compiled, or with the first fragment that
cannot be if all operations can. -/
theorem compile_eq_error_iff :
    r.compile c = .error failure ↔
      (∃ before o after, r.operations.values = before ++ o :: after ∧
        (∀ earlier ∈ before, ∃ compiled, earlier.compile c r.fragments = .ok compiled) ∧
        o.compile c r.fragments = .error failure) ∨
      (∀ o ∈ r.operations.values, ∃ compiled, o.compile c r.fragments = .ok compiled) ∧
        ∃ before f after, r.fragments.values = before ++ f :: after ∧
          (∀ earlier ∈ before, ∃ compiled, earlier.compile c r.fragments = .ok compiled) ∧
          f.compile c r.fragments = .error failure := by
  have hoperations := @mapM_entries_eq_error_iff _ _ _ _ (Operation.compile · c r.fragments)
    r.operations.entries failure
  have hfragments := @mapM_entries_eq_error_iff _ _ _ _ (Fragment.compile · c r.fragments)
    r.fragments.entries failure
  have hall := @exists_mapM_entries_eq_ok_iff Failure _ _ _ (Operation.compile · c r.fragments)
    r.operations.entries
  simp only [compile, bind_eq_error_iff, pure_ne_error, and_false, exists_false, or_false]
  rw [OrderedMap.values, OrderedMap.values, ← hoperations, ← hfragments, ← hall, exists_and_right]

/-- Whenever a registry cannot be compiled there is a reason for it in one of its definitions. -/
theorem exists_fails_of_compile (h : r.compile c = .error failure) :
    (∃ o ∈ r.operations.values, o.Fails c r.fragments failure) ∨
      ∃ f ∈ r.fragments.values, f.Fails c r.fragments failure := by
  rcases compile_eq_error_iff.mp h with ⟨before, o, after, hsplit, _, ho⟩ |
    ⟨_, before, f, after, hsplit, _, hf⟩
  · refine Or.inl ⟨o, ?_, Operation.fails_of_compile ho⟩
    rw [hsplit]
    exact List.mem_append_right _ List.mem_cons_self
  · refine Or.inr ⟨f, ?_, Fragment.fails_of_compile hf⟩
    rw [hsplit]
    exact List.mem_append_right _ List.mem_cons_self

end Registry

end QueryCompiler
