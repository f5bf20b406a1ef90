import QueryCompiler.Compiled
import QueryCompiler.Proofs.Document.Induction
import QueryCompiler.Proofs.Outcome

/-!
# Which fragments a definition looks up

Compiling a definition looks into the fragments beside it only where one is spread, to see whether
the spread can apply. So two collections of fragments are as good as each other for a definition if
every spread in it is checked with the same outcome against both. Outcomes may also be compared up
to a relation between failures.
-/

namespace QueryCompiler

/-! ### Outcomes up to failures -/

namespace Outcome

/-- Both computations give the same result, or fail with failures that are related. -/
inductive SameUpTo {ε α : Type} (R : ε → ε → Prop) : Except ε α → Except ε α → Prop
  | ok (a : α) : SameUpTo R (.ok a) (.ok a)
  | error {d e : ε} : R d e → SameUpTo R (.error d) (.error e)

namespace SameUpTo

variable {ε α β : Type} {R : ε → ε → Prop} {x y : Except ε α}

theorem of_eq (hR : ∀ e, R e e) (h : x = y) : SameUpTo R x y := by
  subst h
  cases x with
  | ok a => exact .ok a
  | error e => exact .error (hR e)

/-- Steps one after the other can be compared one by one. -/
theorem bind {f g : α → Except ε β} (h : SameUpTo R x y) (hnext : ∀ a, SameUpTo R (f a) (g a)) :
    SameUpTo R (x >>= f) (y >>= g) := by
  cases h with
  | ok a => exact hnext a
  | error hfailures => exact .error hfailures

theorem eq (h : SameUpTo Eq x y) : x = y := by
  cases h with
  | ok a => rfl
  | error hfailures => rw [hfailures]

end SameUpTo

end Outcome

open Outcome

/-! ### Spreads -/

/-- A fragment is spread by a selection, or somewhere inside it. -/
inductive Selection.Spreads (name : Name) : Selection → Prop
  | here {location : Option Location} {directives : List Directive} :
      Spreads name (.spread location name directives)
  | field {location : Option Location} {aliasName : Option Name} {fieldName : Name}
      {arguments : List Argument} {directives : List Directive} {selections : List Selection}
      {selection : Selection} : selection ∈ selections → Spreads name selection →
      Spreads name (.field location aliasName fieldName arguments directives selections)
  | inline {location : Option Location} {condition : Option Name} {directives : List Directive}
      {selections : List Selection} {selection : Selection} : selection ∈ selections →
      Spreads name selection → Spreads name (.inline location condition directives selections)

/-- A fragment is spread somewhere in an operation. -/
def Operation.Spreads (o : Operation) (name : Name) : Prop :=
  ∃ selection ∈ o.selections, selection.Spreads name

/-- A fragment is spread somewhere in a fragment. -/
def Fragment.Spreads (f : Fragment) (name : Name) : Prop :=
  ∃ selection ∈ f.selections, selection.Spreads name

/-- Spreads of a name are checked with the same outcome against two collections of fragments,
wherever they stand. -/
def Catalog.ChecksAlike (c : Catalog) (R : Failure → Failure → Prop)
    (fragments others : OrderedMap Name Fragment) (name : Name) : Prop :=
  ∀ path parent location,
    SameUpTo R ((⟨c, fragments, path⟩ : Scope).checkSpread parent location name)
      ((⟨c, others, path⟩ : Scope).checkSpread parent location name)

/-- Only what is found under the name matters for the spread of a fragment. -/
theorem Catalog.checksAlike_of_get?_eq {c : Catalog} {R : Failure → Failure → Prop}
    {fragments others : OrderedMap Name Fragment} {name : Name} (hR : ∀ failure, R failure failure)
    (h : fragments.get? name = others.get? name) : c.ChecksAlike R fragments others name := by
  intro path parent location
  apply SameUpTo.of_eq hR
  simp only [Scope.checkSpread, h]
  rfl

/-! ### Definitions -/

section Definitions

variable {c : Catalog} {R : Failure → Failure → Prop} {fragments others : OrderedMap Name Fragment}
  {path : SelectionPath} (hR : ∀ failure, R failure failure)

namespace Scope

/-- Selections are resolved alike if each of them is. -/
theorem resolveSelections_sameUpTo {selections : List Selection}
    (h : ∀ selection ∈ selections, ∀ parent traversed,
      SameUpTo R
        ((⟨c, fragments, path⟩ : Scope).resolveSelection parent traversed selection)
        ((⟨c, others, path⟩ : Scope).resolveSelection parent traversed selection))
    (parent : CompositeType) (traversed : List SelectedField) :
    SameUpTo R
      ((⟨c, fragments, path⟩ : Scope).resolveSelections parent traversed selections)
      ((⟨c, others, path⟩ : Scope).resolveSelections parent traversed selections) := by
  induction selections with
  | nil => exact .ok _
  | cons selection rest ih =>
      rw [List.forall_mem_cons] at h
      rw [resolveSelections, resolveSelections]
      refine (h.1 parent traversed).bind fun first => ?_
      exact (ih h.2).bind fun others => .ok _

include hR

/-- A selection is resolved with the same outcome if the spreads in it are checked so. -/
theorem resolveSelection_sameUpTo {selection : Selection}
    (h : ∀ name, selection.Spreads name → c.ChecksAlike R fragments others name)
    (parent : CompositeType) (traversed : List SelectedField) :
    SameUpTo R
      ((⟨c, fragments, path⟩ : Scope).resolveSelection parent traversed selection)
      ((⟨c, others, path⟩ : Scope).resolveSelection parent traversed selection) := by
  induction selection generalizing path parent traversed with
  | field location aliasName name arguments directives selections ih =>
      rw [resolveSelection, resolveSelection]
      refine (SameUpTo.of_eq hR rfl).bind fun declared => ?_
      refine (SameUpTo.of_eq hR rfl).bind fun type => ?_
      by_cases hselections : selections.isEmpty = true
      · rw [if_pos hselections, if_pos hselections]
        exact .ok _
      · rw [if_neg hselections, if_neg hselections]
        refine (SameUpTo.of_eq hR rfl).bind fun nested => ?_
        refine (resolveSelections_sameUpTo ?_ nested _).bind fun parts => .of_eq hR rfl
        intro selection hmem
        exact ih selection hmem fun name hname => h name (.field hmem hname)
  | spread location name directives =>
      rw [resolveSelection, resolveSelection]
      exact (h name .here path parent location).bind fun _ => .ok _
  | inline location condition directives selections ih =>
      rw [resolveSelection, resolveSelection]
      refine (SameUpTo.of_eq hR rfl).bind fun nested => ?_
      refine (resolveSelections_sameUpTo ?_ nested traversed).bind fun parts => .of_eq hR rfl
      intro selection hmem
      exact ih selection hmem fun name hname => h name (.inline hmem hname)

/-- A selection set is the same among fragments that check its spreads alike. -/
theorem selectionSet_sameUpTo {selections : List Selection}
    (h : ∀ name, (∃ selection ∈ selections, selection.Spreads name) →
      c.ChecksAlike R fragments others name)
    (parent : CompositeType) (traversed : List SelectedField) :
    SameUpTo R ((⟨c, fragments, path⟩ : Scope).selectionSet parent traversed selections)
      ((⟨c, others, path⟩ : Scope).selectionSet parent traversed selections) := by
  rw [selectionSet, selectionSet]
  refine (resolveSelections_sameUpTo ?_ parent traversed).bind fun parts => .of_eq hR rfl
  intro selection hmem
  exact resolveSelection_sameUpTo hR fun name hname => h name ⟨selection, hmem, hname⟩

end Scope

include hR

/-- An operation is compiled with the same outcome if the spreads in it are checked so. -/
theorem Operation.compile_sameUpTo {o : Operation}
    (h : ∀ name, o.Spreads name → c.ChecksAlike R fragments others name) :
    SameUpTo R (o.compile c fragments) (o.compile c others) := by
  unfold compile
  cases o.name with
  | none => exact .of_eq hR rfl
  | some name =>
      refine (SameUpTo.of_eq hR rfl).bind fun root => ?_
      refine (SameUpTo.of_eq hR rfl).bind fun parameters => ?_
      refine (Scope.selectionSet_sameUpTo hR h root []).bind fun result => ?_
      exact .of_eq hR rfl

/-- A fragment is compiled with the same outcome if the spreads in it are checked so. -/
theorem Fragment.compile_sameUpTo {f : Fragment}
    (h : ∀ name, f.Spreads name → c.ChecksAlike R fragments others name) :
    SameUpTo R (f.compile c fragments) (f.compile c others) := by
  unfold compile
  cases c.composite? f.condition with
  | none => exact .of_eq hR rfl
  | some type => exact (Scope.selectionSet_sameUpTo hR h type []).bind fun result => .ok _

omit hR

/-- Of the fragments beside an operation only those matter that are spread in it. -/
theorem Operation.compile_congr {o : Operation}
    (h : ∀ name, o.Spreads name → fragments.get? name = others.get? name) :
    o.compile c fragments = o.compile c others :=
  (compile_sameUpTo Eq.refl fun name hname =>
    Catalog.checksAlike_of_get?_eq Eq.refl (h name hname)).eq

/-- Of the fragments beside a fragment only those matter that are spread in it. -/
theorem Fragment.compile_congr {f : Fragment}
    (h : ∀ name, f.Spreads name → fragments.get? name = others.get? name) :
    f.compile c fragments = f.compile c others :=
  (compile_sameUpTo Eq.refl fun name hname =>
    Catalog.checksAlike_of_get?_eq Eq.refl (h name hname)).eq

end Definitions

end QueryCompiler
