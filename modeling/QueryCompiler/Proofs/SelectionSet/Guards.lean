import QueryCompiler.Proofs.Document.Signature
import QueryCompiler.Proofs.SelectionSet.Origin

/-!
# Which inline fragments are put under one guard

Inline fragments that stand side by side become one if they are on the same type and their
directives have one signature. So fragments that are guarded alike are always put together, and
others are kept apart as far as signatures tell their directives apart. They do not tell `$a` from
`$A`: of two fragments whose guards differ in one variable, the second loses its own guard exactly
if the names differ in the case of the first letter at most.
-/

namespace QueryCompiler

open Outcome Text

/-- Two inline fragments are on the same type and have the same directives, locations apart. -/
def WrittenInline.Alike (a b : WrittenInline) : Prop :=
  a.body.type.name = b.body.type.name ∧
    a.directives.map Directive.strip = b.directives.map Directive.strip

namespace WrittenInline

/-- Two inline fragments have one key if their types have one name and their directives one
signature. -/
theorem key_eq_iff {a b : WrittenInline} :
    a.key = b.key ↔ a.body.type.name = b.body.type.name ∧
      directivesSignature a.directives = directivesSignature b.directives := by
  rw [key, key, Prod.mk.injEq]

private theorem Alike.key_eq {a b : WrittenInline} (h : a.Alike b) : a.key = b.key :=
  key_eq_iff.mpr ⟨h.1, directivesSignature_eq_of_strip_eq h.2⟩

end WrittenInline

namespace Written

/-- Two inline fragments become parts of one. -/
def Joins (w : Written) (c : Catalog) (a b : WrittenInline) : Prop :=
  ∃ group ∈ groupBy WrittenInline.key (w.inlines c), a ∈ group ∧ b ∈ group

/-- Among the inline fragments on one type, signatures tell directives apart. -/
def SignaturesFaithful (w : Written) (c : Catalog) : Prop :=
  ∀ a ∈ w.inlines c, ∀ b ∈ w.inlines c, a.body.type.name = b.body.type.name →
    directivesSignature a.directives = directivesSignature b.directives →
      a.directives.map Directive.strip = b.directives.map Directive.strip

variable {w : Written} {c : Catalog} {a b : WrittenInline}

/-- The inline fragments that are joined. -/
theorem joins_iff :
    w.Joins c a b ↔ a ∈ w.inlines c ∧ b ∈ w.inlines c ∧ a.body.type.name = b.body.type.name ∧
      directivesSignature a.directives = directivesSignature b.directives := by
  rw [Joins, exists_mem_groupBy_iff, WrittenInline.key_eq_iff]

private theorem joins_of_alike (ha : a ∈ w.inlines c) (hb : b ∈ w.inlines c) (h : a.Alike b) :
    w.Joins c a b :=
  exists_mem_groupBy_iff.mpr ⟨ha, hb, h.key_eq⟩

/-- Only fragments that are guarded alike are put together exactly if signatures tell the others
apart. -/
theorem forall_joins_alike_iff :
    (∀ a b, w.Joins c a b → a.Alike b) ↔ w.SignaturesFaithful c := by
  constructor
  · intro h a ha b hb htype hsignature
    exact (h a b (joins_iff.mpr ⟨ha, hb, htype, hsignature⟩)).2
  · intro h a b hjoins
    obtain ⟨ha, hb, htype, hsignature⟩ := joins_iff.mp hjoins
    exact ⟨htype, h a ha b hb htype hsignature⟩

/-- Guards that differ in one variable are told apart by all but the case of its first letter. -/
theorem joins_fill_iff {frame : DirectiveFrame} (hframe : frame.argument ≠ "")
    {variableName other : Name} (ha : a ∈ w.inlines c) (hb : b ∈ w.inlines c)
    (hguard : a.directives.map Directive.strip =
      (frame.fill variableName).map Directive.strip)
    (hother : b.directives.map Directive.strip = (frame.fill other).map Directive.strip) :
    w.Joins c a b ↔ a.body.type.name = b.body.type.name ∧
      upperFirst variableName = upperFirst other := by
  rw [joins_iff, directivesSignature_eq_of_strip_eq hguard,
    directivesSignature_eq_of_strip_eq hother, DirectiveFrame.signature_fill_eq_iff hframe]
  constructor
  · exact fun h => h.2.2
  · exact fun h => ⟨ha, hb, h⟩

end Written

namespace Scope

variable {s : Scope} {type : CompositeType} {traversed : List SelectedField}
  {selections : List Selection} {set : SelectionSet} {enums : List (Name × EnumType)}

/-- The inline fragments of a selection set are what those of the document are joined to, group by
group. Fragments that are guarded alike are joined. Only these are, if and only if signatures tell
apart the directives of all others. Of guards that differ in one variable, signatures tell all apart
but those that differ in the case of its first letter. -/
theorem inlines_joined_of_selectionSet
    (h : s.selectionSet type traversed selections = .ok (set, enums)) :
    let w : Written := ⟨type, selections⟩
    List.Forall₂ (InlineFragment.MergedFrom s traversed) set.inlines
        (groupBy WrittenInline.key (w.inlines s.catalog)) ∧
      (∀ a ∈ w.inlines s.catalog, ∀ b ∈ w.inlines s.catalog, a.Alike b →
        w.Joins s.catalog a b) ∧
      ((∀ a b, w.Joins s.catalog a b → a.Alike b) ↔ w.SignaturesFaithful s.catalog) ∧
      ∀ frame : DirectiveFrame, frame.argument ≠ "" →
        ∀ a ∈ w.inlines s.catalog, ∀ b ∈ w.inlines s.catalog, ∀ variableName other,
          a.directives.map Directive.strip = (frame.fill variableName).map Directive.strip →
          b.directives.map Directive.strip = (frame.fill other).map Directive.strip →
            (w.Joins s.catalog a b ↔ a.body.type.name = b.body.type.name ∧
              upperFirst variableName = upperFirst other) := by
  intro w
  have hmakes : w.Makes s traversed set := ⟨enums, h⟩
  refine ⟨hmakes.inlines, fun a ha b hb => Written.joins_of_alike ha hb,
    Written.forall_joins_alike_iff, ?_⟩
  intro frame hframe a ha b hb variableName other hguard hother
  exact Written.joins_fill_iff hframe ha hb hguard hother

end Scope

/-- The directive `@include` with a gap for its condition. -/
def DirectiveFrame.inclusion : DirectiveFrame := ⟨[], "include", [], "if", [], []⟩

/-- Three inline fragments on one type, each included under a variable of its own. -/
def Selection.guardedInlines : List Selection := [
  .inline none (some "Person") (DirectiveFrame.inclusion.fill "a")
    [.field none none "id" [] [] []],
  .inline none (some "Person") (DirectiveFrame.inclusion.fill "b")
    [.field none none "id" [] [] []],
  .inline none (some "Person") (DirectiveFrame.inclusion.fill "A")
    [.field none none "name" [] [] []]]

namespace Scope

/-- The first and the last of the three inline fragments are guarded by different variables, and the
signatures of their guards are one. -/
theorem selectionSet_guardedInlines :
    let s := Scope.start .person .empty (.fragment "Parts")
    ∃ type set enums a b d, s.catalog.composite? "Node" = some type ∧
      s.selectionSet type [] Selection.guardedInlines = .ok (set, enums) ∧
      Written.inlines ⟨type, Selection.guardedInlines⟩ s.catalog = [a, b, d] ∧
      a.body.type.name = d.body.type.name ∧
      a.directives = DirectiveFrame.inclusion.fill "a" ∧
      b.directives = DirectiveFrame.inclusion.fill "b" ∧
      d.directives = DirectiveFrame.inclusion.fill "A" ∧ ¬ a.Alike d := by
  intro s
  have hcomputed : ((s.catalog.composite? "Node").bind fun type =>
      (s.selectionSet type [] Selection.guardedInlines).toOption.map fun _ =>
        (Written.inlines ⟨type, Selection.guardedInlines⟩ s.catalog).map fun i =>
          (i.body.type.name, i.directives)) =
        some [("Person", DirectiveFrame.inclusion.fill "a"),
          ("Person", DirectiveFrame.inclusion.fill "b"),
          ("Person", DirectiveFrame.inclusion.fill "A")] := by
    decide +kernel
  simp only [Option.bind_eq_some_iff, Option.map_eq_some_iff, toOption_eq_some_iff] at hcomputed
  obtain ⟨type, htype, ⟨set, enums⟩, hset, hinlines⟩ := hcomputed
  have hthree : (Written.inlines ⟨type, Selection.guardedInlines⟩ s.catalog).length = 3 := by
    simpa using congrArg List.length hinlines
  obtain ⟨a, b, d, habd⟩ := List.length_eq_three.mp hthree
  rw [habd] at hinlines
  simp only [List.map_cons, List.map_nil, List.cons.injEq, Prod.mk.injEq, and_true] at hinlines
  obtain ⟨⟨hatype, ha⟩, ⟨_, hb⟩, hdtype, hd⟩ := hinlines
  refine ⟨type, set, enums, a, b, d, htype, hset, habd, hatype.trans hdtype.symm, ha, hb, hd, ?_⟩
  rintro ⟨_, hsame⟩
  rw [ha, hd] at hsame
  exact absurd hsame (by decide)

/-- Selections that are included under `$a` and under `$A` are put under one guard. -/
theorem exists_joined_not_alike :
    let s := Scope.start .person .empty (.fragment "Parts")
    ∃ type set enums a d, s.catalog.composite? "Node" = some type ∧
      s.selectionSet type [] Selection.guardedInlines = .ok (set, enums) ∧
      Written.Joins ⟨type, Selection.guardedInlines⟩ s.catalog a d ∧ ¬ a.Alike d := by
  intro s
  obtain ⟨type, set, enums, a, b, d, htype, hset, hinlines, hname, ha, _, hd, hunlike⟩ :=
    selectionSet_guardedInlines
  have hsignature : directivesSignature a.directives = directivesSignature d.directives := by
    rw [ha, hd]
    decide +kernel
  refine ⟨type, set, enums, a, d, htype, hset, Written.joins_iff.mpr ?_, hunlike⟩
  rw [hinlines]
  exact ⟨by simp, by simp, hname, hsignature⟩

/-- The inline fragment under `$b` is kept apart from the other two, which are put together. -/
theorem inlines_joined_guardedInlines :
    let s := Scope.start .person .empty (.fragment "Parts")
    ∃ type set enums a b d, s.catalog.composite? "Node" = some type ∧
      s.selectionSet type [] Selection.guardedInlines = .ok (set, enums) ∧
      Written.inlines ⟨type, Selection.guardedInlines⟩ s.catalog = [a, b, d] ∧
      List.Forall₂ (InlineFragment.MergedFrom s []) set.inlines
        (groupBy WrittenInline.key [a, b, d]) ∧
      Written.Joins ⟨type, Selection.guardedInlines⟩ s.catalog a d ∧
      ¬ Written.Joins ⟨type, Selection.guardedInlines⟩ s.catalog a b ∧
      ¬ Written.SignaturesFaithful ⟨type, Selection.guardedInlines⟩ s.catalog := by
  intro s
  obtain ⟨type, set, enums, a, b, d, htype, hset, hinlines, hname, ha, hb, hd, hunlike⟩ :=
    selectionSet_guardedInlines
  obtain ⟨hmerged, _, hfaithful, hfill⟩ := inlines_joined_of_selectionSet hset
  rw [hinlines] at hmerged hfill
  have hguards := hfill .inclusion (by decide)
  have hjoined := (hguards a (by simp) d (by simp) "a" "A" (by rw [ha]) (by rw [hd])).mpr
    ⟨hname, by decide +kernel⟩
  refine ⟨type, set, enums, a, b, d, htype, hset, hinlines, hmerged, hjoined, ?_, ?_⟩
  · intro hab
    have hsame := (hguards a (by simp) b (by simp) "a" "b" (by rw [ha]) (by rw [hb])).mp hab
    have hdiffer : upperFirst "a" ≠ upperFirst "b" := by decide +kernel
    exact hdiffer hsame.2
  · intro hall
    exact hunlike (hfaithful.mpr hall a d hjoined)

end Scope

end QueryCompiler
