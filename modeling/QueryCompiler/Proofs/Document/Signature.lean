import Mathlib.Data.String.Basic
import QueryCompiler.Document.Signature
import QueryCompiler.Proofs.Document.Induction

/-!
# What signatures tell apart

Signatures do not depend on locations: directives that are the same have the same signature. The
converse fails. Already a single variable enters a signature with its first letter raised, and this
is all that is lost of it: directives that differ in one variable have the same signature exactly if
the two names become one when their first letters are raised.
-/

namespace QueryCompiler

open Text

/-! ### Case of the first letter -/

namespace Text

/-- Replace the first character of a text and keep the others. -/
def mapFirst (f : Char → List Char) (s : String) : String :=
  match s.toList with
  | [] => ""
  | c :: rest => String.ofList (f c ++ rest)

private theorem upperFirst_eq_mapFirst (s : String) : upperFirst s = mapFirst upperChar s := rfl

private theorem lowerFirst_eq_mapFirst (s : String) : lowerFirst s = mapFirst lowerChar s := rfl

/-- The first character of a text is that of its first part. -/
theorem mapFirst_append (f : Char → List Char) {p : String} (hp : p ≠ "") (q : String) :
    mapFirst f (p ++ q) = mapFirst f p ++ q := by
  cases hchars : p.toList with
  | nil => exact absurd (String.toList_eq_nil_iff.mp hchars) hp
  | cons c rest =>
      rw [mapFirst, mapFirst, String.toList_append, hchars, List.cons_append]
      simp only
      rw [← List.append_assoc, String.ofList_append, String.ofList_toList]

/-- Changing the first character leaves no text empty that was not. -/
theorem mapFirst_ne_empty {f : Char → List Char} (hf : ∀ c, f c ≠ []) {p : String} (hp : p ≠ "") :
    mapFirst f p ≠ "" := by
  cases hchars : p.toList with
  | nil => exact absurd (String.toList_eq_nil_iff.mp hchars) hp
  | cons c rest =>
      simp only [mapFirst, hchars]
      rw [Ne, ← String.toList_eq_nil_iff, String.toList_ofList, List.append_eq_nil_iff]
      exact fun hnil => hf c hnil.1

/-- A character is never mapped to nothing. -/
theorem mapCase_ne_nil {words : List (Nat × List Nat)} (hwords : ∀ entry ∈ words, entry.2 ≠ [])
    (runs : List CaseRun) (c : Char) : mapCase words runs c ≠ [] := by
  unfold mapCase
  cases hword : words.lookup c.toNat with
  | some word =>
      obtain ⟨front, back, rfl, _⟩ := List.lookup_eq_some_iff.mp hword
      have hmem : (c.toNat, word) ∈ front ++ (c.toNat, word) :: back := by simp
      simpa using hwords _ hmem
  | none => cases runs.find? (·.covers c.toNat) <;> simp

private theorem upperChar_ne_nil (c : Char) : upperChar c ≠ [] :=
  mapCase_ne_nil (by decide) upperRuns c

private theorem lowerChar_ne_nil (c : Char) : lowerChar c ≠ [] :=
  mapCase_ne_nil (by decide) lowerRuns c

/-- What follows a text that is not empty is not changed. -/
theorem upperFirst_append {p : String} (hp : p ≠ "") (q : String) :
    upperFirst (p ++ q) = upperFirst p ++ q := by
  rw [upperFirst_eq_mapFirst, upperFirst_eq_mapFirst, mapFirst_append _ hp]

private theorem lowerFirst_append {p : String} (hp : p ≠ "") (q : String) :
    lowerFirst (p ++ q) = lowerFirst p ++ q := by
  rw [lowerFirst_eq_mapFirst, lowerFirst_eq_mapFirst, mapFirst_append _ hp]

private theorem upperFirst_ne_empty {p : String} (hp : p ≠ "") : upperFirst p ≠ "" := by
  rw [upperFirst_eq_mapFirst]
  exact mapFirst_ne_empty upperChar_ne_nil hp

private theorem lowerFirst_ne_empty {p : String} (hp : p ≠ "") : lowerFirst p ≠ "" := by
  rw [lowerFirst_eq_mapFirst]
  exact mapFirst_ne_empty lowerChar_ne_nil hp

end Text

/-! ### Locations -/

/-- The signature of a value does not depend on locations. -/
theorem Value.signature_strip (value : Value) : value.strip.signature = value.signature := by
  induction value with
  | atom location content => rfl
  | list location items ih =>
      have hitems : signatureItems (stripItems items) = signatureItems items := by
        induction items with
        | nil => rfl
        | cons item rest ihrest =>
            obtain ⟨hitem, hrest⟩ := List.forall_mem_cons.mp ih
            rw [stripItems, signatureItems, signatureItems, hitem, ihrest hrest]
      rw [strip, signature, signature, hitems]
  | object location fields ih =>
      have hfields : signatureFields (stripFields fields) = signatureFields fields := by
        induction fields with
        | nil => rfl
        | cons field rest ihrest =>
            obtain ⟨hfield, hrest⟩ := List.forall_mem_cons.mp ih
            rw [stripFields, signatureFields, signatureFields, hfield, ihrest hrest]
      rw [strip, signature, signature, hfields]

/-- The signature of an argument has no locations. -/
theorem Argument.signature_strip (a : Argument) : a.strip.signature = a.signature := by
  rw [signature, signature, strip, Value.signature_strip]

/-- The signature of a directive has no locations. -/
theorem Directive.signature_strip (d : Directive) : d.strip.signature = d.signature := by
  simp only [signature, strip, List.map_map, Function.comp_def, Argument.signature_strip]

/-- The signature of directives has no locations. -/
theorem directivesSignature_strip (ds : List Directive) :
    directivesSignature (ds.map Directive.strip) = directivesSignature ds := by
  simp only [directivesSignature, List.map_map, Function.comp_def, Directive.signature_strip]

/-- Directives that are the same have the same signature. -/
theorem directivesSignature_eq_of_strip_eq {ds es : List Directive}
    (h : ds.map Directive.strip = es.map Directive.strip) :
    directivesSignature ds = directivesSignature es := by
  rw [← directivesSignature_strip ds, h, directivesSignature_strip]

/-! ### Variables -/

/-- Directives with a gap in the place of the value of one argument. -/
structure DirectiveFrame where
  before : List Directive
  /-- The directive with the gap. -/
  name : Name
  leading : List Argument
  /-- The argument with the gap. -/
  argument : Name
  trailing : List Argument
  after : List Directive

namespace DirectiveFrame

/-- The directives with a variable in the gap. -/
def fill (frame : DirectiveFrame) (variableName : Name) : List Directive :=
  frame.before ++ ⟨none, frame.name, frame.leading ++
    ⟨none, frame.argument, .atom none (.var variableName)⟩ :: frame.trailing⟩ :: frame.after

/-- A variable enters a signature with its first letter raised, and nothing around it changes. -/
theorem exists_signature_fill {frame : DirectiveFrame} (h : frame.argument ≠ "") :
    ∃ front back, ∀ variableName,
      directivesSignature (frame.fill variableName) = front ++ upperFirst variableName ++ back := by
  let lead := String.join (frame.leading.map fun a => upperFirst a.signature) ++
    upperFirst frame.argument
  let trail := String.join (frame.trailing.map fun a => upperFirst a.signature)
  -- The case of a first letter is changed in front of the variable only.
  have hlead : lead ≠ "" := fun hempty =>
    upperFirst_ne_empty h (String.append_eq_empty_iff.mp hempty).2
  have hhead : frame.name ++ lowerFirst lead ≠ "" := fun hempty =>
    lowerFirst_ne_empty hlead (String.append_eq_empty_iff.mp hempty).2
  refine ⟨String.join (frame.before.map fun d => upperFirst d.signature) ++
      upperFirst (frame.name ++ lowerFirst lead),
    trail ++ String.join (frame.after.map fun d => upperFirst d.signature), fun variableName => ?_⟩
  let argument : Argument := ⟨none, frame.argument, .atom none (.var variableName)⟩
  let directive : Directive := ⟨none, frame.name, frame.leading ++ argument :: frame.trailing⟩
  have hargument : upperFirst argument.signature =
      upperFirst frame.argument ++ upperFirst variableName := upperFirst_append h _
  have hdirective : directive.signature =
      (frame.name ++ lowerFirst lead) ++ (upperFirst variableName ++ trail) := by
    have harguments : String.join (directive.arguments.map fun a => upperFirst a.signature) =
        lead ++ (upperFirst variableName ++ trail) := by
      simp only [directive, lead, trail, List.map_append, List.map_cons, String.join_append,
        String.join_cons, hargument, String.append_assoc]
    rw [Directive.signature, harguments, lowerFirst_append hlead, String.append_assoc]
  calc
    directivesSignature (frame.fill variableName) =
        String.join (frame.before.map fun d => upperFirst d.signature) ++
          (upperFirst directive.signature ++
            String.join (frame.after.map fun d => upperFirst d.signature)) := by
      rw [directivesSignature, fill, List.map_append, List.map_cons, String.join_append,
        String.join_cons]
    _ = _ := by
      rw [hdirective, upperFirst_append hhead]
      simp only [String.append_assoc]

/-- Of a variable, a signature keeps all but the case of the first letter. -/
theorem signature_fill_eq_iff {frame : DirectiveFrame} (h : frame.argument ≠ "")
    {variableName other : Name} :
    directivesSignature (frame.fill variableName) = directivesSignature (frame.fill other) ↔
      upperFirst variableName = upperFirst other := by
  obtain ⟨front, back, hfill⟩ := exists_signature_fill h
  rw [hfill, hfill, String.append_left_inj, String.append_right_inj]

end DirectiveFrame

end QueryCompiler
