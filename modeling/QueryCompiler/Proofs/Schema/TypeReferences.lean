import Mathlib.Data.String.Basic
import QueryCompiler.Proofs.OrderedMap
import QueryCompiler.Proofs.Outcome
import QueryCompiler.Schema.Introspection

/-!
# Type references in introspection answers

A type reference is an object with a kind, a name and the type inside, in any order and among any
other keys. It is read exactly if what it gives under these keys has the form that it must have and
the kind finds what it asks for. The result follows the types inside from one to the next, so a type
reference that is given as such a chain is read back.
-/

namespace QueryCompiler

open Outcome

namespace Json

/-- Induction over a JSON value: the items of an array and the members of an object may be taken for
granted. -/
@[elab_as_elim, induction_eliminator]
theorem induction {motive : Json → Prop} (null : motive .null)
    (bool : ∀ value, motive (.bool value)) (int : ∀ value, motive (.int value))
    (float : ∀ value, motive (.float value)) (string : ∀ text, motive (.string text))
    (array : ∀ items, (∀ item ∈ items, motive item) → motive (.array items))
    (object : ∀ members, (∀ member ∈ members, motive member.2) → motive (.object members))
    (j : Json) : motive j := by
  refine @Json.rec motive (fun items => ∀ item ∈ items, motive item)
    (fun members => ∀ member ∈ members, motive member.2) (fun member => motive member.2)
    null bool int float string array object ?_ ?_ ?_ ?_ ?_ j
  · simp
  · intro first rest hfirst hrest
    exact List.forall_mem_cons.mpr ⟨hfirst, hrest⟩
  · simp
  · intro first rest hfirst hrest
    exact List.forall_mem_cons.mpr ⟨hfirst, hrest⟩
  · intro key value hvalue
    exact hvalue

/-- What the last member under a key holds. -/
def last? (key : String) (members : List (String × Json)) : Option Json :=
  members.reverse.lookup key

variable {α : Type} {decode : Json → Except DecodeError α} {j : Json}

private theorem toOption_of_ne_null (h : j ≠ .null) : j.toOption decode = (decode j).map some := by
  cases j with
  | null => exact absurd rfl h
  | _ => rfl

/-- A value that may be null is read as nothing, or else as what it is read as itself. -/
theorem toOption_eq_ok_iff {result : Option α} :
    j.toOption decode = .ok result ↔
      j = .null ∧ none = result ∨ j ≠ .null ∧ ∃ a, decode j = .ok a ∧ some a = result := by
  by_cases hnull : j = .null
  · simp [hnull, toOption]
  · simp [hnull, toOption_of_ne_null, map_eq_ok_iff]

/-- A text is read from a JSON string. -/
theorem toText_eq_ok_iff {text : String} : j.toText = .ok text ↔ j = .string text := by
  unfold toText
  split
  · simp
  next hstring =>
    constructor
    · intro h
      cases h
    · intro h
      exact absurd h (hstring text)

end Json

namespace Introspection

open Json

/-! ### Kinds -/

namespace TypeKind

/-- What a JSON value must be to give a kind: its word, or an object with the word as its only key
and nothing under it. -/
inductive Given (kind : TypeKind) : Json → Prop
  | word : Given kind (.string kind.word)
  | key : Given kind (.object [(kind.word, .null)])

/-- A kind is read from its word. -/
theorem ofWord_eq_ok_iff {text : String} {kind : TypeKind} :
    ofWord text = .ok kind ↔ kind.word = text := by
  constructor
  · intro h
    unfold ofWord at h
    cases hfind : all.find? (fun kind => kind.word = text) with
    | none => simp [hfind] at h
    | some found =>
        simp only [hfind, Except.ok.injEq] at h
        have hword := List.find?_some hfind
        rw [← h]
        simpa using hword
  · rintro rfl
    cases kind <;> rfl

/-- A kind is read exactly from what gives it. -/
theorem ofJson_eq_ok_iff {j : Json} {kind : TypeKind} : ofJson j = .ok kind ↔ kind.Given j := by
  constructor
  · intro h
    unfold ofJson at h
    split at h
    next text =>
      obtain rfl := ofWord_eq_ok_iff.mp h
      exact .word
    next text content =>
      obtain ⟨found, hfound, hcontent⟩ := bind_eq_ok_iff.mp h
      obtain rfl := ofWord_eq_ok_iff.mp hfound
      cases content <;> cases hcontent
      exact .key
    · cases h
    · cases h
  · rintro (_ | _)
    · exact ofWord_eq_ok_iff.mpr rfl
    · rw [ofJson, ofWord_eq_ok_iff.mpr rfl]
      rfl

/-- A JSON value gives one kind. -/
theorem Given.unique {kind other : TypeKind} {j : Json} (h : kind.Given j)
    (hother : other.Given j) : kind = other := by
  rw [← ofJson_eq_ok_iff] at h hother
  exact Except.ok.inj (h.symm.trans hother)

end TypeKind

/-! ### Reading members -/

section Members

variable {α : Type} {key : String} {read : Json → Except DecodeError α}

/-- Members are gone through in order, and whatever stands under a key takes the place of what was
read before. -/
inductive TakesLast (key : String) (read : Json → Except DecodeError α) :
    List (String × Json) → α → α → Prop
  | nil {a : α} : TakesLast key read [] a a
  | other {k : String} {v : Json} {rest : List (String × Json)} {a b : α} : k ≠ key →
      TakesLast key read rest a b → TakesLast key read ((k, v) :: rest) a b
  | take {v : Json} {rest : List (String × Json)} {a next b : α} : read v = .ok next →
      TakesLast key read rest next b → TakesLast key read ((key, v) :: rest) a b

private theorem takesLast_nil_iff {a b : α} : TakesLast key read [] a b ↔ a = b :=
  ⟨fun | .nil => rfl, fun h => h ▸ .nil⟩

private theorem takesLast_cons_iff_of_ne {k : String} {v : Json} {rest : List (String × Json)}
    {a b : α} (h : k ≠ key) :
    TakesLast key read ((k, v) :: rest) a b ↔ TakesLast key read rest a b := by
  constructor
  · rintro (_ | ⟨_, hrest⟩ | _)
    · exact hrest
    · exact absurd rfl h
  · exact .other h

private theorem takesLast_cons_self_iff {v : Json} {rest : List (String × Json)} {a b : α} :
    TakesLast key read ((key, v) :: rest) a b ↔
      ∃ next, read v = .ok next ∧ TakesLast key read rest next b := by
  constructor
  · rintro (_ | ⟨hne, _⟩ | ⟨hread, hrest⟩)
    · exact absurd rfl hne
    · exact ⟨_, hread, hrest⟩
  · rintro ⟨next, hread, hrest⟩
    exact .take hread hrest

private theorem last?_cons (k : String) (v : Json) (rest : List (String × Json)) :
    last? key ((k, v) :: rest) = (last? key rest).or (if k = key then some v else none) := by
  rw [last?, List.reverse_cons, List.lookup_append, last?]
  by_cases h : k = key
  · subst h
    simp
  · have hne : (key == k) = false := by simpa using Ne.symm h
    simp [List.lookup, h, hne]

/-- The last member under a key is a member. -/
theorem mem_of_last? {members : List (String × Json)} {v : Json}
    (h : last? key members = some v) : (key, v) ∈ members := by
  obtain ⟨before, after, hsplit, _⟩ := List.lookup_eq_some_iff.mp h
  rw [← List.mem_reverse, hsplit]
  exact List.mem_append_right _ List.mem_cons_self

/-- Every member under the key must be readable, and the last one counts. -/
theorem takesLast_iff {members : List (String × Json)} {a b : α} :
    TakesLast key read members a b ↔
      (∀ v, (key, v) ∈ members → ∃ c, read v = .ok c) ∧
      (((last? key members).map read).getD (.ok a) = .ok b) := by
  induction members generalizing a with
  | nil => simp [takesLast_nil_iff, last?]
  | cons member rest ih =>
      obtain ⟨k, v⟩ := member
      rw [last?_cons]
      by_cases h : k = key
      · subst h
        have hall : (∀ w, (k, w) ∈ (k, v) :: rest → ∃ c, read w = .ok c) ↔
            (∃ c, read v = .ok c) ∧ ∀ w, (k, w) ∈ rest → ∃ c, read w = .ok c := by
          simp [or_imp, forall_and]
        rw [takesLast_cons_self_iff, hall]
        simp only [ih, if_true]
        -- This member is the last one, or is read and then overwritten.
        cases last? k rest with
        | none =>
            constructor
            · rintro ⟨next, hread, hrest, hb⟩
              exact ⟨⟨⟨next, hread⟩, hrest⟩, hread.trans hb⟩
            · rintro ⟨⟨_, hrest⟩, hb⟩
              exact ⟨b, hb, hrest, rfl⟩
        | some w =>
            constructor
            · rintro ⟨next, hread, hrest, hb⟩
              exact ⟨⟨⟨next, hread⟩, hrest⟩, hb⟩
            · rintro ⟨⟨⟨next, hread⟩, hrest⟩, hb⟩
              exact ⟨next, hread, hrest, hb⟩
      · rw [takesLast_cons_iff_of_ne h, ih]
        have hmem (w : Json) : (key, w) ∈ (k, v) :: rest ↔ (key, w) ∈ rest := by
          simp [Ne.symm h]
        simp only [hmem, h, if_false, Option.or_none]

/-- The members under a key are read if each of them is, those that are overwritten included. -/
theorem exists_takesLast_iff {members : List (String × Json)} {a : α} :
    (∃ b, TakesLast key read members a b) ↔ ∀ v, (key, v) ∈ members → ∃ c, read v = .ok c := by
  constructor
  · rintro ⟨b, h⟩
    exact (takesLast_iff.mp h).1
  · intro hall
    cases hlast : last? key members with
    | none => exact ⟨a, takesLast_iff.mpr ⟨hall, by rw [hlast]; rfl⟩⟩
    | some v =>
        obtain ⟨b, hb⟩ := hall v (mem_of_last? hlast)
        exact ⟨b, takesLast_iff.mpr ⟨hall, by rw [hlast]; exact hb⟩⟩

/-- Nothing is read under a key without members, and else what the last one is read as. -/
theorem takesLast_none_iff {read : Json → Except DecodeError (Option α)}
    {members : List (String × Json)} {result : Option α} :
    TakesLast key read members none result ↔
      (∀ v, (key, v) ∈ members → ∃ c, read v = .ok c) ∧
      ∀ a, result = some a ↔ ∃ v, last? key members = some v ∧ read v = .ok (some a) := by
  rw [takesLast_iff, and_congr_right_iff]
  intro hall
  cases hlast : last? key members with
  | none => simp [Option.eq_none_iff_forall_ne_some, eq_comm]
  | some v =>
      obtain ⟨c, hc⟩ := hall v (mem_of_last? hlast)
      simp only [Option.map_some, Option.getD_some, hc, Except.ok.injEq, Option.some.injEq,
        exists_eq_left']
      rw [Option.ext_iff]
      exact forall_congr' fun _ => iff_comm

end Members

/-- One member fills in the part that its key names, if it names one. -/
theorem typeRefParts_cons_eq_ok_iff {key : String} {value : Json} {rest : List (String × Json)}
    {parts result : TypeRefParts} :
    typeRefParts ((key, value) :: rest) parts = .ok result ↔
      if key = "kind" then ∃ kind, TypeKind.ofJson value = .ok kind ∧
        typeRefParts rest { parts with kind := some kind } = .ok result
      else if key = "name" then ∃ name, value.toOption toText = .ok name ∧
        typeRefParts rest { parts with name := name } = .ok result
      else if key = "ofType" then ∃ inner, value.toOption typeRef = .ok inner ∧
        typeRefParts rest { parts with inner := inner } = .ok result
      else typeRefParts rest parts = .ok result := by
  rw [typeRefParts.eq_def]
  dsimp only
  split
  · exact bind_eq_ok_iff
  split
  · exact bind_eq_ok_iff
  split
  · split
    · simp [toOption]
    next hnull =>
      rw [toOption_of_ne_null hnull]
      simp [bind_eq_ok_iff, map_eq_ok_iff]
  · rfl

/-- The three parts of a type reference are read from the members under their own keys, each apart
from the others. -/
theorem typeRefParts_eq_ok_iff {members : List (String × Json)} {parts result : TypeRefParts} :
    typeRefParts members parts = .ok result ↔
      TakesLast "kind" (fun v => (TypeKind.ofJson v).map some) members parts.kind result.kind ∧
      TakesLast "name" (toOption toText) members parts.name result.name ∧
      TakesLast "ofType" (toOption typeRef) members parts.inner result.inner := by
  induction members generalizing parts with
  | nil =>
      simp only [typeRefParts, Except.ok.injEq, takesLast_nil_iff]
      cases parts
      cases result
      simp
  | cons member rest ih =>
      obtain ⟨key, value⟩ := member
      rw [typeRefParts_cons_eq_ok_iff]
      -- A member is read into the part that its key names, and other keys are passed over.
      split
      next hkey =>
        subst hkey
        rw [takesLast_cons_self_iff, takesLast_cons_iff_of_ne (by decide),
          takesLast_cons_iff_of_ne (by decide)]
        simp [ih, map_eq_ok_iff, ← exists_and_right, and_assoc]
      split
      next _ hkey =>
        subst hkey
        rw [takesLast_cons_self_iff, takesLast_cons_iff_of_ne (by decide),
          takesLast_cons_iff_of_ne (by decide)]
        simp only [ih]
        grind
      split
      next _ _ hkey =>
        subst hkey
        rw [takesLast_cons_self_iff, takesLast_cons_iff_of_ne (by decide),
          takesLast_cons_iff_of_ne (by decide)]
        simp only [ih]
        grind
      next hkind hname hinner =>
        rw [takesLast_cons_iff_of_ne hkind, takesLast_cons_iff_of_ne hname,
          takesLast_cons_iff_of_ne hinner]
        exact ih

/-! ### Which values are type references -/

/-- A JSON value that gives a type reference: an object with a kind, whose name is null or a text,
whose type inside is null or a type reference again, and that has a name or a type inside as its
kind asks for. If a key is repeated, all of its members must have their form and the last counts. -/
inductive Decodable : Json → Prop
  | object {members : List (String × Json)} {kind : TypeKind} {given : Json} :
      last? "kind" members = some given → kind.Given given →
      (∀ v, ("kind", v) ∈ members → ∃ other : TypeKind, other.Given v) →
      (∀ v, ("name", v) ∈ members → v = .null ∨ ∃ name, v = .string name) →
      (∀ v, ("ofType", v) ∈ members → v ≠ .null → Decodable v) →
      (kind.isWrapper = false → ∃ name, last? "name" members = some (.string name)) →
      (kind.isWrapper = true → ∃ inner, last? "ofType" members = some inner ∧ inner ≠ .null) →
      Decodable (.object members)

/-- A type reference follows the types inside of a JSON value: a list or non-null type is one of
what the type inside gives, and all others are named, whatever stands inside. -/
inductive Follows : Json → TypeRef → Prop
  | named {members : List (String × Json)} {kind : TypeKind} {given : Json} {name : Name} :
      last? "kind" members = some given → kind.Given given → kind.isWrapper = false →
      last? "name" members = some (.string name) → Follows (.object members) (.named name)
  | list {members : List (String × Json)} {given inner : Json} {item : TypeRef} :
      last? "kind" members = some given → TypeKind.list.Given given →
      last? "ofType" members = some inner → Follows inner item →
      Follows (.object members) (.list item)
  | nonNull {members : List (String × Json)} {given inner : Json} {type : TypeRef} :
      last? "kind" members = some given → TypeKind.nonNull.Given given →
      last? "ofType" members = some inner → Follows inner type →
      Follows (.object members) (.nonNull type)

/-- The parts of a type reference are complete: a named kind with its name, or a wrapper with the
type that it wraps. -/
theorem TypeRefParts.complete_eq_ok_iff {parts : TypeRefParts} {type : TypeRef} :
    parts.complete = .ok type ↔ ∃ kind, parts.kind = some kind ∧
      ((kind.isWrapper = false ∧ ∃ name, parts.name = some name ∧ .named name = type) ∨
        (kind = .list ∧ ∃ item, parts.inner = some item ∧ .list item = type) ∨
        (kind = .nonNull ∧ ∃ inner, parts.inner = some inner ∧ .nonNull inner = type)) := by
  obtain ⟨kind, name, inner⟩ := parts
  cases kind with
  | none => simp [complete]
  | some kind =>
    cases kind <;> cases name <;> cases inner <;> simp [complete, TypeKind.isWrapper]

/-- Parts are complete if there is a kind and it finds what it asks for. -/
theorem TypeRefParts.exists_complete_iff {parts : TypeRefParts} :
    (∃ type, parts.complete = .ok type) ↔ ∃ kind, parts.kind = some kind ∧
      (kind.isWrapper = false → ∃ name, parts.name = some name) ∧
      (kind.isWrapper = true → ∃ inner, parts.inner = some inner) := by
  obtain ⟨kind, name, inner⟩ := parts
  cases kind with
  | none => simp [complete]
  | some kind =>
      cases kind <;> cases name <;> cases inner <;> simp [complete, TypeKind.isWrapper]

section Decodable

variable {members : List (String × Json)} {j : Json} {type : TypeRef}

/-- The members under `kind` are read if each gives a kind. -/
theorem exists_kind_iff :
    (∃ result, TakesLast "kind" (fun v => (TypeKind.ofJson v).map some) members none result) ↔
      ∀ v, ("kind", v) ∈ members → ∃ kind : TypeKind, kind.Given v := by
  simp [exists_takesLast_iff, map_eq_ok_iff, TypeKind.ofJson_eq_ok_iff]

/-- The members under `name` are read if each is a text or null. -/
theorem exists_name_iff :
    (∃ result, TakesLast "name" (toOption toText) members none result) ↔
      ∀ v, ("name", v) ∈ members → v = .null ∨ ∃ name, v = .string name := by
  rw [exists_takesLast_iff]
  refine forall₂_congr fun v _ => ?_
  simp only [toOption_eq_ok_iff, toText_eq_ok_iff]
  by_cases hnull : v = .null
  · simp [hnull]
  · simp [hnull]

/-- The members under `ofType` are read if each is null or a type reference. -/
theorem exists_inner_iff :
    (∃ result, TakesLast "ofType" (toOption typeRef) members none result) ↔
      ∀ v, ("ofType", v) ∈ members → v ≠ .null → ∃ inner, typeRef v = .ok inner := by
  rw [exists_takesLast_iff]
  refine forall₂_congr fun v _ => ?_
  simp only [toOption_eq_ok_iff]
  by_cases hnull : v = .null
  · simp [hnull]
  · simp [hnull]

/-- The kind is the one that the last member gives. -/
theorem kind_eq_some_iff {result : Option TypeKind} {kind : TypeKind}
    (h : TakesLast "kind" (fun v => (TypeKind.ofJson v).map some) members none result) :
    result = some kind ↔ ∃ given, last? "kind" members = some given ∧ kind.Given given := by
  simp [(takesLast_none_iff.mp h).2, map_eq_ok_iff, TypeKind.ofJson_eq_ok_iff]

/-- The name is the text of the last member. -/
theorem name_eq_some_iff {result : Option Name} {name : Name}
    (h : TakesLast "name" (toOption toText) members none result) :
    result = some name ↔ last? "name" members = some (.string name) := by
  rw [(takesLast_none_iff.mp h).2]
  simp only [toOption_eq_ok_iff, toText_eq_ok_iff]
  constructor
  · rintro ⟨v, hlast, ⟨_, hnone⟩ | ⟨_, text, rfl, htext⟩⟩
    · cases hnone
    · cases htext
      exact hlast
  · intro hlast
    exact ⟨_, hlast, .inr ⟨nofun, name, rfl, rfl⟩⟩

private theorem typeRef_null_ne_ok : typeRef .null ≠ .ok type := nofun

/-- The wrapped type is the one that the last member is read as. -/
theorem inner_eq_some_iff {result : Option TypeRef}
    (h : TakesLast "ofType" (toOption typeRef) members none result) :
    result = some type ↔ ∃ inner, last? "ofType" members = some inner ∧
      typeRef inner = .ok type := by
  rw [(takesLast_none_iff.mp h).2]
  refine exists_congr fun v => and_congr_right fun _ => ?_
  rw [toOption_eq_ok_iff]
  constructor
  · rintro (⟨_, hnone⟩ | ⟨_, inner, hinner, htype⟩)
    · cases hnone
    · cases htype
      exact hinner
  · intro hv
    refine .inr ⟨?_, type, hv, rfl⟩
    rintro rfl
    exact typeRef_null_ne_ok hv

/-- A type reference is read from an object whose three parts can be read and are complete. -/
theorem typeRef_object_eq_ok_iff :
    typeRef (.object members) = .ok type ↔ ∃ parts : TypeRefParts,
      TakesLast "kind" (fun v => (TypeKind.ofJson v).map some) members none parts.kind ∧
      TakesLast "name" (toOption toText) members none parts.name ∧
      TakesLast "ofType" (toOption typeRef) members none parts.inner ∧
      parts.complete = .ok type := by
  simp only [typeRef, bind_eq_ok_iff, typeRefParts_eq_ok_iff, and_assoc]

/-- What is read follows the last members. -/
theorem follows_of_typeRef (h : typeRef j = .ok type) : Follows j type := by
  induction j generalizing type with
  | object members ih =>
      obtain ⟨parts, hkind, hname, hinner, hcomplete⟩ := typeRef_object_eq_ok_iff.mp h
      obtain ⟨kind, hparts, hcases⟩ := TypeRefParts.complete_eq_ok_iff.mp hcomplete
      obtain ⟨given, hgiven, hkinds⟩ := (kind_eq_some_iff hkind).mp hparts
      rcases hcases with ⟨hwrapper, name, hn, rfl⟩ | ⟨rfl, item, hi, rfl⟩ | ⟨rfl, inner, hi, rfl⟩
      · exact .named hgiven hkinds hwrapper ((name_eq_some_iff hname).mp hn)
      · obtain ⟨v, hlast, hv⟩ := (inner_eq_some_iff hinner).mp hi
        exact .list hgiven hkinds hlast (ih _ (mem_of_last? hlast) hv)
      · obtain ⟨v, hlast, hv⟩ := (inner_eq_some_iff hinner).mp hi
        exact .nonNull hgiven hkinds hlast (ih _ (mem_of_last? hlast) hv)
  | _ => exact absurd h nofun

/-- What is read can be decoded. -/
theorem decodable_of_typeRef (h : typeRef j = .ok type) : Decodable j := by
  induction j generalizing type with
  | object members ih =>
      obtain ⟨parts, hkind, hname, hinner, hcomplete⟩ := typeRef_object_eq_ok_iff.mp h
      obtain ⟨kind, hparts, hnamed, hwrapper⟩ :=
        TypeRefParts.exists_complete_iff.mp ⟨type, hcomplete⟩
      obtain ⟨given, hgiven, hkinds⟩ := (kind_eq_some_iff hkind).mp hparts
      refine .object hgiven hkinds (exists_kind_iff.mp ⟨_, hkind⟩) (exists_name_iff.mp ⟨_, hname⟩)
        ?_ ?_ ?_
      · intro v hv hnull
        obtain ⟨inner, hread⟩ := exists_inner_iff.mp ⟨_, hinner⟩ v hv hnull
        exact ih _ hv hread
      · intro hkind
        obtain ⟨name, hn⟩ := hnamed hkind
        exact ⟨name, (name_eq_some_iff hname).mp hn⟩
      · intro hkind
        obtain ⟨inner, hi⟩ := hwrapper hkind
        obtain ⟨v, hlast, hv⟩ := (inner_eq_some_iff hinner).mp hi
        refine ⟨v, hlast, ?_⟩
        rintro rfl
        exact typeRef_null_ne_ok hv
  | _ => exact absurd h nofun

/-- What has the form of a type reference can be read. -/
theorem exists_typeRef_of_decodable (h : Decodable j) : ∃ type, typeRef j = .ok type := by
  induction h with
  | @object members kind given hgiven hkind hkinds hnames _ hnamed hwrapper hinners =>
      obtain ⟨k, hk⟩ := exists_kind_iff.mpr hkinds
      obtain ⟨n, hn⟩ := exists_name_iff.mpr hnames
      obtain ⟨i, hi⟩ := exists_inner_iff.mpr hinners
      have hcomplete : ∃ type, (TypeRefParts.mk k n i).complete = .ok type := by
        refine TypeRefParts.exists_complete_iff.mpr
          ⟨kind, (kind_eq_some_iff hk).mpr ⟨given, hgiven, hkind⟩, fun h => ?_, fun h => ?_⟩
        · obtain ⟨name, hlast⟩ := hnamed h
          exact ⟨name, (name_eq_some_iff hn).mpr hlast⟩
        · obtain ⟨inner, hlast, hnull⟩ := hwrapper h
          obtain ⟨type, htype⟩ := hinners inner (mem_of_last? hlast) hnull
          exact ⟨type, (inner_eq_some_iff hi).mpr ⟨inner, hlast, htype⟩⟩
      obtain ⟨type, htype⟩ := hcomplete
      exact ⟨type, typeRef_object_eq_ok_iff.mpr ⟨⟨k, n, i⟩, hk, hn, hi, htype⟩⟩

/-- What can be decoded is read. -/
theorem exists_typeRef_iff_decodable : (∃ type, typeRef j = .ok type) ↔ Decodable j :=
  ⟨fun ⟨_, h⟩ => decodable_of_typeRef h, exists_typeRef_of_decodable⟩

private theorem kind_unique {kind other : TypeKind} {given given' : Json}
    (h : last? "kind" members = some given) (hkind : kind.Given given)
    (h' : last? "kind" members = some given') (hother : other.Given given') : kind = other := by
  obtain rfl := Option.some.inj (h.symm.trans h')
  exact hkind.unique hother

/-- A JSON value leads to one type reference at most. -/
theorem Follows.unique {other : TypeRef} (h : Follows j type) (hother : Follows j other) :
    type = other := by
  induction h generalizing other with
  | named hlast hgiven hwrapper hname =>
      cases hother with
      | named _ _ _ hname' =>
          cases hname.symm.trans hname'
          rfl
      | list hlast' hgiven' =>
          -- One kind is not another: the last member under `kind` decides which rule applies.
          cases kind_unique hlast hgiven hlast' hgiven'
          cases hwrapper
      | nonNull hlast' hgiven' =>
          cases kind_unique hlast hgiven hlast' hgiven'
          cases hwrapper
  | list hlast hgiven hinner _ ih =>
      cases hother with
      | named hlast' hgiven' hwrapper =>
          cases kind_unique hlast hgiven hlast' hgiven'
          cases hwrapper
      | list _ _ hinner' hitem =>
          cases hinner.symm.trans hinner'
          rw [ih hitem]
      | nonNull hlast' hgiven' => cases kind_unique hlast hgiven hlast' hgiven'
  | nonNull hlast hgiven hinner _ ih =>
      cases hother with
      | named hlast' hgiven' hwrapper =>
          cases kind_unique hlast hgiven hlast' hgiven'
          cases hwrapper
      | list hlast' hgiven' => cases kind_unique hlast hgiven hlast' hgiven'
      | nonNull _ _ hinner' hitem =>
          cases hinner.symm.trans hinner'
          rw [ih hitem]

/-- A type is read from a JSON value that can be decoded and follows it. -/
theorem typeRef_eq_ok_iff : typeRef j = .ok type ↔ Decodable j ∧ Follows j type := by
  constructor
  · intro h
    exact ⟨decodable_of_typeRef h, follows_of_typeRef h⟩
  · rintro ⟨hdecodable, hfollows⟩
    obtain ⟨other, hother⟩ := exists_typeRef_of_decodable hdecodable
    rwa [hfollows.unique (follows_of_typeRef hother)]

end Decodable

/-! ### Order and other keys -/

/-- Two JSON values that give the same under the keys of a type reference, and under `ofType` values
that do so again. Their keys may be in different orders and among different other keys, but none
is repeated. -/
inductive SameReference : Json → Json → Prop
  | refl {j : Json} : SameReference j j
  | object {members others : List (String × Json)} : (members.map Prod.fst).Nodup →
      (others.map Prod.fst).Nodup → members.lookup "kind" = others.lookup "kind" →
      members.lookup "name" = others.lookup "name" →
      Option.Rel SameReference (members.lookup "ofType") (others.lookup "ofType") →
      SameReference (.object members) (.object others)

section SameReference

variable {members others : List (String × Json)} {key : String} {j other : Json} {type : TypeRef}

private theorem mem_iff_lookup_eq (h : (members.map Prod.fst).Nodup) {v : Json} :
    (key, v) ∈ members ↔ members.lookup key = some v :=
  (@OrderedMap.get?_eq_some_iff _ _ _ ⟨members, h⟩ key v).symm

/-- Under a key that is not repeated, the last member is the first one. -/
theorem last?_eq_lookup (h : (members.map Prod.fst).Nodup) :
    last? key members = members.lookup key := by
  have hreverse : (members.reverse.map Prod.fst).Nodup := by
    rw [List.map_reverse]
    exact List.nodup_reverse.mpr h
  apply Option.ext
  intro v
  rw [last?, ← mem_iff_lookup_eq hreverse, ← mem_iff_lookup_eq h, List.mem_reverse]

private theorem exists_of_rel_some_left {a : Json} {b : Option Json}
    (h : Option.Rel SameReference (some a) b) : ∃ b', b = some b' ∧ SameReference a b' := by
  cases h with
  | some hsame => exact ⟨_, rfl, hsame⟩

private theorem exists_of_rel_some_right {a : Option Json} {b : Json}
    (h : Option.Rel SameReference a (some b)) : ∃ a', a = some a' ∧ SameReference a' b := by
  cases h with
  | some hsame => exact ⟨_, rfl, hsame⟩

/-- Only null is the same reference as null. -/
theorem SameReference.eq_null_iff (h : SameReference j other) : j = .null ↔ other = .null := by
  cases h with
  | refl => rfl
  | object => exact ⟨nofun, nofun⟩

/-- The same reference can be decoded alike. -/
theorem SameReference.decodable (h : SameReference j other) (hj : Decodable j) :
    Decodable other := by
  induction hj generalizing other with
  | @object members kind given hgiven hkind hkinds hnames hinners hnamed hwrapper ih =>
      cases h with
      | refl => exact .object hgiven hkind hkinds hnames hinners hnamed hwrapper
      | @object _ others hm ho hsameKind hsameName hsameInner =>
          simp only [last?_eq_lookup hm, mem_iff_lookup_eq hm, hsameKind, hsameName] at *
          refine .object (last?_eq_lookup ho ▸ hgiven) hkind ?_ ?_ ?_ ?_ ?_
          · exact fun v hv => hkinds v ((mem_iff_lookup_eq ho).mp hv)
          · exact fun v hv => hnames v ((mem_iff_lookup_eq ho).mp hv)
          · intro v hv hnull
            rw [(mem_iff_lookup_eq ho).mp hv] at hsameInner
            obtain ⟨w, hw, hsame⟩ := exists_of_rel_some_right hsameInner
            exact ih w hw (mt hsame.eq_null_iff.mp hnull) hsame
          · exact fun h => last?_eq_lookup ho ▸ hnamed h
          · intro h
            obtain ⟨inner, hinner, hnull⟩ := hwrapper h
            rw [hinner] at hsameInner
            obtain ⟨w, hw, hsame⟩ := exists_of_rel_some_left hsameInner
            exact ⟨w, last?_eq_lookup ho ▸ hw, mt hsame.eq_null_iff.mpr hnull⟩

/-- The same reference follows the same type. -/
theorem SameReference.follows (h : SameReference j other) (hj : Follows j type) :
    Follows other type := by
  induction hj generalizing other with
  | named hgiven hkind hwrapper hname =>
      cases h with
      | refl => exact .named hgiven hkind hwrapper hname
      | object hm ho hsameKind hsameName =>
          rw [last?_eq_lookup hm] at hgiven hname
          exact .named (last?_eq_lookup ho ▸ hsameKind ▸ hgiven) hkind hwrapper
            (last?_eq_lookup ho ▸ hsameName ▸ hname)
  | list hgiven hkind hinner hitem ih =>
      cases h with
      | refl => exact .list hgiven hkind hinner hitem
      | object hm ho hsameKind hsameName hsameInner =>
          rw [last?_eq_lookup hm] at hgiven hinner
          rw [hinner] at hsameInner
          obtain ⟨w, hw, hsame⟩ := exists_of_rel_some_left hsameInner
          exact .list (last?_eq_lookup ho ▸ hsameKind ▸ hgiven) hkind (last?_eq_lookup ho ▸ hw)
            (ih hsame)
  | nonNull hgiven hkind hinner hitem ih =>
      cases h with
      | refl => exact .nonNull hgiven hkind hinner hitem
      | object hm ho hsameKind hsameName hsameInner =>
          rw [last?_eq_lookup hm] at hgiven hinner
          rw [hinner] at hsameInner
          obtain ⟨w, hw, hsame⟩ := exists_of_rel_some_left hsameInner
          exact .nonNull (last?_eq_lookup ho ▸ hsameKind ▸ hgiven) hkind (last?_eq_lookup ho ▸ hw)
            (ih hsame)

end SameReference

/-! ### Chains -/

/-- A type reference written out as a chain of types inside, with the kind of the named type at its
end. -/
def chain (kind : TypeKind) : TypeRef → Json
  | .named name =>
      .object [("kind", .string kind.word), ("name", .string name), ("ofType", .null)]
  | .list item =>
      .object [("kind", .string TypeKind.list.word), ("name", .null), ("ofType", chain kind item)]
  | .nonNull inner =>
      .object [("kind", .string TypeKind.nonNull.word), ("name", .null),
        ("ofType", chain kind inner)]

/-- A chain of wrappers follows its type. -/
theorem follows_chain {kind : TypeKind} (h : kind.isWrapper = false) (type : TypeRef) :
    Follows (chain kind type) type := by
  induction type with
  | named name => exact .named rfl .word h rfl
  | list item ih => exact .list rfl .word rfl ih
  | nonNull inner ih => exact .nonNull rfl .word rfl ih

/-- A wrapper around what can be decoded can be decoded. -/
theorem decodable_wrapped {kind : TypeKind} {inner : Json} (h : kind.isWrapper = true)
    (hinner : Decodable inner) :
    Decodable (.object [("kind", .string kind.word), ("name", .null), ("ofType", inner)]) := by
  have hnull : inner ≠ .null := by
    rintro rfl
    cases hinner
  refine .object rfl .word ?_ ?_ ?_ (by simp [h]) fun _ => ⟨inner, rfl, hnull⟩
  · simpa using ⟨kind, .word⟩
  · simp
  · simpa using fun _ => hinner

/-- A chain of wrappers can be decoded. -/
theorem decodable_chain {kind : TypeKind} (h : kind.isWrapper = false) (type : TypeRef) :
    Decodable (chain kind type) := by
  induction type with
  | named name =>
      refine .object rfl .word ?_ ?_ ?_ (fun _ => ⟨name, rfl⟩) (by simp [h])
      · simpa using ⟨kind, .word⟩
      · simp
      · simp
  | list item ih => exact decodable_wrapped rfl ih
  | nonNull inner ih => exact decodable_wrapped rfl ih

/-- Type references are read exactly. A JSON value can be read as one if and only if it has the form
of one. What is read follows the types inside, and it is the same for every order of the keys and
with any other keys among them. A type reference that is written out as a chain is read back. -/
theorem typeRef_exact :
    (∀ j, (∃ type, typeRef j = .ok type) ↔ Decodable j) ∧
    (∀ j type, typeRef j = .ok type ↔ Decodable j ∧ Follows j type) ∧
    (∀ j other type, SameReference j other → typeRef j = .ok type → typeRef other = .ok type) ∧
    ∀ kind type, kind.isWrapper = false → typeRef (chain kind type) = .ok type := by
  refine ⟨fun j => exists_typeRef_iff_decodable, fun j type => typeRef_eq_ok_iff, ?_, ?_⟩
  · intro j other type hsame h
    obtain ⟨hdecodable, hfollows⟩ := typeRef_eq_ok_iff.mp h
    exact typeRef_eq_ok_iff.mpr ⟨hsame.decodable hdecodable, hsame.follows hfollows⟩
  · intro kind type h
    exact typeRef_eq_ok_iff.mpr ⟨decodable_chain h type, follows_chain h type⟩

/-- An enum under two non-null markers, with its keys in other orders and further keys among
them. -/
def reordered : Json :=
  .object
    [("ofType", .object
        [("ofType", .object
            [("name", .string "Episode"), ("kind", .string "ENUM"), ("description", .null),
              ("ofType", .null)]),
          ("name", .null), ("kind", .string "NON_NULL")]),
      ("kind", .string "NON_NULL"), ("fields", .array []), ("name", .null)]

/-- Two non-null markers are read one inside the other, in whatever order the keys are. A named type
is refused if what stands inside it is no type reference, though the name is all that it needs. -/
theorem typeRef_exact_reordered :
    let type : TypeRef := .nonNull (.nonNull (.named "Episode"))
    let broken : Json :=
      .object [("kind", .string "ENUM"), ("name", .string "Episode"), ("ofType", .bool true)]
    TypeKind.enum.isWrapper = false ∧ SameReference (chain .enum type) reordered ∧
      typeRef reordered = .ok type ∧ Decodable reordered ∧ Follows reordered type ∧
      Follows broken (.named "Episode") ∧ ¬ ∃ type, typeRef broken = .ok type := by
  intro type broken
  obtain ⟨hform, hexact, hsame, hchain⟩ := typeRef_exact
  have hreordered : SameReference (chain .enum type) reordered := by
    refine .object (by decide) (by decide) rfl rfl (.some ?_)
    refine .object (by decide) (by decide) rfl rfl (.some ?_)
    exact .object (by decide) (by decide) rfl rfl (.some .refl)
  have hread : typeRef reordered = .ok type := hsame _ _ type hreordered (hchain .enum type rfl)
  obtain ⟨hdecodable, hfollows⟩ := (hexact reordered type).mp hread
  have hbroken : TypeKind.enum.Given (.string "ENUM") := .word
  refine ⟨rfl, hreordered, hread, hdecodable, hfollows, .named rfl hbroken rfl rfl, ?_⟩
  rw [hform]
  dsimp only [broken]
  rintro ⟨_, _, _, _, hinner, _, _⟩
  cases hinner (.bool true) (by simp) nofun

end Introspection

end QueryCompiler
