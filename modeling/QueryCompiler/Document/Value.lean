import QueryCompiler.Name
import QueryCompiler.Document.Location

/-!
# Values, arguments and directives

The literals of a document. Every node carries the location it was read from, if it was read from a
text. Two nodes are the same when they agree once all locations are taken away.
-/

namespace QueryCompiler

/-- A value without parts. Numbers keep the text of their literal. -/
inductive Atom where
  | null
  | enum (name : Name)
  | var (name : Name)
  | string (text : String)
  | float (literal : String)
  | int (literal : String)
  | bool (value : Bool)
  deriving DecidableEq, Repr

/-- A literal value or a variable. -/
inductive Value where
  | atom (location : Option Location) (content : Atom)
  | list (location : Option Location) (items : List Value)
  | object (location : Option Location) (fields : List (Name × Value))

namespace Value

mutual

/-- Equality of values is decided part by part. -/
def decEq : (a b : Value) → Decidable (a = b)
  | atom la a, atom lb b =>
      if h : la = lb ∧ a = b then isTrue (by rw [h.1, h.2])
      else isFalse fun e => h (by cases e; exact ⟨rfl, rfl⟩)
  | list la as, list lb bs =>
      if h : la = lb then
        match decEqItems as bs with
        | isTrue hs => isTrue (by rw [h, hs])
        | isFalse hs => isFalse fun e => hs (by cases e; rfl)
      else isFalse fun e => h (by cases e; rfl)
  | object la as, object lb bs =>
      if h : la = lb then
        match decEqFields as bs with
        | isTrue hs => isTrue (by rw [h, hs])
        | isFalse hs => isFalse fun e => hs (by cases e; rfl)
      else isFalse fun e => h (by cases e; rfl)
  | atom .., list .. => isFalse nofun
  | atom .., object .. => isFalse nofun
  | list .., atom .. => isFalse nofun
  | list .., object .. => isFalse nofun
  | object .., atom .. => isFalse nofun
  | object .., list .. => isFalse nofun

/-- Equality of lists of values. -/
def decEqItems : (as bs : List Value) → Decidable (as = bs)
  | [], [] => isTrue rfl
  | a :: as, b :: bs =>
      match decEq a b with
      | isTrue h =>
          match decEqItems as bs with
          | isTrue hs => isTrue (by rw [h, hs])
          | isFalse hs => isFalse fun e => hs (by cases e; rfl)
      | isFalse h => isFalse fun e => h (by cases e; rfl)
  | [], _ :: _ => isFalse nofun
  | _ :: _, [] => isFalse nofun

/-- Equality of lists of object fields. -/
def decEqFields : (as bs : List (Name × Value)) → Decidable (as = bs)
  | [], [] => isTrue rfl
  | (n, a) :: as, (m, b) :: bs =>
      if hn : n = m then
        match decEq a b with
        | isTrue h =>
            match decEqFields as bs with
            | isTrue hs => isTrue (by rw [hn, h, hs])
            | isFalse hs => isFalse fun e => hs (by cases e; rfl)
        | isFalse h => isFalse fun e => h (by cases e; rfl)
      else isFalse fun e => hn (by cases e; rfl)
  | [], _ :: _ => isFalse nofun
  | _ :: _, [] => isFalse nofun

end

instance : DecidableEq Value := decEq

/-- Where a value was read from. -/
def location : Value → Option Location
  | atom location _ => location
  | list location _ => location
  | object location _ => location

/-- The same value at another location. -/
def relocate (location : Option Location) : Value → Value
  | atom _ content => atom location content
  | list _ items => list location items
  | object _ fields => object location fields

mutual

/-- A value without any location. -/
def strip : Value → Value
  | atom _ content => atom none content
  | list _ items => list none (stripItems items)
  | object _ fields => object none (stripFields fields)

/-- Values without any location. -/
def stripItems : List Value → List Value
  | [] => []
  | item :: rest => item.strip :: stripItems rest

/-- Object fields without any location. -/
def stripFields : List (Name × Value) → List (Name × Value)
  | [] => []
  | (name, value) :: rest => (name, value.strip) :: stripFields rest

end

end Value

/-- A named value passed to a field or directive. -/
structure Argument where
  location : Option Location
  name : Name
  value : Value
  deriving DecidableEq

namespace Argument

/-- An argument without any location. -/
def strip (a : Argument) : Argument := ⟨none, a.name, a.value.strip⟩

end Argument

/-- An annotation such as `@include(if: $wanted)`. -/
structure Directive where
  location : Option Location
  name : Name
  arguments : List Argument
  deriving DecidableEq

namespace Directive

/-- A directive without any location. -/
def strip (d : Directive) : Directive := ⟨none, d.name, d.arguments.map Argument.strip⟩

end Directive

end QueryCompiler
