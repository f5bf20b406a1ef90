import QueryCompiler.Document.Value
import QueryCompiler.Text.CaseMapping

/-!
# Signatures

A compact text made of the words of a value or directive, each word's first letter raised to set it
apart. Generated type names contain it, and inline fragments whose directives have one signature are
taken together. The text keeps no punctuation, so that different values may share a signature.
-/

namespace QueryCompiler

open Text

/-- The words of an atomic value. -/
def Atom.signature : Atom → String
  | null => "null"
  | enum name => name
  | var name => name
  | string text => text
  | float literal => literal
  | int literal => literal
  | bool true => "true"
  | bool false => "false"

namespace Value

mutual

/-- The words of a value, run together. -/
def signature : Value → String
  | atom _ content => content.signature
  | list _ items => lowerFirst (signatureItems items)
  | object _ fields => lowerFirst (signatureFields fields)

/-- The raised signatures of list items, run together. -/
def signatureItems : List Value → String
  | [] => ""
  | item :: rest => upperFirst item.signature ++ signatureItems rest

/-- The raised names and signatures of object fields, run together. -/
def signatureFields : List (Name × Value) → String
  | [] => ""
  | (name, value) :: rest =>
      upperFirst (name ++ upperFirst value.signature) ++ signatureFields rest

end

end Value

/-- The name of an argument and the words of its value. -/
def Argument.signature (a : Argument) : String := a.name ++ upperFirst a.value.signature

/-- The name of a directive and the words of its arguments. -/
def Directive.signature (d : Directive) : String :=
  d.name ++ lowerFirst (String.join (d.arguments.map fun a => upperFirst a.signature))

/-- The signatures of directives, each raised, run together. -/
def directivesSignature (ds : List Directive) : String :=
  String.join (ds.map fun d => upperFirst d.signature)

end QueryCompiler
