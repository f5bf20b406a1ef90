import Mathlib.Logic.Basic
import QueryCompiler.Document.Read

/-!
# Parsers stay in their source

A parser moves on by taking tokens, one after the other, and never leaves the source that they come
from. That is so of the parsers that take and look at tokens, it is kept when parsers are put
together, and so it is found of each parser of the grammar from the parsers that it is made of.
-/

namespace QueryCompiler

/-- A cursor that is reached from another one by taking tokens. -/
inductive Cursor.Passes (c : Cursor) : Cursor → Prop
  | here {room : Nat} : Passes c { c with room := room }
  | take {between : Cursor} {token : Token} {rest : List Token} : Passes c between →
      between.rest = token :: rest → Passes c { between with rest := rest, stop := token.stop }

namespace Cursor.Passes

variable {c between c' : Cursor}

theorem refl (c : Cursor) : c.Passes c := .here

/-- How deep the nesting may go is not part of the text. -/
theorem withRoom (h : c.Passes c') (room : Nat) : c.Passes { c' with room := room } := by
  induction h with
  | here => exact .here
  | take _ hrest ih => exact .take ih hrest

theorem trans (hfirst : c.Passes between) (hsecond : between.Passes c') : c.Passes c' := by
  induction hsecond with
  | here => exact hfirst.withRoom _
  | take _ hrest ih => exact .take ih hrest

/-- Passing tokens stays in the file. -/
theorem file_eq (h : c.Passes c') : c'.file = c.file := by
  induction h with
  | here => rfl
  | take _ _ ih => exact ih

/-- Passing tokens leaves no more of them. -/
theorem length_le (h : c.Passes c') : c'.rest.length ≤ c.rest.length := by
  induction h with
  | here => exact Nat.le_refl _
  | take _ hrest ih =>
      rw [hrest, List.length_cons] at ih
      exact Nat.le_of_succ_le ih

end Cursor.Passes

namespace Parser

variable {α β : Type}

/-- A parser that moves the cursor by taking tokens, and so leaves it in the source where it was. -/
class Stays (p : Parser α) : Prop where
  passes : ∀ {c a c'}, p c = some (a, c') → c.Passes c'

/-- A parser stays in the file. -/
theorem Stays.file_eq {p : Parser α} (hp : p.Stays) {c c' : Cursor} {a : α}
    (h : p c = some (a, c')) : c'.file = c.file :=
  (hp.passes h).file_eq

theorem bind_eq_some_iff {p : Parser α} {f : α → Parser β} {c : Cursor} {result : β × Cursor} :
    (p >>= f) c = some result ↔ ∃ a c', p c = some (a, c') ∧ f a c' = some result := by
  simp only [bind]
  cases p c with
  | none => simp
  | some between =>
      obtain ⟨a, c'⟩ := between
      simp [and_assoc]

/-- The place of a node goes from the start of its first token to the stop of its last one. -/
theorem located_eq_some_iff {p : Parser (Location → α)} {c : Cursor} {result : α × Cursor} :
    located p c = some result ↔ ∃ token rest build c', c.rest = token :: rest ∧
      p c = some (build, c') ∧ (build ⟨c.file, token.start, c'.stop⟩, c') = result := by
  unfold located
  cases c.rest with
  | nil => simp
  | cons token rest =>
      cases hp : p c with
      | none => simp
      | some between =>
          obtain ⟨build, c'⟩ := between
          simp [and_assoc]

/-- One parser after the other passes tokens if both do. -/
theorem stays_bind {p : Parser α} {f : α → Parser β} (hp : p.Stays) (hf : ∀ a, (f a).Stays) :
    (p >>= f).Stays where
  passes h := by
    obtain ⟨a, between, hfirst, hrest⟩ := bind_eq_some_iff.mp h
    exact (hp.passes hfirst).trans ((hf a).passes hrest)

instance {p : Parser α} {f : α → Parser β} [hp : p.Stays] [hf : ∀ a, (f a).Stays] :
    (p >>= f).Stays :=
  stays_bind hp hf

instance (a : α) : (pure a : Parser α).Stays where
  passes h := by
    obtain ⟨_, rfl⟩ := Prod.mk.inj (Option.some.inj h)
    exact .refl _

instance : (fail : Parser α).Stays := ⟨nofun⟩

instance {f : α → Parser β} : (fail >>= f).Stays := ⟨nofun⟩

instance : peek?.Stays where
  passes h := by
    obtain ⟨_, rfl⟩ := Prod.mk.inj (Option.some.inj h)
    exact .refl _

/-- Taking a token passes that token. -/
theorem take_eq_some_iff {c : Cursor} {result : TokenKind × Cursor} :
    take c = some result ↔ ∃ token rest, c.rest = token :: rest ∧
      (token.kind, { c with rest := rest, stop := token.stop }) = result := by
  unfold take
  cases c.rest with
  | nil => simp
  | cons token rest => simp [and_assoc]

instance : take.Stays where
  passes h := by
    obtain ⟨token, rest, hrest, hresult⟩ := take_eq_some_iff.mp h
    obtain ⟨_, rfl⟩ := Prod.mk.inj hresult
    exact .take (.refl _) hrest

instance {p q : Parser α} {wanted : Prop} [Decidable wanted] [hp : p.Stays] [hq : q.Stays] :
    (if wanted then p else q).Stays := by
  by_cases h : wanted
  · rwa [if_pos h]
  · rwa [if_neg h]

instance (wanted : TokenKind → Bool) : (nextIs wanted).Stays := by
  unfold nextIs
  infer_instance

instance (wanted : TokenKind → Bool) : (directlyNextIs wanted).Stays := by
  unfold directlyNextIs
  infer_instance

instance (m : Punctuator) : (mark m).Stays := by
  unfold mark
  infer_instance

instance (w : Name) : (word w).Stays := by
  unfold word
  infer_instance

instance : name.Stays := by
  apply stays_bind inferInstance
  intro kind
  split <;> infer_instance

instance {wanted : TokenKind → Bool} {p : Parser α} [p.Stays] (otherwise : α) :
    (whenNext wanted p otherwise).Stays := by
  unfold whenNext
  infer_instance

instance {wanted : TokenKind → Bool} {p : Parser α} [p.Stays] (fuel : List Token) :
    (repeatWhile wanted p fuel).Stays := by
  induction fuel with
  | nil =>
      unfold repeatWhile
      infer_instance
  | cons _ fuel ih =>
      unfold repeatWhile
      infer_instance

instance {wanted : TokenKind → Bool} {p : Parser α} [p.Stays] : (many wanted p).Stays where
  passes {c _ _} h := by
    have hrepeat : (repeatWhile wanted p c.rest).Stays := inferInstance
    exact hrepeat.passes h

instance {wanted : TokenKind → Bool} {p : Parser α} [p.Stays] : (many1 wanted p).Stays := by
  unfold many1
  infer_instance

instance {separator : Punctuator} {p : Parser α} [p.Stays] : (separated separator p).Stays := by
  unfold separated
  infer_instance

instance {room : Nat} {p : Parser α} [hp : p.Stays] : (deeper room p).Stays where
  passes h := (Cursor.Passes.withRoom (.refl _) _).trans (hp.passes h)

/-- A node passes the tokens that are read for it. -/
theorem stays_located {p : Parser (Location → α)} (hp : p.Stays) : (located p).Stays where
  passes h := by
    obtain ⟨_, _, build, between, _, hbuild, hresult⟩ := located_eq_some_iff.mp h
    obtain ⟨_, rfl⟩ := Prod.mk.inj hresult
    exact hp.passes hbuild

instance {p : Parser (Location → α)} [hp : p.Stays] : (located p).Stays := stays_located hp

/-! ### Operations and fragments -/

-- Parsers of many parts make long instances.
set_option synthInstance.maxSize 512

instance {item : Parser TypeRef} [item.Stays] : (typeOver item).Stays := by
  unfold typeOver
  apply stays_bind inferInstance
  intro kind
  split <;> infer_instance

instance (room : Nat) : (type room).Stays := by
  induction room with
  | zero =>
      unfold type
      infer_instance
  | succ room ih =>
      unfold type
      infer_instance

instance {p : Parser Value} [p.Stays] : (objectField p).Stays := by
  unfold objectField
  infer_instance

instance {constant : Bool} {part : Parser Value} [part.Stays] :
    (valueOver constant part).Stays := by
  apply stays_located
  apply stays_bind inferInstance
  intro kind
  split <;> infer_instance

instance (constant : Bool) (room : Nat) : (value constant room).Stays := by
  induction room with
  | zero =>
      unfold value
      infer_instance
  | succ room ih =>
      unfold value
      infer_instance

instance (constant : Bool) (room : Nat) : (argument constant room).Stays := by
  unfold argument
  infer_instance

instance (constant : Bool) (room : Nat) : (arguments constant room).Stays := by
  unfold arguments
  infer_instance

instance (constant : Bool) (room : Nat) : (directive constant room).Stays := by
  unfold directive
  infer_instance

instance (constant : Bool) (room : Nat) : (directives constant room).Stays := by
  unfold directives
  infer_instance

instance : fieldName.Stays := by
  unfold fieldName
  infer_instance

instance (room : Nat) {p : Parser (List Selection)} [p.Stays] : (field room p).Stays := by
  unfold field
  infer_instance

instance (room : Nat) {p : Parser (List Selection)} [p.Stays] :
    (fragmentSelection room p).Stays := by
  unfold fragmentSelection
  infer_instance

instance (room : Nat) {p : Parser (List Selection)} [p.Stays] : (selection room p).Stays := by
  unfold selection
  infer_instance

instance (room : Nat) : (selectionSet room).Stays := by
  induction room with
  | zero =>
      unfold selectionSet
      infer_instance
  | succ room ih =>
      unfold selectionSet
      infer_instance

instance (room : Nat) : (variableDefinition room).Stays := by
  apply stays_located
  refine stays_bind inferInstance fun _ => stays_bind inferInstance fun _ =>
    stays_bind inferInstance fun _ => stays_bind inferInstance fun _ => ?_
  infer_instance

instance (room : Nat) : (variableDefinitions room).Stays := by
  unfold variableDefinitions
  infer_instance

instance : operationKind.Stays := by
  apply stays_bind inferInstance
  intro kind
  split <;> infer_instance

instance (room : Nat) : (operation room).Stays := by
  unfold operation
  infer_instance

instance (room : Nat) : (fragmentBody room).Stays := by
  unfold fragmentBody
  infer_instance

instance (room : Nat) : (fragment room).Stays := by
  unfold fragment
  infer_instance

/-! ### Schema definitions -/

instance : description.Stays := by
  unfold description
  infer_instance

instance {starts : TokenKind → Bool} {entry : Parser Unit} [entry.Stays] :
    (braced starts entry).Stays := by
  unfold braced
  infer_instance

instance (room : Nat) : (inputValue room).Stays := by
  unfold inputValue
  infer_instance

instance (room : Nat) : (argumentDefinitions room).Stays := by
  unfold argumentDefinitions
  infer_instance

instance : rootOperation.Stays := by
  unfold rootOperation
  infer_instance

instance {starts : TokenKind → Bool} {p : Parser Unit} [p.Stays] : (part starts p).Stays := by
  unfold part
  infer_instance

instance (room : Nat) : (directivesPart room).Stays := by
  unfold directivesPart
  infer_instance

instance : implementsPart.Stays := by
  unfold implementsPart
  infer_instance

instance (room : Nat) : (fieldsPart room).Stays := by
  unfold fieldsPart fieldDefinition
  infer_instance

/-- All that can follow the name of an item stays in the source. -/
theorem stays_of_mem_parts {room : Nat} {item : SchemaItem} {p : Parser Bool}
    (h : p ∈ item.parts room) : p.Stays := by
  cases item <;> simp only [SchemaItem.parts, List.mem_cons, List.not_mem_nil, or_false] at h
  case schema =>
    rcases h with rfl | rfl
    · infer_instance
    · unfold rootsPart
      infer_instance
  case scalar =>
    subst h
    infer_instance
  case object => rcases h with rfl | rfl | rfl <;> infer_instance
  case interface => rcases h with rfl | rfl | rfl <;> infer_instance
  case union =>
    rcases h with rfl | rfl
    · infer_instance
    · unfold membersPart
      infer_instance
  case enum =>
    rcases h with rfl | rfl
    · infer_instance
    · unfold valuesPart enumValue
      infer_instance
  case inputObject =>
    rcases h with rfl | rfl
    · infer_instance
    · unfold inputFieldsPart
      infer_instance

private theorem stays_of_mem_additions {room : Nat} {item : SchemaItem} {p : Parser Bool}
    (h : p ∈ item.additions room) : p.Stays := by
  cases item with
  | schema =>
      simp only [SchemaItem.additions, List.mem_cons, List.not_mem_nil, or_false] at h
      rcases h with rfl | rfl
      · infer_instance
      · unfold addedRootsPart
        infer_instance
  | _ =>
      simp only [SchemaItem.additions] at h
      exact stays_of_mem_parts h

private theorem stays_anyPart {parts : List (Parser Bool)} (h : ∀ p ∈ parts, p.Stays) :
    (anyPart parts).Stays := by
  unfold anyPart
  generalize false = found
  induction parts generalizing found with
  | nil => exact inferInstanceAs (pure found : Parser Bool).Stays
  | cons p rest ih =>
      rw [List.forall_mem_cons] at h
      have hp := h.1
      rw [List.foldlM_cons]
      exact stays_bind inferInstance (ih h.2)

instance (room : Nat) (item : SchemaItem) : (itemDefinition room item).Stays := by
  have hparts := stays_anyPart fun p (hp : p ∈ item.parts room) => stays_of_mem_parts hp
  unfold itemDefinition
  infer_instance

instance (room : Nat) (item : SchemaItem) : (itemExtension room item).Stays := by
  have hparts := stays_anyPart fun p (hp : p ∈ item.additions room) => stays_of_mem_additions hp
  unfold itemExtension
  infer_instance

instance (room : Nat) : (directiveDefinition room).Stays := by
  unfold directiveDefinition directivePlace
  infer_instance

instance (room : Nat) : (typeSystemBody room).Stays := by
  apply stays_bind inferInstance
  intro keyword
  split
  · infer_instance
  · split <;> infer_instance

instance (room : Nat) : (typeSystemExtension room).Stays := by
  apply stays_located
  refine stays_bind inferInstance fun _ => stays_bind inferInstance fun adjacent => ?_
  dsimp only
  split
  · infer_instance
  · apply stays_bind inferInstance
    intro keyword
    split <;> infer_instance

instance (room : Nat) : (definition room).Stays := by
  unfold definition describedDefinition typeSystemDefinition
  infer_instance

/-! ### Texts -/

/-- The definitions of a text are read from its tokens, from the first one on. -/
theorem definitions_of_parse? {limits : ParseLimits} {file : FileId} {text : String}
    {parsed : ParsedText} (h : parse? limits file text = some parsed) :
    ∃ tokens pieces cursor, Token.scan? text = some (tokens, pieces) ∧
      definitions limits.depth ⟨file, tokens, 0, limits.depth⟩ =
        some (parsed.definitions, cursor) := by
  simp only [parse?, Option.bind_eq_bind, Option.bind_eq_some_iff] at h
  obtain ⟨⟨tokens, pieces⟩, hscan, h⟩ := h
  split at h
  · cases h
  · obtain ⟨⟨definitions, cursor⟩, hdefinitions, h⟩ := Option.bind_eq_some_iff.mp h
    split at h
    · obtain rfl := Option.some.inj h
      exact ⟨tokens, pieces, cursor, hscan, hdefinitions⟩
    · cases h

end Parser

/-- A document is read if its text is parsed, with what the text was and how far its limits were
used. -/
theorem Document.read_eq_ok_iff {limits : ParseLimits} {file : FileId} {source : Source}
    {read : ReadDocument} :
    Document.read limits file source = .ok read ↔ ∃ parsed,
      Parser.parse? limits file source.text = some parsed ∧
      ⟨⟨[(file, source)], parsed.definitions⟩, parsed.depthReached, parsed.piecesReached⟩ =
        read := by
  unfold Document.read
  cases Parser.parse? limits file source.text with
  | none => simp
  | some parsed => simp

end QueryCompiler
