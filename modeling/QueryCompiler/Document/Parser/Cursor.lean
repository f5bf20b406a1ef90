import QueryCompiler.Document.Location
import QueryCompiler.Document.Token

/-!
# Reading tokens

A parser takes tokens from the front of a list and either gives a result or fails for good: the
grammar can always tell from the next token which way to go. A node's location runs from the first
token that its parser takes to the last.

Nesting is limited. A parser of something that may be nested is given the room that is left below
it, and the cursor remembers the least room that was ever left.
-/

namespace QueryCompiler

/-- The tokens that are left, and what is known of those taken. -/
structure Cursor where
  /-- The source that the tokens come from. -/
  file : FileId
  /-- The tokens that are left. -/
  rest : List Token
  /-- The offset after the last token taken. -/
  stop : Nat
  /-- The least room for nesting that was ever left. -/
  room : Nat

/-- A computation that takes tokens, or fails. -/
def Parser (α : Type) : Type := Cursor → Option (α × Cursor)

namespace Parser

variable {α β : Type}

instance : Monad Parser where
  pure a := fun c => some (a, c)
  bind p f := fun c =>
    match p c with
    | none => none
    | some (a, c') => f a c'

/-- The parser that always fails. -/
def fail : Parser α := fun _ => none

/-- The next token, without taking it. -/
def peek? : Parser (Option Token) := fun c => some (c.rest.head?, c)

/-- Take the next token. -/
def take : Parser TokenKind := fun c =>
  match c.rest with
  | [] => none
  | token :: rest => some (token.kind, { c with rest := rest, stop := token.stop })

/-- Whether the next token is of a wanted kind. -/
def nextIs (wanted : TokenKind → Bool) : Parser Bool := do
  return (← peek?).any fun token => wanted token.kind

/-- Whether the next token is of a wanted kind and no comma stands in front of it. -/
def directlyNextIs (wanted : TokenKind → Bool) : Parser Bool := do
  return (← peek?).any fun token => wanted token.kind && !token.afterComma

/-- Whether a token is a given mark. -/
def isMark (mark : Punctuator) (kind : TokenKind) : Bool := kind = .punctuator mark

/-- Whether a token is a name. -/
def isName : TokenKind → Bool
  | .name _ => true
  | _ => false

/-- Whether a token is a string. -/
def isString : TokenKind → Bool
  | .string _ => true
  | _ => false

/-- Whether a token is a given word. -/
def isWord (word : Name) (kind : TokenKind) : Bool := kind = .name word

/-- Take a mark. -/
def mark (mark : Punctuator) : Parser Unit := do
  if (← take) = .punctuator mark then return () else fail

/-- Take a given word. -/
def word (word : Name) : Parser Unit := do
  if (← take) = .name word then return () else fail

/-- Take a name. -/
def name : Parser Name := do
  match ← take with
  | .name text => return text
  | _ => fail

/-- Run a parser if the next token is of a wanted kind. -/
def whenNext (wanted : TokenKind → Bool) (p : Parser α) (otherwise : α) : Parser α := do
  if ← nextIs wanted then p else return otherwise

/-- Run a parser as long as the next token is of a wanted kind, but at most once for each of the
given tokens. -/
def repeatWhile (wanted : TokenKind → Bool) (p : Parser α) : List Token → Parser (List α)
  | [] => return []
  | _ :: fuel => do
      if ← nextIs wanted then
        let a ← p
        return a :: (← repeatWhile wanted p fuel)
      else return []

/-- Run a parser as long as the next token is of a wanted kind. A parser that takes a token each
time cannot run more often than there are tokens. -/
def many (wanted : TokenKind → Bool) (p : Parser α) : Parser (List α) :=
  fun c => repeatWhile wanted p c.rest c

/-- Run a parser once, and then as long as the next token is of a wanted kind. -/
def many1 (wanted : TokenKind → Bool) (p : Parser α) : Parser (List α) := do
  let a ← p
  return a :: (← many wanted p)

/-- Run a parser once, and again behind each separating mark. A separator may stand in front. -/
def separated (separator : Punctuator) (p : Parser α) : Parser (List α) := do
  whenNext (isMark separator) (mark separator) ()
  let a ← p
  return a :: (← many (isMark separator) (do mark separator; p))

/-- Run a parser and tell it the location of the tokens that it took. -/
def located (p : Parser (Location → α)) : Parser α := fun c =>
  match c.rest with
  | [] => none
  | token :: _ =>
      match p c with
      | none => none
      | some (build, c') => some (build ⟨c.file, token.start, c'.stop⟩, c')

/-- Run a parser one level deeper, with the given room left below it. -/
def deeper (room : Nat) (p : Parser α) : Parser α :=
  fun c => p { c with room := min c.room room }

end Parser

end QueryCompiler
