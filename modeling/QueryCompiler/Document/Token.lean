import QueryCompiler.Name
import QueryCompiler.Text.BlockString
import QueryCompiler.Text.Escape

/-!
# Tokens

The words of a document. Blanks, commas and comments separate tokens and mean nothing, except that
a token remembers whether a comma stands in front of it, because the grammar does not look past a
comma to tell an alias or a kind of fragment apart. Every piece of the text counts towards the
token limit.
-/

namespace QueryCompiler

/-- The marks of the language. -/
inductive Punctuator where
  | bang
  | dollar
  | ampersand
  | parenOpen
  | parenClose
  | spread
  | colon
  | equals
  | at
  | bracketOpen
  | bracketClose
  | braceOpen
  | braceClose
  | pipe
  deriving DecidableEq, Repr

/-- What a token is. Numbers keep their text, strings have their value. -/
inductive TokenKind where
  | punctuator (mark : Punctuator)
  | name (text : Name)
  | int (literal : String)
  | float (literal : String)
  | string (value : String)
  deriving DecidableEq, Repr

/-- A token, the bytes it stands on, and whether a comma separates it from the token before. -/
structure Token where
  kind : TokenKind
  start : Nat
  stop : Nat
  afterComma : Bool
  deriving DecidableEq, Repr

/-- One piece of a text. -/
inductive Lexeme where
  | blank
  | comma
  | comment
  | token (kind : TokenKind)
  deriving DecidableEq, Repr

namespace Lexeme

/-- Characters that separate tokens: space, tab, line ends and the byte order mark. -/
def isBlank (c : Char) : Bool :=
  c = ' ' || c = '\t' || c = '\n' || c = '\r' || c = '\ufeff'

/-- Characters that end a comment. -/
def isLineEnd (c : Char) : Bool := c = '\n' || c = '\r'

/-- Characters that a name begins with. -/
def isNameStart (c : Char) : Bool := c = '_' || c.isAlpha

/-- Characters that a name goes on with. -/
def isNamePart (c : Char) : Bool := isNameStart c || c.isDigit

/-- The mark that consists of one character. -/
def mark? (c : Char) : Option Punctuator :=
  if c = '!' then some .bang
  else if c = '$' then some .dollar
  else if c = '&' then some .ampersand
  else if c = '(' then some .parenOpen
  else if c = ')' then some .parenClose
  else if c = ':' then some .colon
  else if c = '=' then some .equals
  else if c = '@' then some .at
  else if c = '[' then some .bracketOpen
  else if c = ']' then some .bracketClose
  else if c = '\x7b' then some .braceOpen
  else if c = '\x7d' then some .braceClose
  else if c = '|' then some .pipe
  else none

/-- The digits and the sign of a power of ten, if one stands at the head of a text. -/
def powerLength? : List Char → Option Nat
  | c :: rest =>
      if c = 'e' ∨ c = 'E' then
        let (sign, rest) :=
          match rest with
          | '+' :: rest => (1, rest)
          | '-' :: rest => (1, rest)
          | rest => (0, rest)
        match (rest.takeWhile Char.isDigit).length with
        | 0 => none
        | digits => some (1 + sign + digits)
      else some 0
  | [] => some 0

/-- The point and the digits of a fraction, if one stands at the head of a text. -/
def fractionLength? : List Char → Option Nat
  | '.' :: rest =>
      match (rest.takeWhile Char.isDigit).length with
      | 0 => none
      | digits => some (1 + digits)
  | _ => some 0

/-- The digits of a whole number: no zero stands in front of other digits. -/
def wholeLength? (cs : List Char) : Option Nat :=
  match cs.takeWhile Char.isDigit with
  | [] => none
  | '0' :: _ :: _ => none
  | digits => some digits.length

/-- The length of a number at the head of a text, and whether it has a fraction or a power of ten.
A number must be set apart from a name or a further point. -/
def numberLength? (cs : List Char) : Option (Nat × Bool) := do
  let sign := if cs.head? = some '-' then 1 else 0
  let whole := sign + (← wholeLength? (cs.drop sign))
  let fraction ← fractionLength? (cs.drop whole)
  let power ← powerLength? (cs.drop (whole + fraction))
  let length := whole + fraction + power
  let following := (cs.drop length).head?
  if following.any isNameStart || following = some '.' then none
  else return (length, 0 < fraction + power)

/-- The value of a string up to its closing quote, and the number of characters up to and with it.
A line end breaks the string off. -/
def stringSpan? : List Char → Option (List Char × Nat)
  | [] => none
  | '"' :: _ => some ([], 1)
  | '\\' :: 'u' :: a :: b :: c :: d :: rest => do
      let code ← Text.hexValue4? a b c d
      if 0xD800 ≤ code ∧ code < 0xE000 then none
      else
        let (value, length) ← stringSpan? rest
        return (Char.ofNat code :: value, length + 6)
  | '\\' :: c :: rest => do
      let char ← Text.unescape? c
      let (value, length) ← stringSpan? rest
      return (char :: value, length + 2)
  | c :: rest => do
      if isLineEnd c then none
      else
        let (value, length) ← stringSpan? rest
        return (c :: value, length + 1)

/-- The text of a block string up to its closing quotes, and the number of characters up to and with
them. Only the closing quotes can be escaped. -/
def blockSpan? : List Char → Option (List Char × Nat)
  | [] => none
  | '"' :: '"' :: '"' :: _ => some ([], 3)
  | '\\' :: '"' :: '"' :: '"' :: rest => do
      let (raw, length) ← blockSpan? rest
      return ('"' :: '"' :: '"' :: raw, length + 4)
  | c :: rest => do
      let (raw, length) ← blockSpan? rest
      return (c :: raw, length + 1)

/-- A string or block string behind its first quote. The very first character of a string may be a
line end. -/
def quotedSpan? : List Char → Option (List Char × Nat)
  | [] => none
  | '"' :: '"' :: rest => do
      let (raw, length) ← blockSpan? rest
      return (Text.blockValue raw, length + 2)
  | c :: rest =>
      if isLineEnd c then do
        let (value, length) ← stringSpan? rest
        return (c :: value, length + 1)
      else stringSpan? (c :: rest)

/-- The piece of text that begins with `c`, and the number of its further characters. -/
def scan? (c : Char) (cs : List Char) : Option (Lexeme × Nat) :=
  if isBlank c then some (blank, (cs.takeWhile isBlank).length)
  else if c = ',' then some (comma, 0)
  else if c = '#' then some (comment, (cs.takeWhile fun c => !isLineEnd c).length)
  else if isNameStart c then
    let rest := cs.takeWhile isNamePart
    some (token (.name (String.ofList (c :: rest))), rest.length)
  else if c.isDigit ∨ c = '-' then
    (numberLength? (c :: cs)).map fun (length, float) =>
      let literal := String.ofList ((c :: cs).take length)
      (token (if float then .float literal else .int literal), length - 1)
  else if c = '"' then
    (quotedSpan? cs).map fun (value, length) => (token (.string (String.ofList value)), length)
  else if c = '.' then
    match cs with
    | '.' :: '.' :: _ => some (token (.punctuator .spread), 2)
    | _ => none
  else (mark? c).map fun mark => (token (.punctuator mark), 0)

end Lexeme

namespace Token

/-- The number of bytes that characters take up. -/
def width : List Char → Nat
  | [] => 0
  | c :: cs => c.utf8Size + width cs

/-- The tokens of a text that begins at the given offset, and the number of its pieces. The end of
the text counts as a piece. -/
def scanFrom? (offset : Nat) (afterComma : Bool) : List Char → Option (List Token × Nat)
  | [] => some ([], 1)
  | c :: cs =>
      match Lexeme.scan? c cs with
      | none => none
      | some (lexeme, length) =>
          let stop := offset + width (c :: cs.take length)
          match lexeme with
          | .token kind =>
              (scanFrom? stop false (cs.drop length)).map fun (tokens, pieces) =>
                (⟨kind, offset, stop, afterComma⟩ :: tokens, pieces + 1)
          | .comma =>
              (scanFrom? stop true (cs.drop length)).map fun (tokens, pieces) =>
                (tokens, pieces + 1)
          | _ =>
              (scanFrom? stop afterComma (cs.drop length)).map fun (tokens, pieces) =>
                (tokens, pieces + 1)
termination_by cs => cs.length
decreasing_by all_goals simp only [List.length_drop, List.length_cons]; omega

/-- The tokens of a text, and the number of its pieces. -/
def scan? (text : String) : Option (List Token × Nat) := scanFrom? 0 false text.toList

end Token

end QueryCompiler
