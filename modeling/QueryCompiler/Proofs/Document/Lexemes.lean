import Mathlib.Data.List.TakeWhile
import Mathlib.Tactic.SplitIfs
import QueryCompiler.Proofs.Document.Tokens

/-!
# Writing tokens

A name or a mark that is written into a text is scanned as it is, wherever it stands, if what
follows cannot belong to it. Only names that can be written in this way are ever scanned.
-/

namespace QueryCompiler

open Lexeme

/-- A name as the grammar has it: a letter or underscore, and then letters, underscores and
digits. -/
def Name.Written (name : Name) : Prop :=
  ∃ c cs, name.toList = c :: cs ∧ isNameStart c = true ∧ ∀ d ∈ cs, isNamePart d = true

/-- A mark as it is written. -/
def Punctuator.chars : Punctuator → List Char
  | bang => ['!']
  | dollar => ['$']
  | ampersand => ['&']
  | parenOpen => ['(']
  | parenClose => [')']
  | spread => ['.', '.', '.']
  | colon => [':']
  | equals => ['=']
  | .at => ['@']
  | bracketOpen => ['[']
  | bracketClose => [']']
  | braceOpen => ['\x7b']
  | braceClose => ['\x7d']
  | pipe => ['|']

/-! ### Pieces of a text -/

namespace Lexeme

/-- A punctuator is read as itself, whatever follows it. -/
theorem scan?_mark (m : Punctuator) : ∃ c cs, m.chars = c :: cs ∧
    ∀ rest, scan? c (cs ++ rest) = some (.token (.punctuator m), cs.length) := by
  cases m <;> exact ⟨_, _, rfl, fun _ => rfl⟩

/-- A character that a name begins with begins nothing else. -/
theorem scan?_nameStart {c : Char} (h : isNameStart c = true) (cs : List Char) :
    scan? c cs = some (.token (.name (String.ofList (c :: cs.takeWhile isNamePart))),
      (cs.takeWhile isNamePart).length) := by
  have hne (d : Char) (hd : isNameStart d = false) : c ≠ d := by
    rintro rfl
    rw [h] at hd
    cases hd
  have hblank : isBlank c = false := by
    simp [isBlank, hne ' ' rfl, hne '\t' rfl, hne '\n' rfl, hne '\r' rfl, hne '\ufeff' rfl]
  simp only [scan?, hblank, hne ',' rfl, hne '#' rfl, h, Bool.false_eq_true, if_false, if_true]

/-- A name ends where a character follows that does not belong to it. -/
theorem takeWhile_isNamePart {cs rest : List Char} (hcs : ∀ d ∈ cs, isNamePart d = true)
    (hrest : ∀ d ∈ rest.head?, isNamePart d = false) :
    (cs ++ rest).takeWhile isNamePart = cs := by
  rw [List.takeWhile_append_of_pos hcs]
  cases rest with
  | nil => rw [List.takeWhile_nil, List.append_nil]
  | cons d rest =>
      have hd : isNamePart d = false := hrest d rfl
      rw [List.takeWhile_cons_of_neg (by rw [hd]; exact Bool.false_ne_true), List.append_nil]

/-- Only what begins like a name is scanned as a name. -/
theorem written_of_scan? {c : Char} {cs : List Char} {name : Name} {length : Nat}
    (h : scan? c cs = some (.token (.name name), length)) : name.Written := by
  by_cases hstart : isNameStart c = true
  · rw [scan?_nameStart hstart] at h
    cases h
    exact ⟨c, _, String.toList_ofList, hstart, fun d hd => List.mem_takeWhile_imp hd⟩
  · unfold scan? at h
    split_ifs at h
    · cases h
    · cases h
    · cases h
    · obtain ⟨⟨digits, float⟩, _, hnumber⟩ := Option.map_eq_some_iff.mp h
      cases float <;> cases hnumber
    · obtain ⟨⟨value, quoted⟩, _, hstring⟩ := Option.map_eq_some_iff.mp h
      cases hstring
    · split at h <;> cases h
    · obtain ⟨mark, _, hmark⟩ := Option.map_eq_some_iff.mp h
      cases hmark

end Lexeme

/-! ### Texts -/

/-- A text is scanned as tokens of the given kinds, wherever it stands. -/
def Scans (cs : List Char) (kinds : List TokenKind) : Prop :=
  ∀ offset afterComma, ∃ tokens pieces,
    Token.scanFrom? offset afterComma cs = some (tokens, pieces) ∧ tokens.map Token.kind = kinds

section Scans

variable {rest : List Char} {kinds : List TokenKind}

/-- The empty text has no tokens. -/
theorem scans_nil : Scans [] [] := by
  intro offset afterComma
  exact ⟨[], 1, by rw [Token.scanFrom?], rfl⟩

/-- A piece that is scanned as one token stands in front of the others. -/
theorem scans_token {c : Char} {cs : List Char} {kind : TokenKind}
    (h : Lexeme.scan? c (cs ++ rest) = some (.token kind, cs.length)) (hrest : Scans rest kinds) :
    Scans (c :: cs ++ rest) (kind :: kinds) := by
  intro offset afterComma
  let stop := offset + Token.width (c :: cs)
  obtain ⟨tokens, pieces, hscan, hkinds⟩ := hrest stop false
  refine ⟨⟨kind, offset, stop, afterComma⟩ :: tokens, pieces + 1, ?_, ?_⟩
  · rw [List.cons_append, Token.scanFrom?, h]
    simp only [List.take_left, List.drop_left, stop, hscan, Option.map_some]
  · rw [List.map_cons, hkinds]

/-- A punctuator before a text is one more token. -/
theorem scans_mark (m : Punctuator) (hrest : Scans rest kinds) :
    Scans (m.chars ++ rest) (.punctuator m :: kinds) := by
  obtain ⟨c, cs, hcs, hscan⟩ := scan?_mark m
  rw [hcs]
  exact scans_token (hscan rest) hrest

/-- A name before a text is one more token, if no character of a name follows it. -/
theorem scans_name {name : Name} (hname : name.Written)
    (hfollowing : ∀ d ∈ rest.head?, isNamePart d = false) (hrest : Scans rest kinds) :
    Scans (name.toList ++ rest) (.name name :: kinds) := by
  obtain ⟨c, cs, hcs, hstart, hparts⟩ := hname
  have hscan := scan?_nameStart hstart (cs ++ rest)
  rw [takeWhile_isNamePart hparts hfollowing, ← hcs, String.ofList_toList] at hscan
  rw [hcs]
  exact scans_token hscan hrest

end Scans

namespace Token

/-- The names among the tokens of a text are written as the grammar has them. -/
theorem written_of_scanFrom? {offset pieces : Nat} {afterComma : Bool} {cs : List Char}
    {tokens : List Token} (h : scanFrom? offset afterComma cs = some (tokens, pieces)) :
    ∀ token ∈ tokens, ∀ name, token.kind = .name name → name.Written := by
  induction hlength : cs.length using Nat.strongRecOn
    generalizing offset afterComma cs tokens pieces with
  | _ n ih =>
      cases cs with
      | nil =>
          rw [scanFrom?] at h
          obtain ⟨rfl, _⟩ := Prod.mk.inj (Option.some.inj h)
          exact List.forall_mem_nil _
      | cons c cs =>
          obtain ⟨length, comma, others, more, hothers, htokens⟩ := scanFrom?_cons h
          have hfewer : (cs.drop length).length < n := by
            rw [List.length_cons] at hlength
            rw [List.length_drop]
            omega
          have hrest := ih _ hfewer hothers rfl
          rcases htokens with rfl | ⟨kind, hscan, rfl⟩
          · exact hrest
          · refine List.forall_mem_cons.mpr ⟨?_, hrest⟩
            rintro name rfl
            exact written_of_scan? hscan

end Token

end QueryCompiler
