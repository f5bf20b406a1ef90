import QueryCompiler.Document.Token

/-!
# Where the tokens of a text stand

The tokens of a text stand one behind the other. Each has at least one byte, and each begins and
ends where a character does.
-/

namespace QueryCompiler

/-- An offset in the UTF-8 form of a text at which a character begins or the text ends. -/
def Boundary (text : String) (offset : Nat) : Prop := String.Pos.Raw.IsValid text ⟨offset⟩

/-- Tokens that stand one behind the other in a text, from an offset on. -/
inductive Laid (text : String) : Nat → List Token → Prop
  | nil {offset : Nat} : Laid text offset []
  | cons {offset : Nat} {token : Token} {rest : List Token} : offset ≤ token.start →
      token.start < token.stop → Boundary text token.start → Boundary text token.stop →
      Laid text token.stop rest → Laid text offset (token :: rest)

variable {text : String}

/-- A boundary lies within the text. -/
theorem Boundary.le {offset : Nat} (h : Boundary text offset) : offset ≤ text.utf8ByteSize :=
  String.Pos.Raw.IsValid.le_rawEndPos h

/-- Tokens laid behind an offset are laid behind every earlier one. -/
theorem Laid.of_le {offset less : Nat} {tokens : List Token} (h : Laid text offset tokens)
    (hless : less ≤ offset) : Laid text less tokens := by
  cases h with
  | nil => exact .nil
  | cons hstart hstop hfirst hlast hrest =>
      exact .cons (Nat.le_trans hless hstart) hstop hfirst hlast hrest

namespace Token

private theorem width_append (as bs : List Char) : width (as ++ bs) = width as + width bs := by
  induction as with
  | nil => rw [List.nil_append, width, Nat.zero_add]
  | cons c cs ih => rw [List.cons_append, width, width, ih, Nat.add_assoc]

private theorem width_pos (c : Char) (cs : List Char) : 0 < width (c :: cs) :=
  Nat.add_pos_left c.utf8Size_pos _

/-- The width of characters is the size of their text. -/
theorem utf8ByteSize_ofList_eq_width (cs : List Char) :
    (String.ofList cs).utf8ByteSize = width cs := by
  induction cs with
  | nil => rfl
  | cons c cs ih =>
      rw [String.ofList_cons, String.utf8ByteSize_append, String.utf8ByteSize_singleton, ih, width]

/-- The width of a part in front of the rest of a text is an offset between characters. -/
theorem boundary_width {before after : List Char} (h : text.toList = before ++ after) :
    Boundary text (width before) := by
  refine String.Pos.Raw.isValid_iff_exists_append.mpr
    ⟨String.ofList before, String.ofList after, ?_, ?_⟩
  · rw [← String.ofList_append, ← h, String.ofList_toList]
  · rw [← utf8ByteSize_ofList_eq_width]
    rfl

/-- A piece of a text is skipped, or it is a token on exactly its own bytes. The next piece stands
directly behind it. -/
theorem scanFrom?_cons {offset pieces : Nat} {afterComma : Bool} {c : Char} {cs : List Char}
    {tokens : List Token} (h : scanFrom? offset afterComma (c :: cs) = some (tokens, pieces)) :
    ∃ length comma others more,
      scanFrom? (offset + width (c :: cs.take length)) comma (cs.drop length) =
        some (others, more) ∧
      (tokens = others ∨ ∃ kind, Lexeme.scan? c cs = some (.token kind, length) ∧ tokens =
        ⟨kind, offset, offset + width (c :: cs.take length), afterComma⟩ :: others) := by
  rw [scanFrom?] at h
  split at h
  · cases h
  next lexeme length hlexeme =>
    split at h <;> obtain ⟨⟨others, more⟩, hothers, hresult⟩ := Option.map_eq_some_iff.mp h <;>
      obtain ⟨rfl, _⟩ := Prod.mk.inj hresult
    · exact ⟨length, false, others, more, hothers, .inr ⟨_, hlexeme, rfl⟩⟩
    · exact ⟨length, true, others, more, hothers, .inl rfl⟩
    · exact ⟨length, afterComma, others, more, hothers, .inl rfl⟩

/-- Scanning lays the tokens behind what has been scanned. -/
theorem laid_of_scanFrom? {before cs : List Char} {afterComma : Bool} {tokens : List Token}
    {pieces : Nat} (htext : text.toList = before ++ cs)
    (h : scanFrom? (width before) afterComma cs = some (tokens, pieces)) :
    Laid text (width before) tokens := by
  induction hlength : cs.length using Nat.strongRecOn
    generalizing before cs afterComma tokens pieces with
  | _ n ih =>
      cases cs with
      | nil =>
          rw [scanFrom?] at h
          obtain ⟨rfl, _⟩ := Prod.mk.inj (Option.some.inj h)
          exact .nil
      | cons c cs =>
          obtain ⟨length, comma, others, more, hothers, htokens⟩ := scanFrom?_cons h
          rw [← width_append] at hothers htokens
          have hsplit : text.toList = (before ++ c :: cs.take length) ++ cs.drop length := by
            rw [htext, List.append_assoc, List.cons_append, List.take_append_drop]
          have hfewer : (cs.drop length).length < n := by
            rw [List.length_cons] at hlength
            rw [List.length_drop]
            omega
          have hrest := ih _ hfewer hsplit hothers rfl
          have hless : width before < width (before ++ c :: cs.take length) := by
            have hpos := width_pos c (cs.take length)
            rw [width_append]
            omega
          rcases htokens with rfl | ⟨kind, _, rfl⟩
          · exact hrest.of_le (Nat.le_of_lt hless)
          · exact .cons (Nat.le_refl _) hless (boundary_width htext) (boundary_width hsplit) hrest

/-- The tokens of a text are laid along it. -/
theorem laid_of_scan? {tokens : List Token} {pieces : Nat}
    (h : scan? text = some (tokens, pieces)) : Laid text 0 tokens :=
  laid_of_scanFrom? (List.nil_append _).symm h

end Token

end QueryCompiler
