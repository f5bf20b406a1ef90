import Mathlib.Data.Nat.Count
import Mathlib.Data.Set.Card
import QueryCompiler.Proofs.Document.Tokens
import QueryCompiler.Text.Line

/-!
# Lines and columns count what stands in front

The table of positions has, at the offset of every character and at the end of the text, the number
of characters in front of it, counted in 32 bits. The line of such an offset is the number of line
breaks that end in front of its position, and its column the number of characters since the last of
them. Line breaks are said here by the positions between which they stand, without going over the
text.
-/

namespace QueryCompiler.Text

/-! ### Positions -/

section Positions

variable {offset : Nat} {position : UInt32} {table : Array UInt32}

end Positions

variable {text : String} {offset : Nat}

/-- The characters that break a line. -/
def breakingChars : List Char :=
  ['\r', '\n', '\x0b', '\x0c', '\u0085', '\u2028', '\u2029']

/-- A line break between two positions of a text: a carriage return with a line feed behind it, or
one of the characters that break a line if it does not belong to such a pair. -/
inductive LineBreak (cs : List Char) : Nat → Nat → Prop
  | pair {start : Nat} : cs[start]? = some '\r' → cs[start + 1]? = some '\n' →
      LineBreak cs start (start + 2)
  | single {start : Nat} {c : Char} : cs[start]? = some c → c ∈ breakingChars →
      ¬(c = '\r' ∧ cs[start + 1]? = some '\n') →
      (∀ i, start = i + 1 → ¬(cs[i]? = some '\r' ∧ c = '\n')) → LineBreak cs start (start + 1)

/-- A position at which a line break ends. -/
def EndsBreak (cs : List Char) (stop : Nat) : Prop := ∃ start, LineBreak cs start stop

variable {cs : List Char} {stop : Nat}

private theorem not_endsBreak_zero : ¬EndsBreak cs 0 := by
  rintro ⟨start, h⟩
  cases h

/-- A line break ends behind a character exactly if going over the character ends the line. -/
theorem endsBreak_succ_iff {k : Nat} :
    EndsBreak cs (k + 1) ↔ ∃ c, cs[k]? = some c ∧ endsLine c (cs.drop (k + 1)) = true := by
  constructor
  · rintro ⟨start, h⟩
    cases h with
    | pair _ hfeed => exact ⟨'\n', hfeed, rfl⟩
    | @single c hc hbreaks hpair _ =>
        refine ⟨c, hc, ?_⟩
        by_cases hreturn : c = '\r'
        · subst hreturn
          simpa [endsLine, List.head?_drop] using hpair
        · simpa [endsLine, hreturn, lineEnds, breakingChars] using hbreaks
  · rintro ⟨c, hc, hends⟩
    by_cases hreturn : c = '\r'
    · subst hreturn
      refine ⟨k, .single hc (by decide) ?_ (by simp)⟩
      simpa [endsLine, List.head?_drop] using hends
    · have hbreaks : c ∈ breakingChars := by
        simpa [endsLine, hreturn, lineEnds, breakingChars] using hends
      -- A line feed behind a carriage return ends the break that begins there.
      by_cases hpair : ∃ i, k = i + 1 ∧ cs[i]? = some '\r' ∧ c = '\n'
      · obtain ⟨i, rfl, hi, rfl⟩ := hpair
        exact ⟨i, .pair hi hc⟩
      · refine ⟨k, .single hc hbreaks (fun h => hreturn h.1) ?_⟩
        intro i hk hi
        exact hpair ⟨i, hk, hi⟩

instance decidableEndsBreak (cs : List Char) : DecidablePred (EndsBreak cs)
  | 0 => isFalse not_endsBreak_zero
  | k + 1 =>
      decidable_of_iff (cs[k]?.any (endsLine · (cs.drop (k + 1))) = true) <| by
        rw [endsBreak_succ_iff, Option.any_eq_true]

end QueryCompiler.Text
