import Mathlib.Algebra.Order.Field.Rat
import Mathlib.Data.List.Induction
import Mathlib.Data.List.TakeWhile
import Mathlib.Data.Nat.Digits.Defs
import Mathlib.Tactic.IntervalCases
import QueryCompiler.Decimal

/-!
# The texts of numerals

Which texts are numerals, and which number a numeral writes. A whole number is a sign, which may be
missing, and digits; a decimal may have a point in front of, among or behind its digits, and a power
of ten behind them.
-/

namespace QueryCompiler.Decimal

/-! ### The grammar -/

/-- A sign that may be missing, and whether it is negative. -/
inductive Sign : List Char → Bool → Prop
  | none : Sign [] false
  | plus : Sign ['+'] false
  | minus : Sign ['-'] true

/-- A row of digits, which may be empty. -/
def Digits (cs : List Char) : Prop := ∀ c ∈ cs, c.isDigit = true

/-- The number that a row of digits writes in base ten, the greatest power first. -/
def rowValue (digits : List Char) : Nat :=
  Nat.ofDigits 10 (digits.reverse.map fun c => "0123456789".toList.idxOf c)

/-- The text of a whole number. -/
inductive WholeText : List Char → Int → Prop
  | signed {sign digits : List Char} {negative : Bool} : Sign sign negative → Digits digits →
      digits ≠ [] →
      WholeText (sign ++ digits) (if negative then -(rowValue digits : Int) else rowValue digits)

/-- The text of a power of ten behind the digits; no text at all stands for `10 ^ 0`. -/
inductive PowerText : List Char → Int → Prop
  | none : PowerText [] 0
  | power {mark : Char} {text : List Char} {exponent : Int} : mark = 'e' ∨ mark = 'E' →
      WholeText text exponent → PowerText (mark :: text) exponent

/-- The text of a decimal behind its sign. -/
inductive Magnitude (negative : Bool) : List Char → Decimal → Prop
  | whole {digits power : List Char} {exponent : Int} : Digits digits → digits ≠ [] →
      PowerText power exponent →
      Magnitude negative (digits ++ power) ⟨negative, rowValue digits, exponent⟩
  | pointed {whole fraction power : List Char} {exponent : Int} : Digits whole →
      Digits fraction → whole ++ fraction ≠ [] → PowerText power exponent →
      Magnitude negative (whole ++ '.' :: (fraction ++ power))
        ⟨negative, rowValue (whole ++ fraction), exponent - fraction.length⟩

/-- The text of a decimal. -/
inductive Numeral : List Char → Decimal → Prop
  | signed {sign text : List Char} {negative : Bool} {d : Decimal} : Sign sign negative →
      Magnitude negative text d → Numeral (sign ++ text) d

/-- The number that a decimal stands for. -/
def value (d : Decimal) : ℚ := (if d.negative then -1 else 1) * d.digits * 10 ^ d.exponent

/-! ### Signs and digits -/

variable {cs sign digits rest : List Char} {negative : Bool}

/-- Every text starts with a sign, be it the empty one, and the reader parts it there. -/
theorem exists_sign (cs : List Char) :
    ∃ sign negative rest, Sign sign negative ∧ sign ++ rest = cs ∧
      spanSign cs = (negative, rest) := by
  unfold spanSign
  split
  · exact ⟨['-'], true, _, .minus, rfl, rfl⟩
  · exact ⟨['+'], false, _, .plus, rfl, rfl⟩
  · exact ⟨[], false, _, .none, rfl, rfl⟩

/-- The reader parts a text behind the sign that is written before it. -/
theorem spanSign_append (h : Sign sign negative)
    (hrest : ∀ c ∈ rest.head?, c ≠ '-' ∧ c ≠ '+') : spanSign (sign ++ rest) = (negative, rest) := by
  cases h with
  | plus => rfl
  | minus => rfl
  | none =>
      unfold spanSign
      split
      next heq => exact absurd rfl (hrest '-' (by rw [List.nil_append] at heq; simp [heq])).1
      next heq => exact absurd rfl (hrest '+' (by rw [List.nil_append] at heq; simp [heq])).2
      next => rfl

private theorem Digits.head_ne_sign (h : Digits digits) :
    ∀ c ∈ digits.head?, c ≠ '-' ∧ c ≠ '+' := by
  intro c hc
  have hdigit : c.isDigit = true := h c (List.mem_of_head? hc)
  constructor
  · rintro rfl
    exact absurd hdigit (by decide)
  · rintro rfl
    exact absurd hdigit (by decide)

/-- The codes of the digits. -/
theorem code_of_digit {c : Char} (h : c.isDigit = true) : 48 ≤ c.toNat ∧ c.toNat ≤ 57 := by
  simp only [Char.isDigit, ge_iff_le, Bool.and_eq_true, decide_eq_true_iff,
    UInt32.le_iff_toNat_le] at h
  exact h

/-- The place of a digit among the ten is the distance of its code from that of `0`. -/
theorem idxOf_digit {c : Char} (h : c.isDigit = true) :
    "0123456789".toList.idxOf c = c.toNat - '0'.toNat := by
  obtain ⟨hlow, hhigh⟩ := code_of_digit h
  have hc := Char.ofNat_toNat c
  generalize c.toNat = code at *
  subst hc
  interval_cases code <;> rfl

/-- Digits that are taken in one after the other make up the number that the row writes. -/
theorem ofDigits_eq_rowValue (h : Digits digits) : ofDigits digits = rowValue digits := by
  induction digits using List.reverseRecOn with
  | nil => rfl
  | append_singleton digits c ih =>
      have hdigits : Digits digits := fun c hc => h c (List.mem_append_left _ hc)
      have hc : c.isDigit = true := h c (List.mem_append_right _ List.mem_cons_self)
      rw [rowValue, List.reverse_concat, List.map_cons, Nat.ofDigits_cons, ← rowValue,
        ← ih hdigits, idxOf_digit hc, ofDigits, List.foldl_append, ← ofDigits]
      exact Nat.add_comm _ _

/-- Two rows of digits are one. -/
theorem Digits.append {others : List Char} (h : Digits digits) (hothers : Digits others) :
    Digits (digits ++ others) :=
  fun c hc => (List.mem_append.mp hc).elim (h c) (hothers c)

/-- The reader parts a text behind the digits that are written before it. -/
theorem spanDigits_append (h : Digits digits) (hrest : ∀ c ∈ rest.head?, c.isDigit = false) :
    spanDigits (digits ++ rest) = (digits, rest) := by
  rw [spanDigits, List.takeWhile_append_of_pos h, List.dropWhile_append_of_pos h]
  cases rest with
  | nil => simp
  | cons c others =>
      have hc : c.isDigit = false := hrest c rfl
      simp [hc]

/-- The reader parts a text behind the longest row of digits that starts it. -/
theorem spanDigits_eq_iff {after : List Char} :
    spanDigits cs = (digits, after) ↔
      digits ++ after = cs ∧ Digits digits ∧ ∀ c ∈ after.head?, c.isDigit = false := by
  constructor
  · intro h
    obtain ⟨rfl, rfl⟩ := Prod.mk.inj h
    refine ⟨List.takeWhile_append_dropWhile, fun c hc => List.mem_takeWhile_imp hc, ?_⟩
    intro c hc
    have hnot := List.head?_dropWhile_not Char.isDigit cs
    rw [Option.mem_def.mp hc] at hnot
    exact hnot
  · rintro ⟨rfl, hdigits, hafter⟩
    exact spanDigits_append hdigits hafter

/-! ### Whole numbers -/

/-- A whole number is read from its texts and nothing else. -/
theorem readInt?_eq_some_iff {i : Int} : readInt? cs = some i ↔ WholeText cs i := by
  constructor
  · intro h
    obtain ⟨sign, negative, rest, hsign, rfl, hspan⟩ := exists_sign cs
    simp only [readInt?, hspan] at h
    split at h
    · cases h
    next digits hne hdigits =>
      obtain ⟨hrest, hall, _⟩ := spanDigits_eq_iff.mp hdigits
      rw [List.append_nil] at hrest
      rw [← hrest, ← Option.some.inj h, ofDigits_eq_rowValue hall]
      exact .signed hsign hall hne
    · cases h
  · rintro ⟨hsign, hdigits, hne⟩
    have hspan := @spanDigits_append _ [] hdigits nofun
    rw [List.append_nil] at hspan
    simp only [readInt?, spanSign_append hsign hdigits.head_ne_sign, hspan,
      ofDigits_eq_rowValue hdigits]

/-! ### Decimals -/

/-- The reader of exponents reads the powers of the grammar. -/
theorem readExponent?_eq_some_iff {exponent : Int} :
    readExponent? cs = some exponent ↔ PowerText cs exponent := by
  cases cs with
  | nil =>
      constructor
      · rintro ⟨⟩
        exact .none
      · rintro ⟨⟩
        rfl
  | cons mark text =>
      -- Behind the mark, the power is read as a whole number.
      have hread : readExponent? (mark :: text) =
          if mark = 'e' ∨ mark = 'E' then readInt? text else none := rfl
      rw [hread]
      by_cases hmark : mark = 'e' ∨ mark = 'E'
      · rw [if_pos hmark, readInt?_eq_some_iff]
        exact ⟨.power hmark, fun | .power _ h => h⟩
      · rw [if_neg hmark]
        exact ⟨nofun, fun | .power h _ => absurd h hmark⟩

private theorem PowerText.head_not_digit {power : List Char} {exponent : Int}
    (h : PowerText power exponent) : ∀ c ∈ power.head?, c.isDigit = false := by
  cases h with
  | none => nofun
  | power hmark _ =>
      rintro c ⟨⟩
      rcases hmark with rfl | rfl <;> rfl

/-- Behind the sign, a decimal starts with a digit or the point. -/
theorem Magnitude.exists_head {d : Decimal} (h : Magnitude negative cs d) :
    ∃ c others, cs = c :: others ∧ (c.isDigit = true ∨ c = '.') := by
  cases h with
  | @whole digits power _ hdigits hne _ =>
      obtain ⟨c, others, rfl⟩ := List.exists_cons_of_ne_nil hne
      exact ⟨c, _, rfl, .inl (hdigits c List.mem_cons_self)⟩
  | @pointed whole fraction power _ hwhole _ _ _ =>
      cases whole with
      | nil => exact ⟨'.', _, rfl, .inr rfl⟩
      | cons c others => exact ⟨c, _, rfl, .inl (hwhole c List.mem_cons_self)⟩

/-- The codes of the characters that a number without a sign starts with. -/
theorem code_of_head {c : Char} (h : c.isDigit = true ∨ c = '.') :
    46 ≤ c.toNat ∧ c.toNat ≤ 57 := by
  rcases h with hdigit | rfl
  · obtain ⟨hlow, hhigh⟩ := code_of_digit hdigit
    exact ⟨le_trans (by decide) hlow, hhigh⟩
  · decide

/-- Without a point, the leading digits are all there are. -/
theorem readMagnitude?_of_span {whole : List Char} {d : Decimal}
    (h : spanDigits cs = (whole, rest)) (hpoint : ∀ others, rest ≠ '.' :: others) :
    readMagnitude? negative cs = some d ↔ whole ≠ [] ∧ ∃ exponent,
      readExponent? rest = some exponent ∧ ⟨negative, ofDigits whole, exponent⟩ = d := by
  unfold readMagnitude?
  rw [h]
  dsimp only
  split
  next others => exact absurd rfl (hpoint others)
  next =>
    by_cases hwhole : whole = []
    · simp [hwhole]
    · simp [hwhole, Option.bind_eq_some_iff]

/-- With a point, the digits behind it are the fraction. -/
theorem readMagnitude?_of_span_point {whole fraction power : List Char} {d : Decimal}
    (h : spanDigits cs = (whole, '.' :: rest)) (hrest : spanDigits rest = (fraction, power)) :
    readMagnitude? negative cs = some d ↔ whole ++ fraction ≠ [] ∧ ∃ exponent,
      readExponent? power = some exponent ∧
        ⟨negative, ofDigits (whole ++ fraction), exponent - fraction.length⟩ = d := by
  simp only [readMagnitude?, h, hrest]
  by_cases hdigits : whole = [] ∧ fraction = []
  · simp [hdigits]
  · simp [hdigits, Option.bind_eq_some_iff]

/-- A decimal behind its sign is read from its texts and nothing else. -/
theorem readMagnitude?_eq_some_iff {d : Decimal} :
    readMagnitude? negative cs = some d ↔ Magnitude negative cs d := by
  constructor
  · intro h
    rcases hspan : spanDigits cs with ⟨whole, rest⟩
    obtain ⟨rfl, hwhole, _⟩ := spanDigits_eq_iff.mp hspan
    by_cases hpoint : ∃ others, rest = '.' :: others
    · obtain ⟨others, rfl⟩ := hpoint
      rcases hothers : spanDigits others with ⟨fraction, power⟩
      obtain ⟨rfl, hfraction, _⟩ := spanDigits_eq_iff.mp hothers
      obtain ⟨hne, exponent, hpower, rfl⟩ := (readMagnitude?_of_span_point hspan hothers).mp h
      rw [ofDigits_eq_rowValue (hwhole.append hfraction)]
      exact .pointed hwhole hfraction hne (readExponent?_eq_some_iff.mp hpower)
    · rw [not_exists] at hpoint
      obtain ⟨hne, exponent, hpower, rfl⟩ := (readMagnitude?_of_span hspan hpoint).mp h
      rw [ofDigits_eq_rowValue hwhole]
      exact .whole hwhole hne (readExponent?_eq_some_iff.mp hpower)
  · rintro (⟨hdigits, hne, hpower⟩ | ⟨hwhole, hfraction, hne, hpower⟩)
    · have hspan := spanDigits_append hdigits hpower.head_not_digit
      refine (readMagnitude?_of_span hspan ?_).mpr
        ⟨hne, _, readExponent?_eq_some_iff.mpr hpower, by rw [ofDigits_eq_rowValue hdigits]⟩
      rintro others rfl
      cases hpower with
      | power hmark _ => exact absurd hmark (by decide)
    · have hfractionSpan := spanDigits_append hfraction hpower.head_not_digit
      have hpoint (others : List Char) : ∀ c ∈ ('.' :: others).head?, c.isDigit = false := by
        rintro c ⟨⟩
        rfl
      exact (readMagnitude?_of_span_point (spanDigits_append hwhole (hpoint _)) hfractionSpan).mpr
        ⟨hne, _, readExponent?_eq_some_iff.mpr hpower,
          by rw [ofDigits_eq_rowValue (hwhole.append hfraction)]⟩

/-- The text of a whole number is one of a decimal. -/
theorem WholeText.exists_numeral {i : Int} (h : WholeText cs i) :
    ∃ d, Numeral cs d ∧ d.value = i := by
  obtain @⟨sign, digits, negative, hsign, hdigits, hne⟩ := h
  have hnumeral := Numeral.signed hsign (.whole hdigits hne .none)
  rw [List.append_nil] at hnumeral
  refine ⟨_, hnumeral, ?_⟩
  cases negative <;> simp [value]

end QueryCompiler.Decimal
