import Mathlib.Tactic.FieldSimp
import Mathlib.Tactic.Linarith
import QueryCompiler.Proofs.Binary64

/-!
# Rounding to the nearest number

A decimal is read as the finite number that is nearest to it, and of two equally near ones as the
even one. The numbers that bits stand for increase with the bits, in steps that double from one
exponent to the next, so that nearest bits are unique.
-/

namespace QueryCompiler.Binary64

/-- The number that bits without a sign stand for. The first `2 ^ 52` are the multiples of the
smallest number; the others have an exponent and, behind a leading one, a fraction of 52 bits. -/
def magnitude (bits : Nat) : ℚ :=
  if bits < 2 ^ 52 then bits * 2 ^ (-1074 : Int)
  else (2 ^ 52 + bits % 2 ^ 52 : Nat) * 2 ^ ((bits / 2 ^ 52 : Nat) - 1075 : Int)

/-- Finite bits are nearest to a number, and are even if others are as near. Bits are finite below
the last of the `2 ^ 11` exponents. -/
structure Nearest (bits : Nat) (q : ℚ) : Prop where
  finite : bits < 2047 * 2 ^ 52
  le : ∀ other < 2047 * 2 ^ 52, |magnitude bits - q| ≤ |magnitude other - q|
  even : ∀ other < 2047 * 2 ^ 52, other ≠ bits →
    |magnitude other - q| = |magnitude bits - q| → bits % 2 = 0

/-- A number has the sign of a decimal and bits that are nearest to it. -/
def Rounds (x : Binary64) (d : Decimal) : Prop :=
  ∃ bits, Nearest bits |d.value| ∧ x.bits.toNat = if d.negative then 2 ^ 63 + bits else bits

/-! ### The order of the numbers -/

/-- Bits with `k` steps of the exponent and a significand of up to 53 bits, which has all of them
behind the first step. The significand `2 ^ 53` is carried into the exponent. -/
theorem magnitude_eq {k s : Nat} (hs : s ≤ 2 ^ 53) (hk : 0 < k → 2 ^ 52 ≤ s) :
    magnitude (k * 2 ^ 52 + s) = s * 2 ^ (k - 1074 : Int) := by
  unfold magnitude
  rcases Nat.lt_or_ge s (2 ^ 52) with hsmall | hlarge
  · obtain rfl : k = 0 := by omega
    rw [if_pos (by omega)]
    simp
  rw [if_neg (by omega)]
  rcases hs.lt_or_eq with hbelow | rfl
  · have hrest : (k * 2 ^ 52 + s) % 2 ^ 52 = s - 2 ^ 52 := by omega
    have hquotient : (k * 2 ^ 52 + s) / 2 ^ 52 = k + 1 := by omega
    rw [hrest, hquotient, Nat.add_sub_of_le hlarge]
    congr 2
    omega
  · -- The carry raises the exponent by one and leaves a fraction of zero.
    have hrest : (k * 2 ^ 52 + 2 ^ 53) % 2 ^ 52 = 0 := by omega
    have hquotient : (k * 2 ^ 52 + 2 ^ 53) / 2 ^ 52 = k + 2 := by omega
    have hexponent : ((k + 2 : Nat) : Int) - 1075 = (k - 1074 : Int) + 1 := by omega
    rw [hrest, hquotient, hexponent, zpow_add_one₀ two_ne_zero]
    push_cast
    ring

/-- All bits consist of an exponent and a significand. -/
theorem exists_exponent_significand (bits : Nat) :
    ∃ k s, bits = k * 2 ^ 52 + s ∧ s < 2 ^ 53 ∧ (0 < k → 2 ^ 52 ≤ s) :=
  ⟨bits / 2 ^ 52 - 1, bits - (bits / 2 ^ 52 - 1) * 2 ^ 52, by omega, by omega, by omega⟩

/-- More bits stand for a greater number. -/
theorem magnitude_strictMono : StrictMono magnitude := by
  refine strictMono_nat_of_lt_succ fun bits => ?_
  obtain ⟨k, s, rfl, hs, hk⟩ := exists_exponent_significand bits
  have hpos : (0 : ℚ) < 2 ^ (k - 1074 : Int) := by positivity
  rw [Nat.add_assoc, magnitude_eq hs.le hk, magnitude_eq hs (fun h => (hk h).trans (Nat.le_succ s))]
  exact mul_lt_mul_of_pos_right (by exact_mod_cast Nat.lt_succ_self s) hpos

/-- Between two numbers that are equally far from a third there is none that is as far from it. -/
theorem abs_sub_lt_of_between {a b c q : ℚ} (hab : a < b) (hbc : b < c)
    (h : |a - q| = |c - q|) : |b - q| < |a - q| := by
  rcases abs_eq_abs.mp h with heq | heq
  · linarith
  · have hq : 2 * q = a + c := by linarith
    rw [abs_of_nonpos (by linarith : a - q ≤ 0), abs_lt]
    constructor <;> linarith

/-- Nearest bits are unique: between two even ones there are others. -/
theorem Nearest.unique {bits other : Nat} {q : ℚ} (h : Nearest bits q) (hother : Nearest other q) :
    bits = other := by
  wlog hlt : bits < other generalizing bits other
  · rcases Nat.lt_or_eq_of_le (not_lt.mp hlt) with hgt | heq
    · exact (this hother h hgt).symm
    · exact heq.symm
  have hsame := le_antisymm (h.le other hother.finite) (hother.le bits h.finite)
  have heven := h.even other hother.finite hlt.ne' hsame.symm
  have heven' := hother.even bits h.finite hlt.ne hsame
  -- Both are even, and what lies between them would be nearer.
  have hnext : bits + 1 < other := by omega
  have hnearer := abs_sub_lt_of_between (magnitude_strictMono bits.lt_succ_self)
    (magnitude_strictMono hnext) hsame
  exact absurd (h.le _ (hnext.trans hother.finite)) (not_le.mpr hnearer)

/-! ### Rounding -/

section Round

variable {n d : Nat}

/-- A quotient is its whole part and its rest. -/
private theorem div_eq_add_rest (hd : 0 < d) : (n : ℚ) / d = (n / d : Nat) + (n % d : Nat) / d := by
  have hdpos : (0 : ℚ) < d := by exact_mod_cast hd
  have hn : (d : ℚ) * (n / d : Nat) + (n % d : Nat) = n := by exact_mod_cast Nat.div_add_mod n d
  rw [← hn, add_div, mul_div_cancel_left₀ _ hdpos.ne']

/-- The comparisons of twice the rest with the divisor are those of the rest with one half. -/
private theorem rest_half_iff (hd : 0 < d) :
    (2 * (n % d) < d ↔ ((n % d : Nat) : ℚ) / d < 1 / 2) ∧
      (d < 2 * (n % d) ↔ 1 / 2 < ((n % d : Nat) : ℚ) / d) ∧
      (2 * (n % d) = d ↔ ((n % d : Nat) : ℚ) / d = 1 / 2) := by
  have hdpos : (0 : ℚ) < d := by exact_mod_cast hd
  have hbelow : 2 * (n % d) < d ↔ ((n % d : Nat) : ℚ) / d < 1 / 2 := by
    rw [div_lt_div_iff₀ hdpos two_pos, one_mul, mul_comm]
    exact_mod_cast Iff.rfl
  have habove : d < 2 * (n % d) ↔ 1 / 2 < ((n % d : Nat) : ℚ) / d := by
    rw [div_lt_div_iff₀ two_pos hdpos, one_mul, mul_comm _ (2 : ℚ)]
    exact_mod_cast Iff.rfl
  refine ⟨hbelow, habove, ?_⟩
  rw [le_antisymm_iff, ← not_lt, ← not_lt, hbelow, habove, not_lt, not_lt, ← le_antisymm_iff]

/-- A quotient is rounded by at most one half, and by one half only to an even number. -/
theorem abs_roundQuotient_sub (hd : 0 < d) :
    |(roundQuotient n d : ℚ) - n / d| ≤ 1 / 2 ∧
      (|(roundQuotient n d : ℚ) - n / d| = 1 / 2 → roundQuotient n d % 2 = 0) := by
  have hdpos : (0 : ℚ) < d := by exact_mod_cast hd
  have hnonneg : (0 : ℚ) ≤ (n % d : Nat) / d := by positivity
  have hone : ((n % d : Nat) : ℚ) / d < 1 := by
    rw [div_lt_one hdpos]
    exact_mod_cast Nat.mod_lt n hd
  obtain ⟨hbelow, habove, htie⟩ := @rest_half_iff n d hd
  have hcases := roundQuotient_cases n d
  rw [hbelow, habove, htie] at hcases
  rw [div_eq_add_rest hd]
  generalize ((n % d : Nat) : ℚ) / d = rest at *
  rcases hcases with ⟨hs, hrest⟩ | ⟨hs, hrest⟩
  · rw [hs, sub_add_cancel_left, abs_neg, abs_of_nonneg hnonneg]
    rcases hrest with hrest | ⟨rfl, heven⟩
    · exact ⟨hrest.le, fun h => absurd h hrest.ne⟩
    · exact ⟨le_rfl, fun _ => heven⟩
  · have hup : ((n / d + 1 : Nat) : ℚ) - ((n / d : Nat) + rest) = 1 - rest := by
      push_cast
      ring
    rw [hs, hup, abs_of_nonneg (by linarith)]
    rcases hrest with hrest | ⟨rfl, heven⟩
    · exact ⟨by linarith, fun h => absurd h (by linarith)⟩
    · exact ⟨by norm_num, fun _ => heven⟩

/-- The bits that are computed for a quotient consist of an exponent and of what the quotient is
rounded to in units of that exponent. Behind the first exponent it has at least `2 ^ 52` units. -/
theorem exists_nearestBits_eq (hn : 0 < n) (hd : 0 < d) :
    ∃ (k s : Nat) (r : ℚ), nearestBits n d = min (k * 2 ^ 52 + s) infinityBits ∧
      (n : ℚ) / d = r * 2 ^ (k - 1074 : Int) ∧ r < 2 ^ 53 ∧ (0 < k → 2 ^ 52 ≤ r) ∧
        |s - r| ≤ 1 / 2 ∧ (|s - r| = 1 / 2 → s % 2 = 0) := by
  obtain ⟨hleast, hhigh, hlow⟩ := roundingExponent_bounds hn hd
  rw [nearestBits, if_neg hn.ne']
  dsimp only
  generalize roundingExponent n d = e at *
  obtain ⟨k, rfl⟩ : ∃ k : Nat, e = k - 1074 := ⟨(e + 1074).toNat, by omega⟩
  have hunit : 0 < d * 2 ^ ((k : Int) - 1074).toNat := Nat.mul_pos hd (Nat.two_pow_pos _)
  obtain ⟨hround, heven⟩ := @abs_roundQuotient_sub (n * 2 ^ (-((k : Int) - 1074)).toNat) _ hunit
  have hscaled : ((n * 2 ^ (-((k : Int) - 1074)).toNat : Nat) : ℚ) /
      (d * 2 ^ ((k : Int) - 1074).toNat : Nat) = n / d / 2 ^ (k - 1074 : Int) := by
    have hpow := zpow_eq_div 2 ((k : Int) - 1074)
    rw [Nat.cast_ofNat] at hpow
    rw [hpow, div_div_eq_mul_div, Nat.cast_mul, Nat.cast_mul]
    field_simp
  rw [hscaled] at hround heven
  have hpos : (0 : ℚ) < 2 ^ (k - 1074 : Int) := by positivity
  refine ⟨k, _, n / d / 2 ^ (k - 1074 : Int), ?_, (div_mul_cancel₀ _ hpos.ne').symm, ?_, ?_, hround,
    heven⟩
  · rw [exponentBit, sub_add_cancel, Int.toNat_natCast]
    rfl
  · rw [div_lt_iff₀ hpos, ← zpow_natCast, ← zpow_add₀ two_ne_zero]
    rwa [add_comm] at hhigh
  · intro hk
    rw [le_div_iff₀ hpos, ← zpow_natCast, ← zpow_add₀ two_ne_zero]
    rw [add_comm] at hlow
    exact hlow (by omega)

/-- A number of up to 53 bits is a whole number of units, or less than `2 ^ 52` of them. -/
theorem exists_magnitude_eq (k bits : Nat) :
    ∃ w : ℚ, magnitude bits = w * 2 ^ (k - 1074 : Int) ∧
      ((∃ t : Nat, w = t) ∨ 0 < k ∧ w < 2 ^ 52) := by
  obtain ⟨j, s, rfl, hs, hj⟩ := exists_exponent_significand bits
  rw [magnitude_eq hs.le hj]
  -- A smaller exponent has less than half as many units, a greater one whole units.
  rcases Nat.lt_or_ge j k with hlt | hge
  · refine ⟨s * 2 ^ ((j : Int) - k), ?_, Or.inr ⟨by omega, ?_⟩⟩
    · rw [mul_assoc, ← zpow_add₀ two_ne_zero]
      congr 2
      omega
    · have hpow : (2 : ℚ) ^ ((j : Int) - k) ≤ 2 ^ (-1 : Int) :=
        zpow_le_zpow_right₀ one_le_two (by omega)
      have hs' : (s : ℚ) < 2 ^ 53 := by exact_mod_cast hs
      calc
        (s : ℚ) * 2 ^ ((j : Int) - k) ≤ s * 2 ^ (-1 : Int) := by gcongr
        _ < 2 ^ 53 * 2 ^ (-1 : Int) := by gcongr
        _ = 2 ^ 52 := by norm_num
  · refine ⟨(s * 2 ^ (j - k) : Nat), ?_, Or.inl ⟨_, rfl⟩⟩
    rw [Nat.cast_mul, Nat.cast_pow, Nat.cast_ofNat, mul_assoc, ← zpow_natCast,
      ← zpow_add₀ two_ne_zero]
    congr 2
    omega

/-- What a number is rounded to is as near as any whole number, and nearer than any other one unless
it was rounded by one half. -/
theorem abs_sub_le_of_half {s t : Nat} {r : ℚ} (h : |s - r| ≤ 1 / 2) :
    |s - r| ≤ |t - r| ∧ (t ≠ s → |t - r| = |s - r| → |s - r| = 1 / 2) := by
  rcases eq_or_ne t s with rfl | hne
  · exact ⟨le_rfl, fun hne => absurd rfl hne⟩
  -- Two whole numbers are at least one apart, so that one of them is at least one half away.
  have hapart : (1 : ℚ) ≤ |(t : ℚ) - s| := by
    have hint : (1 : ℤ) ≤ |(t : ℤ) - s| :=
      Int.one_le_abs (sub_ne_zero.mpr (by exact_mod_cast hne))
    exact_mod_cast hint
  have htriangle : |(t : ℚ) - s| ≤ |t - r| + |s - r| := by
    rw [abs_sub_comm (s : ℚ) r]
    exact abs_sub_le _ _ _
  constructor
  · linarith
  · intro _ htie
    linarith

section Units

variable {k s : Nat} {r : ℚ} (hhigh : r < 2 ^ 53) (hlow : 0 < k → 2 ^ 52 ≤ r)
  (hround : |s - r| ≤ 1 / 2)
include hhigh hlow hround

/-- What less than `2 ^ 53` units are rounded to is a significand, that of the carry included. -/
theorem significand_bounds : s ≤ 2 ^ 53 ∧ (0 < k → 2 ^ 52 ≤ s) := by
  obtain ⟨hdown, hup⟩ := abs_le.mp hround
  refine ⟨?_, fun hk => ?_⟩
  · have hlt : (s : ℚ) < (2 ^ 53 + 1 : Nat) := by
      push_cast
      linarith
    exact Nat.lt_succ_iff.mp (by exact_mod_cast hlt)
  · have hlt : ((2 ^ 52 : Nat) : ℚ) < (s + 1 : Nat) := by
      have hleast := hlow hk
      push_cast
      linarith
    exact Nat.lt_succ_iff.mp (by exact_mod_cast hlt)

/-- In units of one exponent, no other number is nearer than what is rounded to. The others are
whole numbers of units, or lie in front of the first number of the exponent. -/
theorem exists_units_le (heven : |s - r| = 1 / 2 → s % 2 = 0) (other : Nat) :
    ∃ w, magnitude other = w * 2 ^ (k - 1074 : Int) ∧ |s - r| ≤ |w - r| ∧
      (other ≠ k * 2 ^ 52 + s → |w - r| = |s - r| → s % 2 = 0) := by
  obtain ⟨hs, hk⟩ := significand_bounds hhigh hlow hround
  obtain ⟨w, hw, ⟨t, rfl⟩ | ⟨hkpos, hsmall⟩⟩ := exists_magnitude_eq k other
  · obtain ⟨hle, htie⟩ := @abs_sub_le_of_half s t r hround
    refine ⟨t, hw, hle, fun hne hsame => heven (htie ?_ hsame)⟩
    rintro rfl
    exact hne (magnitude_strictMono.injective (hw.trans (magnitude_eq hs hk).symm))
  · have hbefore := hlow hkpos
    have hfirst := (@abs_sub_le_of_half s (2 ^ 52) r hround).1
    rw [Nat.cast_pow, Nat.cast_ofNat, abs_of_nonpos (by linarith : (2 : ℚ) ^ 52 - r ≤ 0)] at hfirst
    have hlt : |s - r| < |w - r| := by
      rw [abs_of_neg (by linarith : w - r < 0)]
      linarith
    exact ⟨w, hw, hlt.le, fun _ hsame => absurd hsame hlt.ne'⟩

end Units

/-- The bits that are computed for a quotient are the nearest ones. -/
theorem nearest_nearestBits (hn : 0 < n) (hd : 0 < d) (h : (n : ℚ) / d < overflow) :
    Nearest (nearestBits n d) (n / d) := by
  have hfinite := (nearestBits_lt_iff hn hd).mpr h
  obtain ⟨k, s, r, hbits, hq, hhigh, hlow, hround, heven⟩ := exists_nearestBits_eq hn hd
  rw [hbits, min_lt_iff, or_iff_left (lt_irrefl _)] at hfinite
  rw [hbits, min_eq_left hfinite.le, hq]
  obtain ⟨hs, hk⟩ := significand_bounds hhigh hlow hround
  have hmagnitude := magnitude_eq hs hk
  have hunits := exists_units_le hhigh hlow hround heven
  have hpos : (0 : ℚ) < 2 ^ (k - 1074 : Int) := by positivity
  -- Distances are compared in units of the exponent.
  have hdistance (w : ℚ) :
      |w * 2 ^ (k - 1074 : Int) - r * 2 ^ (k - 1074 : Int)| = |w - r| * 2 ^ (k - 1074 : Int) := by
    rw [← sub_mul, abs_mul, abs_of_pos hpos]
  refine ⟨hfinite, fun other _ => ?_, fun other _ hne hsame => ?_⟩
  · obtain ⟨w, hw, hle, _⟩ := hunits other
    rw [hmagnitude, hw, hdistance, hdistance]
    exact mul_le_mul_of_nonneg_right hle hpos.le
  · obtain ⟨w, hw, _, htie⟩ := hunits other
    rw [hmagnitude, hw, hdistance, hdistance, mul_left_inj' hpos.ne'] at hsame
    have hs := htie hne hsame
    omega

/-- A number of less than half the smallest one is nearest to zero. -/
theorem nearest_zero {q : ℚ} (hnonneg : 0 ≤ q) (h : 2 * q < 2 ^ (-1074 : Int)) : Nearest 0 q := by
  have hzero : magnitude 0 = 0 := by simp [magnitude]
  refine ⟨by decide, fun other _ => ?_, fun _ _ _ _ => rfl⟩
  rw [hzero, zero_sub, abs_neg, abs_of_nonneg hnonneg]
  rcases Nat.eq_zero_or_pos other with rfl | hpos
  · rw [hzero, zero_sub, abs_neg, abs_of_nonneg hnonneg]
  · have hone : magnitude 1 = 2 ^ (-1074 : Int) := by simp [magnitude]
    have hleast := magnitude_strictMono.monotone hpos
    rw [hone] at hleast
    exact (by linarith : q ≤ magnitude other - q).trans (le_abs_self _)

end Round

/-! ### Decimals -/

/-- The bits of a finite number are those of its magnitude, with the highest set for the sign. -/
theorem bits_ofMagnitude {negative : Bool} {bits : Nat} (h : bits < 2047 * 2 ^ 52) :
    (ofMagnitude negative bits).bits.toNat = if negative then 2 ^ 63 + bits else bits := by
  unfold ofMagnitude signBit
  rw [UInt64.toNat_ofNat']
  cases negative <;> simp only [Bool.false_eq_true, if_false, if_true] <;> omega

/-- The number that a decimal below the bound is read as is nearest to it. -/
theorem rounds_ofDecimal {d : Decimal} (h : |d.value| < overflow) : (ofDecimal d).Rounds d := by
  obtain ⟨bits, heq, hcases⟩ := ofDecimal_cases d
  have hnearest : Nearest bits |d.value| := by
    rcases hcases with ⟨rfl, hsmall⟩ | ⟨_, hlarge⟩ | ⟨n, m, hn, hm, rfl, hvalue⟩
    · exact nearest_zero (abs_nonneg _) hsmall
    · exact absurd h (not_lt.mpr hlarge)
    · rw [hvalue] at h ⊢
      exact nearest_nearestBits hn hm h
  exact ⟨bits, hnearest, by rw [heq, bits_ofMagnitude hnearest.finite]⟩

/-- A decimal is read as the number with its sign and the nearest bits, and as no other one. -/
theorem ofDecimal_eq_iff {d : Decimal} {x : Binary64} (h : |d.value| < overflow) :
    ofDecimal d = x ↔ x.Rounds d := by
  constructor
  · rintro rfl
    exact rounds_ofDecimal h
  · rintro ⟨bits, hbits, hx⟩
    obtain ⟨own, hown, heq⟩ := rounds_ofDecimal h
    rw [hown.unique hbits, ← hx] at heq
    exact congrArg Binary64.mk (UInt64.toNat_inj.mp heq)

/-- The numbers that are read from a text: it is a decimal that lies below the bound, and the number
is the nearest one. -/
theorem readFinite?_eq_some_iff_rounds {text : String} {x : Binary64} :
    readFinite? text = some x ↔
      ∃ d, Decimal.Numeral text.toList d ∧ |d.value| < overflow ∧ x.Rounds d := by
  rw [readFinite?_eq_some_iff]
  exact exists_congr fun d => and_congr_right fun _ => and_congr_right ofDecimal_eq_iff

end QueryCompiler.Binary64
