import Mathlib.Algebra.Order.Field.Power
import Mathlib.Algebra.Order.Field.Rat
import Mathlib.Tactic.NormNum
import Mathlib.Tactic.Positivity
import Mathlib.Tactic.Ring
import QueryCompiler.Binary64
import QueryCompiler.Proofs.Decimal

/-!
# Numerals of finite numbers

A numeral is read as a finite number exactly if it lies below the bound from which on the nearest
number is infinite. The bound is the midpoint between the greatest finite number and the next power
of two; the midpoint itself is rounded to the even neighbour, which is the infinite one.
-/

namespace QueryCompiler.Binary64

/-- Halfway between the greatest finite number and `2 ^ 1024`. -/
def overflow : ℚ := 2 ^ 1024 - 2 ^ 970

/-! ### Rounding -/

section Round

variable {numerator denominator : Nat}

/-- A quotient is rounded down or up, on the half to the even neighbour. -/
theorem roundQuotient_cases (n d : Nat) :
    roundQuotient n d = n / d ∧ (2 * (n % d) < d ∨ 2 * (n % d) = d ∧ n / d % 2 = 0) ∨
      roundQuotient n d = n / d + 1 ∧
        (d < 2 * (n % d) ∨ 2 * (n % d) = d ∧ (n / d + 1) % 2 = 0) := by
  unfold roundQuotient
  dsimp only
  split_ifs <;> omega

/-- A quotient below a whole number is rounded to at most that number. -/
theorem roundQuotient_le_of_lt {bound : Nat} (h : numerator < bound * denominator) :
    roundQuotient numerator denominator ≤ bound := by
  have hbelow : numerator / denominator < bound := Nat.div_lt_of_lt_mul (Nat.mul_comm _ _ ▸ h)
  rcases roundQuotient_cases numerator denominator with ⟨heq, _⟩ | ⟨heq, _⟩ <;> omega

/-- A quotient of at least a whole number is rounded to at least that number. -/
theorem le_roundQuotient_of_le {bound : Nat} (hd : 0 < denominator)
    (h : bound * denominator ≤ numerator) : bound ≤ roundQuotient numerator denominator := by
  have habove : bound ≤ numerator / denominator := (Nat.le_div_iff_mul_le hd).mpr h
  rcases roundQuotient_cases numerator denominator with ⟨heq, _⟩ | ⟨heq, _⟩ <;> omega

/-- A quotient is rounded to less than an even bound exactly if it lies below the midpoint in front
of the bound: the midpoint itself goes to the bound. -/
theorem roundQuotient_lt_iff {bound : Nat} (hd : 0 < denominator) (heven : bound % 2 = 0)
    (hbound : 0 < bound) :
    roundQuotient numerator denominator < bound ↔
      2 * numerator < (2 * bound - 1) * denominator := by
  have hsplit := Nat.div_add_mod numerator denominator
  have hrest := Nat.mod_lt numerator hd
  have hcases := roundQuotient_cases numerator denominator
  generalize numerator / denominator = quotient at *
  generalize numerator % denominator = rest at *
  -- Only a quotient in the last step in front of the bound can be rounded up to it.
  rcases Nat.lt_trichotomy (quotient + 1) bound with hlt | heq | hgt
  · have hmul : denominator * (quotient + 2) ≤ denominator * bound := Nat.mul_le_mul_left _ hlt
    have hexpand : (2 * bound - 1) * denominator = 2 * (denominator * bound) - denominator := by
      rw [Nat.sub_mul, Nat.one_mul, Nat.mul_assoc, Nat.mul_comm bound]
    have hexpand' : denominator * (quotient + 2) = denominator * quotient + 2 * denominator := by
      ring
    omega
  · have hexpand : (2 * bound - 1) * denominator = 2 * (denominator * quotient) + denominator := by
      have hodd : 2 * bound - 1 = 2 * quotient + 1 := by omega
      rw [hodd]
      ring
    omega
  · have hmul : denominator * bound ≤ denominator * quotient := Nat.mul_le_mul_left _ (by omega)
    have hexpand : (2 * bound - 1) * denominator = 2 * (denominator * bound) - denominator := by
      rw [Nat.sub_mul, Nat.one_mul, Nat.mul_assoc, Nat.mul_comm bound]
    omega

end Round

/-! ### The power of two that is rounded to -/

/-- A power with any exponent as a quotient of natural powers. -/
theorem zpow_eq_div (base : Nat) (e : Int) :
    (base : ℚ) ^ e = (base ^ e.toNat : Nat) / (base ^ (-e).toNat : Nat) := by
  rcases Int.le_total 0 e with h | h
  · obtain ⟨k, rfl⟩ := Int.eq_ofNat_of_zero_le h
    simp
  · obtain ⟨k, hk⟩ := Int.eq_ofNat_of_zero_le (Int.neg_nonneg_of_nonpos h)
    obtain rfl : e = -k := by omega
    simp [zpow_neg]

section Exponent

variable {n d : Nat}

/-- Comparison with a multiple of a power of two, without a division. -/
theorem div_lt_mul_zpow_iff (hd : 0 < d) (factor : Nat) (e : Int) :
    (n : ℚ) / d < factor * 2 ^ e ↔ n * 2 ^ (-e).toNat < factor * (d * 2 ^ e.toNat) := by
  have hpow := zpow_eq_div 2 e
  rw [Nat.cast_ofNat] at hpow
  rw [hpow, ← mul_div_assoc, div_lt_div_iff₀ (by positivity) (by positivity), mul_assoc,
    mul_comm _ (d : ℚ)]
  norm_cast

/-- The comparison of a quotient with a power of two that the program makes with whole numbers. -/
theorem div_lt_zpow_iff (hd : 0 < d) (e : Int) :
    (n : ℚ) / d < 2 ^ e ↔ n * 2 ^ (-e).toNat < d * 2 ^ e.toNat := by
  simpa using @div_lt_mul_zpow_iff n d hd 1 e

/-- The quotient of two numbers lies within two binary digits of the difference of their sizes. -/
theorem zpow_log2_bounds (hn : 0 < n) (hd : 0 < d) :
    (2 : ℚ) ^ ((n.log2 : Int) - d.log2 - 1) ≤ n / d ∧
      (n : ℚ) / d < 2 ^ ((n.log2 : Int) - d.log2 + 1) := by
  have hnlow : (2 : ℚ) ^ n.log2 ≤ n := by exact_mod_cast Nat.log2_self_le hn.ne'
  have hdlow : (2 : ℚ) ^ d.log2 ≤ d := by exact_mod_cast Nat.log2_self_le hd.ne'
  have hnhigh : (n : ℚ) < 2 ^ (n.log2 + 1) := by exact_mod_cast Nat.lt_log2_self
  have hdhigh : (d : ℚ) < 2 ^ (d.log2 + 1) := by exact_mod_cast Nat.lt_log2_self
  have hdpos : (0 : ℚ) < d := by exact_mod_cast hd
  constructor
  · have hpow : (2 : ℚ) ^ ((n.log2 : Int) - d.log2 - 1) = 2 ^ n.log2 / 2 ^ (d.log2 + 1) := by
      rw [sub_sub, zpow_sub₀ two_ne_zero]
      norm_cast
    rw [hpow]
    exact div_le_div₀ (by positivity) hnlow hdpos hdhigh.le
  · have hpow : (2 : ℚ) ^ ((n.log2 : Int) - d.log2 + 1) = 2 ^ (n.log2 + 1) / 2 ^ d.log2 := by
      rw [sub_add_eq_add_sub, zpow_sub₀ two_ne_zero]
      norm_cast
    rw [hpow]
    exact div_lt_div₀ hnhigh hdlow (by positivity) (by positivity)

/-- Unless it is the smallest one, the power that is rounded to leaves exactly 53 binary digits. -/
theorem exists_roundingExponent_eq (hn : 0 < n) (hd : 0 < d) :
    ∃ e, roundingExponent n d = max e (-1074) ∧ (2 : ℚ) ^ (e + 52) ≤ n / d ∧
      (n : ℚ) / d < 2 ^ (e + 53) := by
  obtain ⟨hlow, hhigh⟩ := zpow_log2_bounds hn hd
  unfold roundingExponent
  generalize hguess : (n.log2 : Int) - d.log2 - 53 = guess
  have hsize : (n.log2 : Int) - d.log2 = guess + 53 := by omega
  rw [hsize] at hlow hhigh
  by_cases hfits : (n : ℚ) / d < 2 ^ (guess + 53)
  · have htest := (div_lt_zpow_iff hd _).mp hfits
    refine ⟨guess, ?_, ?_, hfits⟩
    · simp only [Nat.pow_eq, htest, decide_true, if_true]
    · rwa [show guess + 52 = guess + 53 - 1 by omega]
  · have htest := mt (div_lt_zpow_iff hd _).mpr hfits
    refine ⟨guess + 1, ?_, ?_, ?_⟩
    · simp only [Nat.pow_eq, htest, decide_false, Bool.false_eq_true, if_false]
    · rw [show guess + 1 + 52 = guess + 53 by omega]
      exact not_lt.mp hfits
    · rwa [show guess + 1 + 53 = guess + 53 + 1 by omega]

/-- A multiple of the power that is rounded to has at most 53 binary digits, and has all of them
unless the power is the smallest one. -/
theorem roundingExponent_bounds (hn : 0 < n) (hd : 0 < d) :
    -1074 ≤ roundingExponent n d ∧ (n : ℚ) / d < 2 ^ (roundingExponent n d + 53) ∧
      (-1074 < roundingExponent n d → (2 : ℚ) ^ (roundingExponent n d + 52) ≤ n / d) := by
  obtain ⟨e, heq, hlow, hhigh⟩ := exists_roundingExponent_eq hn hd
  rw [heq]
  refine ⟨le_max_right _ _, hhigh.trans_le ?_, fun hmore => ?_⟩
  · exact zpow_le_zpow_right₀ one_le_two (add_le_add_left (le_max_left _ _) _)
  · rwa [max_eq_left (by omega)]

/-! ### Finite numbers -/

/-- The sign does not touch the bits of the magnitude. -/
theorem magnitudeBits_ofMagnitude {negative : Bool} {bits : Nat} (h : bits < signBit) :
    (ofMagnitude negative bits).magnitudeBits = bits := by
  unfold ofMagnitude magnitudeBits
  rw [UInt64.toNat_ofNat']
  unfold signBit at *
  cases negative <;> simp only [Bool.false_eq_true, if_false, if_true] <;> omega

/-- A number is finite if its magnitude has bits below those of infinity. -/
theorem isFinite_ofMagnitude {negative : Bool} {bits : Nat} (h : bits < signBit) :
    (ofMagnitude negative bits).isFinite = true ↔ bits < infinityBits := by
  rw [isFinite, magnitudeBits_ofMagnitude h, decide_eq_true_iff]

private theorem nearestBits_le (n d : Nat) : nearestBits n d ≤ infinityBits := by
  unfold nearestBits
  dsimp only
  split_ifs
  · exact Nat.zero_le _
  · exact min_le_right _ _

private theorem overflow_eq : overflow = (2 * 2 ^ 53 - 1) * 2 ^ 970 := by
  have hpow : (2 : ℚ) ^ 1024 = 2 * 2 ^ 53 * 2 ^ 970 := by rw [← pow_succ', ← pow_add]
  rw [overflow, hpow, sub_mul, one_mul]

private theorem overflow_le : overflow ≤ 2 ^ 1024 := sub_le_self _ (by positivity)

/-- The largest power of two among the numbers does not overflow. -/
theorem le_overflow : (2 : ℚ) ^ 1023 ≤ overflow := by
  have hdouble : (2 : ℚ) ^ 1024 = 2 ^ 1023 + 2 ^ 1023 := by rw [pow_succ _ 1023, mul_two]
  have hless : (2 : ℚ) ^ 970 ≤ 2 ^ 1023 := pow_le_pow_right₀ one_le_two (by decide)
  rw [overflow, hdouble]
  exact le_sub_iff_add_le.mpr (add_le_add_right hless _)

/-- The bound is a half unit away from `2 ^ 53` units of the last exponent. -/
theorem lt_overflow_iff {x : ℚ} :
    x < overflow ↔ 2 * x < ((2 * 2 ^ 53 - 1 : Nat) : ℚ) * 2 ^ (971 : Int) := by
  have hcast : ((2 * 2 ^ 53 - 1 : Nat) : ℚ) = 2 * 2 ^ 53 - 1 := by norm_num
  have hpow : (2 : ℚ) ^ (971 : Int) = 2 * 2 ^ 970 := by
    rw [← pow_succ']
    rfl
  rw [overflow_eq, hcast, hpow, mul_left_comm, mul_lt_mul_iff_right₀ two_pos]

/-- The bits that are nearest to a quotient are finite exactly if the quotient lies below the bound:
the significand is rounded up to `2 ^ 53` from the bound on. -/
theorem nearestBits_lt_iff (hn : 0 < n) (hd : 0 < d) :
    nearestBits n d < infinityBits ↔ (n : ℚ) / d < overflow := by
  obtain ⟨hleast, hhigh, hlow⟩ := roundingExponent_bounds hn hd
  rw [nearestBits, if_neg hn.ne']
  dsimp only
  generalize roundingExponent n d = e at *
  simp only [Nat.pow_eq]
  rw [min_lt_iff, or_iff_left (lt_irrefl _)]
  have hscale (factor : Nat) := @div_lt_mul_zpow_iff n d hd factor e
  have htwice := @div_lt_mul_zpow_iff (2 * n) d hd (2 * 2 ^ 53 - 1) e
  rw [mul_assoc] at htwice
  have hpos : 0 < d * 2 ^ e.toNat := Nat.mul_pos hd (Nat.two_pow_pos _)
  generalize n * 2 ^ (-e).toNat = scaled, d * 2 ^ e.toNat = unit at *
  -- The last exponent is 971; its significands have to stay below `2 ^ 53`.
  rcases lt_trichotomy e 971 with hsmall | rfl | hlarge
  · have hbelow : (n : ℚ) / d < overflow := by
      have hpow : (2 : ℚ) ^ (e + 53) ≤ 2 ^ (1023 : Int) :=
        zpow_le_zpow_right₀ one_le_two (by omega)
      exact (hhigh.trans_le hpow).trans_le le_overflow
    have hsignificand : roundQuotient scaled unit ≤ 2 ^ 53 := by
      refine roundQuotient_le_of_lt ((hscale _).mp ?_)
      rw [add_comm, zpow_add₀ two_ne_zero] at hhigh
      exact_mod_cast hhigh
    refine iff_of_true ?_ hbelow
    unfold exponentBit infinityBits
    omega
  · rw [Nat.cast_mul, Nat.cast_two, mul_div_assoc, ← lt_overflow_iff] at htwice
    rw [htwice, ← roundQuotient_lt_iff hpos (by decide) (by decide)]
    unfold exponentBit infinityBits
    omega
  · have habove : overflow ≤ (n : ℚ) / d := by
      have hpow : (2 : ℚ) ^ (1024 : Int) ≤ 2 ^ (e + 52) :=
        zpow_le_zpow_right₀ one_le_two (by omega)
      exact overflow_le.trans (hpow.trans (hlow (by omega)))
    have hsignificand : 2 ^ 52 ≤ roundQuotient scaled unit := by
      refine le_roundQuotient_of_le hpos (not_lt.mp (mt (hscale _).mpr (not_lt.mpr ?_)))
      have hlow := hlow (by omega)
      rw [add_comm, zpow_add₀ two_ne_zero] at hlow
      exact_mod_cast hlow
    refine iff_of_false ?_ (not_lt.mpr habove)
    unfold exponentBit infinityBits
    omega

end Exponent

/-! ### Decimals -/

/-- The magnitude of a decimal has no sign. -/
theorem abs_value (d : Decimal) : |d.value| = d.digits * 10 ^ d.exponent := by
  have hsign : |(if d.negative then -1 else 1 : ℚ)| = 1 := by split <;> simp
  have hpow : (0 : ℚ) ≤ 10 ^ d.exponent := by positivity
  rw [Decimal.value, abs_mul, abs_mul, hsign, one_mul, Nat.abs_cast, abs_of_nonneg hpow]

/-- The number of digits in front of the point says how large a decimal is. -/
theorem abs_value_bounds {d : Decimal} (hd : 0 < d.digits) :
    (10 : ℚ) ^ (Decimal.length d.digits + d.exponent - 1) ≤ |d.value| ∧
      |d.value| < 10 ^ (Decimal.length d.digits + d.exponent) := by
  have hpos : 0 < Decimal.length d.digits := Nat.length_toDigits_pos
  have hhigh : d.digits < 10 ^ Decimal.length d.digits :=
    (Nat.length_toDigits_le_iff (by decide) hpos).mp le_rfl
  have hlow : 10 ^ (Decimal.length d.digits - 1) ≤ d.digits := by
    rcases Nat.eq_zero_or_pos (Decimal.length d.digits - 1) with hzero | hmore
    · rw [hzero]
      exact hd
    · refine Nat.le_of_not_lt (mt (Nat.length_toDigits_le_iff (by decide) hmore).mpr ?_)
      unfold Decimal.length at *
      omega
  have hpow : (0 : ℚ) < 10 ^ d.exponent := by positivity
  rw [abs_value]
  constructor
  · have hexp : (Decimal.length d.digits : Int) + d.exponent - 1 =
        ((Decimal.length d.digits - 1 : Nat) : Int) + d.exponent := by omega
    rw [hexp, zpow_add₀ (by norm_num), zpow_natCast]
    exact mul_le_mul_of_nonneg_right (by exact_mod_cast hlow) hpow.le
  · rw [zpow_add₀ (by norm_num), zpow_natCast]
    exact mul_lt_mul_of_pos_right (by exact_mod_cast hhigh) hpow

/-- The bound lies below the power of ten from which a decimal is infinite without rounding. -/
private theorem overflow_le_ten_pow : overflow ≤ 10 ^ 310 := by
  have hstep : (2 : ℚ) ^ 205 ≤ 10 ^ 62 := by norm_num
  calc
    overflow ≤ 2 ^ 1024 := overflow_le
    _ ≤ 2 ^ (205 * 5) := pow_le_pow_right₀ one_le_two (by decide)
    _ = (2 ^ 205) ^ 5 := pow_mul _ _ _
    _ ≤ (10 ^ 62) ^ 5 := pow_le_pow_left₀ (by positivity) hstep 5
    _ = 10 ^ 310 := (pow_mul _ _ _).symm

/-- Decimals whose power of ten is too small to be raised are less than half the smallest number. -/
private theorem two_mul_ten_zpow_le : 2 * (10 : ℚ) ^ (-330 : Int) ≤ 2 ^ (-1074 : Int) := by
  have hstep : (2 : ℚ) ^ 215 ≤ 10 ^ 66 := by norm_num
  have hpow : (2 : ℚ) ^ 1075 ≤ 10 ^ 330 := by
    calc
      (2 : ℚ) ^ 1075 = 2 ^ (215 * 5) := rfl
      _ = (2 ^ 215) ^ 5 := pow_mul _ _ _
      _ ≤ (10 ^ 66) ^ 5 := pow_le_pow_left₀ (by positivity) hstep 5
      _ = 10 ^ 330 := (pow_mul _ _ _).symm
  calc
    2 * (10 : ℚ) ^ (-330 : Int) ≤ 2 * 2 ^ (-1075 : Int) :=
      mul_le_mul_of_nonneg_left (inv_anti₀ (by positivity) hpow) two_pos.le
    _ = 2 ^ (1 + -1075 : Int) := (zpow_one_add₀ two_ne_zero _).symm

/-- A decimal has bits of one of three kinds: zero for less than half the smallest number, infinity
for a number above the bound, and those of a quotient for all others. -/
theorem ofDecimal_cases (d : Decimal) :
    ∃ bits, ofDecimal d = ofMagnitude d.negative bits ∧
      (bits = 0 ∧ 2 * |d.value| < 2 ^ (-1074 : Int) ∨
        bits = infinityBits ∧ overflow ≤ |d.value| ∨
        ∃ n m : Nat, 0 < n ∧ 0 < m ∧ bits = nearestBits n m ∧ |d.value| = n / m) := by
  refine ⟨_, rfl, ?_⟩
  split_ifs with htiny hhuge
  · refine Or.inl ⟨rfl, ?_⟩
    rcases Nat.eq_zero_or_pos d.digits with hzero | hpos
    · rw [abs_value, hzero, Nat.cast_zero, zero_mul, mul_zero]
      positivity
    · have hsize := htiny.resolve_left hpos.ne'
      -- The number of digits and the exponent bound the decimal from above.
      have hpow : (10 : ℚ) ^ (Decimal.length d.digits + d.exponent) ≤ 10 ^ (-330 : Int) :=
        zpow_le_zpow_right₀ (by norm_num) (by omega)
      have hbelow := (abs_value_bounds hpos).2.trans_le hpow
      exact (mul_lt_mul_of_pos_left hbelow two_pos).trans_le two_mul_ten_zpow_le
  · have hpos : 0 < d.digits := Nat.pos_of_ne_zero (not_or.mp htiny).1
    have hpow : (10 : ℚ) ^ (310 : Int) ≤ 10 ^ (Decimal.length d.digits + d.exponent - 1) :=
      zpow_le_zpow_right₀ (by norm_num) (by omega)
    exact Or.inr (Or.inl
      ⟨rfl, overflow_le_ten_pow.trans (hpow.trans (abs_value_bounds hpos).1)⟩)
  · have hpos : 0 < d.digits := Nat.pos_of_ne_zero (not_or.mp htiny).1
    have hten := zpow_eq_div 10 d.exponent
    refine Or.inr (Or.inr ⟨_, _, Nat.mul_pos hpos (Nat.pow_pos (by decide)),
      Nat.pow_pos (by decide), rfl, ?_⟩)
    rw [Nat.cast_ofNat] at hten
    rw [abs_value, hten, Nat.cast_mul, mul_div_assoc]

/-- The number nearest to a decimal is finite exactly if the decimal lies below the bound. -/
theorem isFinite_ofDecimal {d : Decimal} :
    (ofDecimal d).isFinite = true ↔ |d.value| < overflow := by
  have hsign : infinityBits < signBit := by decide
  obtain ⟨bits, heq, hcases⟩ := ofDecimal_cases d
  rw [heq]
  rcases hcases with ⟨rfl, hsmall⟩ | ⟨rfl, hlarge⟩ | ⟨n, m, hn, hm, rfl, hvalue⟩
  · have hsmallest : (2 : ℚ) ^ (-1074 : Int) ≤ 2 ^ (1023 : Int) :=
      zpow_le_zpow_right₀ one_le_two (by decide)
    have hdouble : |d.value| ≤ 2 * |d.value| := le_mul_of_one_le_left (abs_nonneg _) one_le_two
    rw [isFinite_ofMagnitude (by decide)]
    exact iff_of_true (by decide) ((hdouble.trans_lt hsmall).trans_le (hsmallest.trans le_overflow))
  · rw [isFinite_ofMagnitude hsign]
    exact iff_of_false (lt_irrefl _) (not_lt.mpr hlarge)
  · have hbits := (nearestBits_le n m).trans_lt hsign
    rw [isFinite_ofMagnitude hbits, nearestBits_lt_iff hn hm, hvalue]

/-! ### Texts -/

/-- The words that are read as numbers are read as infinite or not a number. -/
theorem not_isFinite_of_word? {negative : Bool} {cs : List Char} {bits : Nat}
    (h : word? cs = some bits) : (ofMagnitude negative bits).isFinite = false := by
  unfold word? at h
  dsimp only at h
  rw [Bool.eq_false_iff]
  split_ifs at h
  · obtain rfl := Option.some.inj h
    rw [Ne, isFinite_ofMagnitude (by decide)]
    exact lt_irrefl _
  · obtain rfl := Option.some.inj h
    rw [Ne, isFinite_ofMagnitude (by decide)]
    decide

private theorem toLower_of_code {c : Char} (h : c.toNat ≤ 57) : c.toLower = c := by
  refine dif_neg ?_
  rintro ⟨hletter, _⟩
  rw [ge_iff_le, UInt32.le_iff_toNat_le] at hletter
  change 65 ≤ c.toNat at hletter
  omega

/-- No decimal is one of the words: they all start with a letter. -/
theorem word?_eq_none {c : Char} {others : List Char} (h : c.toNat ≤ 57) :
    word? (c :: others) = none := by
  have hword (text : String) (first : Char) (hfirst : text.toList.head? = some first)
      (hletter : 57 < first.toNat) : String.ofList ((c :: others).map Char.toLower) ≠ text := by
    rintro rfl
    have hsame : c = first := by simpa [toLower_of_code h] using hfirst
    rw [hsame] at h
    omega
  have hinf := hword "inf" 'i' rfl (by decide)
  have hinfinity := hword "infinity" 'i' rfl (by decide)
  have hnan := hword "nan" 'n' rfl (by decide)
  simp only [word?, hinf, hinfinity, hnan, or_self, if_false]

/-- The numbers that are read from a text: it is a decimal that lies below the bound. -/
theorem readFinite?_eq_some_iff {text : String} {x : Binary64} :
    readFinite? text = some x ↔
      ∃ d, Decimal.Numeral text.toList d ∧ |d.value| < overflow ∧ ofDecimal d = x := by
  rw [readFinite?, Option.filter_eq_some_iff]
  constructor
  · rintro ⟨hread, hfinite⟩
    obtain ⟨sign, negative, rest, hsign, htext, hspan⟩ := Decimal.exists_sign text.toList
    simp only [read?, hspan] at hread
    split at hread
    next bits hword =>
      obtain rfl := Option.some.inj hread
      rw [not_isFinite_of_word? hword] at hfinite
      cases hfinite
    next =>
      obtain ⟨d, hd, rfl⟩ := Option.map_eq_some_iff.mp hread
      rw [← htext]
      exact ⟨d, .signed hsign (Decimal.readMagnitude?_eq_some_iff.mp hd),
        isFinite_ofDecimal.mp hfinite, rfl⟩
  · rintro ⟨d, hnumeral, hbound, rfl⟩
    refine ⟨?_, isFinite_ofDecimal.mpr hbound⟩
    generalize htext : text.toList = cs at hnumeral
    obtain @⟨sign, rest, negative, _, hsign, hmagnitude⟩ := hnumeral
    obtain ⟨c, others, rfl, hc⟩ := hmagnitude.exists_head
    have hcode := Decimal.code_of_head hc
    have hspan : Decimal.spanSign (sign ++ c :: others) = (negative, c :: others) := by
      refine Decimal.spanSign_append hsign ?_
      rintro _ ⟨⟩
      constructor
      · rintro rfl
        exact absurd hcode (by decide)
      · rintro rfl
        exact absurd hcode (by decide)
    simp only [read?, htext, hspan, word?_eq_none hcode.2,
      Decimal.readMagnitude?_eq_some_iff.mpr hmagnitude, Option.map_some]

end QueryCompiler.Binary64
