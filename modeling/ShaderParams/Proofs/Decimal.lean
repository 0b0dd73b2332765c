import ShaderParams.Number.Spelling
import ShaderParams.Proofs.Rounding

/-!
This module contains the theory of decimals: rounding them to a binary format depends on their value
alone, a fixed number of digits is enough to read every magnitude back, and so the shortest decimal
of a magnitude does read back.
-/

namespace ShaderParams

-- Powers of natural numbers are the built-in ones, whatever other instances are in scope.
attribute [local instance (2000)] instPowNat

theorem ten_zpow_eq_div (e : Int) :
    (10 : ℚ) ^ e = ((10 ^ e.toNat : Nat) : ℚ) / ((10 ^ (-e).toNat : Nat) : ℚ) := by
  have hpow := zpow_eq_div (b := 10) (by decide) e
  rwa [Nat.cast_ofNat] at hpow

/-- Zeros at the end of the digits count as much as the exponent does. -/
theorem mul_ten_pow_zpow (n i : Nat) (e : Int) :
    ((n * 10 ^ i : Nat) : ℚ) * 10 ^ e = n * 10 ^ (e + i) := by
  rw [zpow_add₀ (by norm_num), zpow_natCast]
  push_cast
  ring

theorem ten_pow_mul_zpow (i : Nat) (e : Int) : ((10 ^ i : Nat) : ℚ) * 10 ^ e = 10 ^ (e + i) := by
  have hone := mul_ten_pow_zpow 1 i e
  rwa [Nat.one_mul, Nat.cast_one, one_mul] at hone

theorem ten_zpow_floorLog10_le {n d : Nat} (hn : 0 < n) (hd : 0 < d) :
    (10 : ℚ) ^ floorLog10 n d ≤ n / d := by
  have hd' : (0 : ℚ) < d := by exact_mod_cast hd
  rw [floorLog10]
  split
  · next h =>
    have hq : 0 < n / d := Nat.div_pos h hd
    have hpow : 10 ^ log10 (n / d) * d ≤ n :=
      (Nat.mul_le_mul_right d (ten_pow_log10_le hq)).trans (Nat.div_mul_le_self n d)
    rw [zpow_natCast, le_div_iff₀ hd']
    exact_mod_cast hpow
  · next h =>
    -- The reciprocal rounded up is at most the next power of ten.
    have hceil : d ≤ ((d + n - 1) / n) * n := by
      have h1 := Nat.div_add_mod (d + n - 1) n
      have h2 := Nat.mod_lt (d + n - 1) hn
      rw [Nat.mul_comm] at h1
      omega
    have hlog := lt_ten_pow_log10 ((d + n - 1) / n - 1)
    generalize log10 ((d + n - 1) / n - 1) = k at hlog ⊢
    have hpow : d ≤ 10 ^ (k + 1) * n := hceil.trans (Nat.mul_le_mul_right n (by omega))
    have hpow' : (d : ℚ) ≤ 10 ^ (k + 1) * n := by exact_mod_cast hpow
    rw [zpow_neg, zpow_natCast, inv_le_iff_one_le_mul₀ (by positivity), div_mul_eq_mul_div,
      le_div_iff₀ hd', one_mul, mul_comm]
    exact hpow'

namespace Decimal

def value (d : Decimal) : ℚ :=
  d.digits * 10 ^ d.exp

theorem denominator_pos (d : Decimal) : 0 < d.denominator :=
  Nat.pow_pos (by decide)

theorem value_eq_div (d : Decimal) : d.value = d.numerator / d.denominator := by
  rw [value, ten_zpow_eq_div, numerator, denominator, Nat.cast_mul, mul_div_assoc]

theorem value_normalize (d : Decimal) : d.normalize.value = d.value := by
  fun_induction normalize d with
  | case1 d h => simp [value, h]
  | case2 d h h' ih =>
    have hdigits : (d.digits : ℚ) = (d.digits / 10 : Nat) * 10 := by
      have := Nat.div_add_mod d.digits 10
      exact_mod_cast show d.digits = d.digits / 10 * 10 by omega
    rw [ih, value, value, zpow_add_one₀ (by norm_num), hdigits]
    push_cast
    ring
  | case3 d h h' => rfl

theorem two_zpow_three_mul (e : Int) : (2 : ℚ) ^ (3 * e) = 8 ^ e := by
  rw [zpow_mul]
  norm_num

section

variable {d : Decimal} (hd : d.digits ≠ 0)

include hd

theorem numerator_pos : 0 < d.numerator :=
  Nat.mul_pos (Nat.pos_of_ne_zero hd) (Nat.pow_pos (by decide))

theorem le_value_of_exp_nonneg (h : 0 ≤ d.exp) :
    (2 : ℚ) ^ (d.digits.log2 + 3 * d.exp) ≤ d.value := by
  have hlog : ((2 ^ d.digits.log2 : Nat) : ℚ) ≤ d.digits := by
    exact_mod_cast Nat.log2_self_le hd
  have hpow : (8 : ℚ) ^ d.exp ≤ 10 ^ d.exp := zpow_le_zpow_left₀ h (by norm_num) (by norm_num)
  rw [zpow_add₀ two_ne_zero, two_zpow_three_mul, zpow_natCast, value]
  push_cast at hlog
  gcongr

omit hd in
theorem value_lt_of_exp_neg (h : d.exp < 0) :
    d.value < (2 : ℚ) ^ (d.digits.log2 + 1 + 3 * d.exp) := by
  have hlog : (d.digits : ℚ) < ((2 ^ (d.digits.log2 + 1) : Nat) : ℚ) := by
    exact_mod_cast Nat.lt_log2_self
  have hpow : (10 : ℚ) ^ d.exp ≤ 8 ^ d.exp := by
    rw [← neg_neg d.exp, zpow_neg 10, zpow_neg 8]
    exact inv_anti₀ (by positivity)
      (zpow_le_zpow_left₀ (by omega) (by norm_num) (by norm_num))
  rw [zpow_add₀ two_ne_zero, two_zpow_three_mul, ← Nat.cast_succ, zpow_natCast, value]
  push_cast at hlog
  calc (d.digits : ℚ) * 10 ^ d.exp < 2 ^ (d.digits.log2 + 1) * 10 ^ d.exp := by gcongr
    _ ≤ 2 ^ (d.digits.log2 + 1) * 8 ^ d.exp := by gcongr

end

section

variable (f : Format) (hf : 0 < f.exponentBits)

include hf

/-- The exponents that are decided beforehand are rounded like all others. -/
theorem round_eq (d : Decimal) : d.round f = f.round d.numerator d.denominator := by
  have hvalue := d.value_eq_div
  rw [round]
  split
  · next h => rw [numerator, h, Nat.zero_mul, Format.round, if_pos rfl]
  · next hdigits =>
    have hn := numerator_pos hdigits
    split
    · next h =>
      have hle : f.value f.infinity ≤ d.numerator / d.denominator := by
        rw [← hvalue, f.value_infinity hf]
        exact (zpow_le_zpow_right₀ one_le_two h.2).trans (le_value_of_exp_nonneg hdigits h.1)
      rw [f.round_eq_min hn, Nat.min_eq_left (f.le_nearest_of_value_le hn d.denominator_pos hle)]
    · split
      · next h =>
        -- The decimal is nearer to zero than to the smallest magnitude.
        have hone : f.value 1 = 2 ^ f.minExp := by
          simpa using f.value_rank (k := 0) (m := 1) (Nat.one_le_two_pow) (.inr rfl)
        have hhalf : d.value * 2 < f.value 1 := by
          rw [hone, ← sub_add_cancel f.minExp 1, zpow_add_one₀ two_ne_zero]
          have hlt := value_lt_of_exp_neg (d := d) h.1
          have hle := zpow_le_zpow_right₀ (one_le_two (α := ℚ))
            (show d.digits.log2 + 1 + 3 * d.exp ≤ f.minExp - 1 by omega)
          linarith
        have hnearest : f.nearest d.numerator d.denominator = 0 := by
          refine f.nearest_eq_of_abs_lt hn d.denominator_pos fun s hs => ?_
          have hs' := f.value_strictMono.monotone (show 1 ≤ s by omega)
          have hpos : 0 ≤ d.value := by
            rw [value]
            positivity
          rw [← hvalue, f.value_zero, zero_sub, abs_neg, abs_of_nonneg hpos,
            abs_of_nonneg (by linarith)]
          linarith
        rw [f.round_eq_min hn, hnearest, Nat.min_zero]
      · rfl

theorem round_congr {d d' : Decimal} (h : d.value = d'.value) : d.round f = d'.round f := by
  rw [round_eq f hf, round_eq f hf]
  refine f.round_congr d.denominator_pos d'.denominator_pos ?_
  have hd : (0 : ℚ) < d.denominator := by exact_mod_cast d.denominator_pos
  have hd' : (0 : ℚ) < d'.denominator := by exact_mod_cast d'.denominator_pos
  rw [value_eq_div, value_eq_div, div_eq_div_iff hd.ne' hd'.ne'] at h
  exact_mod_cast h

end

theorem scaled_mul {d : Nat} (hd : 0 < d) (n : Nat) (exp : Int) :
    ((n * 10 ^ (-exp).toNat : Nat) : ℚ) / ((d * 10 ^ exp.toNat : Nat) : ℚ) * 10 ^ exp = n / d := by
  have hd' : (0 : ℚ) < d := by exact_mod_cast hd
  rw [ten_zpow_eq_div]
  push_cast
  field_simp

theorem abs_onGrid_sub_le_abs (n : Nat) {d : Nat} (hd : 0 < d) (exp : Int) (j : Nat) :
    |(onGrid n d exp).value - n / d| ≤ |(Decimal.mk j exp).value - n / d| := by
  have habs := abs_roundDiv_sub_le (n * 10 ^ (-exp).toNat) (d := d * 10 ^ exp.toNat)
    (Nat.mul_pos hd (Nat.pow_pos (by decide)))
  rw [onGrid, value, value, ← scaled_mul hd n exp, ← sub_mul, ← sub_mul, abs_mul, abs_mul]
  exact mul_le_mul_of_nonneg_right (Format.abs_sub_le_of_half habs j) (abs_nonneg _)

theorem abs_onGrid_sub_le (n : Nat) {d : Nat} (hd : 0 < d) (exp : Int) :
    |(onGrid n d exp).value - n / d| ≤ 10 ^ exp / 2 := by
  have hpow : (0 : ℚ) < 10 ^ exp := by positivity
  have habs := abs_roundDiv_sub_le (n * 10 ^ (-exp).toNat) (d := d * 10 ^ exp.toNat)
    (Nat.mul_pos hd (Nat.pow_pos (by decide)))
  rw [onGrid, value, ← scaled_mul hd n exp, ← sub_mul, abs_mul, abs_of_pos hpow]
  calc _ ≤ 1 / 2 * (10 : ℚ) ^ exp := mul_le_mul_of_nonneg_right habs hpow.le
    _ = 10 ^ exp / 2 := by ring

/-!
Digits that are enough to read a magnitude back.
-/

section

variable (f : Format) (hf : 0 < f.exponentBits)

include hf

/--
The decimal of `k + 1` significant digits nearest to a magnitude reads back if the powers of ten are
denser than the magnitudes.
-/
theorem round_onGrid {k rank : Nat} (hk : 2 ^ (f.fractionBits + 1) < 10 ^ k)
    (hrank : rank < f.infinity) :
    (onGrid (f.numerator rank) (f.denominator rank)
      (floorLog10 (f.numerator rank) (f.denominator rank) - k)).round f = rank := by
  have hden := f.denominator_pos rank
  rcases Nat.eq_zero_or_pos rank with rfl | hpos
  · have hzero : f.numerator 0 = 0 := by simp [Format.numerator, Format.significand]
    have hdigits : (onGrid (f.numerator 0) (f.denominator 0)
        (floorLog10 (f.numerator 0) (f.denominator 0) - k)).digits = 0 := by
      rw [onGrid, hzero, Nat.zero_mul, roundDiv_zero (Nat.mul_pos hden (Nat.pow_pos (by decide)))]
    rw [round, if_pos hdigits]
  · generalize he : floorLog10 (f.numerator rank) (f.denominator rank) = e
    generalize hd : onGrid (f.numerator rank) (f.denominator rank) (e - k) = d
    have hvalue : 0 < f.value rank := by
      rw [← f.value_zero]
      exact f.value_strictMono hpos
    have hnum : 0 < f.numerator rank := by
      rw [f.value_eq_div] at hvalue
      by_contra h
      rw [Nat.eq_zero_of_not_pos h, Nat.cast_zero, zero_div] at hvalue
      exact lt_irrefl 0 hvalue
    -- The distance is half a unit of the last digit, the magnitude at least one of the first digit.
    have hle : (10 : ℚ) ^ e ≤ f.value rank := by
      rw [f.value_eq_div, ← he]
      exact ten_zpow_floorLog10_le hnum hden
    have hdist : |f.value rank - d.value| ≤ 10 ^ (e - k) / 2 := by
      rw [abs_sub_comm, f.value_eq_div, ← hd]
      exact abs_onGrid_sub_le _ hden _
    have hclose : |f.value rank - d.value| * 2 ^ (f.fractionBits + 2) < f.value rank := by
      have hk' : (2 : ℚ) ^ (f.fractionBits + 1) < 10 ^ k := by exact_mod_cast hk
      have hunit : (10 : ℚ) ^ (e - k) * 10 ^ k = 10 ^ e := by
        have hpow := ten_pow_mul_zpow k (e - k)
        rwa [sub_add_cancel, Nat.cast_pow, Nat.cast_ofNat, mul_comm] at hpow
      have hunitPos : (0 : ℚ) < 10 ^ (e - k) := by positivity
      calc _ ≤ (10 : ℚ) ^ (e - k) / 2 * 2 ^ (f.fractionBits + 2) :=
            mul_le_mul_of_nonneg_right hdist (by positivity)
        _ = 10 ^ (e - k) * 2 ^ (f.fractionBits + 1) := by ring
        _ < 10 ^ (e - k) * 10 ^ k := mul_lt_mul_of_pos_left hk' hunitPos
        _ = 10 ^ e := hunit
        _ ≤ f.value rank := hle
    have hdigits : d.digits ≠ 0 := by
      intro h
      have hone : (1 : ℚ) ≤ 2 ^ (f.fractionBits + 2) := one_le_pow₀ one_le_two
      rw [value, h, Nat.cast_zero, zero_mul, sub_zero, abs_of_pos hvalue] at hclose
      exact absurd hclose (not_lt.mpr (le_mul_of_one_le_right hvalue.le hone))
    have hn := numerator_pos hdigits
    rw [value_eq_div] at hclose
    rw [round_eq f hf, f.round_eq_min hn, f.nearest_eq_of_close hn d.denominator_pos hclose,
      Nat.min_eq_right hrank.le]

omit hf in
theorem round_of_readsBack? {rank : Nat} {exp : Int} {d : Decimal}
    (h : readsBack? f rank exp = some d) : d.round f = rank := by
  revert h
  fun_cases readsBack? f rank exp with
  | case1 n m near hnear =>
    intro h
    rw [Option.some.injEq] at h
    rw [← h]
    exact hnear
  | case2 n m below near other _ hother =>
    intro h
    rw [Option.some.injEq] at h
    rw [← h]
    exact hother
  | case3 =>
    intro h
    cases h

/-- The shortest decimal of a magnitude reads back. -/
theorem round_shortest (hk : 2 ^ (f.fractionBits + 1) < 10 ^ (enoughDigits f - 1)) {rank : Nat}
    (hrank : rank < f.infinity) : (shortest f rank).round f = rank := by
  rw [shortest, round_congr f hf (value_normalize _)]
  -- The search ends with the last number of digits at the latest.
  have hlast : enoughDigits f - 1 ∈ List.range (enoughDigits f) := by
    rw [List.mem_range, enoughDigits]
    omega
  cases hfound : (List.range (enoughDigits f)).findSome? fun (count : Nat) =>
      readsBack? f rank (floorLog10 (f.numerator rank) (f.denominator rank) - count) with
  | some d =>
    obtain ⟨count, -, hcount⟩ := List.exists_of_findSome?_eq_some hfound
    exact round_of_readsBack? f hcount
  | none =>
    have hnone := List.findSome?_eq_none_iff.mp hfound _ hlast
    rw [readsBack?, if_pos (round_onGrid f hf hk hrank)] at hnone
    cases hnone

end

end Decimal

end ShaderParams
