import Mathlib.Algebra.Order.Field.Power
import Mathlib.Data.Rat.Cast.Order
import Mathlib.Order.Monotone.Basic
import Mathlib.Tactic.FieldSimp
import Mathlib.Tactic.Linarith
import Mathlib.Tactic.Positivity
import Mathlib.Tactic.Ring
import ShaderParams.Number.Binary

/-!
This module contains the theory of rounding to a binary format: the magnitude that a rank stands
for, and that rounding goes to the rank of the nearest magnitude.
-/

namespace ShaderParams

-- Powers of natural numbers are the built-in ones, whatever other instances are in scope.
attribute [local instance (2000)] instPowNat

theorem zpow_eq_div {b : Nat} (hb : 0 < b) (e : Int) :
    (b : ℚ) ^ e = ((b ^ e.toNat : Nat) : ℚ) / ((b ^ (-e).toNat : Nat) : ℚ) := by
  have hb' : (b : ℚ) ≠ 0 := by positivity
  rw [Nat.cast_pow, Nat.cast_pow, eq_div_iff (by positivity), ← zpow_natCast, ← zpow_natCast,
    ← zpow_add₀ hb']
  congr 1
  omega

theorem abs_roundDiv_sub_le (n : Nat) {d : Nat} (h : 0 < d) :
    |(roundDiv n d : ℚ) - n / d| ≤ 1 / 2 := by
  have hd : (0 : ℚ) < d := by exact_mod_cast h
  have hle : (2 : ℚ) * (d * roundDiv n d) ≤ 2 * n + d := by exact_mod_cast roundDiv_mul_le n d
  have hge : (2 : ℚ) * n ≤ 2 * (d * roundDiv n d) + d := by exact_mod_cast le_roundDiv_mul n h
  have hn : (n : ℚ) = d * (n / d) := by field_simp
  generalize (n : ℚ) / d = x at hn ⊢
  rw [hn] at hle hge
  rw [abs_le]
  constructor
  · nlinarith
  · nlinarith

theorem roundDiv_mul_right (n d : Nat) {a : Nat} (h : 0 < a) :
    roundDiv (n * a) (d * a) = roundDiv n d := by
  have hlt (x y : Nat) : x * a < y * a ↔ x < y := Nat.mul_lt_mul_right h
  rw [roundDiv, roundDiv, Nat.mul_div_mul_right n d h, Nat.mul_mod_mul_right]
  simp only [← Nat.mul_assoc, hlt]

theorem roundDiv_congr {n d n' d' : Nat} (hd : 0 < d) (hd' : 0 < d') (h : n * d' = n' * d) :
    roundDiv n d = roundDiv n' d' := by
  rw [← roundDiv_mul_right n d hd', h, Nat.mul_comm d d', roundDiv_mul_right n' d' hd]

theorem floorLog2_lt_iff (n d : Nat) (hd : 0 < d) (e : Int) :
    n * 2 ^ (-e).toNat < d * 2 ^ e.toNat ↔ (n : ℚ) / d < 2 ^ e := by
  have hpow := zpow_eq_div (b := 2) (by decide) e
  rw [Nat.cast_ofNat] at hpow
  rw [hpow, div_lt_div_iff₀ (by positivity) (by positivity), mul_comm _ (d : ℚ)]
  norm_cast

theorem floorLog2_spec {n d : Nat} (hn : 0 < n) (hd : 0 < d) :
    (2 : ℚ) ^ floorLog2 n d ≤ n / d ∧ (n : ℚ) / d < 2 ^ (floorLog2 n d + 1) := by
  have hd' : (0 : ℚ) < d := by exact_mod_cast hd
  have hnl : ((2 ^ n.log2 : Nat) : ℚ) ≤ n := by exact_mod_cast Nat.log2_self_le hn.ne'
  have hnu : (n : ℚ) < ((2 ^ (n.log2 + 1) : Nat) : ℚ) := by exact_mod_cast Nat.lt_log2_self
  have hdl : ((2 ^ d.log2 : Nat) : ℚ) ≤ d := by exact_mod_cast Nat.log2_self_le hd.ne'
  have hdu : (d : ℚ) < ((2 ^ (d.log2 + 1) : Nat) : ℚ) := by exact_mod_cast Nat.lt_log2_self
  push_cast at hnl hnu hdl hdu
  -- The difference of the logarithms is too large by one at most.
  have hlow : (2 : ℚ) ^ ((n.log2 : Int) - d.log2 - 1) ≤ n / d := by
    rw [le_div_iff₀ hd']
    calc (2 : ℚ) ^ ((n.log2 : Int) - d.log2 - 1) * d
        ≤ 2 ^ ((n.log2 : Int) - d.log2 - 1) * 2 ^ (d.log2 + 1) := by gcongr
      _ = 2 ^ n.log2 := by
        rw [← zpow_natCast, ← zpow_natCast, ← zpow_add₀ two_ne_zero]
        congr 1
        omega
      _ ≤ n := hnl
  have hhigh : (n : ℚ) / d < 2 ^ ((n.log2 : Int) - d.log2 + 1) := by
    rw [div_lt_iff₀ hd']
    calc (n : ℚ) < 2 ^ (n.log2 + 1) := hnu
      _ = 2 ^ ((n.log2 : Int) - d.log2 + 1) * 2 ^ d.log2 := by
        rw [← zpow_natCast, ← zpow_natCast, ← zpow_add₀ two_ne_zero]
        congr 1
        omega
      _ ≤ 2 ^ ((n.log2 : Int) - d.log2 + 1) * d := by gcongr
  rw [floorLog2]
  split
  · next h =>
    rw [floorLog2_lt_iff n d hd] at h
    exact ⟨hlow, by simpa using h⟩
  · next h =>
    rw [floorLog2_lt_iff n d hd, not_lt] at h
    exact ⟨h, hhigh⟩

theorem floorLog2_congr {n d n' d' : Nat} (hn : 0 < n) (hd : 0 < d) (hn' : 0 < n') (hd' : 0 < d')
    (h : n * d' = n' * d) : floorLog2 n d = floorLog2 n' d' := by
  have hx : (n : ℚ) / d = n' / d' := by
    rw [div_eq_div_iff (by positivity) (by positivity)]
    exact_mod_cast h
  obtain ⟨hle, hlt⟩ := floorLog2_spec hn hd
  obtain ⟨hle', hlt'⟩ := floorLog2_spec hn' hd'
  rw [hx] at hle hlt
  have h1 := (zpow_lt_zpow_iff_right₀ one_lt_two).mp (hle.trans_lt hlt')
  have h2 := (zpow_lt_zpow_iff_right₀ one_lt_two).mp (hle'.trans_lt hlt)
  omega

namespace Format

variable (f : Format)

/--
The magnitude that a rank stands for. From the rank of infinity on, these are the magnitudes that a
larger exponent field would give.
-/
def value (rank : Nat) : ℚ :=
  f.significand rank * 2 ^ f.exponent rank

theorem value_eq_div (rank : Nat) : f.value rank = f.numerator rank / f.denominator rank := by
  have hpow := zpow_eq_div (b := 2) (by decide) (f.exponent rank)
  rw [Nat.cast_ofNat] at hpow
  rw [value, hpow, numerator, denominator, Nat.cast_mul, mul_div_assoc]

/--
The rank of a multiple of a last place. The multiple may be the first one that belongs to the next
exponent, because ranks run on from one exponent to the next.
-/
theorem value_rank {k m : Nat} (hm : m ≤ 2 ^ (f.fractionBits + 1))
    (hk : 2 ^ f.fractionBits ≤ m ∨ k = 0) :
    f.value (k * 2 ^ f.fractionBits + m) = m * 2 ^ (f.minExp + k) := by
  have hpos := Nat.two_pow_pos f.fractionBits
  rw [Nat.pow_succ] at hm
  rw [value, significand, exponent]
  generalize hp : 2 ^ f.fractionBits = p at *
  rcases Nat.lt_or_ge m p with hlt | hge
  · obtain rfl : k = 0 := by omega
    simp [hlt, Nat.div_eq_of_lt hlt]
  · rcases Nat.lt_or_ge m (2 * p) with hlt2 | hge2
    · have hrank : k * p + m = (m - p) + (k + 1) * p := by
        rw [Nat.succ_mul]
        omega
      have hsmall : ¬ k * p + m < p := by omega
      rw [if_neg hsmall, hrank, Nat.add_mul_mod_self_right, Nat.add_mul_div_right _ _ hpos,
        Nat.mod_eq_of_lt (by omega), Nat.div_eq_of_lt (by omega)]
      simp [Nat.add_sub_cancel' hge]
    · obtain rfl : m = p * 2 := by omega
      have hrank : k * p + p * 2 = 0 + (k + 2) * p := by
        rw [Nat.add_mul]
        omega
      have hsmall : ¬ k * p + p * 2 < p := by omega
      rw [if_neg hsmall, hrank, Nat.add_mul_mod_self_right, Nat.add_mul_div_right _ _ hpos,
        Nat.zero_mod, Nat.zero_div]
      have hexp : f.minExp + ((0 + (k + 2) - 1 : Nat) : Int) = f.minExp + k + 1 := by omega
      rw [hexp, zpow_add_one₀ two_ne_zero, Nat.add_zero, Nat.cast_mul, Nat.cast_ofNat]
      ring

theorem rank_eq (rank : Nat) :
    rank = (rank / 2 ^ f.fractionBits - 1) * 2 ^ f.fractionBits + f.significand rank ∧
      f.significand rank < 2 ^ (f.fractionBits + 1) ∧
      (2 ^ f.fractionBits ≤ f.significand rank ∨ rank / 2 ^ f.fractionBits - 1 = 0) := by
  have hpos := Nat.two_pow_pos f.fractionBits
  have hdiv := Nat.div_add_mod rank (2 ^ f.fractionBits)
  have hmod := Nat.mod_lt rank hpos
  rw [significand, Nat.pow_succ]
  generalize 2 ^ f.fractionBits = p at *
  split
  · next h =>
    rw [Nat.div_eq_of_lt h]
    omega
  · next h =>
    have hq : 1 ≤ rank / p := (Nat.one_le_div_iff hpos).mpr (by omega)
    rw [Nat.sub_mul, Nat.mul_comm]
    have hle : 1 * p ≤ p * (rank / p) := by
      rw [Nat.mul_comm p]
      gcongr
    omega

theorem value_succ (rank : Nat) : f.value (rank + 1) = f.value rank + 2 ^ f.exponent rank := by
  obtain ⟨hrank, hlt, hk⟩ := f.rank_eq rank
  have hnext := f.value_rank (k := rank / 2 ^ f.fractionBits - 1) (m := f.significand rank + 1)
    hlt (by omega)
  rw [← Nat.add_assoc, ← hrank] at hnext
  rw [hnext, value, exponent]
  push_cast
  ring

theorem value_strictMono : StrictMono f.value := by
  refine strictMono_nat_of_lt_succ fun rank => ?_
  rw [value_succ]
  have hpos : (0 : ℚ) < 2 ^ f.exponent rank := by positivity
  linarith

@[simp]
theorem value_zero : f.value 0 = 0 := by
  simp [value, significand]

theorem value_succ_le (rank : Nat) :
    f.value (rank + 1) ≤ 2 ^ (f.fractionBits + 1) * 2 ^ f.exponent rank := by
  have hle : (f.significand rank : ℚ) + 1 ≤ ((2 ^ (f.fractionBits + 1) : Nat) : ℚ) := by
    exact_mod_cast (f.rank_eq rank).2.1
  rw [value_succ, value, ← add_one_mul]
  push_cast at hle
  gcongr

theorem value_lt_of_exponent (rank : Nat) :
    f.value rank < 2 ^ (f.fractionBits + 1) * 2 ^ f.exponent rank :=
  (f.value_strictMono (Nat.lt_succ_self rank)).trans_le (f.value_succ_le rank)

/-!
Rounding, before it is cut off at infinity.
-/

def nearest (n d : Nat) : Nat :=
  (f.lastPlace n d - f.minExp).toNat * 2 ^ f.fractionBits
    + roundDiv (n * 2 ^ (-f.lastPlace n d).toNat) (d * 2 ^ (f.lastPlace n d).toNat)

def units (n d : Nat) : Nat :=
  roundDiv (n * 2 ^ (-f.lastPlace n d).toNat) (d * 2 ^ (f.lastPlace n d).toNat)

theorem round_eq_min {n : Nat} (hn : 0 < n) (d : Nat) :
    f.round n d = min f.infinity (f.nearest n d) := by
  rw [round, if_neg hn.ne']
  rfl

section

variable {n d : Nat} (hn : 0 < n) (hd : 0 < d)

include hd in
theorem scaled_eq (n : Nat) (e : Int) :
    ((n * 2 ^ (-e).toNat : Nat) : ℚ) / ((d * 2 ^ e.toNat : Nat) : ℚ) = n / d / 2 ^ e := by
  have hpow := zpow_eq_div (b := 2) (by decide) e
  rw [Nat.cast_ofNat] at hpow
  have hd' : (0 : ℚ) < d := by exact_mod_cast hd
  rw [hpow]
  push_cast
  field_simp

theorem minExp_le_lastPlace (n d : Nat) : f.minExp ≤ f.lastPlace n d :=
  le_max_left ..

include hn hd in
theorem div_lt_of_lastPlace :
    (n : ℚ) / d / 2 ^ f.lastPlace n d < 2 ^ (f.fractionBits + 1) := by
  rw [div_lt_iff₀ (by positivity), ← zpow_natCast, ← zpow_add₀ two_ne_zero]
  calc (n : ℚ) / d < 2 ^ (floorLog2 n d + 1) := (floorLog2_spec hn hd).2
    _ ≤ 2 ^ (((f.fractionBits + 1 : Nat) : Int) + f.lastPlace n d) := by
      apply zpow_le_zpow_right₀ one_le_two
      rw [lastPlace]
      omega

include hn hd in
theorem le_div_of_lastPlace (h : f.minExp < f.lastPlace n d) :
    2 ^ f.fractionBits ≤ (n : ℚ) / d / 2 ^ f.lastPlace n d := by
  rw [le_div_iff₀ (by positivity), ← zpow_natCast, ← zpow_add₀ two_ne_zero]
  calc (2 : ℚ) ^ ((f.fractionBits : Int) + f.lastPlace n d) = 2 ^ floorLog2 n d := by
        rw [lastPlace] at h ⊢
        congr 1
        omega
    _ ≤ n / d := (floorLog2_spec hn hd).1

include hd in
theorem abs_units_sub_le (n : Nat) :
    |(f.units n d : ℚ) - n / d / 2 ^ f.lastPlace n d| ≤ 1 / 2 := by
  have habs := abs_roundDiv_sub_le (n * 2 ^ (-f.lastPlace n d).toNat)
    (d := d * 2 ^ (f.lastPlace n d).toNat) (Nat.mul_pos hd (Nat.two_pow_pos _))
  rwa [scaled_eq hd n] at habs

include hn hd in
theorem value_nearest : f.value (f.nearest n d) = f.units n d * 2 ^ f.lastPlace n d := by
  have hle := f.minExp_le_lastPlace n d
  have habs := f.abs_units_sub_le hd n
  have hlt := f.div_lt_of_lastPlace hn hd
  have hge := f.le_div_of_lastPlace hn hd
  rw [nearest, ← units]
  generalize f.units n d = q at habs ⊢
  generalize (n : ℚ) / d / 2 ^ f.lastPlace n d = x at *
  obtain ⟨hlow, hhigh⟩ := abs_le.mp habs
  rw [f.value_rank]
  · congr 2
    omega
  · have hq : (q : ℚ) < ((2 ^ (f.fractionBits + 1) + 1 : Nat) : ℚ) := by
      push_cast
      linarith
    have := Nat.cast_lt.mp hq
    omega
  · by_cases h : f.minExp < f.lastPlace n d
    · left
      have hq : ((2 ^ f.fractionBits : Nat) : ℚ) < ((q + 1 : Nat) : ℚ) := by
        have := hge h
        push_cast
        linarith
      have := Nat.cast_lt.mp hq
      omega
    · right
      omega

end

theorem abs_sub_le_of_half {x : ℚ} {q : Nat} (h : |(q : ℚ) - x| ≤ 1 / 2) (j : Nat) :
    |(q : ℚ) - x| ≤ |(j : ℚ) - x| := by
  rcases eq_or_ne j q with rfl | hne
  · exact le_rfl
  · have hstep : (1 : ℚ) ≤ |(j : ℚ) - q| := by
      exact_mod_cast Int.one_le_abs (show (j : Int) - q ≠ 0 by omega)
    have htriangle := abs_sub_le (j : ℚ) x q
    rw [abs_sub_comm x] at htriangle
    linarith

theorem exists_multiple {rank : Nat} {e : Int} (h : e ≤ f.exponent rank) :
    ∃ j : Nat, f.value rank = j * 2 ^ e := by
  refine ⟨f.significand rank * 2 ^ (f.exponent rank - e).toNat, ?_⟩
  rw [value, Nat.cast_mul, Nat.cast_pow, Nat.cast_ofNat, mul_assoc, ← zpow_natCast,
    ← zpow_add₀ two_ne_zero]
  congr 2
  omega

section

variable {n d : Nat} (hn : 0 < n) (hd : 0 < d)

theorem abs_multiple_sub (x e : ℚ) (he : 0 < e) (j : Nat) : |j * e - x| = |j - x / e| * e := by
  rw [← abs_of_pos he, ← abs_mul, abs_of_pos he, sub_mul, div_mul_cancel₀ x he.ne']

include hn hd

theorem abs_nearest_le_multiple (j : Nat) :
    |f.value (f.nearest n d) - n / d| ≤ |j * 2 ^ f.lastPlace n d - (n : ℚ) / d| := by
  have hpos : (0 : ℚ) < 2 ^ f.lastPlace n d := by positivity
  rw [f.value_nearest hn hd, abs_multiple_sub _ _ hpos, abs_multiple_sub _ _ hpos]
  exact mul_le_mul_of_nonneg_right (abs_sub_le_of_half (f.abs_units_sub_le hd n) j) hpos.le

/--
Magnitudes that are no multiples of the last place are farther away: they lie below the first
multiple that has the full number of bits.
-/
theorem abs_nearest_lt_of_exponent {rank : Nat} (h : f.exponent rank < f.lastPlace n d) :
    |f.value (f.nearest n d) - n / d| < |f.value rank - n / d| := by
  have hpos : (0 : ℚ) < 2 ^ f.lastPlace n d := by positivity
  have hmin : f.minExp < f.lastPlace n d := by
    rw [exponent] at h
    omega
  have hfirst : 2 ^ f.fractionBits * 2 ^ f.lastPlace n d ≤ (n : ℚ) / d := by
    rw [← le_div_iff₀ hpos]
    exact f.le_div_of_lastPlace hn hd hmin
  have hbelow : f.value rank < 2 ^ f.fractionBits * 2 ^ f.lastPlace n d := by
    calc f.value rank
      _ < 2 ^ (f.fractionBits + 1) * 2 ^ f.exponent rank := f.value_lt_of_exponent rank
      _ = 2 ^ f.fractionBits * 2 ^ (f.exponent rank + 1) := by
        rw [zpow_add_one₀ two_ne_zero, pow_succ]
        ring
      _ ≤ 2 ^ f.fractionBits * 2 ^ f.lastPlace n d := by
        gcongr
        · exact one_le_two
        · omega
  have hpoint := f.abs_nearest_le_multiple hn hd (2 ^ f.fractionBits)
  push_cast at hpoint
  rw [abs_of_nonpos (a := 2 ^ f.fractionBits * 2 ^ f.lastPlace n d - (n : ℚ) / d)
    (by linarith)] at hpoint
  rw [abs_of_nonpos (a := f.value rank - (n : ℚ) / d) (by linarith)]
  linarith

theorem abs_nearest_le (rank : Nat) :
    |f.value (f.nearest n d) - n / d| ≤ |f.value rank - n / d| := by
  rcases le_or_gt (f.lastPlace n d) (f.exponent rank) with he | he
  · obtain ⟨j, hj⟩ := f.exists_multiple he
    rw [hj]
    exact f.abs_nearest_le_multiple hn hd j
  · exact (f.abs_nearest_lt_of_exponent hn hd he).le

end

section

variable {n d : Nat} (hn : 0 < n) (hd : 0 < d)

include hn hd

theorem nearest_eq_of_abs_lt {rank : Nat}
    (h : ∀ s, s ≠ rank → |f.value rank - n / d| < |f.value s - n / d|) :
    f.nearest n d = rank := by
  by_contra hne
  have hlt := h _ hne
  have hle := f.abs_nearest_le hn hd rank
  linarith

theorem nearest_eq_of_value {rank : Nat} (h : f.value rank = n / d) : f.nearest n d = rank := by
  refine f.nearest_eq_of_abs_lt hn hd fun s hs => ?_
  have hne : f.value s - n / d ≠ 0 := by
    rw [← h, sub_ne_zero]
    exact f.value_strictMono.injective.ne hs
  rw [h, sub_self, abs_zero]
  exact abs_pos.mpr hne

theorem le_nearest_of_value_le {rank : Nat} (h : f.value rank ≤ n / d) : rank ≤ f.nearest n d := by
  by_contra hlt
  have hvalue := f.value_strictMono (not_le.mp hlt)
  have hle := f.abs_nearest_le hn hd rank
  rw [abs_of_nonpos (by linarith), abs_of_nonpos (by linarith)] at hle
  linarith

/--
The spacing of the magnitudes is at least the part `2 ^ -(f.fractionBits + 1)` of them on both
sides, so what is nearer than half of that is rounded back.
-/
theorem nearest_eq_of_close {rank : Nat}
    (h : |f.value rank - n / d| * 2 ^ (f.fractionBits + 2) < f.value rank) :
    f.nearest n d = rank := by
  have hpow : (2 : ℚ) ^ (f.fractionBits + 2) = 2 * 2 ^ (f.fractionBits + 1) := by ring
  have hpos : (0 : ℚ) < 2 ^ (f.fractionBits + 1) := by positivity
  rw [hpow] at h
  -- A magnitude that is two distances away from this one is farther from the fraction.
  have hfar (y : ℚ) (hy : f.value rank ≤ 2 ^ (f.fractionBits + 1) * |y - f.value rank|) :
      |f.value rank - n / d| < |y - n / d| := by
    have htriangle := abs_sub_le y (n / d : ℚ) (f.value rank)
    rw [abs_sub_comm (n / d : ℚ)] at htriangle
    have hlt : 2 * |f.value rank - n / d| < |y - f.value rank| := by
      rw [← mul_lt_mul_iff_right₀ hpos]
      linarith
    linarith
  refine f.nearest_eq_of_abs_lt hn hd fun s hs => hfar _ ?_
  rcases Nat.lt_or_gt_of_ne hs with hlt | hgt
  · obtain ⟨t, rfl⟩ : ∃ t, rank = t + 1 := ⟨rank - 1, by omega⟩
    have hle := f.value_strictMono.monotone (show s ≤ t by omega)
    have hsucc := f.value_succ t
    have hspacing := f.value_succ_le t
    rw [abs_of_nonpos (by linarith [f.value_strictMono hlt])]
    have hgap : (2 : ℚ) ^ f.exponent t ≤ -(f.value s - f.value (t + 1)) := by linarith
    exact hspacing.trans (mul_le_mul_of_nonneg_left hgap hpos.le)
  · have hle := f.value_strictMono.monotone (show rank + 1 ≤ s by omega)
    have hsucc := f.value_succ rank
    have hspacing := f.value_lt_of_exponent rank
    rw [abs_of_nonneg (by linarith [f.value_strictMono hgt])]
    have hgap : (2 : ℚ) ^ f.exponent rank ≤ f.value s - f.value rank := by linarith
    exact hspacing.le.trans (mul_le_mul_of_nonneg_left hgap hpos.le)

end

/-!
Rounding to the magnitudes of the format.
-/

theorem value_infinity (h : 0 < f.exponentBits) :
    f.value f.infinity = 2 ^ ((2 ^ (f.exponentBits - 1) : Nat) : Int) := by
  have hpow : 2 ^ f.exponentBits = 2 ^ (f.exponentBits - 1) * 2 := by
    rw [← Nat.pow_succ]
    congr 1
    omega
  have hpos := Nat.two_pow_pos (f.exponentBits - 1)
  have hrank : f.infinity =
      (2 ^ f.exponentBits - 2) * 2 ^ f.fractionBits + 2 ^ f.fractionBits := by
    rw [infinity, ← Nat.succ_mul]
    congr 1
    omega
  rw [hrank, f.value_rank (by rw [Nat.pow_succ]; omega) (.inl le_rfl), Nat.cast_pow,
    Nat.cast_ofNat, ← zpow_natCast, ← zpow_add₀ two_ne_zero, minExp]
  congr 1
  omega

theorem round_eq_of_value {n d rank : Nat} (hd : 0 < d) (hrank : rank ≤ f.infinity)
    (h : f.value rank = n / d) : f.round n d = rank := by
  rcases Nat.eq_zero_or_pos n with rfl | hn
  · have hzero : f.value rank = f.value 0 := by simpa using h
    rw [f.value_strictMono.injective hzero, round, if_pos rfl]
  · rw [f.round_eq_min hn, f.nearest_eq_of_value hn hd h, Nat.min_eq_right hrank]

theorem round_congr {n d n' d' : Nat} (hd : 0 < d) (hd' : 0 < d') (h : n * d' = n' * d) :
    f.round n d = f.round n' d' := by
  rcases Nat.eq_zero_or_pos n with rfl | hn
  · obtain rfl : n' = 0 := by
      rw [Nat.zero_mul, eq_comm, Nat.mul_eq_zero] at h
      omega
    rfl
  · have hn' : 0 < n' := Nat.pos_of_mul_pos_right (h ▸ Nat.mul_pos hn hd')
    have hlast : f.lastPlace n d = f.lastPlace n' d' := by
      rw [lastPlace, lastPlace, floorLog2_congr hn hd hn' hd' h]
    rw [f.round_eq_min hn, f.round_eq_min hn', nearest, nearest, hlast]
    congr 2
    refine roundDiv_congr (Nat.mul_pos hd (Nat.two_pow_pos _))
      (Nat.mul_pos hd' (Nat.two_pow_pos _)) ?_
    rw [Nat.mul_mul_mul_comm, h, Nat.mul_mul_mul_comm]

theorem exists_rank {m : Nat} {e : Int} (hm : m ≤ 2 ^ (f.fractionBits + 1)) (he : f.minExp ≤ e) :
    ∃ rank, f.value rank = m * 2 ^ e := by
  obtain ⟨k, rfl⟩ : ∃ k : Nat, e = f.minExp + k := ⟨(e - f.minExp).toNat, by omega⟩
  induction k generalizing m with
  | zero => exact ⟨_, f.value_rank hm (.inr rfl)⟩
  | succ k ih =>
    rcases Nat.lt_or_ge m (2 ^ f.fractionBits) with hlt | hge
    · -- One bit more in the significand, one less in the exponent.
      obtain ⟨rank, hrank⟩ := ih (m := m * 2) (by rw [Nat.pow_succ]; omega) (by omega)
      refine ⟨rank, ?_⟩
      rw [hrank, Nat.cast_succ, ← add_assoc, zpow_add_one₀ two_ne_zero]
      push_cast
      ring
    · exact ⟨_, f.value_rank hm (.inl hge)⟩

/-- Whether the magnitudes of a format are magnitudes of another one. -/
structure Embeds (f g : Format) : Prop where
  fractionBits_le : f.fractionBits ≤ g.fractionBits
  minExp_le : g.minExp ≤ f.minExp
  infinity_le : f.value f.infinity ≤ g.value g.infinity

theorem single_embeds_double : Embeds .single .double where
  fractionBits_le := by decide
  minExp_le := by decide
  infinity_le := by
    rw [value_infinity _ (by decide), value_infinity _ (by decide)]
    apply zpow_le_zpow_right₀ one_le_two
    decide

variable {f}

theorem Embeds.exists_round {g : Format} (h : Embeds f g) {rank : Nat} (hrank : rank < f.infinity) :
    ∃ r < g.infinity, g.round (f.numerator rank) (f.denominator rank) = r ∧
      g.value r = f.value rank := by
  have hbits : 2 ^ (f.fractionBits + 1) ≤ 2 ^ (g.fractionBits + 1) :=
    Nat.pow_le_pow_right (by decide) (Nat.succ_le_succ h.fractionBits_le)
  have hexp : g.minExp ≤ f.exponent rank := by
    have := h.minExp_le
    rw [exponent]
    omega
  obtain ⟨r, hr⟩ := g.exists_rank ((f.rank_eq rank).2.1.le.trans hbits) hexp
  have hlt : r < g.infinity := by
    rw [← g.value_strictMono.lt_iff_lt, hr]
    exact (f.value_strictMono hrank).trans_le h.infinity_le
  have hvalue : g.value r = f.numerator rank / f.denominator rank := hr.trans (f.value_eq_div rank)
  exact ⟨r, hlt, g.round_eq_of_value (f.denominator_pos rank) hlt.le hvalue, hr⟩

end Format

/-!
Conversion to a format that has all magnitudes of another one, and back.
-/

namespace Binary

variable {f g : Format}

theorem convert_convert (h : f.Embeds g) (x : Binary f) : (x.convert : Binary g).convert = x := by
  cases x with
  | nan s => rfl
  | number s r =>
    rw [convert]
    split
    · next hr =>
      simp only [infinite, convert, ↓reduceIte, number.injEq, true_and]
      exact Fin.ext hr.symm
    · next hr =>
      obtain ⟨r', hlt, hround, hvalue⟩ := h.exists_round (show r.val < f.infinity by omega)
      simp only [ofFraction, convert, hround, hlt.ne, ↓reduceIte, number.injEq, true_and]
      refine Fin.ext (f.round_eq_of_value (g.denominator_pos r') (by omega) ?_)
      rw [← g.value_eq_div, hvalue]

theorem negative_convert (x : Binary f) : (x.convert : Binary g).negative = x.negative := by
  cases x with
  | nan s => rfl
  | number s r =>
    rw [convert]
    split <;> rfl

theorem isNan_convert (x : Binary f) : (x.convert : Binary g).isNan = x.isNan := by
  cases x with
  | nan s => rfl
  | number s r =>
    rw [convert]
    split <;> rfl

theorem isInfinite_convert {x : Binary f} (h : x.isInfinite) :
    (x.convert : Binary g).isInfinite := by
  cases x with
  | nan s => cases h
  | number s r =>
    rw [isInfinite, beq_iff_eq] at h
    simp [convert, h, infinite, isInfinite]

end Binary

namespace Double

@[simp]
theorem toSingle_convert (s : Single) : toSingle s.convert = s.convert := by
  rw [toSingle, Binary.convert_convert Format.single_embeds_double]

theorem toSingle_toSingle (x : Double) : x.toSingle.toSingle = x.toSingle :=
  toSingle_convert _

theorem negative_toSingle (x : Double) : x.toSingle.negative = x.negative := by
  rw [toSingle, Binary.negative_convert, Binary.negative_convert]

theorem isNan_toSingle (x : Double) : x.toSingle.isNan = x.isNan := by
  rw [toSingle, Binary.isNan_convert, Binary.isNan_convert]

theorem isInfinite_toSingle (x : Double) :
    x.toSingle.isInfinite = (x.convert : Single).isInfinite := by
  have hback := Binary.convert_convert Format.single_embeds_double (x.convert : Single)
  rw [toSingle, Bool.eq_iff_iff]
  constructor
  · intro h
    rw [← hback]
    apply Binary.isInfinite_convert h
  · apply Binary.isInfinite_convert

end Double

end ShaderParams
