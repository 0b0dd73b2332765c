import Mathlib.Tactic.LinearCombination
import ShaderParams.Proofs.Decimal
import ShaderParams.Proofs.Nearest

/-!
This module contains which decimals of at most eight digits are rounded to the middle between two
single precision numbers by a double. Such a decimal is a multiple of a power of ten close to a
multiple of a power of two, and the close ones are found next to neighbouring fractions that enclose
the quotient of both powers.
-/

namespace ShaderParams

-- Powers of natural numbers are the built-in ones, whatever other instances are in scope.
attribute [local instance (2000)] instPowNat

/-!
Neighbouring fractions.
-/

structure Approximant where
  num : Nat
  den : Nat

/--
Two fractions that enclose `a / b`, and between which there are only fractions of a denominator from
`bound` on.
-/
structure Neighbours (a b bound : Nat) (low high : Approximant) : Prop where
  below : low.num * b ≤ low.den * a
  above : high.den * a ≤ high.num * b
  adjacent : low.den * high.num = high.den * low.num + 1
  bound_le : bound ≤ low.den + high.den

instance (a b bound : Nat) (low high : Approximant) : Decidable (Neighbours a b bound low high) :=
  decidable_of_iff
    (low.num * b ≤ low.den * a ∧ high.den * a ≤ high.num * b ∧
      low.den * high.num = high.den * low.num + 1 ∧ bound ≤ low.den + high.den)
    ⟨fun ⟨h1, h2, h3, h4⟩ => ⟨h1, h2, h3, h4⟩, fun ⟨h1, h2, h3, h4⟩ => ⟨h1, h2, h3, h4⟩⟩

section

variable {a b bound : Nat} {low high : Approximant}

theorem Neighbours.lt_errors (h : Neighbours a b bound low high) {c : Nat} (hb : 0 < b)
    (hlow : low.den < c) (hhigh : high.den < c) :
    (b : Int) < (low.den * a - low.num * b + (high.num * b - high.den * a)) * c := by
  obtain ⟨hbelow, habove, hadjacent, -⟩ := h
  zify at hbelow habove hadjacent hb hlow hhigh
  have hsum : (low.den : Int) * (high.num * b - high.den * a) +
      high.den * (low.den * a - low.num * b) = b := by
    linear_combination (b : Int) * hadjacent
  have hel0 : (0 : Int) ≤ low.den * a - low.num * b := sub_nonneg.mpr hbelow
  have heh0 : (0 : Int) ≤ high.num * b - high.den * a := sub_nonneg.mpr habove
  generalize (low.den : Int) * a - low.num * b = el at hsum hel0 ⊢
  generalize (high.num : Int) * b - high.den * a = eh at hsum heh0 ⊢
  have hle : low.den * eh ≤ (c - 1) * eh := mul_le_mul_of_nonneg_right (by omega) heh0
  have hle' : high.den * el ≤ (c - 1) * el := mul_le_mul_of_nonneg_right (by omega) hel0
  have hpos : 0 < el + eh := by
    by_contra hzero
    obtain ⟨rfl, rfl⟩ : el = 0 ∧ eh = 0 := by omega
    omega
  linarith

/--
A fraction of a denominator below the bound that comes close to `a / b` is one of the neighbours,
maybe not in lowest terms: all others differ from `a / b` by the errors of both neighbours.
-/
theorem Neighbours.eq_mul_or {c d j : Nat} (h : Neighbours a b bound low high) (hb : 0 < b)
    (hlow : low.den < c) (hhigh : high.den < c) (hpos : 0 < d) (hd : d < bound)
    (hclose : |(d * a : Int) - j * b| * c ≤ b) :
    (∃ x, d = x * low.den ∧ j = x * low.num) ∨ ∃ x, d = x * high.den ∧ j = x * high.num := by
  have hfar := h.lt_errors hb hlow hhigh
  obtain ⟨hbelow, habove, hadjacent, hbound⟩ := h
  zify at hbelow habove hadjacent hbound hpos hd
  -- The errors of the neighbours, and the fraction as a combination of them.
  obtain ⟨el, hel⟩ : ∃ el : Int, el = low.den * a - low.num * b := ⟨_, rfl⟩
  obtain ⟨eh, heh⟩ : ∃ eh : Int, eh = high.num * b - high.den * a := ⟨_, rfl⟩
  obtain ⟨x, hx⟩ : ∃ x : Int, x = d * high.num - j * high.den := ⟨_, rfl⟩
  obtain ⟨y, hy⟩ : ∃ y : Int, y = j * low.den - d * low.num := ⟨_, rfl⟩
  rw [← hel, ← heh] at hfar
  have hden : (d : Int) = x * low.den + y * high.den := by
    rw [hx, hy]
    linear_combination -(d : Int) * hadjacent
  have hnum : (j : Int) = x * low.num + y * high.num := by
    rw [hx, hy]
    linear_combination -(j : Int) * hadjacent
  have herror : (d * a : Int) - j * b = x * el - y * eh := by
    rw [hden, hnum, hel, heh]
    ring
  have hel0 : 0 ≤ el := by linarith
  have heh0 : 0 ≤ eh := by linarith
  -- A proper combination has both errors.
  have hnot : ¬el + eh ≤ |(d * a : Int) - j * b| := fun hle =>
    absurd hclose (not_le.mpr (hfar.trans_le (mul_le_mul_of_nonneg_right hle (by omega))))
  rw [herror] at hnot
  rcases lt_trichotomy y 0 with hy0 | rfl | hy0
  · rcases lt_or_ge 0 x with hx0 | hx0
    · refine absurd (le_trans ?_ (le_abs_self _)) hnot
      have hlow' : 1 * el ≤ x * el := mul_le_mul_of_nonneg_right (by omega) hel0
      have hhigh' : y * eh ≤ -1 * eh := mul_le_mul_of_nonneg_right (by omega) heh0
      linarith
    · have hlow' : x * low.den ≤ 0 := mul_nonpos_of_nonpos_of_nonneg hx0 (by omega)
      have hhigh' : y * high.den ≤ 0 := mul_nonpos_of_nonpos_of_nonneg hy0.le (by omega)
      omega
  · rw [zero_mul, add_zero] at hden hnum
    have hx0 : 0 ≤ x := by
      by_contra hx0
      have hlow' : x * low.den ≤ 0 := mul_nonpos_of_nonpos_of_nonneg (by omega) (by omega)
      omega
    obtain ⟨n, rfl⟩ := Int.eq_ofNat_of_zero_le hx0
    exact .inl ⟨n, by exact_mod_cast hden, by exact_mod_cast hnum⟩
  · rcases lt_trichotomy x 0 with hx0 | rfl | hx0
    · refine absurd (le_trans ?_ (neg_le_abs _)) hnot
      have hlow' : x * el ≤ -1 * el := mul_le_mul_of_nonneg_right (by omega) hel0
      have hhigh' : 1 * eh ≤ y * eh := mul_le_mul_of_nonneg_right (by omega) heh0
      linarith
    · rw [zero_mul, zero_add] at hden hnum
      obtain ⟨n, rfl⟩ := Int.eq_ofNat_of_zero_le hy0.le
      exact .inr ⟨n, by exact_mod_cast hden, by exact_mod_cast hnum⟩
    · have hlow' : 1 * low.den ≤ x * low.den := mul_le_mul_of_nonneg_right (by omega) (by omega)
      have hhigh' : 1 * high.den ≤ y * high.den := mul_le_mul_of_nonneg_right (by omega) (by omega)
      omega

end

namespace Approximant

def error (p : Approximant) (a b : Nat) : Nat :=
  max (p.den * a - p.num * b) (p.num * b - p.den * a)

/--
Moves a fraction towards one on the other side of `a / b`, as far as it stays on its side and its
denominator in the bound.
-/
def toward (a b bound : Nat) (p q : Approximant) : Approximant :=
  let room := (bound - p.den) / q.den
  let steps := if q.error a b = 0 then room else min (p.error a b / q.error a b) room
  ⟨p.num + steps * q.num, p.den + steps * q.den⟩

def enclose (a b bound : Nat) : Nat → Approximant × Approximant
  | 0 => (⟨a / b, 1⟩, ⟨a / b + 1, 1⟩)
  | fuel + 1 =>
    let (low, high) := enclose a b bound fuel
    let low := low.toward a b bound high
    (low, high.toward a b bound low)

end Approximant

/-!
Midpoints near decimals of eight digits.
-/

/--
The ranks of the magnitudes in front of midpoints that a double takes for a different decimal of at
most eight digits.
-/
def nearMidpoints : List Nat :=
  [172060839, 255698343, 310544848, 355353597, 363742205, 372130813, 380519421, 388908029,
    1690544524, 1698933132, 2029970607, 2038359215]

def scaleNum (t e : Int) : Nat := 10 ^ e.toNat * 2 ^ (-t).toNat

def scaleDen (t e : Int) : Nat := 10 ^ (-e).toNat * 2 ^ t.toNat

def isMidpoint (t : Int) (j : Nat) : Bool :=
  j % 2 = 1 && j < 2 ^ 25 && (2 ^ 24 < j || t = -150)

def resolves (t e : Int) (p : Approximant) : Bool :=
  let error := p.error (scaleNum t e) (scaleDen t e)
  error = 0 || (List.range (scaleDen t e / (error * 2 ^ 29) + 1)).all fun x =>
    !isMidpoint t (x * p.num) ||
      nearMidpoints.contains ((t + 150).toNat * 2 ^ 23 + x * p.num / 2)

def settled (t e : Int) : Bool :=
  let a := scaleNum t e
  let b := scaleDen t e
  let (low, high) := Approximant.enclose a b (10 ^ 8) 14
  decide (Neighbours a b (10 ^ 8) low high) && low.den < 2 ^ 29 && high.den < 2 ^ 29 &&
    resolves t e low && resolves t e high

def firstExp (t : Int) : Int :=
  if t = -150 then -53 else (t + 24) * 30103 / 100000 - 7

def exponentCount (t : Int) : Nat :=
  if t = -150 then 9 else 2

/-- Twice the multiples of `2 ^ t` that are midpoints are greater. -/
def leastDouble (t : Int) : Nat :=
  if t = -150 then 1 else 2 ^ 25

def settledAll (t : Int) : Bool :=
  let e := firstExp t
  let stop := e + exponentCount t
  2 * 10 ^ 8 * scaleNum t (e - 1) ≤ leastDouble t * scaleDen t (e - 1) &&
    2 ^ 25 * scaleDen t stop ≤ 10 ^ 7 * scaleNum t stop &&
    (List.range (exponentCount t)).all fun k => settled t (e + k)

theorem settledAll_of_lt : ∀ i : Fin 254, settledAll (i - 150) := by
  decide +kernel

theorem scaleDen_pos (t e : Int) : 0 < scaleDen t e :=
  Nat.mul_pos (Nat.pow_pos (by decide)) (Nat.two_pow_pos _)

theorem scale_eq (t e : Int) :
    ∃ s : ℚ, 0 < s ∧ (scaleNum t e : ℚ) = 10 ^ e * s ∧ (scaleDen t e : ℚ) = 2 ^ t * s := by
  have hten := ten_zpow_eq_div e
  have htwo := zpow_eq_div (b := 2) (by decide) t
  rw [Nat.cast_ofNat] at htwo
  refine ⟨10 ^ (-e).toNat * 2 ^ (-t).toNat, by positivity, ?_, ?_⟩
  · rw [scaleNum, hten]
    push_cast
    field_simp
  · rw [scaleDen, htwo]
    push_cast
    field_simp

theorem mul_scaleNum_le_iff (t e : Int) (x y : Nat) :
    x * scaleNum t e ≤ y * scaleDen t e ↔ (x : ℚ) * 10 ^ e ≤ y * 2 ^ t := by
  obtain ⟨s, hs, hnum, hden⟩ := scale_eq t e
  rw [← Nat.cast_le (α := ℚ), Nat.cast_mul, Nat.cast_mul, hnum, hden, ← mul_assoc, ← mul_assoc,
    mul_le_mul_iff_left₀ hs]

theorem mul_scaleDen_le_iff (t e : Int) (x y : Nat) :
    x * scaleDen t e ≤ y * scaleNum t e ↔ (x : ℚ) * 2 ^ t ≤ y * 10 ^ e := by
  obtain ⟨s, hs, hnum, hden⟩ := scale_eq t e
  rw [← Nat.cast_le (α := ℚ), Nat.cast_mul, Nat.cast_mul, hnum, hden, ← mul_assoc, ← mul_assoc,
    mul_le_mul_iff_left₀ hs]

theorem settled_of_reach {t e : Int} (ht : -150 ≤ t) (ht' : t ≤ 103)
    (hlow : (leastDouble t : ℚ) * 2 ^ t < 2 * 10 ^ 8 * 10 ^ e)
    (hhigh : (10 : ℚ) ^ 7 * 10 ^ e < 2 ^ 25 * 2 ^ t) : settled t e := by
  have hall : settledAll t := by
    have hi := settledAll_of_lt ⟨(t + 150).toNat, by omega⟩
    rwa [show (((t + 150).toNat : Nat) : Int) - 150 = t by omega] at hi
  simp only [settledAll, Bool.and_eq_true, decide_eq_true_eq, List.all_eq_true,
    List.mem_range] at hall
  obtain ⟨⟨hfirst, hstop⟩, hsettled⟩ := hall
  rw [mul_scaleNum_le_iff] at hfirst
  rw [mul_scaleDen_le_iff] at hstop
  push_cast at hfirst hstop
  have hfirst' : firstExp t - 1 < e := by
    by_contra hle
    have hpow := zpow_le_zpow_right₀ (a := (10 : ℚ)) (by norm_num) (not_lt.mp hle)
    linarith
  have hstop' : e < firstExp t + exponentCount t := by
    by_contra hle
    have hpow := zpow_le_zpow_right₀ (a := (10 : ℚ)) (by norm_num) (not_lt.mp hle)
    linarith
  have he := hsettled (e - firstExp t).toNat (by omega)
  rwa [show firstExp t + ((e - firstExp t).toNat : Int) = e by omega] at he

theorem Approximant.error_eq (p : Approximant) (a b : Nat) :
    (p.error a b : Int) = |(p.den * a : Int) - p.num * b| := by
  rw [error, ← Int.natCast_mul, ← Int.natCast_mul]
  rcases Nat.le_total (p.num * b) (p.den * a) with hle | hle
  · rw [Nat.sub_eq_zero_of_le hle, Nat.max_zero, abs_of_nonneg (by omega)]
    omega
  · rw [Nat.sub_eq_zero_of_le hle, Nat.zero_max, abs_of_nonpos (by omega)]
    omega

theorem contains_of_resolves {t e : Int} {p : Approximant} {x : Nat} (h : resolves t e p)
    (hne : x * p.den * scaleNum t e ≠ x * p.num * scaleDen t e)
    (hclose : |((x * p.den : Nat) * scaleNum t e : Int) - (x * p.num : Nat) * scaleDen t e| *
      2 ^ 29 ≤ scaleDen t e)
    (hmidpoint : isMidpoint t (x * p.num)) :
    nearMidpoints.contains ((t + 150).toNat * 2 ^ 23 + x * p.num / 2) := by
  have herror := p.error_eq (scaleNum t e) (scaleDen t e)
  rw [resolves, Bool.or_eq_true, decide_eq_true_eq, List.all_eq_true] at h
  generalize p.error (scaleNum t e) (scaleDen t e) = error at h herror
  have hpos : 0 < error := by
    refine Nat.pos_of_ne_zero fun hzero => hne ?_
    rw [hzero, eq_comm, Nat.cast_zero, abs_eq_zero, sub_eq_zero] at herror
    have hexact : p.den * scaleNum t e = p.num * scaleDen t e := by exact_mod_cast herror
    rw [Nat.mul_assoc, hexact, Nat.mul_assoc]
  have hle : x * (error * 2 ^ 29) ≤ scaleDen t e := by
    have hscaled : ((x * p.den : Nat) * scaleNum t e : Int) - (x * p.num : Nat) * scaleDen t e =
        x * (p.den * scaleNum t e - p.num * scaleDen t e) := by
      push_cast
      ring
    rw [hscaled, abs_mul, Nat.abs_cast, ← herror, mul_assoc] at hclose
    exact_mod_cast hclose
  have hmem : x ∈ List.range (scaleDen t e / (error * 2 ^ 29) + 1) := by
    rw [List.mem_range, Nat.lt_succ_iff, Nat.le_div_iff_mul_le (by positivity)]
    exact hle
  have hknown := (h.resolve_left hpos.ne') x hmem
  rwa [hmidpoint, Bool.not_true, Bool.false_or] at hknown

theorem contains_of_settled {t e : Int} {d j : Nat} (h : settled t e) (hd : 0 < d)
    (hd' : d < 10 ^ 8) (hne : (d : ℚ) * 10 ^ e ≠ j * 2 ^ t)
    (hclose : |(d : ℚ) * 10 ^ e - j * 2 ^ t| * 2 ^ 29 ≤ 2 ^ t) (hmidpoint : isMidpoint t j) :
    nearMidpoints.contains ((t + 150).toNat * 2 ^ 23 + j / 2) := by
  obtain ⟨s, hs, hnum, hden⟩ := scale_eq t e
  have hdiff : ((d * scaleNum t e - j * scaleDen t e : Int) : ℚ) =
      (d * 10 ^ e - j * 2 ^ t) * s := by
    push_cast
    rw [hnum, hden]
    ring
  have hclose' : |(d * scaleNum t e : Int) - j * scaleDen t e| * (2 ^ 29 : Nat) ≤ scaleDen t e := by
    rw [← Int.cast_le (R := ℚ), Int.cast_mul, Int.cast_abs, hdiff, abs_mul, abs_of_pos hs]
    push_cast
    rw [hden, mul_right_comm]
    exact mul_le_mul_of_nonneg_right hclose hs.le
  have hne' : d * scaleNum t e ≠ j * scaleDen t e := by
    intro heq
    have hzero : (d * scaleNum t e - j * scaleDen t e : Int) = 0 := by
      rw [sub_eq_zero]
      exact_mod_cast heq
    rw [hzero, Int.cast_zero, zero_eq_mul, sub_eq_zero] at hdiff
    exact hdiff.elim hne hs.ne'
  rw [settled] at h
  generalize Approximant.enclose (scaleNum t e) (scaleDen t e) (10 ^ 8) 14 = points at h
  obtain ⟨low, high⟩ := points
  simp only [Bool.and_eq_true, decide_eq_true_eq] at h
  obtain ⟨⟨⟨⟨hneighbours, hlow⟩, hhigh⟩, hlow'⟩, hhigh'⟩ := h
  rcases hneighbours.eq_mul_or (scaleDen_pos t e) hlow hhigh hd hd' hclose' with
    ⟨x, rfl, rfl⟩ | ⟨x, rfl, rfl⟩
  · exact contains_of_resolves hlow' hne' (by exact_mod_cast hclose') hmidpoint
  · exact contains_of_resolves hhigh' hne' (by exact_mod_cast hclose') hmidpoint

/-!
Midpoints that doubles take for other decimals.
-/

namespace Format

variable {f : Format}

theorem exponent_mono {r s : Nat} (h : r ≤ s) : f.exponent r ≤ f.exponent s := by
  have hdiv := Nat.div_le_div_right (c := 2 ^ f.fractionBits) h
  rw [exponent, exponent]
  omega

theorem RoundsTo.abs_sub_le (hf : f.Proper) {q : ℚ} {rank : Nat} (h : f.RoundsTo q rank)
    (hrank : rank < f.infinity) (hq : 0 ≤ q) : |q - f.value rank| * 2 ≤ 2 ^ f.exponent rank := by
  have hpos : (0 : ℚ) < 2 ^ f.exponent rank := by positivity
  obtain ⟨hup, -⟩ := h.upper hf hrank
  rw [midpoint, value_succ] at hup
  rcases abs_cases (q - f.value rank) with ⟨habs, -⟩ | ⟨habs, hlt⟩
  · rw [habs]
    linarith
  · cases rank with
    | zero =>
      rw [f.value_zero] at hlt
      linarith
    | succ k =>
      obtain ⟨hlow, -⟩ := h.lower hf
      have hexp := zpow_le_zpow_right₀ (one_le_two (α := ℚ)) (f.exponent_mono (Nat.le_succ k))
      have hsucc := f.value_succ k
      rw [midpoint] at hlow
      rw [habs]
      linarith

theorem exists_isMidpoint {k : Nat} (hk : k < Format.single.infinity) :
    ∃ (t : Int) (j : Nat), -150 ≤ t ∧ t ≤ 103 ∧ isMidpoint t j ∧
      Format.single.midpoint k = j * 2 ^ t ∧ k = (t + 150).toNat * 2 ^ 23 + j / 2 := by
  obtain ⟨hrank, hsignificand, hfull⟩ := Format.single.rank_eq k
  have hexp : Format.single.exponent k = ((k / 2 ^ 23 - 1 : Nat) : Int) - 149 := by
    have hmin : Format.single.minExp = -149 := by decide
    have hbits : Format.single.fractionBits = 23 := by decide
    rw [exponent, hmin, hbits]
    ring
  have hvalue := Format.single.value_succ k
  have hcount : k / 2 ^ 23 - 1 ≤ 253 := by
    have hinf : Format.single.infinity = 255 * 2 ^ 23 := by decide
    omega
  change k = (k / 2 ^ 23 - 1) * 2 ^ 23 + _ at hrank
  change _ < 2 ^ 24 at hsignificand
  change 2 ^ 23 ≤ _ ∨ k / 2 ^ 23 - 1 = 0 at hfull
  rw [midpoint, hvalue, value, hexp]
  generalize k / 2 ^ 23 - 1 = c at hrank hfull hcount ⊢
  generalize Format.single.significand k = m at hrank hsignificand hfull ⊢
  refine ⟨(c : Int) - 150, 2 * m + 1, by omega, by omega, ?_, ?_, ?_⟩
  · simp only [isMidpoint, Bool.and_eq_true, Bool.or_eq_true, decide_eq_true_eq]
    omega
  · rw [show (c : Int) - 149 = c - 150 + 1 by ring, zpow_add_one₀ two_ne_zero]
    push_cast
    ring
  · rw [Int.sub_add_cancel, Int.toNat_natCast, show (2 * m + 1) / 2 = m by omega]
    exact hrank

end Format

theorem Decimal.exists_eight_digits {d : Decimal} (hpos : 0 < d.digits) (h : d.digits < 10 ^ 8) :
    ∃ (n : Nat) (e : Int), 10 ^ 7 ≤ n ∧ n < 10 ^ 8 ∧ d.value = n * 10 ^ e := by
  have hle := ten_pow_log10_le hpos
  have hlt := lt_ten_pow_log10 d.digits
  have hlog : log10 d.digits ≤ 7 := by
    by_contra hgt
    have := Nat.pow_le_pow_right (n := 10) (by decide) (show 8 ≤ log10 d.digits by omega)
    omega
  -- The missing digits are zeros at the end.
  obtain ⟨i, hi⟩ : ∃ i, log10 d.digits + i = 7 := ⟨7 - log10 d.digits, by omega⟩
  refine ⟨d.digits * 10 ^ i, d.exp - i, ?_, ?_, ?_⟩
  · rw [← hi, Nat.pow_add]
    exact Nat.mul_le_mul_right _ hle
  · rw [show 8 = log10 d.digits + 1 + i by omega, Nat.pow_add]
    exact Nat.mul_lt_mul_of_pos_right hlt (Nat.pow_pos (by decide))
  · rw [value, mul_ten_pow_zpow, Int.sub_add_cancel]

theorem mem_nearMidpoints_of_close {d : Decimal} {k : Nat} (hd : d.digits < 10 ^ 8)
    (hk : k < Format.single.infinity) (hne : d.value ≠ Format.single.midpoint k)
    (hclose : ∀ t : Int, ∀ j : Nat, j < 2 ^ 25 → Format.single.midpoint k = j * 2 ^ t →
      |d.value - Format.single.midpoint k| * 2 ^ 29 ≤ 2 ^ t) : k ∈ nearMidpoints := by
  obtain ⟨t, j, ht, ht', hmidpoint, hvalue, hrank⟩ := Format.exists_isMidpoint hk
  have hmidpoint' := hmidpoint
  simp only [isMidpoint, Bool.and_eq_true, Bool.or_eq_true, decide_eq_true_eq] at hmidpoint'
  obtain ⟨⟨hodd, hbits⟩, hfull⟩ := hmidpoint'
  have hdist := hclose t j hbits hvalue
  rw [hvalue] at hdist hne
  have htpos : (0 : ℚ) < 2 ^ t := by positivity
  have hjpos : (1 : ℚ) ≤ j := by exact_mod_cast show 1 ≤ j by omega
  have hjlt : (j : ℚ) + 1 ≤ 2 ^ 25 := by exact_mod_cast hbits
  have hdouble : (leastDouble t : ℚ) + 1 ≤ 2 * j := by
    have hle : leastDouble t + 1 ≤ 2 * j := by
      rw [leastDouble]
      split <;> omega
    exact_mod_cast hle
  obtain ⟨hlow, hhigh⟩ := abs_le.mp ((le_div_iff₀ (by norm_num)).mpr hdist)
  have hdoubleLow : leastDouble t * 2 ^ t < 2 * d.value := by nlinarith
  have hvalueHigh : d.value < 2 ^ 25 * 2 ^ t := by nlinarith
  have hpos : 0 < d.digits := by
    refine Nat.pos_of_ne_zero fun hzero => ?_
    rw [Decimal.value, hzero, Nat.cast_zero, zero_mul, mul_zero] at hdoubleLow
    exact absurd hdoubleLow (not_lt.mpr (by positivity))
  obtain ⟨n, e, hfirst, hlast, hscaled⟩ := Decimal.exists_eight_digits hpos hd
  have hepos : (0 : ℚ) < 10 ^ e := by positivity
  have hfirst' : (10 : ℚ) ^ 7 * 10 ^ e ≤ n * 10 ^ e :=
    mul_le_mul_of_nonneg_right (by exact_mod_cast hfirst) hepos.le
  have hlast' : (n : ℚ) * 10 ^ e < 10 ^ 8 * 10 ^ e :=
    mul_lt_mul_of_pos_right (by exact_mod_cast hlast) hepos
  rw [hscaled] at hdist hne hdoubleLow hvalueHigh
  have hsettled : settled t e := settled_of_reach ht ht' (by linarith) (by linarith)
  have hknown := contains_of_settled hsettled (by omega) hlast hne hdist hmidpoint
  rw [← hrank] at hknown
  exact List.contains_iff_mem.mp hknown

theorem Format.two_zpow_le_midpoint (k : Nat) :
    (2 : ℚ) ^ (-150 : Int) ≤ Format.single.midpoint k := by
  have hle := Format.single.midpoint_strictMono.monotone (Nat.zero_le k)
  have hexp : Format.single.exponent 0 = -150 + 1 := by decide
  rw [midpoint, value_succ, value_zero, hexp, zpow_add_one₀ two_ne_zero, zero_add, zero_add,
    mul_div_cancel_right₀ _ two_ne_zero] at hle
  exact hle

theorem Format.le_value_double {fine : Nat}
    (h : (2 : ℚ) ^ (-1021 : Int) ≤ Format.double.value fine) :
    2 ^ 52 * 2 ^ Format.double.exponent fine ≤ Format.double.value fine := by
  obtain ⟨-, -, hfull⟩ := Format.double.rank_eq fine
  rcases hfull with hfull | hleast
  · rw [value]
    have hfull' : ((2 ^ 52 : Nat) : ℚ) ≤ Format.double.significand fine := by exact_mod_cast hfull
    rw [Nat.cast_pow, Nat.cast_ofNat] at hfull'
    exact mul_le_mul_of_nonneg_right hfull' (by positivity)
  · have hlt := Format.double.value_lt_of_exponent fine
    have hmin : Format.double.minExp = -1074 := by decide
    rw [exponent, hleast, hmin, ← zpow_natCast, ← zpow_add₀ two_ne_zero] at hlt
    exact absurd h (not_le.mpr hlt)

/--
A decimal of at most eight digits whose double is a midpoint is this midpoint, but for a few ones.
-/
theorem mem_nearMidpoints {d : Decimal} {fine k : Nat} (hd : d.digits < 10 ^ 8)
    (hfine : Format.double.RoundsTo d.value fine) (hk : k < Format.single.infinity)
    (hmid : Format.double.value fine = Format.single.midpoint k)
    (hne : d.value ≠ Format.single.midpoint k) : k ∈ nearMidpoints := by
  refine mem_nearMidpoints_of_close hd hk hne fun t j hj hvalue => ?_
  have hnormal : (2 : ℚ) ^ 52 * 2 ^ Format.double.exponent fine ≤ Format.double.value fine := by
    refine Format.le_value_double ?_
    rw [hmid]
    exact (zpow_le_zpow_right₀ one_le_two (by decide)).trans (Format.two_zpow_le_midpoint k)
  have hinfinity : fine < Format.double.infinity := by
    rw [← Format.double.value_strictMono.lt_iff_lt, hmid]
    calc Format.single.midpoint k < Format.single.value (k + 1) :=
          Format.single.midpoint_lt_value k
      _ ≤ Format.single.value Format.single.infinity := Format.single.value_strictMono.monotone hk
      _ ≤ Format.double.value Format.double.infinity := Format.single_embeds_double.infinity_le
  have hnonneg : 0 ≤ d.value := by
    rw [Decimal.value]
    positivity
  have hdist := hfine.abs_sub_le Format.proper_double hinfinity hnonneg
  rw [← hmid] at hvalue ⊢
  generalize Format.double.exponent fine = e at hnormal hdist
  -- The double has more bits than the multiple.
  have hexp : e + 28 ≤ t := by
    have hj' : (j : ℚ) < 2 ^ 25 := by exact_mod_cast hj
    have hlt : (2 : ℚ) ^ (52 + e) < 2 ^ (25 + t) := by
      rw [zpow_add₀ two_ne_zero, zpow_add₀ two_ne_zero]
      calc (2 : ℚ) ^ (52 : Int) * 2 ^ e ≤ j * 2 ^ t := by
            rw [← hvalue]
            exact hnormal
        _ < 2 ^ (25 : Int) * 2 ^ t := mul_lt_mul_of_pos_right hj' (by positivity)
    rw [zpow_lt_zpow_iff_right₀ one_lt_two] at hlt
    omega
  have hpow := zpow_le_zpow_right₀ (one_le_two (α := ℚ)) hexp
  rw [zpow_add₀ two_ne_zero, show (2 : ℚ) ^ (28 : Int) = 2 ^ 28 by norm_cast] at hpow
  linarith

end ShaderParams
