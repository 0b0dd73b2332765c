import ShaderParams.Proofs.Decimal
import ShaderParams.Proofs.Nearest

/-!
This module contains that the shortest decimal of a magnitude is the shortest: no decimal of fewer
digits is rounded to the magnitude. Decimals of equally many digits are multiples of one power of
ten, and if any multiple is rounded to the magnitude, so is one next to it.
-/

namespace ShaderParams

-- Powers of natural numbers are the built-in ones, whatever other instances are in scope.
attribute [local instance (2000)] instPowNat

theorem log10_lt {n k : Nat} (h : n < 10 ^ k) (hk : 0 < k) : log10 n < k := by
  rcases Nat.eq_zero_or_pos n with rfl | hn
  · rw [log10, if_pos (by decide)]
    exact hk
  · exact (Nat.pow_lt_pow_iff_right (by decide)).mp ((ten_pow_log10_le hn).trans_lt h)

theorem lt_ten_zpow_floorLog10 {n d : Nat} (hn : 0 < n) (hd : 0 < d) :
    (n : ℚ) / d < 10 ^ (floorLog10 n d + 1) := by
  have hn' : (0 : ℚ) < n := by exact_mod_cast hn
  have hd' : (0 : ℚ) < d := by exact_mod_cast hd
  rw [floorLog10]
  split
  · next h =>
    have hlt : n < 10 ^ (log10 (n / d) + 1) * d :=
      (Nat.div_lt_iff_lt_mul hd).mp (lt_ten_pow_log10 (n / d))
    rw [← Nat.cast_succ, zpow_natCast, div_lt_iff₀ hd']
    exact_mod_cast hlt
  · next h =>
    -- The reciprocal rounded up and less one is less than the reciprocal.
    have hceil : ((d + n - 1) / n - 1) * n < d := by
      have hle := Nat.div_mul_le_self (d + n - 1) n
      rw [Nat.sub_mul]
      omega
    have hpos : 0 < (d + n - 1) / n - 1 := by
      have htwo : 2 ≤ (d + n - 1) / n := (Nat.le_div_iff_mul_le hn).mpr (by omega)
      omega
    have hlt : 10 ^ log10 ((d + n - 1) / n - 1) * n < d :=
      (Nat.mul_le_mul_right n (ten_pow_log10_le hpos)).trans_lt hceil
    generalize log10 ((d + n - 1) / n - 1) = k at hlt
    rw [Nat.cast_succ, neg_add_rev, neg_add_cancel_comm, zpow_neg, zpow_natCast, div_lt_iff₀ hd',
      inv_mul_eq_div, lt_div_iff₀ (by positivity), mul_comm]
    exact_mod_cast hlt

theorem floorLog10_congr {n d n' d' : Nat} (hn : 0 < n) (hd : 0 < d) (hn' : 0 < n') (hd' : 0 < d')
    (h : n * d' = n' * d) : floorLog10 n d = floorLog10 n' d' := by
  have hx : (n : ℚ) / d = n' / d' := by
    rw [div_eq_div_iff (by positivity) (by positivity)]
    exact_mod_cast h
  have hle := ten_zpow_floorLog10_le hn hd
  have hle' := ten_zpow_floorLog10_le hn' hd'
  have hlt := lt_ten_zpow_floorLog10 hn hd
  have hlt' := lt_ten_zpow_floorLog10 hn' hd'
  rw [hx] at hle hlt
  have h1 := (zpow_lt_zpow_iff_right₀ (by norm_num)).mp (hle.trans_lt hlt')
  have h2 := (zpow_lt_zpow_iff_right₀ (by norm_num)).mp (hle'.trans_lt hlt)
  omega

theorem Format.numerator_pos (f : Format) {rank : Nat} (h : 0 < rank) : 0 < f.numerator rank := by
  have hvalue := f.value_strictMono h
  rw [f.value_zero, f.value_eq_div] at hvalue
  refine Nat.pos_of_ne_zero fun hzero => ?_
  rw [hzero, Nat.cast_zero, zero_div] at hvalue
  exact lt_irrefl 0 hvalue

namespace Decimal

/-!
The digits of a decimal.
-/

/-- The number of digits of a decimal, zeros at the end not counted. -/
def significant (d : Decimal) : Nat :=
  log10 d.normalize.digits + 1

theorem normalize_mod (d : Decimal) : d.normalize.digits = 0 ∨ d.normalize.digits % 10 ≠ 0 := by
  fun_induction normalize d with
  | case1 d h => exact .inl rfl
  | case2 d h h' ih => exact ih
  | case3 d h h' => exact .inr h'

theorem digits_normalize_le {d : Decimal} {j : Nat} {e : Int} (h : d.value = j * 10 ^ e) :
    d.normalize.digits ≤ j := by
  rw [← d.value_normalize, value] at h
  have hmod := d.normalize_mod
  generalize d.normalize.digits = p at h hmod ⊢
  generalize d.normalize.exp = a at h
  rcases le_or_gt e a with hle | hlt
  · obtain ⟨k, rfl⟩ : ∃ k : Nat, a = e + k := ⟨(a - e).toNat, by omega⟩
    rw [← mul_ten_pow_zpow, mul_left_inj' (by positivity)] at h
    have hj : p * 10 ^ k = j := by exact_mod_cast h
    rw [← hj]
    exact Nat.le_mul_of_pos_right p (Nat.pow_pos (by decide))
  · obtain ⟨k, rfl⟩ : ∃ k : Nat, e = a + (k + 1 : Nat) := ⟨(e - a - 1).toNat, by omega⟩
    rw [← mul_ten_pow_zpow, mul_left_inj' (by positivity)] at h
    have hp : p = j * 10 ^ (k + 1) := by exact_mod_cast h
    rw [Nat.pow_succ, ← Nat.mul_assoc] at hp
    omega

theorem significant_le {d : Decimal} {j n : Nat} {e : Int} (h : d.value = j * 10 ^ e)
    (hj : j < 10 ^ n) (hn : 0 < n) : d.significant ≤ n :=
  log10_lt ((digits_normalize_le h).trans_lt hj) hn

theorem digits_normalize_lt (d : Decimal) : d.normalize.digits < 10 ^ d.significant :=
  lt_ten_pow_log10 _

theorem significant_pos (d : Decimal) : 0 < d.significant :=
  Nat.succ_pos _

theorem significant_congr {d d' : Decimal} (h : d.value = d'.value) :
    d.significant = d'.significant := by
  have hle {d d' : Decimal} (h : d.value = d'.value) : d.significant ≤ d'.significant :=
    significant_le (h.trans d'.value_normalize.symm) d'.digits_normalize_lt d'.significant_pos
  exact (hle h).antisymm (hle h.symm)

theorem significant_le_of_digits_le {d : Decimal} {n : Nat} (h : d.digits ≤ 10 ^ n) (hn : 0 < n) :
    d.significant ≤ n := by
  rcases Nat.eq_or_lt_of_le h with heq | hlt
  · refine significant_le (j := 1) (e := d.exp + n) ?_ (Nat.one_lt_pow hn.ne' (by decide)) hn
    rw [value, heq, ten_pow_mul_zpow, Nat.cast_one, one_mul]
  · exact significant_le rfl hlt hn

/-!
Decimals that are rounded to a magnitude.
-/

section

variable {f : Format} (hf : f.Proper)

include hf

theorem roundsTo_round (d : Decimal) : f.RoundsTo d.value (d.round f) := by
  rw [round_eq f hf.exponentBits_pos, d.value_eq_div]
  exact Format.roundsTo_round hf d.denominator_pos

theorem round_eq_iff {d : Decimal} {rank : Nat} : d.round f = rank ↔ f.RoundsTo d.value rank :=
  ⟨fun h => h ▸ roundsTo_round hf d, fun h => (roundsTo_round hf d).unique hf h⟩

/-- What lies between a magnitude and a decimal that is rounded to it is rounded to it, too. -/
theorem round_eq_of_between {c d : Decimal} {rank : Nat} (hrank : rank ≤ f.infinity)
    (h : d.round f = rank)
    (hc : d.value ≤ c.value ∧ c.value ≤ f.value rank ∨
      f.value rank ≤ c.value ∧ c.value ≤ d.value) :
    c.round f = rank := by
  have hmagnitude := Format.RoundsTo.of_value hf hrank
  have hd := (round_eq_iff hf).mp h
  have hc' := roundsTo_round hf c
  rcases hc with ⟨hle, hle'⟩ | ⟨hle, hle'⟩
  · exact (hc'.mono hf hmagnitude hle').antisymm (hd.mono hf hc' hle)
  · exact (hc'.mono hf hd hle').antisymm (hmagnitude.mono hf hc' hle)

/--
A magnitude that some decimal of `k + 1` digits is rounded to is one that some multiple of the last
of its own `k + 1` digits is rounded to.
-/
theorem exists_multiple {d : Decimal} {rank k : Nat} {top : Int}
    (hrank : rank ≤ f.infinity) (h : d.round f = rank) (hd : d.significant ≤ k + 1)
    (htop : 10 ^ top ≤ f.value rank) : ∃ j : Nat, (Decimal.mk j (top - k)).round f = rank := by
  have hvalue := d.value_normalize
  have hlt : d.normalize.digits < 10 ^ (k + 1) :=
    d.digits_normalize_lt.trans_le (Nat.pow_le_pow_right (by decide) hd)
  rw [value] at hvalue
  generalize d.normalize.digits = p at hvalue hlt
  generalize d.normalize.exp = a at hvalue
  rcases le_or_gt (top - k) a with hle | hgt
  · obtain ⟨i, rfl⟩ : ∃ i : Nat, a = top - k + i := ⟨(a - (top - k)).toNat, by omega⟩
    rw [← mul_ten_pow_zpow] at hvalue
    refine ⟨p * 10 ^ i, ?_⟩
    rw [← h]
    exact round_congr f hf.exponentBits_pos hvalue
  · -- The decimal is smaller than the power of ten of the first digit.
    refine ⟨10 ^ k, ?_⟩
    have hpow : (Decimal.mk (10 ^ k) (top - k)).value = 10 ^ top := by
      rw [value, ten_pow_mul_zpow, Int.sub_add_cancel]
    refine round_eq_of_between hf hrank h (.inl ⟨?_, hpow.le.trans htop⟩)
    rw [hpow, ← hvalue]
    calc (p : ℚ) * 10 ^ a ≤ (10 ^ (k + 1) : Nat) * 10 ^ a :=
          mul_le_mul_of_nonneg_right (by exact_mod_cast hlt.le) (by positivity)
      _ = 10 ^ (a + (k + 1 : Nat)) := ten_pow_mul_zpow (k + 1) a
      _ ≤ 10 ^ top := zpow_le_zpow_right₀ (by norm_num) (by push_cast; omega)

end

theorem roundDiv_eq_or (n d : Nat) : roundDiv n d = n / d ∨ roundDiv n d = n / d + 1 := by
  rw [roundDiv]
  repeat' split
  · exact .inl rfl
  · exact .inr rfl
  · rcases Nat.mod_two_eq_zero_or_one (n / d) with h | h
    · exact .inl (by rw [h, Nat.add_zero])
    · exact .inr (by rw [h])

theorem value_le_div (n : Nat) {d : Nat} (hd : 0 < d) (exp : Int) :
    (Decimal.mk (n * 10 ^ (-exp).toNat / (d * 10 ^ exp.toNat)) exp).value ≤ n / d ∧
      (n : ℚ) / d < (Decimal.mk (n * 10 ^ (-exp).toNat / (d * 10 ^ exp.toNat) + 1) exp).value := by
  have hd' : (0 : ℚ) < d := by exact_mod_cast hd
  have hpos : 0 < d * 10 ^ exp.toNat := Nat.mul_pos hd (Nat.pow_pos (by decide))
  have hle := Nat.div_mul_le_self (n * 10 ^ (-exp).toNat) (d * 10 ^ exp.toNat)
  have hlt := Nat.lt_div_mul_add (a := n * 10 ^ (-exp).toNat) hpos
  rw [← Nat.succ_mul] at hlt
  generalize n * 10 ^ (-exp).toNat / (d * 10 ^ exp.toNat) = q at hle hlt
  have hpow : (0 : ℚ) < (10 ^ (-exp).toNat : Nat) := by positivity
  rw [value, value, ten_zpow_eq_div]
  dsimp only
  rw [mul_div_assoc', mul_div_assoc', div_le_div_iff₀ hpow hd', div_lt_div_iff₀ hd' hpow]
  constructor
  · exact_mod_cast show q * 10 ^ exp.toNat * d ≤ n * 10 ^ (-exp).toNat by
      rwa [Nat.mul_assoc, Nat.mul_comm _ d]
  · exact_mod_cast show n * 10 ^ (-exp).toNat < (q + 1) * 10 ^ exp.toNat * d by
      rwa [Nat.mul_assoc, Nat.mul_comm _ d]

/-- What is tried for a magnitude: the multiples of a power of ten around it, one by one. -/
theorem exists_readsBack?_eq (f : Format) (rank : Nat) (exp : Int) :
    ∃ (q : Nat) (c c' : Decimal),
      (c = ⟨q, exp⟩ ∧ c' = ⟨q + 1, exp⟩ ∨ c = ⟨q + 1, exp⟩ ∧ c' = ⟨q, exp⟩) ∧
      (Decimal.mk q exp).value ≤ f.value rank ∧ f.value rank < (Decimal.mk (q + 1) exp).value ∧
      readsBack? f rank exp =
        if c.round f = rank then some c else if c'.round f = rank then some c' else none := by
  obtain ⟨hbelow, habove⟩ := value_le_div (f.numerator rank) (f.denominator_pos rank) exp
  rw [← f.value_eq_div] at hbelow habove
  refine ⟨_, _, _, ?_, hbelow, habove, rfl⟩
  rw [onGrid]
  rcases roundDiv_eq_or (f.numerator rank * 10 ^ (-exp).toNat)
    (f.denominator rank * 10 ^ exp.toNat) with hnear | hnear
  · rw [hnear]
    exact .inl ⟨rfl, by rw [if_pos rfl]⟩
  · rw [hnear]
    exact .inr ⟨rfl, by rw [if_neg (Nat.succ_ne_self _)]⟩

variable {f : Format} {rank k : Nat}

theorem isSome_readsBack? (hf : f.Proper) {exp : Int} (hrank : rank ≤ f.infinity)
    (h : ∃ j : Nat, (Decimal.mk j exp).round f = rank) : (readsBack? f rank exp).isSome := by
  obtain ⟨j, hj⟩ := h
  obtain ⟨q, c, c', hcandidates, hbelow, habove, heq⟩ := exists_readsBack?_eq f rank exp
  have hpow : (0 : ℚ) < 10 ^ exp := by positivity
  have hside : (Decimal.mk q exp).round f = rank ∨ (Decimal.mk (q + 1) exp).round f = rank := by
    rcases Nat.lt_or_ge q j with hlt | hge
    · refine .inr (round_eq_of_between hf hrank hj (.inr ⟨habove.le, ?_⟩))
      exact mul_le_mul_of_nonneg_right (by exact_mod_cast hlt) hpow.le
    · refine .inl (round_eq_of_between hf hrank hj (.inl ⟨?_, hbelow⟩))
      exact mul_le_mul_of_nonneg_right (by exact_mod_cast hge) hpow.le
  have hsome : c.round f = rank ∨ c'.round f = rank := by
    rcases hcandidates with ⟨rfl, rfl⟩ | ⟨rfl, rfl⟩
    · exact hside
    · exact hside.symm
  rw [heq]
  split
  · rfl
  · next hc => rw [if_pos (hsome.resolve_left hc), Option.isSome_some]

theorem digits_lt_of_value_lt {q : Nat} {top : Int}
    (h : (Decimal.mk q (top - k)).value < 10 ^ (top + 1)) : q < 10 ^ (k + 1) := by
  rw [show top + 1 = top - k + (k + 1 : Nat) by push_cast; ring, ← ten_pow_mul_zpow, value] at h
  exact_mod_cast lt_of_mul_lt_mul_right h (by positivity)

/-- A multiple next to a magnitude has no more digits than there are places down to its last one. -/
theorem significant_le_of_readsBack? {top : Int} {d : Decimal}
    (htop : f.value rank < 10 ^ (top + 1)) (h : readsBack? f rank (top - k) = some d) :
    d.significant ≤ k + 1 := by
  obtain ⟨q, c, c', hcandidates, hbelow, -, heq⟩ := exists_readsBack?_eq f rank (top - k)
  have hq := digits_lt_of_value_lt (hbelow.trans_lt htop)
  have hdigits : c.digits ≤ 10 ^ (k + 1) ∧ c'.digits ≤ 10 ^ (k + 1) := by
    rcases hcandidates with ⟨rfl, rfl⟩ | ⟨rfl, rfl⟩
    · exact ⟨hq.le, hq⟩
    · exact ⟨hq, hq.le⟩
  apply significant_le_of_digits_le _ (Nat.succ_pos k)
  rw [heq] at h
  split at h
  · rw [← Option.some.inj h]
    exact hdigits.1
  · split at h
    · rw [← Option.some.inj h]
      exact hdigits.2
    · cases h

theorem findSome?_range_eq_some {α : Type} {g : Nat → Option α} {n : Nat} {a : α}
    (h : (List.range n).findSome? g = some a) :
    ∃ k < n, g k = some a ∧ ∀ i < k, g i = none := by
  induction n with
  | zero => cases h
  | succ n ih =>
    rw [List.range_succ, List.findSome?_append] at h
    cases hfound : (List.range n).findSome? g with
    | some b =>
      rw [hfound] at h
      obtain ⟨k, hk, hgk, hfirst⟩ := ih (hfound.trans h)
      exact ⟨k, by omega, hgk, hfirst⟩
    | none =>
      rw [hfound] at h
      refine ⟨n, Nat.lt_succ_self n, by simpa using h, fun i hi => ?_⟩
      exact List.findSome?_eq_none_iff.mp hfound i (List.mem_range.mpr hi)

theorem significant_ofFraction_le {n d count : Nat} (hn : 0 < n) (hd : 0 < d) (h : 0 < count) :
    (ofFraction count n d).significant ≤ count := by
  obtain ⟨k, rfl⟩ : ∃ k, count = k + 1 := ⟨count - 1, by omega⟩
  have htop := lt_ten_zpow_floorLog10 hn hd
  rw [ofFraction, Nat.add_sub_cancel]
  generalize floorLog10 n d = top at htop ⊢
  have hbelow := (value_le_div n hd (top - k)).1
  have hnear := roundDiv_eq_or (n * 10 ^ (-(top - k)).toNat) (d * 10 ^ (top - k).toNat)
  have hq := digits_lt_of_value_lt (hbelow.trans_lt htop)
  apply significant_le_of_digits_le _ h
  rw [onGrid]
  dsimp only
  omega

theorem ofFraction_congr {n d n' d' : Nat} (hn : 0 < n) (hd : 0 < d) (hn' : 0 < n') (hd' : 0 < d')
    (h : n * d' = n' * d) (count : Nat) : ofFraction count n d = ofFraction count n' d' := by
  have hpow {k : Nat} : 0 < 10 ^ k := Nat.pow_pos (by decide)
  rw [ofFraction, ofFraction, onGrid, onGrid, floorLog10_congr hn hd hn' hd' h]
  congr 1
  refine roundDiv_congr (Nat.mul_pos hd hpow) (Nat.mul_pos hd' hpow) ?_
  rw [Nat.mul_mul_mul_comm, h, Nat.mul_mul_mul_comm]

/-- No decimal that is rounded to a magnitude has fewer digits than its shortest one. -/
theorem significant_shortest_le (hf : f.Proper) (hpos : 0 < rank) (hrank : rank < f.infinity)
    {d : Decimal} (h : d.round f = rank) : (shortest f rank).significant ≤ d.significant := by
  have hd := d.significant_pos
  have hden := f.denominator_pos rank
  have hnum := f.numerator_pos hpos
  have hlow := ten_zpow_floorLog10_le hnum hden
  have hhigh := lt_ten_zpow_floorLog10 hnum hden
  have henough : 0 < enoughDigits f := Nat.succ_pos _
  rw [shortest, significant_congr (value_normalize _)]
  generalize floorLog10 (f.numerator rank) (f.denominator rank) = top at hlow hhigh
  rw [← f.value_eq_div] at hlow hhigh
  -- With the digits of `d` the search succeeds.
  have hsome : (readsBack? f rank (top - (d.significant - 1 : Nat))).isSome :=
    isSome_readsBack? hf hrank.le
      (exists_multiple hf hrank.le h (Nat.sub_add_cancel hd).ge hlow)
  cases hfound : (List.range (enoughDigits f)).findSome? fun (count : Nat) =>
      readsBack? f rank (top - count) with
  | some c =>
    obtain ⟨k, -, hk, hfirst⟩ := findSome?_range_eq_some hfound
    have hle : k ≤ d.significant - 1 := by
      by_contra hgt
      rw [hfirst _ (not_le.mp hgt)] at hsome
      cases hsome
    have hc := significant_le_of_readsBack? hhigh hk
    rw [Option.getD_some]
    omega
  | none =>
    have hmany : enoughDigits f ≤ d.significant - 1 := by
      by_contra hlt
      have hnone := List.findSome?_eq_none_iff.mp hfound (d.significant - 1)
        (List.mem_range.mpr (not_le.mp hlt))
      rw [hnone] at hsome
      cases hsome
    have hc := significant_ofFraction_le hnum hden henough
    rw [Option.getD_none]
    omega

end Decimal

end ShaderParams
