import Mathlib.Algebra.Group.Nat.Even
import ShaderParams.Proofs.Rounding

/-!
This module contains what rounding means: the nearest magnitude of a format, of two equally near
ones that of the even significand, and infinity from a threshold on. Roundings keep the order of
what they round, and rounding to a finer format in between can only do harm at a midpoint.
-/

namespace ShaderParams

-- Powers of natural numbers are the built-in ones, whatever other instances are in scope.
attribute [local instance (2000)] instPowNat

theorem abs_sub_le_abs_sub_iff {a b q : ℚ} (h : a < b) :
    |a - q| ≤ |b - q| ↔ q ≤ (a + b) / 2 := by
  rcases abs_cases (a - q) with ⟨ha, ha'⟩ | ⟨ha, ha'⟩ <;>
    rcases abs_cases (b - q) with ⟨hb, hb'⟩ | ⟨hb, hb'⟩ <;>
    rw [ha, hb] <;> constructor <;> intro hle <;> linarith

theorem abs_sub_ge_abs_sub_iff {a b q : ℚ} (h : a < b) :
    |b - q| ≤ |a - q| ↔ (a + b) / 2 ≤ q := by
  rcases abs_cases (a - q) with ⟨ha, ha'⟩ | ⟨ha, ha'⟩ <;>
    rcases abs_cases (b - q) with ⟨hb, hb'⟩ | ⟨hb, hb'⟩ <;>
    rw [ha, hb] <;> constructor <;> intro hle <;> linarith

theorem abs_sub_eq_abs_sub_iff {a b q : ℚ} (h : a < b) :
    |a - q| = |b - q| ↔ q = (a + b) / 2 := by
  rcases abs_cases (a - q) with ⟨ha, ha'⟩ | ⟨ha, ha'⟩ <;>
    rcases abs_cases (b - q) with ⟨hb, hb'⟩ | ⟨hb, hb'⟩ <;>
    rw [ha, hb] <;> constructor <;> intro heq <;> linarith

theorem even_roundDiv {n d : Nat} (hd : 0 < d) (h : |(roundDiv n d : ℚ) - n / d| = 1 / 2) :
    Even (roundDiv n d) := by
  have hd' : (0 : ℚ) < d := by exact_mod_cast hd
  have htie : 2 * (d * roundDiv n d) = 2 * n + d ∨ 2 * (d * roundDiv n d) + d = 2 * n := by
    rw [abs_eq (by norm_num)] at h
    rcases h with h | h
    · left
      have hq : (roundDiv n d : ℚ) = n / d + 1 / 2 := by linarith
      have heq : (2 : ℚ) * (d * roundDiv n d) = 2 * n + d := by
        rw [hq]
        field_simp
      exact_mod_cast heq
    · right
      have hq : (roundDiv n d : ℚ) = n / d - 1 / 2 := by linarith
      have heq : (2 : ℚ) * (d * roundDiv n d) + d = 2 * n := by
        rw [hq]
        field_simp
        ring
      exact_mod_cast heq
  have hn := Nat.div_add_mod n d
  have hlt := Nat.mod_lt n hd
  have hsucc : d * (n / d + 1) = d * (n / d) + d := Nat.mul_succ ..
  rw [roundDiv] at htie ⊢
  split at htie
  · omega
  · split at htie
    · omega
    · next hl hr =>
      rw [if_neg hl, if_neg hr, Nat.even_iff]
      omega

namespace Format

variable (f : Format)

/-- The middle between a magnitude and the next larger one. -/
def midpoint (rank : Nat) : ℚ :=
  (f.value rank + f.value (rank + 1)) / 2

/--
The middle between the greatest finite magnitude and the power of two behind it. From here on
numbers are infinite.
-/
def overflow : ℚ :=
  f.midpoint (f.infinity - 1)

/--
What a magnitude `q` is rounded to: from the threshold on it is infinity, and below a finite
magnitude that is nearest to `q`, with an even significand if another one is equally near.
-/
structure RoundsTo (q : ℚ) (rank : Nat) : Prop where
  infinite : f.overflow ≤ q → rank = f.infinity
  finite : q < f.overflow → rank < f.infinity
  nearest : q < f.overflow → ∀ s < f.infinity, |f.value rank - q| ≤ |f.value s - q|
  even : q < f.overflow → ∀ s < f.infinity, s ≠ rank →
    |f.value s - q| = |f.value rank - q| → Even (f.significand rank)

theorem value_nonneg (rank : Nat) : 0 ≤ f.value rank := by
  rw [← f.value_zero]
  exact f.value_strictMono.monotone (Nat.zero_le _)

theorem value_lt_midpoint (rank : Nat) : f.value rank < f.midpoint rank := by
  have hlt := f.value_strictMono (Nat.lt_succ_self rank)
  rw [midpoint]
  linarith

theorem midpoint_lt_value (rank : Nat) : f.midpoint rank < f.value (rank + 1) := by
  have hlt := f.value_strictMono (Nat.lt_succ_self rank)
  rw [midpoint]
  linarith

theorem midpoint_strictMono : StrictMono f.midpoint :=
  strictMono_nat_of_lt_succ fun rank =>
    (f.midpoint_lt_value rank).trans (f.value_lt_midpoint (rank + 1))

variable {f}

structure Proper (f : Format) : Prop where
  fractionBits_pos : 0 < f.fractionBits
  exponentBits_pos : 0 < f.exponentBits

theorem proper_single : Proper .single := ⟨by decide, by decide⟩

theorem proper_double : Proper .double := ⟨by decide, by decide⟩

namespace Proper

variable (hf : f.Proper)

include hf

theorem even_two_pow : Even (2 ^ f.fractionBits) :=
  (Nat.even_pow.mpr ⟨even_two, hf.fractionBits_pos.ne'⟩ :)

theorem even_significand (rank : Nat) : Even (f.significand rank) ↔ Even rank := by
  obtain ⟨hrank, -, -⟩ := f.rank_eq rank
  have heven : Even ((rank / 2 ^ f.fractionBits - 1) * 2 ^ f.fractionBits) :=
    hf.even_two_pow.mul_left _
  conv_rhs => rw [hrank, Nat.even_add]
  exact (iff_true_left heven).symm

theorem even_infinity : Even f.infinity :=
  hf.even_two_pow.mul_left _

theorem infinity_pos : 0 < f.infinity := by
  have htwo : 2 ≤ 2 ^ f.exponentBits := Nat.le_self_pow hf.exponentBits_pos.ne' 2
  exact Nat.mul_pos (by omega) (Nat.two_pow_pos _)

end Proper

theorem overflow_eq {rank : Nat} (h : rank + 1 = f.infinity) : f.overflow = f.midpoint rank := by
  rw [overflow, ← h, Nat.add_sub_cancel]

namespace RoundsTo

variable {q : ℚ} {rank : Nat}

theorem lower (hf : f.Proper) (h : f.RoundsTo q (rank + 1)) :
    f.midpoint rank ≤ q ∧ (f.midpoint rank = q → Even (rank + 1)) := by
  have hlt := f.value_strictMono (Nat.lt_succ_self rank)
  rcases le_or_gt f.overflow q with hq | hq
  · have hrank := h.infinite hq
    rw [overflow_eq hrank] at hq
    refine ⟨hq, fun _ => ?_⟩
    rw [hrank]
    exact hf.even_infinity
  · have hfinite := h.finite hq
    refine ⟨(abs_sub_ge_abs_sub_iff hlt).mp (h.nearest hq rank (by omega)), fun heq => ?_⟩
    have htie := (abs_sub_eq_abs_sub_iff hlt).mpr heq.symm
    exact (hf.even_significand _).mp (h.even hq rank (by omega) (by omega) htie)

theorem upper (hf : f.Proper) (h : f.RoundsTo q rank) (hrank : rank < f.infinity) :
    q ≤ f.midpoint rank ∧ (q = f.midpoint rank → Even rank) := by
  have hlt := f.value_strictMono (Nat.lt_succ_self rank)
  have hq : q < f.overflow := by
    by_contra hq
    exact hrank.ne (h.infinite (not_lt.mp hq))
  rcases Nat.lt_or_ge (rank + 1) f.infinity with hnext | hnext
  · refine ⟨(abs_sub_le_abs_sub_iff hlt).mp (h.nearest hq _ hnext), fun heq => ?_⟩
    have htie := (abs_sub_eq_abs_sub_iff hlt).mpr heq
    exact (hf.even_significand _).mp (h.even hq _ hnext (by omega) htie.symm)
  · rw [overflow_eq (show rank + 1 = f.infinity by omega)] at hq
    exact ⟨hq.le, fun heq => absurd heq hq.ne⟩

/-- A rank between whose midpoints `q` lies is that of its rounding. -/
theorem of_midpoints (hf : f.Proper) (hle : rank ≤ f.infinity)
    (hlower : ∀ k, k + 1 = rank → f.midpoint k ≤ q ∧ (f.midpoint k = q → Even rank))
    (hupper : rank < f.infinity → q ≤ f.midpoint rank ∧ (q = f.midpoint rank → Even rank)) :
    f.RoundsTo q rank := by
  have hpos := hf.infinity_pos
  have hoverflow : f.overflow = f.midpoint (f.infinity - 1) := rfl
  have hfinite : q < f.overflow → rank < f.infinity := by
    intro hq
    refine lt_of_le_of_ne hle fun heq => ?_
    rw [hoverflow] at hq
    exact absurd (hlower (f.infinity - 1) (by omega)).1 (not_le.mpr hq)
  -- Magnitudes on either side are behind the midpoint of that side.
  have hcompare : q < f.overflow → ∀ s, s ≠ rank →
      |f.value rank - q| ≤ |f.value s - q| ∧
        (|f.value s - q| = |f.value rank - q| → Even rank) := by
    intro hq s hs
    obtain ⟨hup, hup'⟩ := hupper (hfinite hq)
    rcases Nat.lt_or_gt_of_ne hs with hlt | hgt
    · obtain ⟨k, rfl⟩ : ∃ k, rank = k + 1 := ⟨rank - 1, by omega⟩
      obtain ⟨hlow, hlow'⟩ := hlower k rfl
      have hvalue := f.value_strictMono hlt
      have hsk := f.value_strictMono.monotone (show s ≤ k by omega)
      have hmid : (f.value s + f.value (k + 1)) / 2 ≤ f.midpoint k := by
        rw [midpoint]
        linarith
      refine ⟨(abs_sub_ge_abs_sub_iff hvalue).mpr (hmid.trans hlow), fun htie => ?_⟩
      have heq := (abs_sub_eq_abs_sub_iff hvalue).mp htie
      exact hlow' (by linarith)
    · have hvalue := f.value_strictMono hgt
      have hsucc := f.value_strictMono.monotone (show rank + 1 ≤ s by omega)
      have hmid : f.midpoint rank ≤ (f.value rank + f.value s) / 2 := by
        rw [midpoint]
        linarith
      refine ⟨(abs_sub_le_abs_sub_iff hvalue).mpr (hup.trans hmid), fun htie => ?_⟩
      have heq := (abs_sub_eq_abs_sub_iff hvalue).mp htie.symm
      exact hup' (by linarith)
  refine ⟨fun hq => ?_, hfinite, fun hq s _ => ?_, fun hq s _ hs htie => ?_⟩
  · by_contra hne
    have hlt : rank < f.infinity := lt_of_le_of_ne hle hne
    obtain ⟨hup, hup'⟩ := hupper hlt
    rw [hoverflow] at hq
    have hrank := f.midpoint_strictMono.le_iff_le.mp (hq.trans hup)
    obtain rfl : rank = f.infinity - 1 := by omega
    have heven := hup' (hup.antisymm hq)
    have hodd := hf.even_infinity
    rw [Nat.even_iff] at heven hodd
    omega
  · rcases eq_or_ne s rank with rfl | hs
    · exact le_rfl
    · exact (hcompare hq s hs).1
  · exact (hf.even_significand rank).mpr ((hcompare hq s hs).2 htie)

theorem le_infinity (h : f.RoundsTo q rank) : rank ≤ f.infinity := by
  rcases le_or_gt f.overflow q with hq | hq
  · exact (h.infinite hq).le
  · exact (h.finite hq).le

theorem mono (hf : f.Proper) {q' : ℚ} {rank' : Nat} (h : f.RoundsTo q rank)
    (h' : f.RoundsTo q' rank') (hq : q ≤ q') : rank ≤ rank' := by
  by_contra hlt
  obtain ⟨k, rfl⟩ : ∃ k, rank = k + 1 := ⟨rank - 1, by omega⟩
  have hfinite : rank' < f.infinity := lt_of_lt_of_le (not_le.mp hlt) h.le_infinity
  obtain ⟨hlow, hlow'⟩ := h.lower hf
  obtain ⟨hup, hup'⟩ := h'.upper hf hfinite
  -- Both lie in one midpoint, which two neighbours would have to share as even ranks.
  have hle := f.midpoint_strictMono.monotone (show rank' ≤ k by omega)
  have hmid : f.midpoint rank' = f.midpoint k := by linarith
  obtain rfl := f.midpoint_strictMono.injective hmid
  have heven := hup' (by linarith)
  have heven' := hlow' (by linarith)
  rw [Nat.even_iff] at heven heven'
  omega

theorem unique (hf : f.Proper) {rank' : Nat} (h : f.RoundsTo q rank) (h' : f.RoundsTo q rank') :
    rank = rank' :=
  (h.mono hf h' le_rfl).antisymm (h'.mono hf h le_rfl)

theorem of_value (hf : f.Proper) (h : rank ≤ f.infinity) : f.RoundsTo (f.value rank) rank := by
  refine .of_midpoints hf h ?_ fun _ => ?_
  · rintro k rfl
    have hlt := f.midpoint_lt_value k
    exact ⟨hlt.le, fun heq => absurd heq hlt.ne⟩
  · have hlt := f.value_lt_midpoint rank
    exact ⟨hlt.le, fun heq => absurd heq hlt.ne⟩

theorem eq_of_midpoint (hf : f.Proper) {k : Nat} (hk : k < f.infinity)
    (h : f.RoundsTo (f.midpoint k) rank) : rank = k + k % 2 := by
  have hle := (of_value hf hk.le).mono hf h (f.value_lt_midpoint k).le
  have hle' := h.mono hf (of_value hf hk) (f.midpoint_lt_value k).le
  rcases Nat.eq_or_lt_of_le hle with rfl | hlt
  · have heven := (h.upper hf hk).2 rfl
    rw [Nat.even_iff] at heven
    omega
  · obtain rfl : rank = k + 1 := by omega
    have heven := (h.lower hf).2 rfl
    rw [Nat.even_iff] at heven
    omega

end RoundsTo

/-!
The rounding of fractions.
-/

section

variable (hf : f.Proper) {n d : Nat} (hd : 0 < d)

include hf hd

theorem even_nearest_of_tie (hn : 0 < n) {rank : Nat} (hne : rank ≠ f.nearest n d)
    (htie : |f.value rank - n / d| = |f.value (f.nearest n d) - n / d|) :
    Even (f.nearest n d) := by
  have hpos : (0 : ℚ) < 2 ^ f.lastPlace n d := by positivity
  have hgrid : f.lastPlace n d ≤ f.exponent rank := by
    by_contra h
    exact (f.abs_nearest_lt_of_exponent hn hd (not_le.mp h)).ne htie.symm
  obtain ⟨j, hj⟩ := f.exists_multiple hgrid
  have hunits := f.value_nearest hn hd
  have hne' : j ≠ f.units n d := by
    rintro rfl
    exact hne (f.value_strictMono.injective (hj.trans hunits.symm))
  rw [hj, hunits, abs_multiple_sub _ _ hpos, abs_multiple_sub _ _ hpos,
    mul_left_inj' hpos.ne'] at htie
  -- Two integers are equally near only to the middle between them.
  have hhalf : |(f.units n d : ℚ) - n / d / 2 ^ f.lastPlace n d| = 1 / 2 := by
    have hle := f.abs_units_sub_le hd n
    have hstep : (1 : ℚ) ≤ |(j : ℚ) - f.units n d| := by
      exact_mod_cast Int.one_le_abs (show (j : Int) - f.units n d ≠ 0 by omega)
    have htriangle := abs_sub_le (j : ℚ) (n / d / 2 ^ f.lastPlace n d) (f.units n d)
    rw [abs_sub_comm (n / d / 2 ^ f.lastPlace n d : ℚ)] at htriangle
    linarith
  rw [← scaled_eq hd n] at hhalf
  have heven : Even (f.units n d) := even_roundDiv (Nat.mul_pos hd (Nat.two_pow_pos _)) hhalf
  exact (hf.even_two_pow.mul_left _).add heven

/-- The rounding of a fraction is the nearest magnitude. -/
theorem roundsTo_round : f.RoundsTo (n / d) (f.round n d) := by
  rcases Nat.eq_zero_or_pos n with rfl | hn
  · have hzero := RoundsTo.of_value hf (Nat.zero_le f.infinity)
    rw [f.value_zero] at hzero
    simpa [round] using hzero
  have hlower {k : Nat} (hk : k + 1 = f.nearest n d) :
      f.midpoint k ≤ n / d ∧ (f.midpoint k = n / d → Even (f.nearest n d)) := by
    have hlt := f.value_strictMono (Nat.lt_succ_self k)
    have hle := f.abs_nearest_le hn hd k
    have htie := even_nearest_of_tie hf hd hn (show k ≠ f.nearest n d by omega)
    rw [← hk] at hle htie ⊢
    exact ⟨(abs_sub_ge_abs_sub_iff hlt).mp hle,
      fun heq => htie ((abs_sub_eq_abs_sub_iff hlt).mpr heq.symm)⟩
  have hupper : (n : ℚ) / d ≤ f.midpoint (f.nearest n d) ∧
      ((n : ℚ) / d = f.midpoint (f.nearest n d) → Even (f.nearest n d)) := by
    have hlt := f.value_strictMono (Nat.lt_succ_self (f.nearest n d))
    have htie := even_nearest_of_tie hf hd hn (Nat.succ_ne_self (f.nearest n d))
    exact ⟨(abs_sub_le_abs_sub_iff hlt).mp (f.abs_nearest_le hn hd _),
      fun heq => htie ((abs_sub_eq_abs_sub_iff hlt).mpr heq).symm⟩
  rw [f.round_eq_min hn]
  rcases Nat.lt_or_ge (f.nearest n d) f.infinity with hlt | hge
  · rw [Nat.min_eq_right hlt.le]
    exact .of_midpoints hf hlt.le (fun _ => hlower) fun _ => hupper
  · rw [Nat.min_eq_left hge]
    refine .of_midpoints hf le_rfl ?_ fun h => absurd h (lt_irrefl _)
    intro k hk
    obtain ⟨m, hm⟩ : ∃ m, m + 1 = f.nearest n d := ⟨f.nearest n d - 1, by omega⟩
    have hle := f.midpoint_strictMono.monotone (show k ≤ m by omega)
    exact ⟨hle.trans (hlower hm).1, fun _ => hf.even_infinity⟩

end

/-!
Rounding to a finer format first.
-/

section

variable {g : Format}

/-- Whether a format has all magnitudes of another one, and those in the middle between them. -/
structure Refines (g f : Format) : Prop where
  embeds : f.Embeds g
  fractionBits_lt : f.fractionBits < g.fractionBits
  minExp_lt : g.minExp < f.minExp

theorem double_refines_single : Refines .double .single where
  embeds := single_embeds_double
  fractionBits_lt := by decide
  minExp_lt := by decide

theorem Refines.exists_midpoint (h : g.Refines f) {rank : Nat} (hrank : rank < f.infinity) :
    ∃ k < g.infinity, g.value k = f.midpoint rank := by
  obtain ⟨-, hsignificand, -⟩ := f.rank_eq rank
  have hbits : 2 ^ (f.fractionBits + 2) ≤ 2 ^ (g.fractionBits + 1) :=
    Nat.pow_le_pow_right (by decide) (by have := h.fractionBits_lt; omega)
  have hexp : g.minExp ≤ f.exponent rank - 1 := by
    have := h.minExp_lt
    rw [exponent]
    omega
  have hm : 2 * f.significand rank + 1 ≤ 2 ^ (g.fractionBits + 1) := by
    rw [Nat.pow_succ] at hsignificand hbits
    rw [Nat.pow_succ] at hbits
    omega
  obtain ⟨k, hk⟩ := g.exists_rank hm hexp
  have hmid : g.value k = f.midpoint rank := by
    rw [hk, midpoint, value_succ, value, zpow_sub_one₀ two_ne_zero]
    push_cast
    ring
  refine ⟨k, ?_, hmid⟩
  rw [← g.value_strictMono.lt_iff_lt, hmid]
  calc f.midpoint rank < f.value (rank + 1) := f.midpoint_lt_value rank
    _ ≤ f.value f.infinity := f.value_strictMono.monotone hrank
    _ ≤ g.value g.infinity := h.embeds.infinity_le

variable (hf : f.Proper) (hg : g.Proper) (h : g.Refines f) {q : ℚ} {fine rank : Nat}

include hf hg h

/--
A number that is rounded to the finer format first is still rounded to the nearest magnitude, unless
the first step moves it to a midpoint from the side of the odd neighbour.
-/
theorem RoundsTo.of_finer_iff (hfine : g.RoundsTo q fine) (hrank : f.RoundsTo (g.value fine) rank) :
    f.RoundsTo q rank ↔ ∀ k < f.infinity, g.value fine = f.midpoint k →
      q = f.midpoint k ∨ q < f.midpoint k ∧ Even k ∨ f.midpoint k < q ∧ ¬Even k := by
  -- The first step does not move a number across a midpoint, and leaves those in it there.
  have hside {k : Nat} (hk : k < f.infinity) :
      (q ≤ f.midpoint k → g.value fine ≤ f.midpoint k) ∧
        (f.midpoint k ≤ q → f.midpoint k ≤ g.value fine) := by
    obtain ⟨m, hm, hvalue⟩ := h.exists_midpoint hk
    have hfixed := RoundsTo.of_value hg hm.le
    rw [← hvalue]
    exact ⟨fun hq => g.value_strictMono.monotone (hfine.mono hg hfixed hq),
      fun hq => g.value_strictMono.monotone (hfixed.mono hg hfine hq)⟩
  constructor
  · intro hq k hk hmid
    rw [hmid] at hrank
    have heq := hrank.eq_of_midpoint hf hk
    rcases lt_trichotomy q (f.midpoint k) with hlt | heq | hgt
    · refine .inr (.inl ⟨hlt, ?_⟩)
      by_contra hodd
      rw [Nat.not_even_iff] at hodd
      obtain rfl : rank = k + 1 := by omega
      exact absurd (hq.lower hf).1 (not_le.mpr hlt)
    · exact .inl heq
    · refine .inr (.inr ⟨hgt, fun heven => ?_⟩)
      rw [Nat.even_iff] at heven
      obtain rfl : rank = k := by omega
      exact absurd (hq.upper hf hk).1 (not_le.mpr hgt)
  · intro hall
    refine .of_midpoints hf hrank.le_infinity ?_ fun hlt => ?_
    · rintro k rfl
      have hk : k < f.infinity := hrank.le_infinity
      obtain ⟨hlow, hlow'⟩ := hrank.lower hf
      have hle : f.midpoint k ≤ q := by
        by_contra hgt
        have hmid := ((hside hk).1 (not_le.mp hgt).le).antisymm hlow
        have heven := hlow' hmid.symm
        rw [Nat.even_add_one] at heven
        rcases hall k hk hmid with heq | ⟨-, hk'⟩ | ⟨hlt, -⟩
        · exact hgt heq.ge
        · exact heven hk'
        · exact hgt hlt.le
      refine ⟨hle, fun heq => hlow' (((hside hk).2 hle).antisymm ?_)⟩
      exact (hside hk).1 heq.ge
    · obtain ⟨hup, hup'⟩ := hrank.upper hf hlt
      have hle : q ≤ f.midpoint rank := by
        by_contra hgt
        have hmid := hup.antisymm ((hside hlt).2 (not_le.mp hgt).le)
        have heven := hup' hmid
        rcases hall rank hlt hmid with heq | ⟨hlt, -⟩ | ⟨-, hodd⟩
        · exact hgt heq.le
        · exact hgt hlt.le
        · exact hodd heven
      refine ⟨hle, fun heq => hup' (((hside hlt).1 hle).antisymm ?_)⟩
      exact (hside hlt).2 heq.ge

end

end Format

/-!
Numbers with a sign.
-/

namespace Binary

variable {f g : Format}

/--
The number that `x` stands for. An infinity is taken for the power of two behind the greatest finite
magnitude, a NaN for zero.
-/
def value : Binary f → ℚ
  | .nan _ => 0
  | .number s r => if s then -f.value r else f.value r

theorem abs_value_number (s : Bool) (r : Fin (f.infinity + 1)) :
    |(number s r : Binary f).value| = f.value r := by
  have hnonneg := f.value_nonneg r
  rw [value]
  split
  · rw [abs_neg, abs_of_nonneg hnonneg]
  · rw [abs_of_nonneg hnonneg]

/-- Whether `x` is what `q` is rounded to. A zero may have either sign if `q` is zero. -/
def IsNearest (q : ℚ) : Binary f → Prop
  | .nan _ => False
  | .number s r => f.RoundsTo |q| r ∧ (q < 0 → s = true) ∧ (0 < q → s = false)

def Le (x y : Binary f) : Prop :=
  ∃ a b, x.place = some a ∧ y.place = some b ∧ a ≤ b

theorem IsNearest.neg {x : Binary f} {q : ℚ} (h : x.IsNearest q) : (-x).IsNearest (-q) := by
  cases x with
  | nan s => exact h
  | number s r =>
    obtain ⟨hround, hneg, hpos⟩ := h
    refine ⟨by rwa [abs_neg], fun hq => ?_, fun hq => ?_⟩
    · rw [hpos (by linarith)]
      rfl
    · rw [hneg (by linarith)]
      rfl

theorem isNearest_ofFraction (hf : f.Proper) {negative : Bool} {n d : Nat} (hd : 0 < d) {q : ℚ}
    (hq : |q| = n / d) (hneg : q < 0 → negative = true) (hpos : 0 < q → negative = false) :
    (ofFraction negative n d : Binary f).IsNearest q := by
  refine ⟨?_, hneg, hpos⟩
  rw [hq]
  exact Format.roundsTo_round hf hd

theorem isNearest_convert (hg : g.Proper) {x : Binary f} (hnan : x.isNan = false)
    (hinf : x.isInfinite = false) : (x.convert : Binary g).IsNearest x.value := by
  cases x with
  | nan s => cases hnan
  | number s r =>
    have hne : r.val ≠ f.infinity := by simpa [isInfinite] using hinf
    have hnonneg := f.value_nonneg r
    rw [convert, if_neg hne]
    apply isNearest_ofFraction hg (f.denominator_pos r)
    · rw [← f.value_eq_div, abs_value_number]
    · intro hq
      cases s with
      | true => rfl
      | false => exact absurd hq (not_lt.mpr hnonneg)
    · intro hq
      cases s with
      | true => exact absurd hq (not_lt.mpr (neg_nonpos.mpr hnonneg))
      | false => rfl

theorem IsNearest.le (hf : f.Proper) {x y : Binary f} {p q : ℚ} (hx : x.IsNearest p)
    (hy : y.IsNearest q) (h : p ≤ q) : x.Le y := by
  cases x with
  | nan s => exact hx.elim
  | number s r =>
    cases y with
    | nan s' => exact hy.elim
    | number s' r' =>
      obtain ⟨hx, hxneg, hxpos⟩ := hx
      obtain ⟨hy, hyneg, hypos⟩ := hy
      have hzero {q : ℚ} {r : Nat} (hq : q = 0) (h : f.RoundsTo |q| r) : r = 0 := by
        rw [hq, abs_zero, ← f.value_zero] at h
        exact h.unique hf (.of_value hf (Nat.zero_le _))
      cases s with
      | false =>
        have hp : 0 ≤ p := by
          by_contra hp
          cases hxneg (not_le.mp hp)
        cases s' with
        | false =>
          rw [abs_of_nonneg hp] at hx
          rw [abs_of_nonneg (hp.trans h)] at hy
          exact ⟨_, _, rfl, rfl, Int.ofNat_le.mpr (hx.mono hf hy h)⟩
        | true =>
          have hq : q ≤ 0 := by
            by_contra hq
            cases hypos (not_le.mp hq)
          refine ⟨_, _, rfl, rfl, ?_⟩
          rw [hzero (by linarith) hx, hzero (by linarith) hy]
          simp
      | true =>
        cases s' with
        | false =>
          refine ⟨_, _, rfl, rfl, ?_⟩
          omega
        | true =>
          have hq : q ≤ 0 := by
            by_contra hq
            cases hypos (not_le.mp hq)
          rw [abs_of_nonpos (h.trans hq)] at hx
          rw [abs_of_nonpos hq] at hy
          have hle := hy.mono hf hx (by linarith)
          refine ⟨_, _, rfl, rfl, ?_⟩
          omega

def convertRank (f g : Format) (rank : Nat) : Nat :=
  if rank = f.infinity then g.infinity else g.round (f.numerator rank) (f.denominator rank)

theorem exists_convert (s : Bool) (r : Fin (f.infinity + 1)) :
    ∃ r', ((number s r).convert : Binary g) = number s r' ∧ r'.val = convertRank f g r := by
  rw [convert, convertRank]
  split
  · exact ⟨_, rfl, rfl⟩
  · exact ⟨_, rfl, rfl⟩

theorem convertRank_zero (hf : f.Proper) : convertRank f g 0 = 0 := by
  have hzero : f.numerator 0 = 0 := by simp [Format.numerator, Format.significand]
  rw [convertRank, if_neg hf.infinity_pos.ne, hzero, Format.round, if_pos rfl]

theorem convertRank_mono (hg : g.Proper) {r r' : Nat} (h : r ≤ r') (hr' : r' ≤ f.infinity) :
    convertRank f g r ≤ convertRank f g r' := by
  have hround {k : Nat} := Format.roundsTo_round hg (n := f.numerator k) (f.denominator_pos k)
  simp only [← f.value_eq_div] at hround
  rw [convertRank, convertRank]
  split
  · rw [if_pos (by omega)]
  · split
    · exact g.round_le_infinity ..
    · exact hround.mono hg hround (f.value_strictMono.monotone h)

theorem Le.convert (hf : f.Proper) (hg : g.Proper) {x y : Binary f} (h : x.Le y) :
    (x.convert : Binary g).Le y.convert := by
  obtain ⟨a, b, hx, hy, hab⟩ := h
  cases x with
  | nan s => cases hx
  | number s r =>
    cases y with
    | nan s' => cases hy
    | number s' r' =>
      obtain ⟨k, hk, hrank⟩ := exists_convert (g := g) s r
      obtain ⟨k', hk', hrank'⟩ := exists_convert (g := g) s' r'
      have hmono (hle : r.val ≤ r'.val) : k.val ≤ k'.val := by
        rw [hrank, hrank']
        exact convertRank_mono hg hle (by omega)
      have hmono' (hle : r'.val ≤ r.val) : k'.val ≤ k.val := by
        rw [hrank, hrank']
        exact convertRank_mono hg hle (by omega)
      rw [hk, hk']
      cases s <;> cases s' <;> cases hx <;> cases hy
      · exact ⟨_, _, rfl, rfl, by omega⟩
      · have hr : r.val = 0 ∧ r'.val = 0 := by omega
        rw [hr.1, convertRank_zero hf] at hrank
        rw [hr.2, convertRank_zero hf] at hrank'
        exact ⟨_, _, rfl, rfl, by omega⟩
      · exact ⟨_, _, rfl, rfl, by omega⟩
      · exact ⟨_, _, rfl, rfl, by omega⟩

/--
Whether `y` lies in the middle between two neighbours of a format and `q` does not, but on the side
of the odd neighbour: then the even one is taken for `y`, and the odd one is nearest to `q`.
-/
def Misleads (f : Format) (q : ℚ) (y : Binary g) : Prop :=
  ∃ rank < f.infinity, |y.value| = f.midpoint rank ∧
    (|q| < f.midpoint rank ∧ ¬Even (f.significand rank) ∨
      f.midpoint rank < |q| ∧ Even (f.significand rank))

theorem roundsTo_convertRank (hf : f.Proper) (h : f.Embeds g) (rank : Nat) :
    f.RoundsTo (g.value rank) (convertRank g f rank) := by
  rw [convertRank]
  split
  · next hrank =>
    rw [hrank]
    refine .of_midpoints hf le_rfl ?_ fun hlt => absurd hlt (lt_irrefl _)
    rintro k hk
    have hlt := f.midpoint_lt_value k
    rw [hk] at hlt
    exact ⟨hlt.le.trans h.infinity_le, fun _ => hf.even_infinity⟩
  · rw [g.value_eq_div]
    exact Format.roundsTo_round hf (g.denominator_pos rank)

/-- Rounding to a finer format first gives the nearest number unless it misleads. -/
theorem isNearest_convert_iff (hf : f.Proper) (hg : g.Proper) (h : g.Refines f) {q : ℚ}
    {y : Binary g} (hy : y.IsNearest q) :
    (y.convert : Binary f).IsNearest q ↔ ¬y.Misleads f q := by
  cases y with
  | nan s => exact hy.elim
  | number s r =>
    obtain ⟨hround, hneg, hpos⟩ := hy
    obtain ⟨k, hk, hrank⟩ := exists_convert (g := f) s r
    have hiff := hround.of_finer_iff hf hg h (roundsTo_convertRank hf h.embeds r)
    have hsides : (number s k : Binary f).IsNearest q ↔ f.RoundsTo |q| (convertRank g f r) := by
      rw [← hrank]
      exact ⟨fun h => h.1, fun h => ⟨h, hneg, hpos⟩⟩
    rw [hk, hsides, hiff, Misleads, abs_value_number]
    simp only [hf.even_significand]
    constructor
    · rintro hall ⟨rank, hlt, hmid, hside⟩
      rcases hall rank hlt hmid with heq | ⟨hq, heven⟩ | ⟨hq, hodd⟩ <;>
        rcases hside with ⟨hq', hodd'⟩ | ⟨hq', heven'⟩
      · exact absurd heq hq'.ne
      · exact absurd heq hq'.ne'
      · exact hodd' heven
      · exact lt_asymm hq hq'
      · exact lt_asymm hq hq'
      · exact hodd heven'
    · intro hnone rank hlt hmid
      rcases lt_trichotomy |q| (f.midpoint rank) with hq | hq | hq
      · refine .inr (.inl ⟨hq, ?_⟩)
        by_contra hodd
        exact hnone ⟨rank, hlt, hmid, .inl ⟨hq, hodd⟩⟩
      · exact .inl hq
      · exact .inr (.inr ⟨hq, fun heven => hnone ⟨rank, hlt, hmid, .inr ⟨hq, heven⟩⟩⟩)

end Binary

end ShaderParams
