import Mathlib.Tactic.NormNum
import ShaderParams.Proofs.Nearest

/-!
This module contains the rounding of doubles to single precision: it goes to the nearest single,
of two equally near ones to that of the even significand, and to infinity from half a last place
behind the greatest single on.
-/

namespace ShaderParams

-- Powers of natural numbers are the built-in ones, whatever other instances are in scope.
attribute [local instance (2000)] instPowNat

namespace Binary

variable {f g : Format}

def IsFinite (x : Binary f) : Prop :=
  x.isNan = false ∧ x.isInfinite = false

instance (x : Binary f) : Decidable x.IsFinite :=
  inferInstanceAs (Decidable (_ ∧ _))

def significand : Binary f → Nat
  | .nan _ => 0
  | .number _ r => f.significand r

theorem isFinite_number (s : Bool) (r : Fin (f.infinity + 1)) :
    (number s r : Binary f).IsFinite ↔ r.val < f.infinity := by
  have hle := r.isLt
  simp only [IsFinite, isNan, isInfinite, true_and, beq_eq_false_iff_ne]
  omega

/--
What a number past no threshold is rounded to: a finite number that is nearest to `q`, with an even
significand if another one is equally near.
-/
structure NearestTo (q : ℚ) (x : Binary f) : Prop where
  finite : x.IsFinite
  nearest : ∀ y : Binary f, y.IsFinite → |x.value - q| ≤ |y.value - q|
  even : ∀ y : Binary f, y.IsFinite → y.value ≠ x.value → |y.value - q| = |x.value - q| →
    Even x.significand

theorem abs_value_sub {s : Bool} {r : Fin (f.infinity + 1)} {q : ℚ} (hneg : q < 0 → s = true)
    (hpos : 0 < q → s = false) : |(number s r : Binary f).value - q| = |f.value r - (|q|)| := by
  rcases lt_trichotomy q 0 with hq | rfl | hq
  · rw [hneg hq, value, if_pos rfl, abs_of_neg hq, ← abs_neg]
    congr 1
    ring
  · rw [sub_zero, abs_zero, sub_zero, abs_value_number, abs_of_nonneg (f.value_nonneg r)]
  · rw [hpos hq, value, if_neg (by decide), abs_of_pos hq]

/-- The nearest magnitude with the sign of `q` is nearest among the numbers of either sign. -/
theorem IsNearest.nearestTo (hf : f.Proper) {x : Binary f} {q : ℚ} (h : x.IsNearest q)
    (hq : |q| < f.overflow) : x.NearestTo q := by
  cases x with
  | nan s => exact h.elim
  | number s r =>
    obtain ⟨hround, hneg, hpos⟩ := h
    have hdist := abs_value_sub (r := r) hneg hpos
    have hfar (y : Binary f) : |(|y.value|) - (|q|)| ≤ |y.value - q| := abs_abs_sub_abs_le y.value q
    have hfinite {y : Binary f} (hy : y.IsFinite) :
        ∃ k < f.infinity, |y.value| = f.value k := by
      cases y with
      | nan s' => cases hy.1
      | number s' r' => exact ⟨r', (isFinite_number s' r').mp hy, abs_value_number s' r'⟩
    refine ⟨(isFinite_number s r).mpr (hround.finite hq), fun y hy => ?_, fun y hy hne htie => ?_⟩
    · obtain ⟨k, hk, hvalue⟩ := hfinite hy
      have hle := hfar y
      rw [hvalue] at hle
      rw [hdist]
      exact (hround.nearest hq k hk).trans hle
    · obtain ⟨k, hk, hvalue⟩ := hfinite hy
      have hle := hfar y
      rw [hvalue, htie, hdist] at hle
      have htie' := hle.antisymm (hround.nearest hq k hk)
      rcases eq_or_ne k r with rfl | hkr
      · -- The opposite number is as near only to zero, and then both are zero.
        have hopposite : y.value = -(number s r : Binary f).value := by
          rw [← abs_value_number s r, abs_eq_abs] at hvalue
          exact hvalue.resolve_left hne
        obtain rfl : q = 0 := by
          rcases abs_eq_abs.mp htie with heq | heq
          · exact absurd (by linarith) hne
          · linarith
        rw [abs_zero, ← f.value_zero] at hround
        have hzero := hround.unique hf (.of_value hf (Nat.zero_le _))
        have hx : (number s r : Binary f).value = 0 := by simp [value, hzero]
        exact absurd (by rw [hopposite, hx, neg_zero]) hne
      · exact hround.even hq k hk hkr htie'

end Binary

namespace Format

theorem overflow_single : Format.single.overflow = 2 ^ 128 - 2 ^ 103 := by
  have hvalue : Format.single.value Format.single.infinity = 2 ^ 128 := by
    rw [value_infinity _ (by decide)]
    norm_num [single]
  have hsucc := Format.single.value_succ (Format.single.infinity - 1)
  have hexp : Format.single.exponent (Format.single.infinity - 1) = 104 := by decide +kernel
  rw [Nat.sub_add_cancel proper_single.infinity_pos, hvalue, hexp] at hsucc
  rw [overflow, midpoint, Nat.sub_add_cancel proper_single.infinity_pos, hvalue]
  norm_num at hsucc ⊢
  linarith

end Format

namespace Binary

variable {f g : Format}

theorem exists_convert_of_embeds (h : f.Embeds g) (s : Bool) {r : Fin (f.infinity + 1)}
    (hr : r.val < f.infinity) :
    ∃ r' : Fin (g.infinity + 1), ((number s r).convert : Binary g) = number s r' ∧
      r'.val < g.infinity ∧ g.value r' = f.value r := by
  obtain ⟨k, hk, hround, hvalue⟩ := h.exists_round hr
  refine ⟨⟨k, by omega⟩, ?_, hk, hvalue⟩
  rw [convert, if_neg hr.ne, ofFraction]
  simp only [hround]

theorem value_convert (h : f.Embeds g) {x : Binary f} (hx : x.IsFinite) :
    (x.convert : Binary g).IsFinite ∧ (x.convert : Binary g).value = x.value := by
  cases x with
  | nan s => cases hx.1
  | number s r =>
    obtain ⟨r', hr', hlt, hvalue⟩ := exists_convert_of_embeds h s ((isFinite_number s r).mp hx)
    rw [hr', isFinite_number, value, value, hvalue]
    exact ⟨hlt, rfl⟩

theorem eq_of_value {x y : Binary f} (hx : x.isNan = false) (hy : y.isNan = false)
    (hsign : x.negative = y.negative) (h : |x.value| = |y.value|) : x = y := by
  cases x with
  | nan s => cases hx
  | number s r =>
    cases y with
    | nan s' => cases hy
    | number s' r' =>
      rw [abs_value_number, abs_value_number] at h
      have hrank := f.value_strictMono.injective h
      rw [show s = s' from hsign, Fin.ext hrank]

theorem convert_neg (x : Binary f) : ((-x).convert : Binary g) = -x.convert := by
  cases x with
  | nan s => rfl
  | number s r =>
    change ((number (!s) r).convert : Binary g) = -((number s r).convert)
    rw [convert, convert]
    split <;> rfl

theorem isInfinite_of_isNearest {x : Binary f} {q : ℚ} (h : x.IsNearest q) :
    x.isInfinite ↔ f.overflow ≤ |q| := by
  cases x with
  | nan s => exact h.elim
  | number s r =>
    rw [isInfinite, beq_iff_eq]
    refine ⟨fun hr => ?_, h.1.infinite⟩
    by_contra hlt
    exact (h.1.finite (not_le.mp hlt)).ne hr

end Binary

namespace Double

variable {x : Double}

theorem toSingle_of_isNan (h : x.isNan) : x.toSingle = x := by
  cases x with
  | nan s => rfl
  | number s r => cases h

theorem toSingle_of_isInfinite (h : x.isInfinite) : x.toSingle = x := by
  cases x with
  | nan s => cases h
  | number s r =>
    rw [Binary.isInfinite, beq_iff_eq] at h
    rw [toSingle, Binary.convert, if_pos h, Binary.infinite, Binary.convert, if_pos rfl,
      Binary.infinite]
    congr
    exact h.symm

theorem isNearest_convert (h : x.IsFinite) : (x.convert : Single).IsNearest x.value :=
  Binary.isNearest_convert Format.proper_single h.1 h.2

theorem isInfinite_toSingle_iff (h : x.IsFinite) :
    x.toSingle.isInfinite ↔ Format.single.overflow ≤ |x.value| := by
  rw [isInfinite_toSingle, Binary.isInfinite_of_isNearest (isNearest_convert h)]

theorem exists_nearestTo (h : x.IsFinite) (hx : |x.value| < Format.single.overflow) :
    ∃ s : Single, s.NearestTo x.value ∧ x.toSingle.IsFinite ∧ x.toSingle.value = s.value := by
  have hnearest := (isNearest_convert h).nearestTo Format.proper_single hx
  exact ⟨_, hnearest, Binary.value_convert Format.single_embeds_double hnearest.finite⟩

theorem toSingle_of_value {s : Single} (h : x.IsFinite) (hs : s.IsFinite)
    (hvalue : s.value = x.value) : x.toSingle = x := by
  cases s with
  | nan s => cases hs.1
  | number s r =>
    have hr := (Binary.isFinite_number s r).mp hs
    obtain hnearest := isNearest_convert h
    rw [← hvalue] at hnearest
    rw [toSingle]
    cases hc : (x.convert : Single) with
    | nan s' =>
      rw [hc] at hnearest
      exact hnearest.elim
    | number s' r' =>
      rw [hc] at hnearest
      have hround := hnearest.1
      rw [Binary.abs_value_number] at hround
      have hrank := hround.unique Format.proper_single (.of_value Format.proper_single hr.le)
      have hfinite : (Binary.number s' r' : Single).IsFinite := by
        rw [Binary.isFinite_number, hrank]
        exact hr
      obtain ⟨hback, hback'⟩ := Binary.value_convert Format.single_embeds_double hfinite
      have hsign : (Binary.number s' r' : Single).negative = x.negative := by
        rw [← hc, Binary.negative_convert]
      refine Binary.eq_of_value hback.1 h.1 ?_ ?_
      · rw [Binary.negative_convert, hsign]
      · rw [hback', Binary.abs_value_number, hrank, ← hvalue, Binary.abs_value_number]

theorem toSingle_eq_self_iff :
    x.toSingle = x ↔ x.isNan ∨ x.isInfinite ∨ ∃ s : Single, s.IsFinite ∧ s.value = x.value := by
  cases hnan : x.isNan with
  | true => simp [toSingle_of_isNan hnan]
  | false =>
    cases hinf : x.isInfinite with
    | true => simp [toSingle_of_isInfinite hinf]
    | false =>
      simp only [Bool.false_eq_true, false_or]
      constructor
      · intro heq
        have hfinite : (x.convert : Single).IsFinite := by
          rw [Binary.IsFinite, ← isInfinite_toSingle, Binary.isNan_convert, heq]
          exact ⟨hnan, hinf⟩
        refine ⟨_, hfinite, ?_⟩
        rw [← (Binary.value_convert Format.single_embeds_double hfinite).2, ← toSingle, heq]
      · rintro ⟨s, hs, hvalue⟩
        exact toSingle_of_value ⟨hnan, hinf⟩ hs hvalue

theorem toSingle_neg (x : Double) : (-x).toSingle = -x.toSingle := by
  rw [toSingle, toSingle, Binary.convert_neg, Binary.convert_neg]

/--
The conversion to single precision is rounding to the nearest single with ties to the even
significand. It keeps signs, order and what is equal to a single.
-/
theorem toSingle_rounds (x : Double) :
    (x.isNan → x.toSingle.isNan) ∧ (x.isInfinite → x.toSingle = x) ∧
      (x.IsFinite → x.toSingle.isNan = false ∧ x.toSingle.negative = x.negative ∧
        (x.toSingle.isInfinite ↔ 2 ^ 128 - 2 ^ 103 ≤ |x.value|) ∧
        (|x.value| < 2 ^ 128 - 2 ^ 103 → ∃ s : Single, s.NearestTo x.value ∧
          x.toSingle.IsFinite ∧ x.toSingle.value = s.value)) ∧
      x.toSingle.toSingle = x.toSingle ∧
      (∀ y : Double, x.Le y → x.toSingle.Le y.toSingle) ∧
      (-x).toSingle = -x.toSingle ∧
      (x.toSingle = x ↔
        x.isNan ∨ x.isInfinite ∨ ∃ s : Single, s.IsFinite ∧ s.value = x.value) := by
  refine ⟨fun h => ?_, toSingle_of_isInfinite, fun h => ?_, toSingle_toSingle x, fun y hle => ?_,
    toSingle_neg x, toSingle_eq_self_iff⟩
  · rw [isNan_toSingle, h]
  · rw [← Format.overflow_single]
    exact ⟨by rw [isNan_toSingle, h.1], negative_toSingle x, isInfinite_toSingle_iff h,
      exists_nearestTo h⟩
  · exact (hle.convert Format.proper_double Format.proper_single).convert Format.proper_single
      Format.proper_double

/-- The middle between one and the next single goes to one, which has the even significand. -/
example : toSingle (.ofBits .double 0x3ff0000010000000) = .one := by
  decide +kernel

end Double

end ShaderParams
