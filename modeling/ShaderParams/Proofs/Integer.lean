import Mathlib.Data.Int.ModEq
import Mathlib.Data.Rat.Floor
import ShaderParams.Number.Cast
import ShaderParams.Proofs.Nearest

/-!
This module contains the conversion of numbers to the integer types: integers wrap around to the
only congruent one of the range, and floating point numbers lose their fraction and are moved into
the range.
-/

namespace ShaderParams

theorem NumericType.range?_i32 : i32.range? = some .i32 := rfl

theorem NumericType.range?_u32 : u32.range? = some .u32 := rfl

namespace IntegerRange

instance : Membership Int IntegerRange := ⟨fun r n => r.low ≤ n ∧ n ≤ r.high⟩

instance (r : IntegerRange) (n : Int) : Decidable (n ∈ r) :=
  inferInstanceAs (Decidable (r.low ≤ n ∧ n ≤ r.high))

def size (r : IntegerRange) : Int :=
  r.high - r.low + 1

variable {r : IntegerRange} {m n : Int}

theorem mem_iff : n ∈ r ↔ r.low ≤ n ∧ n ≤ r.high := Iff.rfl

/-- The integer of a range that is congruent to `n` modulo the size of the range. -/
def residue (r : IntegerRange) (n : Int) : Int :=
  r.low + (n - r.low) % r.size

theorem residue_mem (h : r.low ≤ r.high) (n : Int) : r.residue n ∈ r := by
  have h1 := Int.emod_nonneg (n - r.low) (b := r.size) (by rw [size]; omega)
  have h2 := Int.emod_lt_of_pos (n - r.low) (b := r.size) (by rw [size]; omega)
  rw [mem_iff, residue]
  rw [size] at h1 h2 ⊢
  omega

theorem residue_modEq (r : IntegerRange) (n : Int) : r.residue n ≡ n [ZMOD r.size] := by
  have hmod : r.residue n ≡ r.low + (n - r.low) [ZMOD r.size] :=
    (Int.mod_modEq (n - r.low) r.size).add_left r.low
  rwa [add_sub_cancel] at hmod

theorem eq_of_modEq (hm : m ∈ r) (hn : n ∈ r) (h : m ≡ n [ZMOD r.size]) : m = n := by
  rw [mem_iff] at hm hn
  have hmod : (m - r.low) % r.size = (n - r.low) % r.size := h.sub_right r.low
  rw [size] at hmod
  rwa [Int.emod_eq_of_lt (by omega) (by omega), Int.emod_eq_of_lt (by omega) (by omega),
    sub_left_inj] at hmod

theorem eq_residue_iff (h : r.low ≤ r.high) :
    m = r.residue n ↔ m ∈ r ∧ m ≡ n [ZMOD r.size] := by
  constructor
  · rintro rfl
    exact ⟨residue_mem h n, r.residue_modEq n⟩
  · rintro ⟨hm, hmod⟩
    exact eq_of_modEq hm (residue_mem h n) (hmod.trans (r.residue_modEq n).symm)

theorem clamp_mono (r : IntegerRange) {i j : Int} (h : i ≤ j) : r.clamp i ≤ r.clamp j :=
  max_le_max_left _ (min_le_min_left _ h)

end IntegerRange

/-!
Cutting integers to 32 bits.
-/

theorem two_pow_sub_one_xor {w n : Nat} (h : n < 2 ^ w) : (2 ^ w - 1) ^^^ n = 2 ^ w - 1 - n := by
  have hnot := BitVec.toNat_not (x := BitVec.ofNatLT n h)
  rwa [← BitVec.allOnes_xor, BitVec.toNat_xor, BitVec.toNat_allOnes, BitVec.toNat_ofNatLT] at hnot

theorem maskBits_two_pow_sub_one (w : Nat) (n : Int) :
    (maskBits (2 ^ w - 1) n : Int) = n % 2 ^ w := by
  cases n with
  | ofNat n =>
    rw [maskBits, Nat.and_two_pow_sub_one_eq_mod]
    simp
  | negSucc n =>
    have hlt := Nat.mod_lt n (Nat.two_pow_pos w)
    have hpow : ((2 ^ w : Nat) : Int) = 2 ^ w := Nat.cast_pow 2 w
    rw [maskBits, Nat.and_two_pow_sub_one_eq_mod, two_pow_sub_one_xor hlt, ← hpow,
      Int.negSucc_emod n (by omega), ← Int.natCast_mod]
    omega

theorem NumericType.size_of_range? {target : NumericType} {r : IntegerRange}
    (h : target.range? = some r) : r.size = 2 ^ 32 := by
  cases target <;> cases h <;> rfl

theorem NumericType.wrap_eq {target : NumericType} {r : IntegerRange} (h : target.range? = some r)
    (n : Int) : target.wrap r n = r.residue n := by
  have hmask : (maskBits 0xffffffff n : Int) = n % 2 ^ 32 := maskBits_two_pow_sub_one 32 n
  rw [wrap, hmask, IntegerRange.residue, size_of_range? h]
  cases target <;> cases h
  · -- Only the signed target has integers below zero, the upper half of the 32 bits.
    simp only [IntegerRange.i32, true_and]
    split <;> omega
  · simp [IntegerRange.u32]

/-!
Numbers without their fraction.
-/

/-- The integer next to a number on the side of zero. -/
def towardZero (q : ℚ) : Int :=
  if 0 ≤ q then ⌊q⌋ else ⌈q⌉

theorem towardZero_mono {p q : ℚ} (h : p ≤ q) : towardZero p ≤ towardZero q := by
  rw [towardZero, towardZero]
  split
  · next hp =>
    rw [if_pos (hp.trans h)]
    exact Int.floor_le_floor h
  · next hp =>
    split
    · next hq => exact (Int.ceil_nonpos.mpr (not_le.mp hp).le).trans (Int.floor_nonneg.mpr hq)
    · exact Int.ceil_le_ceil h

@[simp]
theorem towardZero_intCast (n : Int) : towardZero n = n := by
  rw [towardZero, Int.floor_intCast, Int.ceil_intCast, ite_self]

theorem towardZero_neg (q : ℚ) : towardZero (-q) = -towardZero q := by
  rw [towardZero, towardZero, Int.ceil_neg, Int.floor_neg]
  rcases lt_trichotomy q 0 with hq | rfl | hq
  · rw [if_pos (by linarith), if_neg (by linarith)]
  · simp
  · rw [if_neg (by linarith), if_pos hq.le]

namespace Binary

variable {f : Format}

theorem truncate_eq (x : Binary f) : x.truncate = towardZero x.value := by
  cases x with
  | nan s => rfl
  | number s r =>
    have hnumber : towardZero (f.value r) = (f.numerator r / f.denominator r : Nat) := by
      rw [towardZero, if_pos (f.value_nonneg r), f.value_eq_div]
      exact Rat.floor_natCast_div_natCast _ _
    rw [truncate, value]
    split
    · rw [towardZero_neg, hnumber]
    · rw [hnumber]

theorem Le.value_le {x y : Binary f} (h : x.Le y) : x.value ≤ y.value := by
  obtain ⟨a, b, hx, hy, hab⟩ := h
  have hvalue {x : Binary f} {a : Int} (hx : x.place = some a) :
      x.value = if 0 ≤ a then f.value a.toNat else -f.value (-a).toNat := by
    cases x with
    | nan s => cases hx
    | number s r =>
      cases s with
      | false =>
        cases hx
        simp [value]
      | true =>
        cases hx
        rcases Nat.eq_zero_or_pos r with hr | hr
        · simp [value, hr]
        · rw [value, if_pos rfl, if_neg (by omega), Int.neg_neg, Int.toNat_natCast]
  have hmono := f.value_strictMono.monotone
  rw [hvalue hx, hvalue hy]
  split
  · next ha =>
    rw [if_pos (ha.trans hab)]
    exact hmono (by omega)
  · next ha =>
    split
    · exact (neg_nonpos.mpr (f.value_nonneg _)).trans (f.value_nonneg _)
    · exact neg_le_neg (hmono (by omega))

end Binary

/-!
Saturation.
-/

namespace IntegerRange

/-- A range that is not empty and whose integers have at most 32 bits. -/
structure Narrow (r : IntegerRange) : Prop where
  low_le_high : r.low ≤ r.high
  low : -2 ^ 32 ≤ r.low
  high : r.high ≤ 2 ^ 32

theorem narrow_i32 : Narrow .i32 := ⟨by decide, by decide, by decide⟩

theorem narrow_u32 : Narrow .u32 := ⟨by decide, by decide, by decide⟩

variable {r : IntegerRange} (hr : r.Narrow)

include hr

theorem clamp_of_high_le {n : Int} (h : r.high ≤ n) : r.clamp n = r.high := by
  rw [clamp, min_eq_left h, max_eq_right hr.low_le_high]

theorem clamp_of_le_low {n : Int} (h : n ≤ r.low) : r.clamp n = r.low := by
  rw [clamp, min_eq_right (h.trans hr.low_le_high), max_eq_left h]

omit hr in
theorem saturate_number (r : IntegerRange) (s : Bool) (k : Fin (Format.double.infinity + 1)) :
    r.saturate (.number s k) =
      if (Binary.number s k).isInfinite then
        if s then r.low else r.high
      else
        r.clamp (Binary.number s k).truncate :=
  rfl

/-- Infinities, taken for the powers of two that they stand for, lie outside of the range. -/
theorem saturate_eq {x : Double} (hnan : x.isNan = false) :
    r.saturate x = r.clamp (towardZero x.value) := by
  cases x with
  | nan s => cases hnan
  | number s k =>
    rw [saturate_number, Binary.truncate_eq]
    split
    · next hinf =>
      have hk : k.val = Format.double.infinity := beq_iff_eq.mp hinf
      have hpow : ((2 ^ 32 : Int) : ℚ) ≤ Format.double.value k := by
        rw [hk, Format.value_infinity _ (by decide), zpow_natCast, Int.cast_pow]
        exact pow_le_pow_right₀ (by norm_num) (by decide)
      have hle := towardZero_mono hpow
      rw [towardZero_intCast] at hle
      cases s with
      | false => exact (clamp_of_high_le hr (hr.high.trans hle)).symm
      | true =>
        refine (clamp_of_le_low hr (le_trans ?_ hr.low)).symm
        exact (towardZero_neg _).trans_le (neg_le_neg hle)
    · rfl

theorem saturate_mem (h : 0 ∈ r) (x : Double) : r.saturate x ∈ r := by
  cases hnan : x.isNan with
  | true =>
    cases x with
    | nan s => exact h
    | number s k => cases hnan
  | false =>
    rw [saturate_eq hr hnan]
    exact r.clamp_mem hr.low_le_high _

theorem saturate_le {x y : Double} (h : x.Le y) : r.saturate x ≤ r.saturate y := by
  have hnan {x : Double} {a : Int} (hx : x.place = some a) : x.isNan = false := by
    cases x with
    | nan s => cases hx
    | number s k => rfl
  have hvalue := h.value_le
  obtain ⟨a, b, hx, hy, -⟩ := h
  rw [saturate_eq hr (hnan hx), saturate_eq hr (hnan hy)]
  exact r.clamp_mono (towardZero_mono hvalue)

end IntegerRange

theorem NumericType.range?_eq_some {target : NumericType} {r : IntegerRange}
    (h : target.range? = some r) :
    r.Narrow ∧ r.size = 2 ^ 32 ∧ 0 ∈ r ∧
      ∀ v : Number, v.cast? target = some (.int (v.toInteger target r)) := by
  have hsize := size_of_range? h
  cases target <;> cases h
  · exact ⟨IntegerRange.narrow_i32, hsize, by decide, fun _ => rfl⟩
  · exact ⟨IntegerRange.narrow_u32, hsize, by decide, fun _ => rfl⟩

namespace Number

theorem eq_toInteger_iff {target : NumericType} {r : IntegerRange} (h : target.range? = some r)
    (k n : Int) : k = (int n).toInteger target r ↔ k ∈ r ∧ k ≡ n [ZMOD 2 ^ 32] := by
  obtain ⟨hr, hsize, -, -⟩ := NumericType.range?_eq_some h
  rw [toInteger, NumericType.wrap_eq h, IntegerRange.eq_residue_iff hr.low_le_high, hsize]

theorem toInteger_modEq {target : NumericType} {r : IntegerRange} (h : target.range? = some r)
    (n : Int) : (int n).toInteger target r ≡ n [ZMOD 2 ^ 32] :=
  ((eq_toInteger_iff h _ n).mp rfl).2

/--
An integer is converted to the only integer of the range that is congruent to it, so integers of the
range stay, sums and products are those modulo the size of the range, and both integer types agree
modulo this size. A floating point number loses its fraction and is moved into the range, infinities
to its ends, and a NaN becomes zero, so the order of numbers is kept.
-/
theorem cast_integers :
    (∀ n : Int, ∃ u i : Int,
      (int n).cast? .u32 = some (.int u) ∧ (int n).cast? .i32 = some (.int i) ∧
      (∀ k, k = u ↔ (0 ≤ k ∧ k < 2 ^ 32) ∧ k ≡ n [ZMOD 2 ^ 32]) ∧
      (∀ k, k = i ↔ (-2 ^ 31 ≤ k ∧ k < 2 ^ 31) ∧ k ≡ n [ZMOD 2 ^ 32]) ∧
      u ≡ i [ZMOD 2 ^ 32]) ∧
    ∀ (target : NumericType) (r : IntegerRange), target.range? = some r →
      (∀ n ∈ r, (int n).cast? target = some (.int n)) ∧
      (∀ m n : Int, ∃ a b c d : Int,
        (int m).cast? target = some (.int a) ∧ (int n).cast? target = some (.int b) ∧
        (int (m + n)).cast? target = some (.int c) ∧ (int (m * n)).cast? target = some (.int d) ∧
        c ≡ a + b [ZMOD 2 ^ 32] ∧ d ≡ a * b [ZMOD 2 ^ 32]) ∧
      (∀ x : Double, ∃ k ∈ r, (float x).cast? target = some (.int k) ∧
        (x.isNan → k = 0) ∧
        (x.isInfinite → k = if x.negative then r.low else r.high) ∧
        (x.isNan = false → x.isInfinite = false →
          k = max r.low (min r.high (towardZero x.value)))) ∧
      ∀ x y : Double, x.Le y → ∃ k l : Int,
        (float x).cast? target = some (.int k) ∧ (float y).cast? target = some (.int l) ∧
        k ≤ l := by
  constructor
  · intro n
    refine ⟨_, _, rfl, rfl, fun k => ?_, fun k => ?_, ?_⟩
    · rw [eq_toInteger_iff NumericType.range?_u32, IntegerRange.mem_iff]
      change (0 ≤ k ∧ k ≤ 2 ^ 32 - 1) ∧ _ ↔ _
      rw [Int.le_sub_one_iff]
    · rw [eq_toInteger_iff NumericType.range?_i32, IntegerRange.mem_iff]
      change (-2 ^ 31 ≤ k ∧ k ≤ 2 ^ 31 - 1) ∧ _ ↔ _
      rw [Int.le_sub_one_iff]
    · exact (toInteger_modEq NumericType.range?_u32 n).trans
        (toInteger_modEq NumericType.range?_i32 n).symm
  · intro target r h
    obtain ⟨hr, hsize, hzero, hcast⟩ := NumericType.range?_eq_some h
    simp only [hcast, Option.some.injEq, int.injEq]
    refine ⟨fun n hn => ((eq_toInteger_iff h n n).mpr ⟨hn, rfl⟩).symm, ?_, ?_, ?_⟩
    · intro m n
      have hm := (toInteger_modEq h m).symm
      have hn := (toInteger_modEq h n).symm
      exact ⟨_, _, _, _, rfl, rfl, rfl, rfl, (toInteger_modEq h _).trans (hm.add hn),
        (toInteger_modEq h _).trans (hm.mul hn)⟩
    · intro x
      refine ⟨_, IntegerRange.saturate_mem hr hzero x, rfl, ?_, ?_, ?_⟩
      · intro hnan
        cases x with
        | nan s => rfl
        | number s k => cases hnan
      · intro hinf
        cases x with
        | nan s => cases hinf
        | number s k => exact (IntegerRange.saturate_number r s k).trans (if_pos hinf)
      · intro hnan _
        exact IntegerRange.saturate_eq hr hnan
    · intro x y hle
      exact ⟨_, _, rfl, rfl, IntegerRange.saturate_le hr hle⟩

def minusThreeAndHalf : Double := .ofFraction true 7 2

theorem cast_integers_minusThreeAndHalf :
    (int (-5)).cast? .i32 = some (.int (-5)) ∧
    (float (.nan true)).cast? .i32 = some (.int 0) ∧
    (float (.infinite true)).cast? .u32 = some (.int 0) ∧
    (∃ k, (float minusThreeAndHalf).cast? .i32 = some (.int k) ∧
      k = max (-0x80000000) (min 0x7fffffff (towardZero minusThreeAndHalf.value))) ∧
    ∃ k l, (float (.infinite true)).cast? .i32 = some (.int k) ∧
      (float minusThreeAndHalf).cast? .i32 = some (.int l) ∧ k ≤ l := by
  obtain ⟨hmem, -, hfloat, hle⟩ := cast_integers.2 .i32 .i32 NumericType.range?_i32
  obtain ⟨-, -, hfloat', -⟩ := cast_integers.2 .u32 .u32 NumericType.range?_u32
  refine ⟨hmem (-5) (by decide), ?_, ?_, ?_, hle _ _ ⟨_, _, rfl, rfl, by decide +kernel⟩⟩
  · obtain ⟨k, -, hk, hnan, -⟩ := hfloat (.nan true)
    rw [hk, hnan rfl]
  · obtain ⟨k, -, hk, -, hinf, -⟩ := hfloat' (.infinite true)
    rw [hk, hinf (by decide)]
    rfl
  · obtain ⟨k, -, hk, -, -, hfinite⟩ := hfloat minusThreeAndHalf
    exact ⟨k, hk, hfinite rfl (by decide +kernel)⟩

end Number

end ShaderParams
