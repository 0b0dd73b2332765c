import ShaderParams.Proofs.Midpoint
import ShaderParams.Proofs.Shortest
import ShaderParams.Proofs.Spelling

/-!
This module contains how many digits the spelling of a single precision number has: the fewest with
which a decimal reads back, but for four magnitudes. Of all decimals of a number of digits only the
nearest one is tried, and it is read as a double first. At a power of two a decimal that is farther
away may read back, and next to the middle between two magnitudes the double may be the middle.
-/

namespace ShaderParams

-- Powers of natural numbers are the built-in ones, whatever other instances are in scope.
attribute [local instance (2000)] instPowNat

namespace Format

variable {f : Format} (hf : f.Proper)

include hf

theorem RoundsTo.of_abs_sub_le {q q' : ℚ} {k : Nat} (h : f.RoundsTo q (k + 1))
    (hk : k + 1 < f.infinity) (hexp : f.exponent k = f.exponent (k + 1))
    (hle : |q' - f.value (k + 1)| ≤ |q - f.value (k + 1)|) : f.RoundsTo q' (k + 1) := by
  have hlow : f.midpoint k = f.value (k + 1) - 2 ^ f.exponent (k + 1) / 2 := by
    rw [midpoint, ← hexp, value_succ]
    ring
  have hhigh : f.midpoint (k + 1) = f.value (k + 1) + 2 ^ f.exponent (k + 1) / 2 := by
    rw [midpoint, value_succ f (k + 1)]
    ring
  obtain ⟨hlower, hlower'⟩ := h.lower hf
  obtain ⟨hupper, hupper'⟩ := h.upper hf hk
  rw [hlow] at hlower hlower'
  rw [hhigh] at hupper hupper'
  generalize (2 : ℚ) ^ f.exponent (k + 1) / 2 = half at *
  -- Both midpoints are equally far away, so that the distance alone decides.
  have hfar : |q - f.value (k + 1)| ≤ half := abs_le.mpr ⟨by linarith, by linarith⟩
  have htie (heq : |q - f.value (k + 1)| = half) : Even (k + 1) := by
    rcases abs_cases (q - f.value (k + 1)) with ⟨habs, -⟩ | ⟨habs, -⟩
    · exact hupper' (by linarith)
    · exact hlower' (by linarith)
  obtain ⟨hmin, hmax⟩ := abs_le.mp (hle.trans hfar)
  refine .of_midpoints hf hk.le ?_ fun _ => ?_
  · rintro i hi
    obtain rfl : i = k := by omega
    rw [hlow]
    refine ⟨by linarith, fun heq => htie (hfar.antisymm ?_)⟩
    have habs := neg_le_abs (q' - f.value (i + 1))
    linarith
  · rw [hhigh]
    refine ⟨by linarith, fun heq => htie (hfar.antisymm ?_)⟩
    have habs := le_abs_self (q' - f.value (k + 1))
    linarith

/-- A number whose rounding to a finer format is a midpoint lies next to this midpoint. -/
theorem RoundsTo.eq_or_eq_of_midpoint {g : Format} (hg : g.Proper) (h : g.Refines f) {q : ℚ}
    {fine rank k : Nat} (hq : f.RoundsTo q rank) (hrank : rank < f.infinity)
    (hfine : g.RoundsTo q fine) (hmid : g.value fine = f.midpoint k) : rank = k ∨ rank = k + 1 := by
  rcases Nat.lt_or_ge rank k with hlt | hge
  · obtain ⟨m, hm, hvalue⟩ := h.exists_midpoint hrank
    have hle := (hq.upper hf hrank).1
    rw [← hvalue] at hle
    have hmono := g.value_strictMono.monotone (hfine.mono hg (.of_value hg hm.le) hle)
    rw [hmid, hvalue] at hmono
    exact absurd (f.midpoint_strictMono hlt) (not_lt.mpr hmono)
  · by_contra hne
    obtain ⟨i, rfl⟩ : ∃ i, rank = i + 1 := ⟨rank - 1, by omega⟩
    obtain ⟨m, hm, hvalue⟩ := h.exists_midpoint (show i < f.infinity by omega)
    have hle := (hq.lower hf).1
    rw [← hvalue] at hle
    have hmono := g.value_strictMono.monotone ((RoundsTo.of_value hg hm.le).mono hg hfine hle)
    rw [hmid, hvalue] at hmono
    exact absurd (f.midpoint_strictMono (show k < i by omega)) (not_lt.mpr hmono)

theorem RoundsTo.lt_overflow {g : Format} (h : g.Refines f) {q : ℚ} {rank : Nat}
    (hq : f.RoundsTo q rank) (hrank : rank < f.infinity) : q < g.overflow := by
  obtain ⟨m, hm, hvalue⟩ := h.exists_midpoint hrank
  have hle := (hq.upper hf hrank).1
  have hmono := g.value_strictMono.monotone (Nat.le_sub_one_of_lt hm)
  rw [hvalue] at hmono
  exact (hle.trans hmono).trans_lt (g.value_lt_midpoint _)

omit hf in
theorem round_eq_of_close {n d rank : Nat} (hd : 0 < d) (hrank : rank < f.infinity)
    (h : |f.value rank - n / d| * 2 ^ (f.fractionBits + 2) < f.value rank) :
    f.round n d = rank := by
  have hn : 0 < n := by
    refine Nat.pos_of_ne_zero fun hzero => ?_
    have hone : (1 : ℚ) ≤ 2 ^ (f.fractionBits + 2) := one_le_pow₀ one_le_two
    have hnonneg := f.value_nonneg rank
    rw [hzero, Nat.cast_zero, zero_div, sub_zero, abs_of_nonneg hnonneg] at h
    exact absurd h (not_lt.mpr (le_mul_of_one_le_right hnonneg hone))
  rw [f.round_eq_min hn, f.nearest_eq_of_close hn hd h, Nat.min_eq_right hrank.le]

end Format

namespace Single

open Format Decimal

def toDecimal (count rank : Nat) : Decimal :=
  ofFraction count (Format.single.numerator rank) (Format.single.denominator rank)

/-- Whether `count` digits of a magnitude are read back by way of a double. -/
def Keeps (count rank : Nat) : Prop :=
  Binary.convertRank .double .single ((toDecimal count rank).round .double) = rank

instance (count rank : Nat) : Decidable (Keeps count rank) :=
  inferInstanceAs (Decidable (_ = _))

def keepsFewest (rank : Nat) : Bool :=
  let top := floorLog10 (Format.single.numerator rank) (Format.single.denominator rank)
  (List.range' 1 9).reverse.any fun count =>
    (count = 1 || (readsBack? .single rank (top - (count - 2 : Nat))).isNone) && Keeps count rank

/--
The ranks of the magnitudes that are written with more digits than needed, each with a decimal of
fewer digits: three powers of two, and a neighbour of a midpoint.
-/
def shorter : List (Nat × Decimal) :=
  [(260046848, ⟨12621775, -36⟩), (363742205, ⟨7038531, -32⟩), (1795162112, ⟨15474251, 19⟩),
    (1820327936, ⟨12379401, 20⟩)]

def lengthened : List Nat :=
  shorter.map Prod.fst

theorem keepsFewest_near : ∀ k ∈ nearMidpoints,
    (k ∈ lengthened ∨ keepsFewest k) ∧ (k + 1 ∈ lengthened ∨ keepsFewest (k + 1)) := by
  decide +kernel

theorem keepsFewest_powers : ∀ i : Fin 253,
    (i.val + 2) * 2 ^ 23 ∈ lengthened ∨ keepsFewest ((i.val + 2) * 2 ^ 23) := by
  decide +kernel

section

variable {rank : Nat} (hrank : rank < Format.single.infinity)

include hrank

theorem round_toDecimal {count : Nat} (hcount : 0 < count) (hpos : 0 < rank)
    (hexp : Format.single.exponent (rank - 1) = Format.single.exponent rank) {d : Decimal}
    (h : d.round .single = rank) (hd : d.significant ≤ count) :
    (toDecimal count rank).round .single = rank := by
  obtain ⟨c, rfl⟩ : ∃ c, count = c + 1 := ⟨count - 1, by omega⟩
  obtain ⟨k, rfl⟩ : ∃ k, rank = k + 1 := ⟨rank - 1, by omega⟩
  have hden := Format.single.denominator_pos (k + 1)
  have hlow := ten_zpow_floorLog10_le (Format.single.numerator_pos hpos) hden
  rw [toDecimal, ofFraction, Nat.add_sub_cancel]
  generalize floorLog10 _ _ = top at hlow ⊢
  rw [← Format.value_eq_div] at hlow
  obtain ⟨j, hj⟩ := exists_multiple proper_single hrank.le h hd hlow
  rw [round_eq_iff proper_single] at hj ⊢
  refine hj.of_abs_sub_le proper_single hrank hexp ?_
  rw [Format.value_eq_div]
  exact abs_onGrid_sub_le_abs _ hden _ j

/-- Up to eight digits that are read back are read back by way of a double, midpoints apart. -/
theorem convertRank_round {d : Decimal} (h : d.round .single = rank) (hd : d.significant ≤ 8)
    (hnear : ∀ k ∈ nearMidpoints, ¬(rank = k ∨ rank = k + 1)) :
    Binary.convertRank .double .single (d.round .double) = rank := by
  have hq := (round_eq_iff proper_single).mp h
  have hfine := roundsTo_round proper_double d
  have hround := Binary.roundsTo_convertRank proper_single single_embeds_double (d.round .double)
  refine RoundsTo.unique proper_single ?_ hq
  rw [hfine.of_finer_iff proper_single proper_double double_refines_single hround]
  intro k hk hmid
  by_cases heq : d.value = Format.single.midpoint k
  · exact .inl heq
  · have hdigits : d.normalize.digits < 10 ^ 8 :=
      d.digits_normalize_lt.trans_le (Nat.pow_le_pow_right (by decide) hd)
    rw [← d.value_normalize] at heq hfine
    rw [← d.value_normalize] at hq
    have hmem := mem_nearMidpoints hdigits hfine hk hmid heq
    exact absurd (hq.eq_or_eq_of_midpoint proper_single proper_double double_refines_single hrank
      hfine hmid) (hnear k hmem)

omit hrank in
theorem abs_toDecimal_sub_le {count : Nat} (hcount : 9 ≤ count) (hpos : 0 < rank) :
    |(toDecimal count rank).value - Format.single.value rank| * (2 * 10 ^ 8) ≤
      Format.single.value rank := by
  have hden := Format.single.denominator_pos rank
  have hlow := ten_zpow_floorLog10_le (Format.single.numerator_pos hpos) hden
  rw [toDecimal, ofFraction]
  generalize floorLog10 _ _ = top at hlow ⊢
  have hdist := abs_onGrid_sub_le (Format.single.numerator rank) hden (top - (count - 1 : Nat))
  rw [← Format.value_eq_div] at hlow hdist
  have hunit : (10 : ℚ) ^ (top - (count - 1 : Nat)) * 10 ^ 8 ≤ Format.single.value rank := by
    have hpow := ten_pow_mul_zpow 8 (top - (count - 1 : Nat))
    rw [Nat.cast_pow, Nat.cast_ofNat, mul_comm] at hpow
    rw [hpow]
    exact (zpow_le_zpow_right₀ (by norm_num) (by push_cast; omega)).trans hlow
  linarith

/-- With nine digits and more the rounding to a double in between is never in the way. -/
theorem keeps_of_nine {count : Nat} (hcount : 9 ≤ count) (hpos : 0 < rank) : Keeps count rank := by
  have hdist := abs_toDecimal_sub_le hcount hpos
  rw [Keeps]
  generalize toDecimal count rank = d at hdist ⊢
  have hvalue := Format.single.value_strictMono hpos
  rw [Format.value_zero] at hvalue
  have hbits : Format.single.fractionBits = 23 := rfl
  have hround : d.round .single = rank := by
    rw [round_eq .single (by decide)]
    refine round_eq_of_close d.denominator_pos hrank ?_
    rw [← Decimal.value_eq_div, abs_sub_comm, hbits]
    norm_num at hdist ⊢
    linarith
  have hover : d.value < Format.double.overflow :=
    ((round_eq_iff proper_single).mp hround).lt_overflow proper_single double_refines_single hrank
  -- The double is not farther from the decimal than the magnitude is, which is a double, too.
  have hfine := roundsTo_round proper_double d
  obtain ⟨w, hw, -, hsame⟩ := single_embeds_double.exists_round hrank
  have hnear := hfine.nearest hover w hw
  rw [hsame, abs_sub_comm _ d.value, abs_sub_comm _ d.value] at hnear
  rw [Binary.convertRank, if_neg (hfine.finite hover).ne]
  refine round_eq_of_close (Format.double.denominator_pos _) hrank ?_
  rw [← Format.value_eq_div, hbits]
  have htriangle := abs_sub_le (Format.single.value rank) d.value
    (Format.double.value (d.round .double))
  rw [abs_sub_comm _ d.value] at htriangle
  norm_num at hdist ⊢
  linarith

theorem Keeps.round_pos_lt {count : Nat} (h : Keeps count rank) (hpos : 0 < rank) :
    0 < (toDecimal count rank).round .double ∧
      (toDecimal count rank).round .double < Format.double.infinity := by
  rw [Keeps] at h
  constructor
  · refine Nat.pos_of_ne_zero fun hzero => hpos.ne ?_
    rwa [hzero, Binary.convertRank_zero proper_double] at h
  · refine lt_of_le_of_ne (round_le_infinity .double _) fun heq => hrank.ne ?_
    rw [heq, Binary.convertRank, if_pos rfl] at h
    exact h.symm

/-- Some digits are read back, and not more of them than any decimal has that is read back. -/
theorem exists_keeps_of_keepsFewest (h : keepsFewest rank) {d : Decimal}
    (hd : d.round .single = rank) (hpos : 0 < rank) :
    ∃ count, 0 < count ∧ count ≤ d.significant ∧ Keeps count rank := by
  have hlow := ten_zpow_floorLog10_le (Format.single.numerator_pos hpos)
    (Format.single.denominator_pos rank)
  rw [← Format.value_eq_div] at hlow
  simp only [keepsFewest, List.any_eq_true, List.mem_reverse, List.mem_range'_1, Bool.and_eq_true,
    Bool.or_eq_true, decide_eq_true_eq] at h
  obtain ⟨count, ⟨hfirst, -⟩, hfewest, hkeeps⟩ := h
  refine ⟨count, hfirst, ?_, hkeeps⟩
  by_contra hgt
  have hone := d.significant_pos
  have hsome := isSome_readsBack? proper_single hrank.le
    (exists_multiple proper_single hrank.le hd (k := count - 2) (by omega) hlow)
  rcases hfewest with hfewest | hfewest
  · omega
  · rw [Option.isNone_iff_eq_none] at hfewest
    rw [hfewest] at hsome
    cases hsome

theorem exponent_eq_or_exists_power (hpos : 0 < rank) :
    Format.single.exponent (rank - 1) = Format.single.exponent rank ∨
      ∃ i : Fin 253, rank = (i.val + 2) * 2 ^ 23 := by
  have hinf : Format.single.infinity = 255 * 2 ^ 23 := by decide
  have hbits : Format.single.fractionBits = 23 := rfl
  rw [hinf] at hrank
  rw [exponent, exponent, hbits]
  by_cases hpower : rank % 2 ^ 23 = 0 ∧ 2 ≤ rank / 2 ^ 23
  · exact .inr ⟨⟨rank / 2 ^ 23 - 2, by omega⟩, by dsimp only; omega⟩
  · left
    congr 2
    omega

theorem exists_keeps (hpos : 0 < rank) (hne : rank ∉ lengthened) {d : Decimal}
    (hd : d.round .single = rank) :
    ∃ count, 0 < count ∧ count ≤ d.significant ∧ Keeps count rank := by
  have hone := d.significant_pos
  rcases Nat.lt_or_ge d.significant 9 with hlt | hge
  · by_cases hnear : ∃ k ∈ nearMidpoints, rank = k ∨ rank = k + 1
    · obtain ⟨k, hk, hrank'⟩ := hnear
      obtain ⟨h, h'⟩ := keepsFewest_near k hk
      rcases hrank' with rfl | rfl
      · exact exists_keeps_of_keepsFewest hrank (h.resolve_left hne) hd hpos
      · exact exists_keeps_of_keepsFewest hrank (h'.resolve_left hne) hd hpos
    · rcases exponent_eq_or_exists_power hrank hpos with hexp | ⟨i, rfl⟩
      · refine ⟨d.significant, hone, le_rfl, ?_⟩
        have hround := round_toDecimal hrank hone hpos hexp hd le_rfl
        have hdigits := significant_ofFraction_le (Format.single.numerator_pos hpos)
          (Format.single.denominator_pos rank) hone
        exact convertRank_round hrank hround (hdigits.trans (by omega))
          fun k hk hor => hnear ⟨k, hk, hor⟩
      · exact exists_keeps_of_keepsFewest hrank ((keepsFewest_powers i).resolve_left hne) hd hpos
  · exact ⟨9, by decide, hge, keeps_of_nine hrank le_rfl hpos⟩

end

/-!
The digits of a spelling.
-/

section

variable (s : Bool) {r : Fin (Format.single.infinity + 1)} (hr : r.val < Format.single.infinity)
  (hpos : 0 < r.val)

include hr in
theorem exists_convert_eq :
    ∃ r' : Fin (Format.double.infinity + 1),
      ((.number s r : Single).convert : Double) = .number s r' ∧
        r'.val < Format.double.infinity ∧ Format.double.value r'.val = Format.single.value r.val := by
  obtain ⟨r', hconvert, hrank⟩ := Binary.exists_convert (g := .double) s r
  obtain ⟨m, hm, hround, hvalue⟩ := single_embeds_double.exists_round hr
  refine ⟨r', hconvert, ?_⟩
  rw [hrank, Binary.convertRank, if_neg hr.ne, hround]
  exact ⟨hm, hvalue⟩

include hr in
theorem finite_convert :
    ((.number s r : Single).convert : Double).isNan = false ∧
      ((.number s r : Single).convert : Double).isInfinite = false := by
  obtain ⟨r', hconvert, hfinite, -⟩ := exists_convert_eq s hr
  rw [hconvert]
  exact ⟨rfl, by simpa [Binary.isInfinite] using hfinite.ne⟩

include hr hpos in
theorem toDigits_convert (count : Nat) :
    Double.toDigits count (.number s r : Single).convert = (toDecimal count r.val).toBinary s := by
  obtain ⟨-, hinf⟩ := finite_convert s hr
  obtain ⟨r', hconvert, -, hvalue⟩ := exists_convert_eq s hr
  rw [hconvert] at hinf ⊢
  have hpos' : 0 < r'.val := by
    rw [← Format.double.value_strictMono.lt_iff_lt, hvalue, Format.value_zero,
      ← Format.single.value_zero]
    exact Format.single.value_strictMono hpos
  rw [Double.toDigits, hinf, if_neg Bool.false_ne_true, toDecimal]
  congr 1
  refine ofFraction_congr (Format.double.numerator_pos hpos') (Format.double.denominator_pos _)
    (Format.single.numerator_pos hpos) (Format.single.denominator_pos _) ?_ count
  have hden : (Format.double.denominator r'.val : ℚ) ≠ 0 :=
    Nat.cast_ne_zero.mpr (Format.double.denominator_pos _).ne'
  have hden' : (Format.single.denominator r.val : ℚ) ≠ 0 :=
    Nat.cast_ne_zero.mpr (Format.single.denominator_pos _).ne'
  rw [Format.value_eq_div, Format.value_eq_div, div_eq_div_iff hden hden'] at hvalue
  exact_mod_cast hvalue

theorem toSingle_toBinary_iff (d : Decimal) :
    Double.toSingle (d.toBinary s) = (.number s r : Single).convert ↔
      Binary.convertRank .double .single (d.round .double) = r.val := by
  obtain ⟨k, hk, hrank⟩ := Binary.exists_convert (g := .single) s
    (⟨d.round .double, Nat.lt_succ_of_le (d.round_le_infinity .double)⟩ :
      Fin (Format.double.infinity + 1))
  rw [Double.toSingle, toBinary, hk]
  dsimp only at hrank
  rw [← hrank]
  constructor
  · intro h
    have hback := congrArg (fun x : Double => (x.convert : Single)) h
    simp only [Binary.convert_convert single_embeds_double, Binary.number.injEq, true_and] at hback
    rw [hback]
  · intro h
    rw [Fin.ext h]

include hr hpos in
/-- What the search for the fewest digits asks is whether they are read back. -/
theorem numEq_toDigits_iff (count : Nat) :
    (Double.toDigits count (.number s r : Single).convert).toSingle.numEq
        (Double.toSingle (.number s r : Single).convert) ↔ Keeps count r.val := by
  have hsame : Double.toSingle (.number s r : Single).convert = (.number s r : Single).convert :=
    Double.toSingle_convert _
  have hnan : ((.number s r : Single).convert : Double).isNan = false := Binary.isNan_convert _
  rw [Keeps, ← toSingle_toBinary_iff s, hsame, toDigits_convert s hr hpos]
  constructor
  · intro heq
    apply Binary.eq_of_numEq heq
    rw [Double.negative_toSingle, Binary.negative_convert]
    rfl
  · intro heq
    rw [heq]
    exact Binary.numEq_self hnan

include hr hpos in
theorem exists_fewestDigits_keeps :
    ∃ c, 0 < c ∧ Keeps c r.val ∧
      Double.fewestDigits (.number s r : Single).convert = (toDecimal c r.val).toBinary s ∧
      ∀ count, 0 < count → Keeps count r.val → c ≤ count := by
  have hiff := numEq_toDigits_iff s hr hpos
  obtain ⟨hnan, hinf⟩ := finite_convert s hr
  obtain ⟨c, hc, -, hdouble, hkeeps, hfirst⟩ := Double.exists_fewestDigits hnan hinf
  rw [toDigits_convert s hr hpos] at hdouble
  exact ⟨c, hc, (hiff c).mp hkeeps, hdouble,
    fun count hcount h => hfirst count hcount ((hiff count).mpr h)⟩

theorem isNearest_iff (d : Decimal) :
    (.number s r : Single).IsNearest (if s then -d.value else d.value) ↔
      d.round .single = r.val := by
  have hnonneg : 0 ≤ d.value := by
    rw [Decimal.value]
    positivity
  rw [round_eq_iff proper_single, Binary.IsNearest]
  cases s with
  | false =>
    rw [if_neg Bool.false_ne_true, abs_of_nonneg hnonneg]
    exact ⟨fun h => h.1, fun h => ⟨h, fun hneg => absurd hneg (not_lt.mpr hnonneg), fun _ => rfl⟩⟩
  | true =>
    rw [if_pos rfl, abs_neg, abs_of_nonneg hnonneg]
    exact ⟨fun h => h.1,
      fun h => ⟨h, fun _ => rfl, fun hpos => absurd hpos (not_lt.mpr (neg_nonpos.mpr hnonneg))⟩⟩

include hr hpos in
/--
The spelling of a number is the shortest decimal of a double that some digits are read as, and it
has no more digits than any digits that are read back.
-/
theorem exists_spell :
    ∃ (t : FloatNumeral) (c : Nat),
      (Double.spell (.number s r : Single).convert).toList = (if s then ['-'] else []) ++ t.text ∧
        0 < c ∧ c ≤ 9 ∧ Keeps c r.val ∧
        t.decimal.significant =
          (shortest .double ((toDecimal c r.val).round .double)).significant ∧
        ∀ count, 0 < count → Keeps count r.val → t.decimal.significant ≤ count := by
  obtain ⟨hnan, hinf⟩ := finite_convert s hr
  obtain ⟨c, hc, hkeeps, hdouble, hfirst⟩ := exists_fewestDigits_keeps s hr hpos
  obtain ⟨hpos', hr'⟩ := hkeeps.round_pos_lt hr hpos
  obtain ⟨t, htext, hvalue⟩ := Double.exists_write_shortest s
    (r := ⟨(toDecimal c r.val).round .double, Nat.lt_succ_of_lt hr'⟩) hr'
  have hdigits := significant_congr hvalue
  refine ⟨t, c, ?_, hc, hfirst 9 (by decide) (keeps_of_nine hr le_rfl hpos), hkeeps, hdigits,
    fun count hcount h => ?_⟩
  · rw [Double.spell, hnan, hinf, if_neg Bool.false_ne_true, if_neg Bool.false_ne_true, hdouble]
    exact htext
  · rw [hdigits]
    calc (shortest .double ((toDecimal c r.val).round .double)).significant
        ≤ (toDecimal c r.val).significant :=
          significant_shortest_le proper_double hpos' hr' rfl
      _ ≤ c := significant_ofFraction_le (Format.single.numerator_pos hpos)
          (Format.single.denominator_pos _) hc
      _ ≤ count := hfirst count hcount h

end

theorem significant_shorter : ∀ p ∈ shorter, p.2.round .single = p.1 ∧
    ∀ c ∈ List.range' 1 9, Keeps c p.1 →
      p.2.significant < (shortest .double ((toDecimal c p.1).round .double)).significant := by
  decide +kernel

/--
The spelling of a number that is not zero has no more digits than any decimal that is rounded to the
number, but for four magnitudes.
-/
theorem significant_spell_le_iff (s : Bool) (r : Fin (Format.single.infinity + 1))
    (hpos : 0 < r.val) (hr : r.val < Format.single.infinity) :
    let v : Single := .number s r
    ∃ t : FloatNumeral,
      (Double.spell v.convert).toList = (if s then ['-'] else []) ++ t.text ∧
        ((∀ d : Decimal, v.IsNearest (if s then -d.value else d.value) →
            t.decimal.significant ≤ d.significant) ↔
          r.val ∉ lengthened) := by
  intro v
  obtain ⟨t, c, htext, hc, hc', hkeeps, hdigits, hfewest⟩ := exists_spell s hr hpos
  refine ⟨t, htext, fun hall hmem => ?_, fun hne d hd => ?_⟩
  · obtain ⟨⟨_, d⟩, hmem, rfl⟩ := List.mem_map.mp hmem
    obtain ⟨hround, hlonger⟩ := significant_shorter _ hmem
    have hlt := hlonger c (List.mem_range'_1.mpr ⟨hc, by omega⟩) hkeeps
    have hle := hall d ((isNearest_iff s d).mpr hround)
    rw [hdigits] at hle
    exact absurd hlt (not_lt.mpr hle)
  · obtain ⟨count, hcount, hle, hkeeps⟩ :=
      exists_keeps hr hpos hne ((isNearest_iff s d).mp hd)
    exact (hfewest count hcount hkeeps).trans hle

def tenth : Single := .number false ⟨1036831949, by decide⟩

theorem significant_spell_le_iff_tenth :
    0 < 1036831949 ∧ 1036831949 < Format.single.infinity ∧ 1036831949 ∉ lengthened ∧
      ∃ t : FloatNumeral, (Double.spell tenth.convert).toList = t.text ∧
        ∀ d : Decimal, tenth.IsNearest d.value → t.decimal.significant ≤ d.significant := by
  have hne : 1036831949 ∉ lengthened := by decide
  have hr : 1036831949 < Format.single.infinity := by decide
  obtain ⟨t, htext, hiff⟩ :=
    significant_spell_le_iff false ⟨1036831949, by decide⟩ (by decide) hr
  exact ⟨by decide, hr, hne, t, htext, hiff.mpr hne⟩

def lopsided : Single := .number false ⟨1820327936, by decide⟩

theorem spell_lopsided :
    Double.spell lopsided.convert = "1.23794004e+27" ∧
      lopsided.IsNearest (Decimal.mk 12379401 20).value ∧
      ∃ t : FloatNumeral, (Double.spell lopsided.convert).toList = t.text ∧
        (Decimal.mk 12379401 20).significant < t.decimal.significant := by
  have hspell : Double.spell lopsided.convert = "1.23794004e+27" := by decide +kernel
  refine ⟨hspell, (isNearest_iff false _).mpr (by decide +kernel),
    .scaled ['1'] ['2', '3', '7', '9', '4', '0', '0', '4'] false ['2', '7'] (by decide) (by decide)
      (by simp) (by simp), ?_, by decide +kernel⟩
  rw [hspell]
  decide +kernel

end Single

end ShaderParams
