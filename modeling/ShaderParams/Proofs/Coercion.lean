import ShaderParams.Proofs.Literal
import ShaderParams.Proofs.Settings

/-!
This module contains the conversion of literals to floating point types: that it keeps their order
and the numbers that the type has, and when it gives the nearest number.
-/

namespace ShaderParams

def NumericType.format? : NumericType → Option Format
  | f32 => some .single
  | f64 => some .double
  | i32 | u32 => none

theorem Format.Embeds.refl (f : Format) : f.Embeds f := ⟨le_rfl, le_rfl, le_rfl⟩

namespace Binary

variable {g : Format} (hg : g.Proper)

include hg

variable (h : g.Embeds .double) {y : Double} {q : ℚ} (hy : y.IsNearest q) {b : Binary g}
  (hnan : b.isNan = false) (hinf : b.isInfinite = false)

include h hy hnan hinf

end Binary

theorem Binary.IsNearest.exists_ofFraction {f : Format} (hf : f.Proper) {x : Binary f} {q : ℚ}
    (h : x.IsNearest q) {n d : Nat} (hd : 0 < d) (hq : |q| = n / d) :
    ∃ negative, x = ofFraction negative n d := by
  cases x with
  | nan s => exact h.elim
  | number s r =>
    have hround := h.1
    rw [hq] at hround
    exact ⟨s, congrArg (number s) (Fin.ext (hround.unique hf (Format.roundsTo_round hf hd)))⟩

theorem Double.isNearest_ofInt? {n : Int} {x : Double} (h : ofInt? n = some x) :
    x.IsNearest n := by
  rw [ofInt?] at h
  split at h
  · cases h
  · cases h
    apply Binary.isNearest_ofFraction Format.proper_double Nat.one_pos
    · rw [Nat.cast_one, div_one, Nat.cast_natAbs, Int.cast_abs]
    · intro hn
      exact decide_eq_true (by exact_mod_cast hn)
    · intro hn
      exact decide_eq_false (not_lt.mpr (by exact_mod_cast hn.le))

theorem Numeral.isNearest {t : Numeral} {v : Number} (hv : t.ReadAs v) {y : Double}
    (h : v.toDouble? = some y) : y.IsNearest t.value := by
  cases t with
  | integer n suffix =>
    cases (show v = .int n.number from hv)
    exact Double.isNearest_ofInt? h
  | real n suffix =>
    obtain ⟨x, rfl, hx, -⟩ := hv
    cases h
    exact hx

theorem Numeral.isNearest_neg {t : Numeral} {v : Number} (hv : t.ReadAs v) {y : Double}
    (h : v.neg.toDouble? = some y) : y.IsNearest (-t.value) := by
  cases t with
  | integer n suffix =>
    cases (show v = .int n.number from hv)
    have hnear := Double.isNearest_ofInt? h
    rwa [Int.cast_neg] at hnear
  | real n suffix =>
    obtain ⟨x, rfl, hx, -⟩ := hv
    cases h
    exact hx.neg

theorem SignedNumeral.isNearest {t : SignedNumeral} {v : Number} (hv : t.numeral.ReadAs v)
    {y : Double} (h : (t.signed v).toDouble? = some y) : y.IsNearest t.value := by
  rw [signed] at h
  rw [value]
  split at h
  · next hsign =>
    rw [if_pos hsign]
    exact Numeral.isNearest_neg hv h
  · next hsign =>
    rw [if_neg hsign]
    exact Numeral.isNearest hv h

namespace Node

theorem exists_nearest {n : Node} {t : SignedNumeral} {target : NumericType} {g : Format}
    {v : Number} (hn : n.Spells t) (htarget : target.format? = some g)
    (h : n.constant target = .ok v) :
    ∃ y : Double, y.IsNearest t.value ∧ v = .float (y.convert : Binary g).convert := by
  obtain ⟨u, hu, hread⟩ := t.numeral.exists_read
  rw [constant, literal_of_spells hn hread] at h
  cases hy : (t.signed u).toDouble? with
  | none =>
    have hcast : (t.signed u).cast? target = none := by
      cases target <;> cases htarget <;> rw [Number.cast?, hy] <;> rfl
    simp only [bind, Except.bind, hcast] at h
    cases h
  | some y =>
    have hcast : (t.signed u).cast? target = some (.float (y.convert : Binary g).convert) := by
      cases target <;> cases htarget <;> rw [Number.cast?, hy]
      · rfl
      · rw [Binary.convert_convert (.refl _)]
        rfl
    simp only [bind, Except.bind, hcast] at h
    cases h
    exact ⟨y, SignedNumeral.isNearest hu hy, rfl⟩

/--
A literal is converted to single precision through the nearest double. The result is the single
precision number nearest to the literal unless that double misleads: it is the middle between two
single precision numbers, and the literal lies on the side of the odd one.
-/
theorem constant_f32_isNearest {n : Node} {t : SignedNumeral} {v : Number} (hn : n.Spells t)
    (h : n.constant .f32 = .ok v) :
    ∃ y : Double, y.IsNearest t.value ∧ v = .float (y.convert : Single).convert ∧
      ((y.convert : Single).IsNearest t.value ↔ ¬y.Misleads .single t.value) := by
  obtain ⟨y, hy, hv⟩ := exists_nearest hn rfl h
  exact ⟨y, hy, hv, Binary.isNearest_convert_iff Format.proper_single Format.proper_double
    Format.double_refines_single hy⟩

/-- The numeral `1.00000005960464477539062500001`, of a number past the middle `1 + 2 ^ -24`. -/
def pastMiddle : SignedNumeral :=
  ⟨none, .real ⟨[.ofNat 1], some decimals, none, List.cons_ne_nil _ _, .inl rfl⟩ .none⟩
where
  decimals : List (Figure 10) :=
    [0, 0, 0, 0, 0, 0, 0, 5, 9, 6, 0, 4, 6, 4, 4, 7, 7, 5, 3, 9, 0, 6, 2, 5, 0, 0, 0, 0, 1].map
      .ofNat

theorem value_pastMiddle :
    pastMiddle.value = (100000005960464477539062500001 : Nat) / (10 ^ 29 : Nat) := by
  have hwhole : Figure.number [.ofNat 1] = 1 := by decide
  have hdecimals : Figure.number pastMiddle.decimals = 5960464477539062500001 := by decide
  have hvalue : pastMiddle.value =
      (Figure.number [.ofNat 1] + Figure.number pastMiddle.decimals / 10 ^ 29) *
        10 ^ (0 : Int) :=
    rfl
  rw [hvalue, hwhole, hdecimals]
  norm_num

def pastMiddleToken : Node := token "number_literal" "1.00000005960464477539062500001"

theorem pastMiddleToken_spells : pastMiddleToken.Spells pastMiddle :=
  .token rfl (by rw [pastMiddleToken, token, text_of_token rfl]; decide)

theorem constant_pastMiddleToken : pastMiddleToken.constant .f32 = .ok (.float .one) := by
  decide +kernel

theorem constant_f32_isNearest_pastMiddle :
    ∃ y : Double, y.IsNearest pastMiddle.value ∧
      Number.float .one = .float (y.convert : Single).convert ∧
      ((y.convert : Single).IsNearest pastMiddle.value ↔ ¬y.Misleads .single pastMiddle.value) :=
  constant_f32_isNearest pastMiddleToken_spells constant_pastMiddleToken

theorem constant_f32_pastMiddle :
    pastMiddleToken.Spells pastMiddle ∧
      ∃ x : Double, pastMiddleToken.constant .f32 = .ok (.float x) ∧
        ∀ s : Single, s.IsNearest pastMiddle.value → (s.convert : Double) ≠ x := by
  refine ⟨pastMiddleToken_spells, .one, constant_pastMiddleToken, ?_⟩
  intro s hs
  have hvalue := congrArg abs value_pastMiddle
  rw [abs_of_nonneg (by positivity : (0 : ℚ) ≤ _ / _)] at hvalue
  obtain ⟨negative, rfl⟩ := hs.exists_ofFraction Format.proper_single (by decide) hvalue
  cases negative <;> decide +kernel

end Node

/-!
The bounds of a slider.
-/

/--
Whether `q` is written for a setting: the number of the last setting of the name, or else the
default.
-/
def Written (S : List LayoutEntry) (name : String) (default q : ℚ) : Prop :=
  match (S.filter fun e => e.name = name).getLast? with
  | none => q = default
  | some e => ∃ v t, e.value = some v ∧ v.Spells t ∧ t.value = q

theorem filterMap_number? (name field : String) (S : List LayoutEntry) :
    S.filterMap (LayoutEntry.number? [name] field) =
      (S.filter fun e => e.name = name).map (LayoutEntry.number field) := by
  induction S with
  | nil => rfl
  | cons e S ih =>
    by_cases h : e.name = name
    · have hgiven : e.number? [name] field = some (e.number field) := by
        rw [LayoutEntry.number?, if_pos (by simp [h])]
      rw [List.filterMap_cons_some hgiven, List.filter_cons_of_pos (by simp [h]), ih, List.map_cons]
    · have hother : e.number? [name] field = none := by
        rw [LayoutEntry.number?, if_neg (by simp [h])]
      rw [List.filterMap_cons_none hother, List.filter_cons_of_neg (by simp [h]), ih]

theorem Written.exists_nearest {S : List LayoutEntry} {name field : String} {default q : ℚ}
    (hq : Written S name default q) {d x : Double} (hd : d.IsNearest default)
    (hsingle : d.toSingle = d)
    (hx : LastGiven (LayoutEntry.number? [name] field) (.float d) S (.float x)) :
    ∃ y : Double, y.IsNearest q ∧ x = y.toSingle := by
  rw [LastGiven, filterMap_number?, List.getLast?_map] at hx
  rw [Written] at hq
  split at hq
  · next hnone =>
    rw [hnone] at hx
    rw [hq, Number.float.inj hx]
    exact ⟨d, hd, hsingle.symm⟩
  · next e he =>
    obtain ⟨v, t, hv, hspells, rfl⟩ := hq
    rw [he] at hx
    have hconstant : v.constant .f32 = .ok (.float x) := by
      replace hx : e.number field = .ok (.float x) := hx
      rw [LayoutEntry.number, hv] at hx
      exact hx
    obtain ⟨y, hy, heq⟩ := Node.exists_nearest hspells rfl hconstant
    exact ⟨y, hy, Number.float.inj heq⟩

def half : SignedNumeral :=
  ⟨none, .real ⟨[.ofNat 0], some [.ofNat 5], none, List.cons_ne_nil _ _, .inl rfl⟩ .none⟩

end ShaderParams
