import ShaderParams.Proofs.Literal

/-!
This module contains the proof that a number written as a constant expression reads back: the
spelling of a double is a float numeral, the reader gives the decimal of a float numeral, and the
digits that were left away do not change the single precision number.
-/

namespace ShaderParams

-- Powers of natural numbers are the built-in ones, whatever other instances are in scope.
attribute [local instance (2000)] instPowNat

/--
An unsigned numeral with a point or an exponent: digits, digits behind the point if there is one,
and the sign and the digits of the exponent if there is one.
-/
structure FloatNumeral where
  whole : List Char
  fraction : List Char
  exponent : Option (Bool × List Char)
  whole_ne_nil : whole ≠ []
  isDigit_of_mem : ∀ c ∈ whole ++ fraction, c.isDigit
  exponent_ne_nil : ∀ s ds, exponent = some (s, ds) → ds ≠ []
  isDigit_of_mem_exponent : ∀ s ds, exponent = some (s, ds) → ∀ c ∈ ds, c.isDigit
  not_integer : fraction ≠ [] ∨ exponent.isSome

namespace FloatNumeral

def fractionText (t : FloatNumeral) : List Char :=
  if t.fraction.isEmpty then [] else '.' :: t.fraction

def exponentText (t : FloatNumeral) : List Char :=
  match t.exponent with
  | none => []
  | some (negative, ds) => 'e' :: (if negative then '-' else '+') :: ds

def text (t : FloatNumeral) : List Char :=
  t.whole ++ t.fractionText ++ t.exponentText

def exponentValue (t : FloatNumeral) : Int :=
  match t.exponent with
  | none => 0
  | some (negative, ds) =>
    let n : Nat := Nat.ofDigitChars 10 ds 0
    if negative then -n else n

def decimal (t : FloatNumeral) : Decimal :=
  ⟨Nat.ofDigitChars 10 (t.whole ++ t.fraction) 0, t.exponentValue - t.fraction.length⟩

end FloatNumeral

/-!
Digits of numerals.
-/

theorem Figure.exists_char_eq {c : Char} (h : c.isDigit) : ∃ d : Figure 10, d.char = c := by
  obtain ⟨hlow, hhigh⟩ := Char.isDigit_iff_toNat.mp h
  change 48 ≤ c.toNat at hlow
  change c.toNat ≤ 57 at hhigh
  have hall : ∀ v : Fin 10, Nat.digitChar v = Char.ofNat (v + 48) := by decide
  refine ⟨⟨⟨c.toNat - 48, by omega⟩, false⟩, (hall _).trans ?_⟩
  rw [Nat.sub_add_cancel hlow, Char.ofNat_toNat]

theorem Figure.exists_map_char_eq {cs : List Char} (h : ∀ c ∈ cs, c.isDigit) :
    ∃ ds : List (Figure 10), ds.map char = cs := by
  induction cs with
  | nil => exact ⟨[], rfl⟩
  | cons c cs ih =>
    obtain ⟨d, rfl⟩ := exists_char_eq (h c List.mem_cons_self)
    obtain ⟨ds, rfl⟩ := ih fun c hc => h c (List.mem_cons_of_mem _ hc)
    exact ⟨d :: ds, rfl⟩

theorem Figure.ofDigitChars_map_char (ds : List (Figure 10)) :
    Nat.ofDigitChars 10 (ds.map char) 0 = number ds := by
  have hall : ∀ (v : Fin 10) (capital : Bool),
      (⟨v, capital⟩ : Figure 10).char.toNat - '0'.toNat = v := by
    decide
  have hvalue (d : Figure 10) : d.char.toNat - '0'.toNat = d.value.val := hall d.value d.capital
  rw [← ofDigits_values, Text.ofDigits, Nat.ofDigitChars_eq_foldl, List.foldl_map, List.foldl_map]
  simp only [hvalue, Nat.mul_comm]

namespace FloatNumeral

variable (t : FloatNumeral)

theorem exists_text_eq_cons : ∃ c cs, t.text = c :: cs ∧ c.isDigit := by
  obtain ⟨c, cs, hwhole⟩ := List.exists_cons_of_ne_nil t.whole_ne_nil
  refine ⟨c, cs ++ t.fractionText ++ t.exponentText, by rw [text, hwhole]; rfl, ?_⟩
  exact t.isDigit_of_mem c (by rw [hwhole]; exact List.mem_cons_self ..)

theorem exists_exponent :
    ∃ e : Option Exponent, (e.map Exponent.text).getD [] = t.exponentText ∧
      (e.map Exponent.power).getD 0 = t.exponentValue ∧ e.isSome = t.exponent.isSome := by
  rw [exponentText, exponentValue]
  split
  · next h => exact ⟨none, rfl, rfl, by rw [h]; rfl⟩
  · next negative ds h =>
    obtain ⟨ds, rfl⟩ := Figure.exists_map_char_eq (t.isDigit_of_mem_exponent negative ds h)
    have hne : ds ≠ [] := by simpa using t.exponent_ne_nil negative _ h
    refine ⟨some ⟨false, some (if negative then .minus else .plus), ds, hne⟩, ?_, ?_,
      by rw [h]; rfl⟩
    · cases negative <;> rfl
    · rw [Figure.ofDigitChars_map_char]
      cases negative <;> rfl

/-- A float numeral is a real as it is written. -/
theorem exists_realNumeral : ∃ r : RealNumeral, r.text = t.text ∧ r.decimal = t.decimal := by
  obtain ⟨whole, hwhole⟩ := Figure.exists_map_char_eq fun c hc =>
    t.isDigit_of_mem c (List.mem_append_left _ hc)
  obtain ⟨fraction, hfraction⟩ := Figure.exists_map_char_eq fun c hc =>
    t.isDigit_of_mem c (List.mem_append_right _ hc)
  obtain ⟨e, htext, hpower, hsome⟩ := t.exists_exponent
  have hne : whole ≠ [] := by
    rintro rfl
    exact t.whole_ne_nil hwhole.symm
  have hdecimal : t.decimal = ⟨Figure.number (whole ++ fraction),
      (e.map Exponent.power).getD 0 - fraction.length⟩ := by
    rw [decimal, ← hwhole, ← hfraction, ← List.map_append, Figure.ofDigitChars_map_char, hpower,
      List.length_map]
  by_cases hnil : fraction = []
  · subst hnil
    have hinteger : (none : Option (List (Figure 10))).isSome ∨ e.isSome := by
      rw [hsome]
      simpa [← hfraction] using t.not_integer
    refine ⟨⟨whole, none, e, by simpa using hne, hinteger⟩, ?_, hdecimal.symm⟩
    rw [RealNumeral.text, text, ← htext, ← hwhole, fractionText, ← hfraction]
    cases e <;> rfl
  · refine ⟨⟨whole, some fraction, e, by simp [hne], .inl rfl⟩, ?_, hdecimal.symm⟩
    rw [RealNumeral.text, text, ← htext, ← hwhole, fractionText, ← hfraction]
    cases e <;> simp [hnil, RealNumeral.fractionText, RealNumeral.exponentText]

theorem read_text : Literal.read t.text = .ok ⟨.float, .float (t.decimal.toBinary false)⟩ := by
  obtain ⟨r, htext, hdecimal⟩ := t.exists_realNumeral
  obtain ⟨c, cs, hcons, hc⟩ := r.exists_text_eq_cons
  have hread := Numeral.unsigned?_float r fun c hc => absurd hc List.not_mem_nil
  rw [List.append_nil, hcons, hdecimal] at hread
  rw [← htext, hcons]
  exact Literal.read_of_unsigned? hread hc

def pointed (whole fraction : List Char) (hwhole : whole ≠ []) (hfraction : fraction ≠ [])
    (h : ∀ c ∈ whole ++ fraction, c.isDigit) : FloatNumeral where
  whole := whole
  fraction := fraction
  exponent := none
  whole_ne_nil := hwhole
  isDigit_of_mem := h
  exponent_ne_nil := nofun
  isDigit_of_mem_exponent := nofun
  not_integer := .inl hfraction

theorem text_pointed {whole fraction : List Char} (hwhole : whole ≠ []) (hfraction : fraction ≠ [])
    (h : ∀ c ∈ whole ++ fraction, c.isDigit) :
    (pointed whole fraction hwhole hfraction h).text = whole ++ '.' :: fraction := by
  simp [text, pointed, fractionText, exponentText, hfraction]

def scaled (whole fraction : List Char) (negative : Bool) (exponent : List Char)
    (hwhole : whole ≠ []) (hexponent : exponent ≠ []) (h : ∀ c ∈ whole ++ fraction, c.isDigit)
    (h' : ∀ c ∈ exponent, c.isDigit) : FloatNumeral where
  whole := whole
  fraction := fraction
  exponent := some (negative, exponent)
  whole_ne_nil := hwhole
  isDigit_of_mem := h
  exponent_ne_nil := by rintro _ _ ⟨⟩; exact hexponent
  isDigit_of_mem_exponent := by rintro _ _ ⟨⟩; exact h'
  not_integer := .inr rfl

end FloatNumeral

/-!
Written decimals.
-/

theorem ofDigitChars_zeros_append (k : Nat) (ds : List Char) :
    Nat.ofDigitChars 10 (Decimal.write.zeros k ++ ds) 0 = Nat.ofDigitChars 10 ds 0 := by
  induction k with
  | zero => rfl
  | succ k ih => exact ih

theorem ofDigitChars_append_zeros (k : Nat) (ds : List Char) :
    Nat.ofDigitChars 10 (ds ++ Decimal.write.zeros k) 0 = Nat.ofDigitChars 10 ds 0 * 10 ^ k := by
  rw [Nat.ofDigitChars_append]
  generalize Nat.ofDigitChars 10 ds 0 = n
  induction k generalizing n with
  | zero => exact (Nat.mul_one n).symm
  | succ k ih =>
    rw [Decimal.write.zeros, List.replicate_succ, Nat.ofDigitChars_cons]
    refine (ih _).trans ?_
    rw [Nat.pow_succ]
    change (10 * n + 0) * 10 ^ k = n * (10 ^ k * 10)
    ring

theorem isDigit_of_mem_zeros {k : Nat} {c : Char} (h : c ∈ Decimal.write.zeros k) : c.isDigit := by
  rw [List.eq_of_mem_replicate h]
  rfl

namespace Decimal

variable (d : Decimal)

def chars : List Char := Nat.toDigits 10 d.digits

theorem isDigit_of_mem_chars {c : Char} (h : c ∈ d.chars) : c.isDigit :=
  Nat.isDigit_of_mem_toDigits (by decide) (by decide) h

theorem ofDigitChars_chars : Nat.ofDigitChars 10 d.chars 0 = d.digits :=
  Nat.ofDigitChars_toDigits (by decide) (by decide)

theorem chars_ne_nil : d.chars ≠ [] := Nat.toDigits_ne_nil

theorem length_chars_pos : 0 < d.chars.length := List.length_pos_iff.mpr d.chars_ne_nil

theorem value_decimal_eq {t : FloatNumeral}
    (hdigits : Nat.ofDigitChars 10 (t.whole ++ t.fraction) 0 = d.digits)
    (hexp : t.exponentValue - t.fraction.length = d.exp) : t.decimal.value = d.value := by
  rw [FloatNumeral.decimal, hdigits, hexp]

def firstExp : Int := d.exp + (d.chars.length - 1 : Nat)

theorem exists_pointed_of_firstExp_neg (h : d.firstExp < 0) :
    ∃ t : FloatNumeral, t.text = '0' :: '.' :: (write.zeros (-d.firstExp - 1).toNat ++ d.chars) ∧
      t.decimal.value = d.value := by
  have hpos := d.length_chars_pos
  have hdigit : ∀ c ∈ ['0'] ++ (write.zeros (-d.firstExp - 1).toNat ++ d.chars), c.isDigit := by
    intro c hc
    simp only [List.mem_append, List.mem_singleton] at hc
    rcases hc with rfl | hc | hc
    · rfl
    · exact isDigit_of_mem_zeros hc
    · exact d.isDigit_of_mem_chars hc
  refine ⟨.pointed _ _ (by simp) (by simp [d.chars_ne_nil]) hdigit, FloatNumeral.text_pointed ..,
    ?_⟩
  refine d.value_decimal_eq ?_ ?_
  · exact (ofDigitChars_zeros_append _ _).trans d.ofDigitChars_chars
  · simp only [FloatNumeral.pointed, FloatNumeral.exponentValue, List.length_append, write.zeros,
      List.length_replicate]
    rw [firstExp] at h ⊢
    omega

theorem exists_pointed_of_firstExp_nonneg (h : 0 ≤ d.firstExp) :
    ∃ t : FloatNumeral,
      t.text = d.chars.take (d.firstExp.toNat + 1) ++
          write.zeros (d.firstExp.toNat + 1 - d.chars.length) ++
          '.' :: (if (d.chars.drop (d.firstExp.toNat + 1)).isEmpty then ['0']
            else d.chars.drop (d.firstExp.toNat + 1)) ∧
      t.decimal.value = d.value := by
  have hpos := d.length_chars_pos
  generalize hcount : d.firstExp.toNat + 1 = count
  have hexp : d.exp = count - d.chars.length := by
    rw [firstExp] at h hcount
    omega
  have hwhole : d.chars.take count ++ write.zeros (count - d.chars.length) ≠ [] := by
    intro hnil
    have hlength := congrArg List.length (List.append_eq_nil_iff.mp hnil).1
    rw [List.length_take, List.length_nil] at hlength
    omega
  split
  · next hrest =>
    -- All digits stand in front of the point, with zeros behind them.
    have hle : d.chars.length ≤ count := by simpa using hrest
    have hdigit : ∀ c ∈ d.chars.take count ++ write.zeros (count - d.chars.length) ++ ['0'],
        c.isDigit := by
      intro c hc
      simp only [List.mem_append, List.mem_singleton] at hc
      rcases hc with (hc | hc) | rfl
      · exact d.isDigit_of_mem_chars (List.mem_of_mem_take hc)
      · exact isDigit_of_mem_zeros hc
      · rfl
    refine ⟨.pointed _ _ hwhole (by simp) hdigit, FloatNumeral.text_pointed .., ?_⟩
    have hvalue : Nat.ofDigitChars 10
        (d.chars.take count ++ write.zeros (count - d.chars.length) ++ write.zeros 1) 0 =
        d.digits * 10 ^ (count - d.chars.length) * 10 := by
      rw [ofDigitChars_append_zeros, ofDigitChars_append_zeros, List.take_of_length_le hle,
        d.ofDigitChars_chars, Nat.pow_one]
    have hpow : (10 : ℚ) ^ d.exp = 10 ^ (count - d.chars.length) := by
      rw [hexp, ← Int.ofNat_sub hle, zpow_natCast]
    change ((Nat.ofDigitChars 10 (d.chars.take count ++ write.zeros (count - d.chars.length) ++
      write.zeros 1) 0 : Nat) : ℚ) * 10 ^ (0 - 1 : Int) = d.digits * 10 ^ d.exp
    rw [hvalue, hpow]
    push_cast
    norm_num
    ring
  · next hrest =>
    -- The point stands between two digits.
    have hlt : count < d.chars.length := by simpa using hrest
    have hzeros : write.zeros (count - d.chars.length) = [] := by
      rw [Nat.sub_eq_zero_of_le hlt.le]
      rfl
    rw [hzeros, List.append_nil] at hwhole ⊢
    have happend : d.chars.take count ++ d.chars.drop count = d.chars := List.take_append_drop ..
    have hdigit : ∀ c ∈ d.chars.take count ++ d.chars.drop count, c.isDigit := by
      rw [happend]
      exact fun c => d.isDigit_of_mem_chars
    refine ⟨.pointed _ _ hwhole (by simpa using hlt) hdigit, FloatNumeral.text_pointed .., ?_⟩
    refine d.value_decimal_eq ?_ ?_
    · simp only [FloatNumeral.pointed, happend]
      exact d.ofDigitChars_chars
    · simp only [FloatNumeral.pointed, FloatNumeral.exponentValue, List.length_drop]
      omega

theorem exists_scaled (width : Nat) :
    ∃ t : FloatNumeral,
      t.text = d.chars.take 1 ++
          (if (d.chars.drop 1).isEmpty then [] else '.' :: d.chars.drop 1) ++
          'e' :: (if d.firstExp < 0 then '-' else '+') ::
            (write.zeros (width - (Nat.toDigits 10 d.firstExp.natAbs).length) ++
              Nat.toDigits 10 d.firstExp.natAbs) ∧
      t.decimal.value = d.value := by
  have hpos := d.length_chars_pos
  have hwhole : d.chars.take 1 ≠ [] := by simp [d.chars_ne_nil]
  have happend : d.chars.take 1 ++ d.chars.drop 1 = d.chars := List.take_append_drop ..
  have hdigit : ∀ c ∈ d.chars.take 1 ++ d.chars.drop 1, c.isDigit := by
    rw [happend]
    exact fun c => d.isDigit_of_mem_chars
  have hexponent : ∀ c ∈ write.zeros (width - (Nat.toDigits 10 d.firstExp.natAbs).length) ++
      Nat.toDigits 10 d.firstExp.natAbs, c.isDigit := by
    intro c hc
    rcases List.mem_append.mp hc with hc | hc
    · exact isDigit_of_mem_zeros hc
    · exact Nat.isDigit_of_mem_toDigits (by decide) (by decide) hc
  refine ⟨.scaled _ _ (d.firstExp < 0) _ hwhole (by simp [Nat.toDigits_ne_nil]) hdigit hexponent,
    ?_, d.value_decimal_eq ?_ ?_⟩
  · simp [FloatNumeral.text, FloatNumeral.scaled, FloatNumeral.fractionText,
      FloatNumeral.exponentText]
  · simp only [FloatNumeral.scaled, happend]
    exact d.ofDigitChars_chars
  · simp only [FloatNumeral.scaled, FloatNumeral.exponentValue, ofDigitChars_zeros_append,
      Nat.ofDigitChars_toDigits (by decide : 1 < 10) (by decide : 10 ≤ 10), List.length_drop,
      decide_eq_true_eq]
    rw [firstExp]
    split <;> omega

/--
Every text of a decimal is a float numeral of the same value.
-/
theorem exists_write_eq (style : DecimalStyle) :
    ∃ t : FloatNumeral, d.write style = String.ofList t.text ∧ t.decimal.value = d.value := by
  rw [write]
  simp only [← chars.eq_def, ← firstExp.eq_def]
  split
  · split
    · next hneg =>
      obtain ⟨t, htext, hvalue⟩ := d.exists_pointed_of_firstExp_neg hneg
      exact ⟨t, by rw [htext], hvalue⟩
    · next hneg =>
      obtain ⟨t, htext, hvalue⟩ := d.exists_pointed_of_firstExp_nonneg (by omega)
      exact ⟨t, by rw [htext], hvalue⟩
  · obtain ⟨t, htext, hvalue⟩ := d.exists_scaled style.exponentWidth
    exact ⟨t, by rw [htext], hvalue⟩

end Decimal

namespace Binary

variable {f : Format}

theorem numEq_self {x : Binary f} (h : x.isNan = false) : x.numEq x := by
  cases x with
  | nan s => cases h
  | number s r => cases s <;> simp [numEq, place]

theorem eq_of_numEq {x y : Binary f} (h : x.numEq y) (hs : x.negative = y.negative) : x = y := by
  cases x with
  | nan s => cases h
  | number s r =>
    cases y with
    | nan s' => cases s <;> cases h
    | number s' r' =>
      cases (show s = s' from hs)
      have hr : r.val = r'.val := by
        cases s <;> simpa [numEq, place] using h
      rw [Fin.ext hr]

end Binary

theorem Binary.exists_of_finite {f : Format} {x : Binary f} (hnan : x.isNan = false)
    (hinf : x.isInfinite = false) : ∃ s r, x = .number s r ∧ r.val < f.infinity := by
  cases x with
  | nan s => cases hnan
  | number s r =>
    have hne : r.val ≠ f.infinity := by simpa [isInfinite] using hinf
    exact ⟨s, r, rfl, by omega⟩

namespace Double

/-- A finite number is written as its shortest decimal. -/
theorem exists_write_shortest (s : Bool) {r : Fin (Format.double.infinity + 1)}
    (hr : r.val < Format.double.infinity) :
    ∃ t : FloatNumeral,
      (write (.number s r)).toList = (if s then ['-'] else []) ++ t.text ∧
        t.decimal.value = (Decimal.shortest .double r.val).value := by
  obtain ⟨t, htext, hvalue⟩ := (Decimal.shortest .double r.val).exists_write_eq .floatLiteral
  have hinf : (Binary.number s r : Double).isInfinite = false := by
    simpa [Binary.isInfinite] using hr.ne
  refine ⟨t, ?_, hvalue⟩
  simp only [write, hinf, htext]
  cases s <;> simp [Binary.negative]

section

variable {x : Double} (hnan : x.isNan = false) (hinf : x.isInfinite = false)

include hnan hinf

theorem toDigits_enoughDigits : x.toDigits (Decimal.enoughDigits .double) = x := by
  obtain ⟨s, r, rfl, hr⟩ := Binary.exists_of_finite hnan hinf
  have hround : (Decimal.ofFraction (Decimal.enoughDigits .double) (Format.double.numerator r.val)
      (Format.double.denominator r.val)).round .double = r.val :=
    Decimal.round_onGrid .double (by decide) (by decide) hr
  rw [toDigits]
  simp [hinf, Decimal.toBinary, hround]

/-- The search for the fewest digits always ends before its fallback, with the first ones. -/
theorem exists_fewestDigits :
    ∃ count, 1 ≤ count ∧ count ≤ Decimal.enoughDigits .double ∧
      x.fewestDigits = x.toDigits count ∧ (x.toDigits count).toSingle.numEq x.toSingle ∧
      ∀ c, 1 ≤ c → (x.toDigits c).toSingle.numEq x.toSingle → count ≤ c := by
  rw [fewestDigits, List.find?_map]
  cases hfound : (List.range (Decimal.enoughDigits .double)).find?
      ((fun y : Double => y.toSingle.numEq x.toSingle) ∘ fun count => x.toDigits (count + 1)) with
  | some i =>
    obtain ⟨hi, hmem, hfirst⟩ := List.find?_range_eq_some.mp hfound
    refine ⟨i + 1, Nat.succ_pos i, List.mem_range.mp hmem, rfl, hi, fun c hc heq => ?_⟩
    by_contra hlt
    have hfails := hfirst (c - 1) (by omega)
    rw [Function.comp_apply, Nat.sub_add_cancel hc, heq] at hfails
    cases hfails
  | none =>
    have hfails := List.find?_eq_none.mp hfound (Decimal.enoughDigits .double - 1)
      (List.mem_range.mpr (by decide))
    rw [Function.comp_apply, Nat.sub_add_cancel (by decide), toDigits_enoughDigits hnan hinf]
      at hfails
    have hsingle : x.toSingle.isNan = false := by
      rw [toSingle, Binary.isNan_convert, Binary.isNan_convert, hnan]
    exact absurd (Binary.numEq_self hsingle) hfails

theorem exists_write_eq :
    ∃ t : FloatNumeral, x.write.toList = (if x.negative then ['-'] else []) ++ t.text ∧
      t.decimal.toBinary false = if x.negative then -x else x := by
  obtain ⟨s, r, rfl, hr⟩ := Binary.exists_of_finite hnan hinf
  obtain ⟨t, htext, hvalue⟩ := exists_write_shortest s hr
  have hround : t.decimal.round .double = r.val := by
    rw [Decimal.round_congr .double (by decide) hvalue]
    exact Decimal.round_shortest .double (by decide) (by decide) hr
  refine ⟨t, htext, ?_⟩
  cases s <;> simp [Decimal.toBinary, hround, Binary.negative, Neg.neg, Binary.neg]

end

theorem negative_toDigits (count : Nat) (x : Double) :
    (x.toDigits count).negative = x.negative := by
  cases x with
  | nan s => rfl
  | number s r =>
    rw [toDigits]
    split <;> rfl

theorem fewestDigits_spec {x : Double} (hnan : x.isNan = false) (hinf : x.isInfinite = false) :
    x.fewestDigits.negative = x.negative ∧ x.fewestDigits.toSingle = x.toSingle := by
  obtain ⟨count, -, -, hcount, heq, -⟩ := exists_fewestDigits hnan hinf
  rw [hcount]
  refine ⟨negative_toDigits count x, Binary.eq_of_numEq heq ?_⟩
  rw [negative_toSingle, negative_toSingle, negative_toDigits]

/-- A finite number is spelled with the fewest digits that give the same single precision number. -/
theorem exists_spell_toDigits {x : Double} (hnan : x.isNan = false) (hinf : x.isInfinite = false) :
    ∃ count, 1 ≤ count ∧ count ≤ 17 ∧ x.spell = (x.toDigits count).write ∧
      x.fewestDigits = x.toDigits count ∧ (x.toDigits count).toSingle.numEq x.toSingle ∧
      ∀ c, 1 ≤ c → c < count → ¬(x.toDigits c).toSingle.numEq x.toSingle := by
  obtain ⟨count, hpos, hle, hfound, hcount, hfirst⟩ := exists_fewestDigits hnan hinf
  refine ⟨count, hpos, hle, ?_, hfound, hcount, fun c hc hlt heq => ?_⟩
  · rw [spell, hnan, hinf, if_neg Bool.false_ne_true, if_neg Bool.false_ne_true, hfound]
  · exact Nat.not_le_of_lt hlt (hfirst c hc heq)

theorem exists_spell_eq {x : Double} (hnan : x.isNan = false) (hinf : x.isInfinite = false)
    (hx : x.toSingle = x) :
    ∃ (t : FloatNumeral) (y : Double),
      x.spell.toList = (if x.negative then ['-'] else []) ++ t.text ∧ y.toSingle = x ∧
      t.decimal.toBinary false = if x.negative then -y else y := by
  obtain ⟨hsign, hsingle⟩ := fewestDigits_spec hnan hinf
  rw [hx] at hsingle
  -- A numeral that rounds to a finite number is finite.
  have hynan : x.fewestDigits.isNan = false := by
    rw [← hsingle, toSingle, Binary.isNan_convert, Binary.isNan_convert] at hnan
    exact hnan
  have hyinf : x.fewestDigits.isInfinite = false := by
    rw [Bool.eq_false_iff]
    intro h
    have hinfinite : x.fewestDigits.toSingle.isInfinite :=
      Binary.isInfinite_convert (Binary.isInfinite_convert h)
    rw [hsingle, hinf] at hinfinite
    cases hinfinite
  obtain ⟨t, htext, ht⟩ := exists_write_eq hynan hyinf
  rw [hsign] at htext ht
  refine ⟨t, x.fewestDigits, ?_, hsingle, ht⟩
  rw [spell, hnan, hinf, if_neg Bool.false_ne_true, if_neg Bool.false_ne_true, htext]

end Double

namespace Node

/-- What an expression is without parentheses around it. -/
def unparenthesized : Node → Node
  | mk l [opening, inner, closing] =>
    if l.type == "parenthesized_expression" then inner else mk l [opening, inner, closing]
  | n => n

def numerals (n : Node) : List (Option String) :=
  (n.tokens.filter fun l => l.type == "number_literal").map Label.text

theorem readLiteral_numeral (t : FloatNumeral) (field : Option String) :
    (token "number_literal" (String.ofList t.text) "" field).readLiteral =
      .ok ⟨.float, .float (t.decimal.toBinary false)⟩ := by
  rw [readLiteral, token, text_of_token rfl, String.toList_ofList, t.read_text]

def negated (text : String) : Node :=
  branch "unary_expression" [
    symbol "-" "" (some "operator"),
    token "number_literal" text "" (some "argument")]

theorem signedLiteral?_negated (text : String) :
    (negated text).signedLiteral? =
      .ok (some (true, token "number_literal" text "" (some "argument"))) := by
  have hoperator :
      (negated text).childByField? "operator" = some (symbol "-" "" (some "operator")) :=
    rfl
  have hoperand : (negated text).childByField? "argument" =
      some (token "number_literal" text "" (some "argument")) := rfl
  have htype : (negated text).type == "unary_expression" := rfl
  have hminus : (symbol "-" "" (some "operator")).text = "-" := text_of_token rfl _
  rw [signedLiteral?, if_pos htype, hoperator, hoperand]
  simp [hminus, token, type, label, pure, Except.pure]

theorem literal_negated (t : FloatNumeral) :
    (negated (String.ofList t.text)).literal =
      .ok ⟨.float, .float (-t.decimal.toBinary false)⟩ := by
  rw [literal, signedLiteral?_negated]
  change (do let l ← readLiteral _; pure l.neg) = _
  rw [readLiteral_numeral]
  rfl

theorem ofDouble_of_spell {x : Double} {t : FloatNumeral}
    (h : x.spell.toList = (if x.negative then ['-'] else []) ++ t.text) :
    ofDouble x =
      if x.negative then
        branch "parenthesized_expression" [symbol "(", negated (String.ofList t.text), symbol ")"]
      else
        token "number_literal" (String.ofList t.text) := by
  obtain ⟨c, cs, htext, hc⟩ := t.exists_text_eq_cons
  rw [ofDouble]
  split
  · next digits hminus =>
    cases hs : x.negative with
    | true =>
      simp only [hs, if_true, hminus, List.cons_append, List.cons.injEq, List.nil_append] at h
      simp [h, negated]
    | false =>
      simp [hs, hminus, htext] at h
      rw [← h.1] at hc
      cases hc
  · next hminus =>
    cases hs : x.negative with
    | true =>
      simp [hs] at h
      exact absurd h (hminus _)
    | false =>
      simp [hs] at h
      simp [← h]

theorem constant_f32_of_literal {n : Node} {x y : Double}
    (h : n.literal = .ok ⟨.float, .float y⟩) (hy : y.toSingle = x) :
    n.constant .f32 = .ok (.float x) := by
  rw [constant_f32, single_eq, h, ← hy]
  rfl

/--
The expression of a finite single precision number reads back as this number, bit for bit. It stands
in parentheses exactly if it is negative, its numeral is not that of an integer, and its first
character is no sign. The numeral has the fewest digits that give the same number, which the search
for them finds.
-/
theorem ofDouble_reads_back (v : Single) (hnan : v.isNan = false) (hinf : v.isInfinite = false) :
    let n := ofDouble v.convert
    (n.type = "parenthesized_expression" ↔ v.negative = true) ∧
    (∃ y, n.unparenthesized.literal = .ok ⟨.float, .float y⟩) ∧
    (∃ x : Double, n.unparenthesized.constant .f32 = .ok (.float x) ∧ x = v.convert ∧
      (x.convert : Single) = v) ∧
    (∃ t : FloatNumeral, n.numerals = [some (String.ofList t.text)]) ∧
    (∃ c cs, n.render.toList = c :: cs ∧ c ≠ '-' ∧ c ≠ '+') ∧
    ∃ count, 1 ≤ count ∧ count ≤ 17 ∧
      Double.spell v.convert = (Double.toDigits count v.convert).write ∧
      Double.fewestDigits v.convert = Double.toDigits count v.convert ∧
      (Double.toDigits count v.convert).toSingle.numEq (Double.toSingle v.convert) ∧
      ∀ c, 1 ≤ c → c < count →
        ¬(Double.toDigits c v.convert).toSingle.numEq (Double.toSingle v.convert) := by
  have hback := Binary.convert_convert Format.single_embeds_double v
  have hsign : (v.convert : Double).negative = v.negative := Binary.negative_convert v
  have hxnan : (v.convert : Double).isNan = false := by rw [Binary.isNan_convert, hnan]
  have hxinf : (v.convert : Double).isInfinite = false := by
    rw [Bool.eq_false_iff]
    intro h
    rw [← hback, Binary.isInfinite_convert h] at hinf
    cases hinf
  have hdigits := Double.exists_spell_toDigits hxnan hxinf
  obtain ⟨t, y, htext, hy, ht⟩ := Double.exists_spell_eq hxnan hxinf (Double.toSingle_convert v)
  rw [ofDouble_of_spell htext, hsign]
  rw [hsign] at ht
  obtain ⟨c, cs, hcons, hc⟩ := t.exists_text_eq_cons
  cases hs : v.negative with
  | true =>
    have hliteral : (negated (String.ofList t.text)).literal = .ok ⟨.float, .float y⟩ := by
      rw [literal_negated, ht, hs, if_pos rfl, Binary.neg_neg]
    refine ⟨⟨fun _ => rfl, fun _ => rfl⟩, ⟨y, hliteral⟩,
      ⟨_, constant_f32_of_literal hliteral hy, rfl, hback⟩, ⟨t, ?_⟩, ?_, hdigits⟩
    · simp [numerals, negated, branch, symbol, token, tokens, listTokens, Label.isToken]
    · refine ⟨'(', '-' :: (t.text ++ [')']), ?_, by decide, by decide⟩
      simp [negated, branch, symbol, token, render, renderTokens, tokens, listTokens,
        Label.isToken, Label.render]
  | false =>
    have hliteral : (token "number_literal" (String.ofList t.text)).literal =
        .ok ⟨.float, .float y⟩ := by
      rw [literal_of_type rfl, readLiteral_numeral, ht, hs, if_neg Bool.false_ne_true]
    have htype : "number_literal" ≠ "parenthesized_expression" := by decide
    refine ⟨iff_of_false htype Bool.false_ne_true, ⟨y, hliteral⟩,
      ⟨_, constant_f32_of_literal hliteral hy, rfl, hback⟩, ⟨t, ?_⟩, ?_, hdigits⟩
    · simp [numerals, token, tokens, Label.isToken]
    · refine ⟨c, cs, ?_, ?_, ?_⟩
      · simp [token, render, renderTokens, tokens, Label.isToken, Label.render, hcons]
      · rintro rfl
        cases hc
      · rintro rfl
        cases hc

def leastNegative : Single := .number true ⟨1, by decide⟩

theorem ofDouble_reads_back_leastNegative :
    leastNegative.isNan = false ∧ leastNegative.isInfinite = false ∧
      ((ofDouble leastNegative.convert).type = "parenthesized_expression" ↔
        leastNegative.negative = true) ∧
      (∃ x : Double,
        (ofDouble leastNegative.convert).unparenthesized.constant .f32 = .ok (.float x) ∧
          x = leastNegative.convert ∧ (x.convert : Single) = leastNegative) ∧
      ∃ count, count ≤ 17 ∧
        Double.spell leastNegative.convert =
          (Double.toDigits count leastNegative.convert).write ∧
        Double.fewestDigits leastNegative.convert =
          Double.toDigits count leastNegative.convert := by
  have hinf : leastNegative.isInfinite = false := by decide
  obtain ⟨hparentheses, -, hconstant, -, -, count, -, hle, hspell, hfound, -⟩ :=
    ofDouble_reads_back leastNegative rfl hinf
  exact ⟨rfl, hinf, hparentheses, hconstant, count, hle, hspell, hfound⟩

end Node

end ShaderParams
