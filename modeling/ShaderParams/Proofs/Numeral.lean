import Mathlib.Data.Nat.Digits.Defs
import ShaderParams.Number.Literal
import ShaderParams.Proofs.Decimal

/-!
This module contains numerals: how integers and reals are written, the numbers that they stand for,
and that the readers of numerals give these numbers.
-/

namespace ShaderParams

-- Powers of natural numbers are the built-in ones, whatever other instances are in scope.
attribute [local instance (2000)] instPowNat

-- What is decided about the characters of a list is decided for them alone.
attribute [local instance (2000)] List.decidableBAll

open Text

/--
A digit as it is written: its value, and whether it is a capital if it is a letter.
-/
structure Figure (base : Nat) where
  value : Fin base
  capital : Bool := false

namespace Figure

variable {base : Nat}

def char (d : Figure base) : Char :=
  if d.capital then (Nat.digitChar d.value).toUpper else Nat.digitChar d.value

def ofNat (n : Nat) : Figure 10 := ⟨⟨n % 10, Nat.mod_lt n (by decide)⟩, false⟩

def number (ds : List (Figure base)) : Nat :=
  Nat.ofDigits base (ds.map fun d => d.value.val).reverse

theorem number_append (ds es : List (Figure base)) :
    number (ds ++ es) = number ds * base ^ es.length + number es := by
  rw [number, List.map_append, List.reverse_append, Nat.ofDigits_append, List.length_reverse,
    List.length_map, ← number, ← number]
  ring

theorem number_zero_cons (h : 0 < base) (capital : Bool) (ds : List (Figure base)) :
    number (⟨⟨0, h⟩, capital⟩ :: ds) = number ds := by
  have happend := number_append [⟨⟨0, h⟩, capital⟩] ds
  have hzero : number [(⟨⟨0, h⟩, capital⟩ : Figure base)] = 0 := by simp [number]
  rwa [hzero, Nat.zero_mul, Nat.zero_add] at happend

theorem ofDigits_values (ds : List (Figure base)) :
    ofDigits base (ds.map fun d => d.value.val) = number ds := by
  rw [ofDigits, number, Nat.ofDigits_eq_foldr, List.foldr_reverse]
  simp only [Nat.mul_comm base, Nat.add_comm, Nat.cast_id]

end Figure

def figureChars : List Char :=
  ['0', '1', '2', '3', '4', '5', '6', '7', '8', '9', 'a', 'b', 'c', 'd', 'e', 'f', 'A', 'B', 'C',
    'D', 'E', 'F']

theorem Figure.char_mem {base : Nat} (h : base ≤ 16) (d : Figure base) : d.char ∈ figureChars := by
  have hall : ∀ (v : Fin 16) (capital : Bool), (⟨v, capital⟩ : Figure 16).char ∈ figureChars := by
    decide
  exact hall ⟨d.value, lt_of_lt_of_le d.value.isLt h⟩ d.capital

def digitChars : List Char := ['0', '1', '2', '3', '4', '5', '6', '7', '8', '9']

theorem Figure.char_mem_digitChars {base : Nat} (h : base ≤ 10) (d : Figure base) :
    d.char ∈ digitChars := by
  have hall : ∀ (v : Fin 10) (capital : Bool), (⟨v, capital⟩ : Figure 10).char ∈ digitChars := by
    decide
  exact hall ⟨d.value, lt_of_lt_of_le d.value.isLt h⟩ d.capital

theorem Figure.isDigit_char (d : Figure 10) : d.char.isDigit := by
  have hall : ∀ c ∈ digitChars, c.isDigit := by decide
  exact hall _ (d.char_mem_digitChars le_rfl)

theorem Text.Radix.base_le (r : Radix) : r.base ≤ 16 := by
  cases r <;> decide

theorem Text.Radix.digit?_char (r : Radix) (d : Figure r.base) :
    r.digit? d.char = some d.value.val := by
  have hall : ∀ (v : Fin r.base) (capital : Bool),
      r.digit? (⟨v, capital⟩ : Figure r.base).char = some v.val := by
    cases r <;> decide
  exact hall d.value d.capital

/-!
Reading the characters of numerals.
-/

def numeralChars : List Char :=
  '.' :: '+' :: '-' :: figureChars

theorem eq_false_of_mem_numeralChars {p : Char → Bool} (hp : numeralChars.any p = false) {c : Char}
    (hc : c ∈ numeralChars) : p c = false := by
  simpa using List.any_eq_false.mp hp c hc

theorem dropWhile_eq_self {α : Type} {p : α → Bool} {cs : List α} (h : ∀ c ∈ cs, p c = false) :
    cs.dropWhile p = cs := by
  cases cs with
  | nil => rfl
  | cons c cs => simp [h c (List.mem_cons_self ..)]

namespace Text

section

variable {cs : List Char} (h : ∀ c ∈ cs, c ∈ numeralChars)

include h

theorem map_foldNumeral_eq_self : cs.map foldNumeral = cs := by
  have hfold : ∀ c ∈ numeralChars, foldNumeral c = c := by decide
  rw [List.map_congr_left fun c hc => hfold c (h c hc), List.map_id']

theorem trim_eq_self : trim cs = cs := by
  have hblank : numeralChars.any isBlank = false := by decide
  rw [trim, dropWhile_eq_self fun c hc => eq_false_of_mem_numeralChars hblank (h c hc),
    dropWhile_eq_self fun c hc =>
      eq_false_of_mem_numeralChars hblank (h c (List.mem_reverse.mp hc)), List.reverse_reverse]

theorem dropUnderscores?_eq_self (afterDigit : Bool) :
    dropUnderscores? afterDigit cs = some cs := by
  induction cs generalizing afterDigit with
  | nil => rfl
  | cons c cs ih =>
    have hc : c ≠ '_' := by
      rintro rfl
      exact absurd (h '_' (List.mem_cons_self ..)) (by decide)
    have htail := ih (fun d hd => h d (List.mem_cons_of_mem c hd)) c.isDigit
    rw [dropUnderscores?.eq_4 _ _ _ (by simpa using hc), htail]
    rfl

end

theorem sign_cons {c : Char} (hminus : c ≠ '-') (hplus : c ≠ '+') (cs : List Char) :
    sign (c :: cs) = (false, c :: cs) := by
  rw [sign]
  · rintro ds ⟨⟩
    exact hminus rfl
  · rintro ds ⟨⟩
    exact hplus rfl

theorem digitRun?_eq_mapM {value? : Char → Option Nat} {cs : List Char} (hne : cs ≠ [])
    (h : '_' ∉ cs) : digitRun? value? cs = cs.mapM value? := by
  induction cs with
  | nil => exact absurd rfl hne
  | cons c cs ih =>
    cases cs with
    | nil => simp [digitRun?]
    | cons d cs =>
      have htail := ih (by simp) fun hmem => h (List.mem_cons_of_mem c hmem)
      rw [digitRun?, List.mapM_cons, htail]
      · simp
      · rintro es heq
        cases heq
        simp at h

theorem mapM_eq_none {α β : Type} {f : α → Option β} {xs : List α} {x : α} (hx : x ∈ xs)
    (h : f x = none) : xs.mapM f = none := by
  induction xs with
  | nil => cases hx
  | cons y xs ih =>
    rw [List.mapM_cons]
    rcases List.mem_cons.mp hx with rfl | hx
    · rw [h]
      rfl
    · rw [ih hx]
      cases f y <;> rfl

section

variable {cs : List Char} (h : ∀ c ∈ cs, c ∈ figureChars)

include h

theorem sign_of_figureChars : sign cs = (false, cs) := by
  cases cs with
  | nil => rfl
  | cons c cs =>
    have hall : ∀ c ∈ figureChars, c ≠ '-' ∧ c ≠ '+' := by decide
    obtain ⟨hminus, hplus⟩ := hall c (h c List.mem_cons_self)
    exact sign_cons hminus hplus cs

theorem Radix.dropMarker_of_figureChars (r : Radix) : r.dropMarker cs = cs := by
  rw [dropMarker.eq_def]
  split
  · next m cs =>
    have hall : ∀ c ∈ figureChars, r.marker? ≠ some (lower c) := by cases r <;> decide
    rw [if_neg (hall m (h m (by simp)))]
  · rfl

theorem Radix.integer?_of_figureChars (r : Radix) (hne : cs ≠ []) :
    r.integer? cs = do
      let ds ← cs.mapM r.digit?
      guard (r.limit?.all (ds.length ≤ ·))
      return (ofDigits r.base ds : Int) := by
  have hmem (c : Char) (hc : c ∈ cs) : c ∈ numeralChars := by
    have hmem := h c hc
    simp [numeralChars, hmem]
  have hunderscore : '_' ∉ cs := fun hmem => absurd (h _ hmem) (by decide)
  rw [integer?, map_foldNumeral_eq_self hmem, trim_eq_self hmem, sign_of_figureChars h]
  simp only [r.dropMarker_of_figureChars h, digitRun?_eq_mapM hne hunderscore]
  rfl

end

theorem Radix.mapM_digit?_figures (r : Radix) (ds : List (Figure r.base)) :
    (ds.map Figure.char).mapM r.digit? = some (ds.map fun d => d.value.val) := by
  induction ds with
  | nil => rfl
  | cons d ds ih =>
    rw [List.map_cons, List.mapM_cons, r.digit?_char, ih]
    rfl

theorem mem_figureChars {base : Nat} (h : base ≤ 16) {ds : List (Figure base)} {c : Char}
    (hc : c ∈ ds.map Figure.char) : c ∈ figureChars := by
  obtain ⟨d, -, rfl⟩ := List.mem_map.mp hc
  exact d.char_mem h

theorem Radix.integer?_figures (r : Radix) (ds : List (Figure r.base)) (hne : ds ≠ [])
    (hlimit : r.limit?.all (ds.length ≤ ·)) :
    r.integer? (ds.map Figure.char) = some (Figure.number ds : Int) := by
  rw [r.integer?_of_figureChars (fun c => mem_figureChars r.base_le) (by simpa using hne),
    r.mapM_digit?_figures]
  simp only [Option.bind_eq_bind, Option.bind_some, List.length_map, hlimit,
    Figure.ofDigits_values]
  rfl

theorem mapM_digit?_figures (ds : List (Figure 10)) :
    (ds.map Figure.char).mapM Radix.decimal.digit? = some (ds.map fun d => d.value.val) :=
  Radix.decimal.mapM_digit?_figures ds

end Text

/-!
Integers.
-/

/--
An integer as it is written. Decimal ones do not begin with a zero and have a bounded number of
digits; octal ones have a zero in front, hexadecimal ones a zero and an `x`.
-/
inductive IntegerNumeral where
  | decimal (first : Figure 10) (rest : List (Figure 10)) (hfirst : first.value ≠ 0)
    (hrest : rest.length < 4300)
  | octal (rest : List (Figure 8))
  | hexadecimal (capital : Bool) (ds : List (Figure 16)) (hds : ds ≠ [])

namespace IntegerNumeral

def text : IntegerNumeral → List Char
  | decimal first rest _ _ => (first :: rest).map Figure.char
  | octal rest => '0' :: rest.map Figure.char
  | hexadecimal capital ds _ => '0' :: (if capital then 'X' else 'x') :: ds.map Figure.char

def number : IntegerNumeral → Nat
  | decimal first rest _ _ => Figure.number (first :: rest)
  | octal rest => Figure.number rest
  | hexadecimal _ ds _ => Figure.number ds

def isHexadecimal : IntegerNumeral → Bool
  | hexadecimal .. => true
  | decimal .. | octal _ => false

theorem integer?_text {n : IntegerNumeral} (h : n.isHexadecimal = false) :
    Literal.integer? n.text = some (n.number : Int) := by
  cases n with
  | hexadecimal capital ds hds => cases h
  | decimal first rest hfirst hrest =>
    have hzero : first.char ≠ '0' := by
      have hall : ∀ (v : Fin 10) (capital : Bool), v ≠ 0 →
          (⟨v, capital⟩ : Figure 10).char ≠ '0' := by
        decide
      exact hall first.value first.capital hfirst
    rw [text, Literal.integer?, if_neg (by simp [hzero])]
    exact Radix.decimal.integer?_figures (first :: rest) (by simp) (decide_eq_true hrest)
  | octal rest =>
    cases rest with
    | nil => rfl
    | cons d ds =>
      have hread := Radix.octal.integer?_figures (⟨⟨0, by decide⟩, false⟩ :: d :: ds) (by simp) rfl
      rw [Figure.number_zero_cons] at hread
      rw [text, Literal.integer?, if_pos (by simp)]
      exact hread

end IntegerNumeral

/-!
Reals.
-/

inductive Sign where
  | plus
  | minus
deriving DecidableEq

namespace Sign

def char : Sign → Char
  | plus => '+'
  | minus => '-'

def isMinus : Sign → Bool
  | plus => false
  | minus => true

end Sign

structure Exponent where
  capital : Bool
  sign : Option Sign
  digits : List (Figure 10)
  digits_ne_nil : digits ≠ []

namespace Exponent

def text (e : Exponent) : List Char :=
  (if e.capital then 'E' else 'e') :: (e.sign.toList.map Sign.char ++ e.digits.map Figure.char)

def power (e : Exponent) : Int :=
  if e.sign = some .minus then -(Figure.number e.digits : Int) else Figure.number e.digits

theorem exponent?_text (e : Exponent) : decimal?.exponent? e.text = some e.power := by
  have hletter : (lower (if e.capital then 'E' else 'e') == 'e') = true := by
    cases e.capital <;> decide
  have hsign : Text.sign (e.sign.toList.map Sign.char ++ e.digits.map Figure.char) =
      (decide (e.sign = some .minus), e.digits.map Figure.char) := by
    cases hs : e.sign with
    | none => exact sign_of_figureChars fun c => mem_figureChars (by decide)
    | some s => cases s <;> rfl
  have hnil : (e.digits.map Figure.char).isEmpty = false := by
    simpa using e.digits_ne_nil
  rw [text, decimal?.exponent?, if_pos hletter, hsign]
  simp only [hnil, mapM_digit?_figures]
  simp [Figure.ofDigits_values, power]

end Exponent

/--
A real as it is written: digits before and behind the point if there is one, and the exponent if
there is one. It has digits, and a point or an exponent.
-/
structure RealNumeral where
  whole : List (Figure 10)
  fraction? : Option (List (Figure 10))
  exponent? : Option Exponent
  digits_ne_nil : whole ++ fraction?.getD [] ≠ []
  not_integer : fraction?.isSome ∨ exponent?.isSome

namespace RealNumeral

variable (t : RealNumeral)

def fraction : List (Figure 10) := t.fraction?.getD []

def power : Int := (t.exponent?.map Exponent.power).getD 0

def fractionText : List Char :=
  match t.fraction? with
  | none => []
  | some ds => '.' :: ds.map Figure.char

def exponentText : List Char :=
  match t.exponent? with
  | none => []
  | some e => e.text

def text : List Char :=
  t.whole.map Figure.char ++ t.fractionText ++ t.exponentText

def value : ℚ :=
  (Figure.number t.whole + Figure.number t.fraction / 10 ^ t.fraction.length) * 10 ^ t.power

def decimal : Decimal :=
  ⟨Figure.number (t.whole ++ t.fraction), t.power - t.fraction.length⟩

theorem value_decimal : t.decimal.value = t.value := by
  rw [Decimal.value, decimal, value, Figure.number_append, zpow_sub₀ (by norm_num), zpow_natCast]
  push_cast
  field_simp

def chars : List Char :=
  'e' :: 'E' :: '+' :: '-' :: '.' :: digitChars

theorem mem_chars {c : Char} (h : c ∈ t.text) : c ∈ chars := by
  have hdigit {ds : List (Figure 10)} (h : c ∈ ds.map Figure.char) : c ∈ chars := by
    obtain ⟨d, -, rfl⟩ := List.mem_map.mp h
    have hmem := d.char_mem_digitChars le_rfl
    simp [chars, hmem]
  rw [text, List.mem_append, List.mem_append] at h
  rcases h with (h | h) | h
  · exact hdigit h
  · rw [fractionText] at h
    split at h
    · cases h
    · rcases List.mem_cons.mp h with rfl | h
      · decide
      · exact hdigit h
  · rw [exponentText] at h
    split at h
    · cases h
    · next e _ =>
      rw [Exponent.text, List.mem_cons, List.mem_append] at h
      rcases h with rfl | h | h
      · cases e.capital <;> decide
      · obtain ⟨s, -, rfl⟩ := List.mem_map.mp h
        cases s <;> decide
      · exact hdigit h

theorem exponent?_exponentText : decimal?.exponent? t.exponentText = some t.power := by
  rw [exponentText, power]
  split
  · next h =>
    rw [h]
    rfl
  · next e h =>
    rw [h]
    exact e.exponent?_text

theorem exponentText_ne_point (cs : List Char) : t.exponentText ≠ '.' :: cs := by
  rw [exponentText]
  split
  · simp
  · next e _ =>
    rw [Exponent.text]
    cases e.capital <;> simp

theorem span_exponentText :
    t.exponentText.takeWhile Char.isDigit = [] ∧
      t.exponentText.dropWhile Char.isDigit = t.exponentText := by
  rw [exponentText]
  split
  · exact ⟨rfl, rfl⟩
  · next e _ =>
    rw [Exponent.text]
    cases e.capital <;> exact ⟨rfl, rfl⟩

theorem span_fractionText :
    (t.fractionText ++ t.exponentText).takeWhile Char.isDigit = [] ∧
      (t.fractionText ++ t.exponentText).dropWhile Char.isDigit =
        t.fractionText ++ t.exponentText := by
  rw [fractionText]
  split
  · exact t.span_exponentText
  · exact ⟨rfl, rfl⟩

/-- A numeral is cut at the point and at the exponent. -/
theorem decimal?_text : decimal? t.text = some t.decimal := by
  have hdigit (ds : List (Figure 10)) (c : Char) (h : c ∈ ds.map Figure.char) : c.isDigit := by
    obtain ⟨d, -, rfl⟩ := List.mem_map.mp h
    exact d.isDigit_char
  have htake : t.text.takeWhile Char.isDigit = t.whole.map Figure.char := by
    rw [text, List.append_assoc, List.takeWhile_append_of_pos (hdigit _), t.span_fractionText.1,
      List.append_nil]
  have hdrop : t.text.dropWhile Char.isDigit = t.fractionText ++ t.exponentText := by
    rw [text, List.append_assoc, List.dropWhile_append_of_pos (hdigit _), t.span_fractionText.2]
  have hguard : (!(t.whole.map Figure.char).isEmpty || !(t.fraction.map Figure.char).isEmpty) =
      true := by
    have hne := t.digits_ne_nil
    rw [← fraction] at hne
    cases hwhole : t.whole <;> simp_all
  rw [decimal?, htake, hdrop]
  split
  next fraction cs hcut =>
    obtain ⟨rfl, rfl⟩ : fraction = t.fraction.map Figure.char ∧ cs = t.exponentText := by
      cases hfraction : t.fraction? with
      | none =>
        simp only [fractionText, hfraction, List.nil_append] at hcut
        split at hcut
        · next hpoint => exact absurd hpoint (t.exponentText_ne_point _)
        · cases hcut
          simp [RealNumeral.fraction, hfraction]
      | some ds =>
        simp only [fractionText, hfraction, List.cons_append] at hcut
        rw [List.takeWhile_append_of_pos (hdigit _), List.dropWhile_append_of_pos (hdigit _),
          t.span_exponentText.1, t.span_exponentText.2, List.append_nil] at hcut
        cases hcut
        simp [RealNumeral.fraction, hfraction]
    simp only [hguard, ← List.map_append, mapM_digit?_figures, t.exponent?_exponentText]
    simp [decimal, ← Figure.ofDigits_values]

theorem exists_text_eq_cons : ∃ c cs, t.text = c :: cs ∧ c ∈ '.' :: digitChars := by
  rw [text, fractionText]
  cases hwhole : t.whole with
  | cons d ds =>
    exact ⟨d.char, _, rfl, List.mem_cons_of_mem _ (d.char_mem_digitChars le_rfl)⟩
  | nil =>
    cases hfraction : t.fraction? with
    | some ds => exact ⟨'.', _, rfl, List.mem_cons_self⟩
    | none =>
      have hne := t.digits_ne_nil
      simp [hwhole, hfraction] at hne

theorem real?_text : real? t.text = some (t.decimal.toBinary false) := by
  obtain ⟨c, cs, htext, hc⟩ := t.exists_text_eq_cons
  have hmem (c : Char) (h : c ∈ t.text) : c ∈ numeralChars := by
    have hall : ∀ c ∈ chars, c ∈ numeralChars := by decide
    exact hall c (t.mem_chars h)
  have hsign : sign t.text = (false, t.text) := by
    have hall : ∀ c ∈ '.' :: digitChars, c ≠ '-' ∧ c ≠ '+' := by decide
    rw [htext, sign_cons (hall c hc).1 (hall c hc).2]
  have hword {w : String} (hw : ∀ c ∈ '.' :: digitChars, w.toList.head? ≠ some (lower c)) :
      String.ofList (t.text.map lower) ≠ w := by
    rintro rfl
    rw [String.toList_ofList, htext] at hw
    exact hw c hc rfl
  rw [real?, map_foldNumeral_eq_self hmem, trim_eq_self hmem, dropUnderscores?_eq_self hmem]
  simp only [Option.bind_eq_bind, Option.bind_some, hsign]
  rw [if_neg (not_or.mpr ⟨hword (by decide), hword (by decide)⟩), if_neg (hword (by decide)),
    t.decimal?_text]
  rfl

end RealNumeral

end ShaderParams
