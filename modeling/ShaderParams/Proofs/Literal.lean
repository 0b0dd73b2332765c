import ShaderParams.Proofs.Nearest
import ShaderParams.Proofs.Numeral
import ShaderParams.Proofs.Reading

/-!
This module contains the literals of the shading language: numerals with the letters and signs that
may stand around them, and that the spelling of a literal tells its kind and its value.
-/

namespace ShaderParams

-- What is decided about the characters of a list is decided for them alone.
attribute [local instance (2000)] List.decidableBAll

open Text

namespace Literal

theorem endsIn_eq_false {c : Char} {ending cs : List Char} (h : ∀ d ∈ cs, lower d ≠ c) :
    endsIn (c :: ending) cs = false := by
  rw [endsIn, Bool.eq_false_iff, Ne, List.isSuffixOf_iff_suffix]
  intro hsuffix
  obtain ⟨d, hd, heq⟩ := List.mem_map.mp (hsuffix.subset List.mem_cons_self)
  exact h d hd heq

theorem endsIn_append {ending suffix : List Char} (h : suffix.map lower = ending)
    (cs : List Char) : endsIn ending (cs ++ suffix) = true := by
  rw [endsIn, List.isSuffixOf_iff_suffix, List.map_append, h]
  exact List.suffix_append ..

theorem isPrefixOf_eq_false {cs : List Char} (h : ∀ d ∈ cs, lower d ≠ 'x') :
    ['0', 'x'].isPrefixOf (cs.map lower) = false := by
  rw [Bool.eq_false_iff, Ne, List.isPrefixOf_iff_prefix]
  intro hmarker
  obtain ⟨d, hd, heq⟩ :=
    List.mem_map.mp (hmarker.subset (List.mem_cons_of_mem _ List.mem_cons_self))
  exact h d hd heq

theorem unsigned?_of_digitChars {cs : List Char} (h : ∀ c ∈ cs, c ∈ digitChars) :
    unsigned? cs = (integer? cs).map fun n => ⟨.int, .int n⟩ := by
  have hchars : ∀ l ∈ ['l', 'x', 'u', 'f', 'e', '.'], ∀ c ∈ digitChars, lower c ≠ l := by decide
  have hchar (l : Char) (hl : l ∈ ['l', 'x', 'u', 'f', 'e', '.']) : ∀ c ∈ cs, lower c ≠ l :=
    fun c hc => hchars l hl c (h c hc)
  have hpoint : cs.contains '.' = false := by
    rw [Bool.eq_false_iff, Ne, List.contains_iff_mem]
    exact fun hmem => hchar '.' (by decide) '.' hmem rfl
  have hexponent : (cs.map lower).contains 'e' = false := by
    rw [Bool.eq_false_iff, Ne, List.contains_iff_mem, List.mem_map]
    rintro ⟨c, hc, heq⟩
    exact hchar 'e' (by decide) c hc heq
  rw [unsigned?, endsIn_eq_false (hchar 'l' (by decide)),
    isPrefixOf_eq_false (hchar 'x' (by decide)), endsIn_eq_false (hchar 'u' (by decide)),
    endsIn_eq_false (hchar 'f' (by decide)), hpoint, hexponent]
  cases integer? cs <;> rfl

theorem unsigned?_eq_none {ds : List (Figure 10)} (h : ∃ d ∈ ds, 8 ≤ d.value.val) :
    unsigned? ('0' :: ds.map Figure.char) = none := by
  obtain ⟨d, hd, hvalue⟩ := h
  have hdigit : Radix.octal.digit? d.char = none := by
    have hall : ∀ (v : Fin 10) (capital : Bool), 8 ≤ v.val →
        Radix.octal.digit? (⟨v, capital⟩ : Figure 10).char = none := by
      decide
    exact hall d.value d.capital hvalue
  have hchars : ∀ c ∈ '0' :: ds.map Figure.char, c ∈ digitChars := by
    refine List.forall_mem_cons.mpr ⟨by decide, fun c hc => ?_⟩
    obtain ⟨d, -, rfl⟩ := List.mem_map.mp hc
    exact d.char_mem_digitChars le_rfl
  have hfigures : ∀ c ∈ digitChars, c ∈ figureChars := by decide
  have hoctal : 1 < ('0' :: ds.map Figure.char).length ∧
      ('0' :: ds.map Figure.char).head? = some '0' := by
    have := List.length_pos_of_mem hd
    simpa using this
  rw [unsigned?_of_digitChars hchars, integer?, if_pos hoctal,
    Radix.octal.integer?_of_figureChars (fun c hc => hfigures c (hchars c hc)) (by simp),
    mapM_eq_none (List.mem_cons_of_mem _ (List.mem_map_of_mem hd)) hdigit]
  rfl

end Literal

inductive IntegerSuffix where
  | none
  | unsigned (capital : Bool)

inductive RealSuffix where
  | none
  | single (capital : Bool)
  | double (capital : Bool)

def IntegerSuffix.text : IntegerSuffix → List Char
  | none => []
  | unsigned capital => if capital then ['U'] else ['u']

def RealSuffix.text : RealSuffix → List Char
  | none => []
  | single capital => if capital then ['F'] else ['f']
  | double capital => if capital then ['L', 'F'] else ['l', 'f']

inductive Numeral where
  | integer (n : IntegerNumeral) (suffix : IntegerSuffix)
  | real (n : RealNumeral) (suffix : RealSuffix)

namespace Numeral

def text : Numeral → List Char
  | integer n suffix => n.text ++ suffix.text
  | real n suffix => n.text ++ suffix.text

def kind : Numeral → LiteralKind
  | integer _ .none => .int
  | integer _ (.unsigned _) => .uint
  | real _ .none => .float
  | real _ (.single _) => .float
  | real _ (.double _) => .double

def value : Numeral → ℚ
  | integer n _ => n.number
  | real n _ => n.value

/--
What a numeral is read as: an integer as itself, a real as the nearest double.
-/
def ReadAs : Numeral → Number → Prop
  | integer n _, v => v = .int n.number
  | real n _, v => ∃ x : Double, v = .float x ∧ x.IsNearest n.value ∧ x.negative = false

end Numeral

namespace IntegerNumeral

theorem mem_text {n : IntegerNumeral} {c : Char} (h : c ∈ n.text) :
    c ∈ 'x' :: 'X' :: figureChars := by
  have hfigure {base : Nat} (hbase : base ≤ 16) {ds : List (Figure base)}
      (h : c ∈ ds.map Figure.char) : c ∈ 'x' :: 'X' :: figureChars := by
    simp [mem_figureChars hbase h]
  cases n with
  | decimal first rest hfirst hrest => exact hfigure (by decide) h
  | octal rest =>
    rcases List.mem_cons.mp h with rfl | h
    · decide
    · exact hfigure (by decide) h
  | hexadecimal capital ds hds =>
    rcases List.mem_cons.mp h with rfl | h
    · decide
    rcases List.mem_cons.mp h with rfl | h
    · cases capital <;> decide
    · exact hfigure (by decide) h

theorem mem_digitChars {n : IntegerNumeral} (hn : n.isHexadecimal = false) {c : Char}
    (h : c ∈ n.text) : c ∈ digitChars := by
  have hfigure {base : Nat} (hbase : base ≤ 10) {ds : List (Figure base)}
      (h : c ∈ ds.map Figure.char) : c ∈ digitChars := by
    obtain ⟨d, -, rfl⟩ := List.mem_map.mp h
    exact d.char_mem_digitChars hbase
  cases n with
  | decimal first rest hfirst hrest => exact hfigure (by decide) h
  | octal rest =>
    rcases List.mem_cons.mp h with rfl | h
    · decide
    · exact hfigure (by decide) h
  | hexadecimal capital ds hds => cases hn

end IntegerNumeral

theorem IntegerSuffix.lower_of_mem {suffix : IntegerSuffix} {c : Char} (h : c ∈ suffix.text) :
    lower c = 'u' := by
  cases suffix with
  | none => cases h
  | unsigned capital =>
    cases capital <;> rw [List.mem_singleton.mp h] <;> decide

theorem IntegerSuffix.map_lower_unsigned (capital : Bool) :
    (unsigned capital).text.map lower = ['u'] := by
  cases capital <;> decide

namespace Numeral

theorem lower_ne_of_mem_integer {n : IntegerNumeral} {suffix : IntegerSuffix} {l : Char}
    (hn : ∀ c ∈ n.text, lower c ≠ l) (hl : l ≠ 'u') :
    ∀ c ∈ (integer n suffix).text, lower c ≠ l := by
  intro c hc
  rcases List.mem_append.mp hc with hc | hc
  · exact hn c hc
  · rw [IntegerSuffix.lower_of_mem hc]
    exact hl.symm

theorem unsigned?_hexadecimal (capital : Bool) {ds : List (Figure 16)} (hds : ds ≠ [])
    (suffix : IntegerSuffix) :
    Literal.unsigned? (integer (.hexadecimal capital ds hds) suffix).text =
      some ⟨(integer (.hexadecimal capital ds hds) suffix).kind, .int (Figure.number ds)⟩ := by
  have hread : Radix.hexadecimal.integer? (ds.map Figure.char) = some (Figure.number ds : Int) :=
    Radix.hexadecimal.integer?_figures ds hds rfl
  have hchars : ∀ l ∈ ['l', 'u'], ∀ c ∈ 'x' :: 'X' :: figureChars, lower c ≠ l := by decide
  have hchar (l : Char) (hl : l ∈ ['l', 'u']) :
      ∀ c ∈ (IntegerNumeral.hexadecimal capital ds hds).text, lower c ≠ l :=
    fun c hc => hchars l hl c (IntegerNumeral.mem_text hc)
  have hmarker : ['0', 'x'].isPrefixOf
      ((integer (.hexadecimal capital ds hds) suffix).text.map lower) = true := by
    cases capital <;> rfl
  rw [Literal.unsigned?,
    Literal.endsIn_eq_false (lower_ne_of_mem_integer (hchar 'l' (by decide)) (by decide)), hmarker]
  cases suffix with
  | none =>
    rw [Numeral.text, IntegerSuffix.text, List.append_nil,
      Literal.endsIn_eq_false (hchar 'u' (by decide)), IntegerNumeral.text]
    simp [hread, kind]
  | unsigned capital' =>
    have hdrop : (((IntegerNumeral.hexadecimal capital ds hds).text ++
        (IntegerSuffix.unsigned capital').text).drop 2).dropLast = ds.map Figure.char := by
      cases capital' <;> simp [IntegerNumeral.text, IntegerSuffix.text]
    rw [Numeral.text, Literal.endsIn_append (IntegerSuffix.map_lower_unsigned capital'), hdrop]
    simp [hread, kind]

theorem unsigned?_plain {n : IntegerNumeral} (hn : n.isHexadecimal = false)
    (suffix : IntegerSuffix) :
    Literal.unsigned? (integer n suffix).text =
      some ⟨(integer n suffix).kind, .int n.number⟩ := by
  have hread := IntegerNumeral.integer?_text hn
  have hdigits (c : Char) (hc : c ∈ n.text) := IntegerNumeral.mem_digitChars hn hc
  cases suffix with
  | none =>
    rw [Numeral.text, IntegerSuffix.text, List.append_nil,
      Literal.unsigned?_of_digitChars hdigits, hread]
    rfl
  | unsigned capital =>
    have hchars : ∀ l ∈ ['l', 'x'], ∀ c ∈ digitChars, lower c ≠ l := by decide
    have hchar (l : Char) (hl : l ∈ ['l', 'x']) : ∀ c ∈ n.text, lower c ≠ l :=
      fun c hc => hchars l hl c (hdigits c hc)
    have hdrop : (n.text ++ (IntegerSuffix.unsigned capital).text).dropLast = n.text := by
      cases capital <;> simp [IntegerSuffix.text]
    rw [Literal.unsigned?,
      Literal.endsIn_eq_false (lower_ne_of_mem_integer (hchar 'l' (by decide)) (by decide)),
      Literal.isPrefixOf_eq_false (lower_ne_of_mem_integer (hchar 'x' (by decide)) (by decide)),
      Numeral.text, Literal.endsIn_append (IntegerSuffix.map_lower_unsigned capital), hdrop, hread]
    rfl

theorem unsigned?_float (n : RealNumeral) {marks : List Char}
    (hmarks : ∀ c ∈ marks, c = 'f' ∨ c = 'F') :
    Literal.unsigned? (n.text ++ marks) = some ⟨.float, .float (n.decimal.toBinary false)⟩ := by
  have hchars : ∀ l ∈ ['l', 'x', 'u'], ∀ c ∈ 'f' :: 'F' :: RealNumeral.chars, lower c ≠ l := by
    decide
  have hchar (l : Char) (hl : l ∈ ['l', 'x', 'u']) : ∀ c ∈ n.text ++ marks, lower c ≠ l := by
    intro c hc
    refine hchars l hl c ?_
    rcases List.mem_append.mp hc with hc | hc
    · simp [n.mem_chars hc]
    · rcases hmarks c hc with rfl | rfl <;> simp
  have hfloat : ((n.text ++ marks).contains '.' || ((n.text ++ marks).map lower).contains 'e') =
      true := by
    rw [Bool.or_eq_true, List.contains_iff_mem, List.contains_iff_mem, RealNumeral.text]
    rcases n.not_integer with h | h
    · left
      obtain ⟨ds, hds⟩ := Option.isSome_iff_exists.mp h
      simp [RealNumeral.fractionText, hds]
    · right
      obtain ⟨e, he⟩ := Option.isSome_iff_exists.mp h
      have hletter : lower (if e.capital then 'E' else 'e') = 'e' := by cases e.capital <;> decide
      simp [RealNumeral.exponentText, he, Exponent.text, hletter]
  have hdrop : Literal.dropFloatMarks (n.text ++ marks) = n.text := by
    have hall : ∀ c ∈ RealNumeral.chars, (c == 'f' || c == 'F') = false := by decide
    rw [Literal.dropFloatMarks, List.reverse_append, List.dropWhile_append_of_pos,
      dropWhile_eq_self fun c hc => hall c (n.mem_chars (List.mem_reverse.mp hc)),
      List.reverse_reverse]
    intro c hc
    simpa using hmarks c (List.mem_reverse.mp hc)
  rw [Literal.unsigned?, Literal.endsIn_eq_false (hchar 'l' (by decide)),
    Literal.isPrefixOf_eq_false (hchar 'x' (by decide)),
    Literal.endsIn_eq_false (hchar 'u' (by decide)), Bool.or_assoc, hfloat, Bool.or_true, hdrop,
    n.real?_text]
  rfl

theorem unsigned?_double (n : RealNumeral) {marks : List Char}
    (hmarks : marks.map lower = ['l', 'f']) :
    Literal.unsigned? (n.text ++ marks) = some ⟨.double, .float (n.decimal.toBinary false)⟩ := by
  have hlength : marks.length = 2 := by
    rw [← List.length_map (f := lower), hmarks]
    rfl
  have htake : (n.text ++ marks).take ((n.text ++ marks).length - 2) = n.text := by
    rw [List.length_append, hlength, Nat.add_sub_cancel, List.take_left]
  rw [Literal.unsigned?, Literal.endsIn_append hmarks, htake, n.real?_text]
  rfl

theorem isNearest_toBinary (n : RealNumeral) :
    (n.decimal.toBinary false : Double).IsNearest n.value := by
  have hnonneg : 0 ≤ n.value := by
    rw [← n.value_decimal, Decimal.value]
    positivity
  refine ⟨?_, fun h => absurd h (not_lt.mpr hnonneg), fun _ => rfl⟩
  change Format.double.RoundsTo |n.value| (n.decimal.round .double)
  rw [abs_of_nonneg hnonneg, ← n.value_decimal, Decimal.value_eq_div,
    Decimal.round_eq .double (by decide)]
  exact Format.roundsTo_round Format.proper_double n.decimal.denominator_pos

theorem exists_unsigned? (t : Numeral) :
    ∃ v, t.ReadAs v ∧ Literal.unsigned? t.text = some ⟨t.kind, v⟩ := by
  cases t with
  | integer n suffix =>
    refine ⟨_, rfl, ?_⟩
    cases n with
    | hexadecimal capital ds hds => exact unsigned?_hexadecimal capital hds suffix
    | decimal first rest hfirst hrest => exact unsigned?_plain rfl suffix
    | octal rest => exact unsigned?_plain rfl suffix
  | real n suffix =>
    refine ⟨_, ⟨_, rfl, isNearest_toBinary n, rfl⟩, ?_⟩
    cases suffix with
    | none => exact unsigned?_float n (by simp [RealSuffix.text])
    | single capital => exact unsigned?_float n (by cases capital <;> simp [RealSuffix.text])
    | double capital => exact unsigned?_double n (by cases capital <;> decide)

theorem exists_text_eq_cons (t : Numeral) : ∃ c cs, t.text = c :: cs ∧ c ∈ '.' :: digitChars := by
  cases t with
  | integer n suffix =>
    cases n with
    | decimal first rest hfirst hrest =>
      exact ⟨first.char, _, rfl, List.mem_cons_of_mem _ (first.char_mem_digitChars le_rfl)⟩
    | octal rest => exact ⟨'0', _, rfl, by decide⟩
    | hexadecimal capital ds hds => exact ⟨'0', _, rfl, by decide⟩
  | real n suffix =>
    obtain ⟨c, cs, htext, hc⟩ := n.exists_text_eq_cons
    exact ⟨c, cs ++ suffix.text, by rw [text, htext]; rfl, hc⟩

end Numeral

theorem Literal.read_of_unsigned? {c : Char} {cs : List Char} {l : Literal}
    (h : unsigned? (c :: cs) = some l) (hc : c ∈ '.' :: digitChars) : read (c :: cs) = .ok l := by
  have hall : ∀ c ∈ '.' :: digitChars, c ≠ '-' ∧ c ≠ '+' := by decide
  obtain ⟨hminus, hplus⟩ := hall c hc
  rw [read.eq_3, h]
  · rintro ds heq
    exact hminus (List.cons.inj heq).1
  · rintro ds heq
    exact hplus (List.cons.inj heq).1

theorem Numeral.exists_read (t : Numeral) :
    ∃ v, t.ReadAs v ∧ Literal.read t.text = .ok ⟨t.kind, v⟩ := by
  obtain ⟨v, hv, hread⟩ := t.exists_unsigned?
  obtain ⟨c, cs, htext, hc⟩ := t.exists_text_eq_cons
  rw [htext] at hread ⊢
  exact ⟨v, hv, Literal.read_of_unsigned? hread hc⟩

theorem Literal.read_sign (s : Sign) (cs : List Char) :
    read (s.char :: cs) = (fun l => if s.isMinus then l.neg else l) <$> read cs := by
  cases s with
  | minus => rfl
  | plus =>
    change read cs = id <$> read cs
    rw [id_map]

structure SignedNumeral where
  sign : Option Sign
  numeral : Numeral

namespace SignedNumeral

def text (t : SignedNumeral) : List Char :=
  t.sign.toList.map Sign.char ++ t.numeral.text

def isNegative (t : SignedNumeral) : Bool :=
  t.sign.any Sign.isMinus

def value (t : SignedNumeral) : ℚ :=
  if t.isNegative then -t.numeral.value else t.numeral.value

/-- What the signed numeral is read as if the numeral is read as `v`. -/
def signed (t : SignedNumeral) (v : Number) : Number :=
  if t.isNegative then v.neg else v

theorem read_text {t : SignedNumeral} {v : Number}
    (h : Literal.read t.numeral.text = .ok ⟨t.numeral.kind, v⟩) :
    Literal.read t.text = .ok ⟨t.numeral.kind, t.signed v⟩ := by
  rw [text, signed, isNegative]
  cases t.sign with
  | none => exact h
  | some s =>
    refine (Literal.read_sign s t.numeral.text).trans ?_
    rw [h]
    cases s <;> rfl

end SignedNumeral

namespace Node

/--
Whether an expression is a signed numeral: the sign is a part of the token, or it is applied to the
token.
-/
inductive Spells (n : Node) : SignedNumeral → Prop where
  | token {t : SignedNumeral} (htype : n.type = "number_literal")
      (htext : n.text.toList = t.text) : n.Spells t
  | applied {s : Sign} {t : Numeral} {operator operand : Node} (htype : n.type = "unary_expression")
      (hoperator : (n.childByField? "operator" <|> n.children.head?) = some operator)
      (hoperand : (n.childByField? "argument" <|> n.children.getLast?) = some operand)
      (hsign : operator.text = String.singleton s.char) (hnumeral : operand.type = "number_literal")
      (htext : operand.text.toList = t.text) : n.Spells ⟨some s, t⟩

theorem readLiteral_of_read {n : Node} {cs : List Char} {l : Literal} (htext : n.text.toList = cs)
    (h : Literal.read cs = .ok l) : n.readLiteral = .ok l := by
  rw [readLiteral, htext, h]

theorem signedLiteral?_applied {n operator operand : Node} {s : Sign}
    (htype : n.type = "unary_expression")
    (hoperator : (n.childByField? "operator" <|> n.children.head?) = some operator)
    (hoperand : (n.childByField? "argument" <|> n.children.getLast?) = some operand)
    (hsign : operator.text = String.singleton s.char) (hnumeral : operand.type = "number_literal") :
    n.signedLiteral? = .ok (some (s.isMinus, operand)) := by
  have hminus : (operator.text == "-") = s.isMinus := by
    rw [hsign]
    cases s <;> decide
  have hsigned : (operator.text == "-" || operator.text == "+") = true := by
    rw [hsign]
    cases s <;> decide
  rw [signedLiteral?, htype, hoperator, hoperand]
  simp only [hnumeral, hsigned, beq_self_eq_true, Bool.and_true, ↓reduceIte]
  rw [hminus]
  rfl

theorem literal_of_spells {n : Node} {t : SignedNumeral} {v : Number} (hn : n.Spells t)
    (h : Literal.read t.numeral.text = .ok ⟨t.numeral.kind, v⟩) :
    n.literal = .ok ⟨t.numeral.kind, t.signed v⟩ := by
  cases hn with
  | token htype htext =>
    rw [literal_of_type htype]
    exact readLiteral_of_read htext (SignedNumeral.read_text h)
  | @applied s t operator operand htype hoperator hoperand hsign hnumeral htext =>
    rw [literal, signedLiteral?_applied htype hoperator hoperand hsign hnumeral]
    change (do let l ← operand.readLiteral; pure (if s.isMinus then l.neg else l)) = _
    rw [readLiteral_of_read htext h]
    cases s <;> rfl

/--
A numeral is read as the kind that its spelling tells and as its number, a real as the double
nearest to it. A sign in the token or applied to it only changes the sign of the number. Digits with
a zero in front are no constant if one of them is no octal digit.
-/
theorem literal_numeral :
    (∀ t : Numeral, ∃ v, t.ReadAs v ∧ ∀ (sign : Option Sign) (n : Node),
      n.Spells ⟨sign, t⟩ → n.literal = .ok ⟨t.kind, SignedNumeral.signed ⟨sign, t⟩ v⟩) ∧
    ∀ (n : Node) (ds : List (Figure 10)), n.type = "number_literal" →
      n.text.toList = '0' :: ds.map Figure.char → (∃ d ∈ ds, 8 ≤ d.value.val) →
      ∃ cause : Cause, n.literal = .error (.rejected cause n.label.start) ∧
        cause = .malformedLiteral n.text ∧ cause.errorClass = .constant := by
  constructor
  · intro t
    obtain ⟨v, hv, hread⟩ := t.exists_read
    exact ⟨v, hv, fun sign n hn => literal_of_spells hn hread⟩
  · intro n ds htype htext hds
    have hread : Literal.read n.text.toList = .error n.text.toList := by
      rw [htext, Literal.read.eq_3, Literal.unsigned?_eq_none hds]
      · rintro cs ⟨⟩
      · rintro cs ⟨⟩
    refine ⟨_, ?_, rfl, rfl⟩
    rw [literal_of_type htype, readLiteral, hread]
    simp

def hexNumeral : Numeral :=
  .integer (.hexadecimal false [⟨1, false⟩, ⟨15, true⟩] (by simp)) (.unsigned false)

def minusHex : Node :=
  .branch "unary_expression" [
    .symbol "-" "" (some "operator"), .token "number_literal" "0x1Fu" "" (some "argument")]

theorem literal_numeral_minusHex :
    minusHex.Spells ⟨some .minus, hexNumeral⟩ ∧ minusHex.literal = .ok ⟨.uint, .int (-31)⟩ ∧
      (token "number_literal" "09").literal =
        .error (.rejected (.malformedLiteral "09") none) := by
  have hspells : minusHex.Spells ⟨some .minus, hexNumeral⟩ :=
    .applied rfl rfl rfl (text_of_token rfl _) rfl (by rw [token, text_of_token rfl]; decide)
  obtain ⟨v, hv, hread⟩ := literal_numeral.1 hexNumeral
  obtain ⟨cause, hcause, rfl, -⟩ := literal_numeral.2 (token "number_literal" "09")
    [⟨9, false⟩] rfl (by rw [token, text_of_token rfl]; decide)
    ⟨_, List.mem_singleton_self _, by decide⟩
  refine ⟨hspells, ?_, ?_⟩
  · rw [hread _ _ hspells, show v = .int 31 from hv]
    rfl
  · rw [hcause, token, text_of_token rfl]
    rfl

end Node

end ShaderParams
