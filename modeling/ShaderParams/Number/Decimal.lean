import ShaderParams.Number.Binary

/-!
This module contains decimal numerals `digits * 10 ^ exp` and the two ways between them and binary
floating point: the binary number nearest to a decimal, and the shortest decimal that reads back as
a given binary number.
-/

namespace ShaderParams

-- Powers of natural numbers are the built-in ones, whatever other instances are in scope.
attribute [local instance (2000)] instPowNat

/--
One less than the number of decimal digits of a positive `n`:
`10 ^ log10 n ≤ n < 10 ^ (log10 n + 1)`.
-/
def log10 (n : Nat) : Nat :=
  if n < 10 then
    0
  else
    log10 (n / 10) + 1
termination_by n

theorem lt_ten_pow_log10 (n : Nat) : n < 10 ^ (log10 n + 1) := by
  fun_induction log10 n with
  | case1 n h => simpa using h
  | case2 n h ih => rw [Nat.pow_succ]; omega

theorem ten_pow_log10_le {n : Nat} (h : 0 < n) : 10 ^ log10 n ≤ n := by
  fun_induction log10 n with
  | case1 n _ => exact h
  | case2 n _ ih =>
    have := ih (by omega)
    rw [Nat.pow_succ]
    omega

def floorLog10 (n d : Nat) : Int :=
  if d ≤ n then
    log10 (n / d)
  else
    -(log10 ((d + n - 1) / n - 1) + 1 : Nat)

structure Decimal where
  digits : Nat
  exp : Int
deriving DecidableEq, Repr

namespace Decimal

def numerator (d : Decimal) : Nat :=
  d.digits * 10 ^ d.exp.toNat

def denominator (d : Decimal) : Nat :=
  10 ^ (-d.exp).toNat

/--
The rank of the magnitude nearest to the decimal. Exponents so large that already `8 ^ exp` leaves
the range are decided without computing the power of ten.
-/
def round (f : Format) (d : Decimal) : Nat :=
  if d.digits = 0 then
    0
  else if 0 ≤ d.exp ∧ (2 ^ (f.exponentBits - 1) : Nat) ≤ d.digits.log2 + 3 * d.exp then
    f.infinity
  else if d.exp < 0 ∧ d.digits.log2 + 1 + 3 * d.exp < f.minExp then
    0
  else
    f.round d.numerator d.denominator

theorem round_le_infinity (f : Format) (d : Decimal) : d.round f ≤ f.infinity := by
  rw [round]
  repeat' split
  · exact Nat.zero_le _
  · exact Nat.le_refl _
  · exact Nat.zero_le _
  · exact f.round_le_infinity ..

def toBinary {f : Format} (negative : Bool) (d : Decimal) : Binary f :=
  .number negative ⟨d.round f, Nat.lt_succ_of_le (d.round_le_infinity f)⟩

def normalize (d : Decimal) : Decimal :=
  if d.digits = 0 then
    ⟨0, 0⟩
  else if d.digits % 10 = 0 then
    normalize ⟨d.digits / 10, d.exp + 1⟩
  else
    d
termination_by d.digits

/--
The multiple of `10 ^ exp` nearest to `n / d`, ties to the even multiple.
-/
def onGrid (n d : Nat) (exp : Int) : Decimal :=
  ⟨roundDiv (n * 10 ^ (-exp).toNat) (d * 10 ^ exp.toNat), exp⟩

def ofFraction (count n d : Nat) : Decimal :=
  onGrid n d (floorLog10 n d - (count - 1 : Nat))

/--
The multiple of `10 ^ exp` that reads back as the magnitude of a rank: the nearest one, or the one
on the other side of the magnitude if only that is close enough.
-/
def readsBack? (f : Format) (rank : Nat) (exp : Int) : Option Decimal :=
  let n := f.numerator rank
  let d := f.denominator rank
  let below := n * 10 ^ (-exp).toNat / (d * 10 ^ exp.toNat)
  let near := onGrid n d exp
  let other : Decimal := ⟨if near.digits = below then below + 1 else below, exp⟩
  if near.round f = rank then
    some near
  else if other.round f = rank then
    some other
  else
    none

def enoughDigits (f : Format) : Nat :=
  (f.fractionBits + 1) * 30103 / 100000 + 2

/--
The decimal of the fewest digits that reads back as a finite magnitude, the nearest one of them.
-/
def shortest (f : Format) (rank : Nat) : Decimal :=
  let n := f.numerator rank
  let d := f.denominator rank
  let top := floorLog10 n d
  let found := (List.range (enoughDigits f)).findSome? fun (count : Nat) =>
    readsBack? f rank (top - count)
  (found.getD (ofFraction (enoughDigits f) n d)).normalize

end Decimal

/--
How a decimal is written out: the exponents (of the first digit) that are written positionally, and
the least number of digits of a written exponent.
-/
structure DecimalStyle where
  leastPositional : Int
  positionalEnd : Int
  exponentWidth : Nat

namespace Decimal

/--
The text of a decimal. Positional texts always have a point with a digit on both sides; the others
have one digit before the point, no point without digits after it, and a signed exponent.
-/
def write (style : DecimalStyle) (d : Decimal) : String :=
  let digits := Nat.toDigits 10 d.digits
  let first : Int := d.exp + (digits.length - 1 : Nat)
  let chars :=
    if style.leastPositional ≤ first ∧ first < style.positionalEnd then
      if first < 0 then
        '0' :: '.' :: (zeros (-first - 1).toNat ++ digits)
      else
        let whole := first.toNat + 1
        let rest := digits.drop whole
        digits.take whole ++ zeros (whole - digits.length) ++ '.' :: (if rest.isEmpty then ['0'] else rest)
    else
      let rest := digits.drop 1
      let magnitude := Nat.toDigits 10 first.natAbs
      digits.take 1 ++ (if rest.isEmpty then [] else '.' :: rest)
        ++ 'e' :: (if first < 0 then '-' else '+')
        :: (zeros (style.exponentWidth - magnitude.length) ++ magnitude)
  String.ofList chars
where
  zeros (count : Nat) : List Char := List.replicate count '0'

end Decimal

end ShaderParams
