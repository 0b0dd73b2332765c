import ShaderParams.Number.Decimal

/-!
This module contains the spelling of doubles as float literals of the shading language: the fewest
digits that still give the same single precision number, always with a point or an exponent.
-/

namespace ShaderParams

/--
Float literals are positional from `0.0001` up to sixteen digits before the point, and have at least
two digits in an exponent.
-/
def DecimalStyle.floatLiteral : DecimalStyle := ⟨-4, 16, 2⟩

namespace Double

def write (x : Double) : String :=
  let sign := if x.negative then "-" else ""
  match x with
  | .nan _ => "nan"
  | .number _ r =>
    if x.isInfinite then
      sign ++ "inf"
    else
      sign ++ (Decimal.shortest .double r.val).write .floatLiteral

def toDigits (count : Nat) (x : Double) : Double :=
  match x with
  | .nan s => .nan s
  | .number s r =>
    if x.isInfinite then
      x
    else
      (Decimal.ofFraction count (Format.double.numerator r.val)
        (Format.double.denominator r.val)).toBinary s

/--
The double of the fewest decimal digits, up to those that always suffice, that is the same as `x` in
single precision.
-/
def fewestDigits (x : Double) : Double :=
  let candidates := (List.range (Decimal.enoughDigits .double)).map fun count => x.toDigits (count + 1)
  (candidates.find? fun y => y.toSingle.numEq x.toSingle).getD x

/--
A float literal for `x`. The values without a numeral of their own are written as divisions by zero.
-/
def spell (x : Double) : String :=
  if x.isNan then
    "(0.0 / 0.0)"
  else if x.isInfinite then
    if x.negative then "(-1.0 / 0.0)" else "(1.0 / 0.0)"
  else
    x.fewestDigits.write

end Double

end ShaderParams
