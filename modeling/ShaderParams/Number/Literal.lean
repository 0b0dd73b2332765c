import ShaderParams.Number.Cast
import ShaderParams.Text.Numeral

/-!
This module contains the reader of numeric literals of the shading language.
-/

namespace ShaderParams

inductive LiteralKind where
  | int
  | uint
  | float
  | double
deriving DecidableEq, Repr

/--
A numeric literal: its kind, and a value that is an integer exactly for the integer kinds.
-/
structure Literal where
  kind : LiteralKind
  value : Number
deriving DecidableEq, Repr

namespace Literal

open Text

def integer? (cs : List Char) : Option Int :=
  if 1 < cs.length ∧ cs.head? = some '0' then
    Radix.octal.integer? cs
  else
    Radix.decimal.integer? cs

def endsIn (ending : List Char) (cs : List Char) : Bool :=
  ending.isSuffixOf (cs.map lower)

def dropFloatMarks (cs : List Char) : List Char :=
  (cs.reverse.dropWhile fun c => c == 'f' || c == 'F').reverse

/--
Reads a literal without a sign. The ending `lf` marks doubles, `u` unsigned integers, a leading `0x`
hexadecimal integers; an ending `f`, a point or an exponent makes a float.
-/
def unsigned? (cs : List Char) : Option Literal :=
  if endsIn ['l', 'f'] cs then do
    let x ← real? (cs.take (cs.length - 2))
    return ⟨.double, .float x⟩
  else if ['0', 'x'].isPrefixOf (cs.map lower) then
    if endsIn ['u'] cs then do
      let n ← Radix.hexadecimal.integer? (cs.drop 2).dropLast
      return ⟨.uint, .int n⟩
    else do
      let n ← Radix.hexadecimal.integer? (cs.drop 2)
      return ⟨.int, .int n⟩
  else if endsIn ['u'] cs then do
    let n ← integer? cs.dropLast
    return ⟨.uint, .int n⟩
  else if endsIn ['f'] cs || cs.contains '.' || (cs.map lower).contains 'e' then do
    let x ← real? (dropFloatMarks cs)
    return ⟨.float, .float x⟩
  else do
    let n ← integer? cs
    return ⟨.int, .int n⟩

def neg (l : Literal) : Literal :=
  { l with value := l.value.neg }

/--
Reads a literal that may have signs in front. A text that is no numeral is returned without its
signs.
-/
def read : List Char → Except (List Char) Literal
  | '-' :: cs => neg <$> read cs
  | '+' :: cs => read cs
  | cs =>
    match unsigned? cs with
    | some l => .ok l
    | none => .error cs

end Literal

end ShaderParams
