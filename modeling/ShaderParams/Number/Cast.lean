import ShaderParams.Number.Binary

/-!
This module contains the numeric values of literals and their conversion to the four numeric types
of shader constants: floating point targets round, integers wrap around, and floating point values
saturate when they become integers.
-/

namespace ShaderParams

/--
The value of a numeric literal: integers of any size, or a double.
-/
inductive Number where
  | int (n : Int)
  | float (x : Double)
deriving DecidableEq, Repr

namespace Number

def neg : Number → Number
  | .int n => .int (-n)
  | .float x => .float (-x)

def toDouble? : Number → Option Double
  | .int n => Double.ofInt? n
  | .float x => some x

@[simp]
theorem toDouble?_float (x : Double) : (float x).toDouble? = some x := rfl

end Number

inductive NumericType where
  | f32
  | f64
  | i32
  | u32
deriving DecidableEq, Repr

structure IntegerRange where
  low : Int
  high : Int
deriving DecidableEq, Repr

namespace IntegerRange

def i32 : IntegerRange := ⟨-0x80000000, 0x7fffffff⟩

def u32 : IntegerRange := ⟨0, 0xffffffff⟩

def clamp (r : IntegerRange) (n : Int) : Int :=
  max r.low (min r.high n)

def saturate (r : IntegerRange) (x : Double) : Int :=
  match x with
  | .nan _ => 0
  | .number negative _ =>
    if x.isInfinite then
      if negative then r.low else r.high
    else
      r.clamp x.truncate

theorem clamp_mem (r : IntegerRange) (h : r.low ≤ r.high) (n : Int) :
    r.low ≤ r.clamp n ∧ r.clamp n ≤ r.high := by
  simp only [clamp]
  omega

end IntegerRange

def NumericType.range? : NumericType → Option IntegerRange
  | i32 => some .i32
  | u32 => some .u32
  | f32 | f64 => none

/--
The bits of a mask that an integer has in two's complement.
-/
def maskBits (mask : Nat) : Int → Nat
  | .ofNat n => n &&& mask
  -- `-(n + 1)` has exactly the bits that `n` lacks.
  | .negSucc n => mask ^^^ (n &&& mask)

/--
The lowest 32 bits of an integer, of which the highest one is a sign for the signed target alone.
-/
def NumericType.wrap (target : NumericType) (r : IntegerRange) (n : Int) : Int :=
  let wrapped : Int := maskBits 0xffffffff n
  if target = i32 ∧ r.high < wrapped then wrapped - 0x100000000 else wrapped

namespace Number

def toInteger (target : NumericType) (r : IntegerRange) : Number → Int
  | .int n => target.wrap r n
  | .float x => r.saturate x

/--
Converts a value to a numeric type. It fails only for an integer past the range of doubles and a
floating point target.
-/
def cast? (v : Number) (target : NumericType) : Option Number :=
  match target with
  | .f64 => v.toDouble?.map .float
  | .f32 => v.toDouble?.map fun x => .float x.toSingle
  | .i32 | .u32 => target.range?.map fun r => .int (v.toInteger target r)

end Number

end ShaderParams
