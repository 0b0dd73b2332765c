import ShaderParams.Number.RoundDiv

/-!
This module contains binary floating point numbers with exact arithmetic. The magnitudes of a format
are numbered in increasing order, zero first and infinity last; the number of a magnitude is its
*rank*. A floating point number is a sign and a rank, so comparing numbers is comparing ranks, the
next larger number has the next rank, and the rank is the stored bit pattern without its sign.
-/

namespace ShaderParams

-- Powers of natural numbers are the built-in ones, whatever other instances are in scope.
attribute [local instance (2000)] instPowNat

/--
A binary interchange format, by the widths of its fraction and exponent fields.
-/
structure Format where
  fractionBits : Nat
  exponentBits : Nat
deriving DecidableEq, Repr

namespace Format

def single : Format := ⟨23, 8⟩

def double : Format := ⟨52, 11⟩

/--
The exponent of the last place of the smallest magnitudes: they are the multiples of
`2 ^ f.minExp`.
-/
def minExp (f : Format) : Int :=
  2 - (2 ^ (f.exponentBits - 1) : Nat) - f.fractionBits

/--
The rank of infinity, which is also the number of finite magnitudes.
-/
def infinity (f : Format) : Nat :=
  (2 ^ f.exponentBits - 1) * 2 ^ f.fractionBits

def significand (f : Format) (rank : Nat) : Nat :=
  if rank < 2 ^ f.fractionBits then
    rank
  else
    2 ^ f.fractionBits + rank % 2 ^ f.fractionBits

/--
The exponent of the last place of a finite magnitude: the magnitude is
`f.significand rank * 2 ^ f.exponent rank`.
-/
def exponent (f : Format) (rank : Nat) : Int :=
  f.minExp + (rank / 2 ^ f.fractionBits - 1 : Nat)

def numerator (f : Format) (rank : Nat) : Nat :=
  f.significand rank * 2 ^ (f.exponent rank).toNat

def denominator (f : Format) (rank : Nat) : Nat :=
  2 ^ (-f.exponent rank).toNat

theorem denominator_pos (f : Format) (rank : Nat) : 0 < f.denominator rank :=
  Nat.two_pow_pos _

end Format

/--
The exponent `e` with `2 ^ e ≤ n / d < 2 ^ (e + 1)`, for positive `n` and `d`.
-/
def floorLog2 (n d : Nat) : Int :=
  let e : Int := n.log2 - d.log2
  if n * 2 ^ (-e).toNat < d * 2 ^ e.toNat then
    e - 1
  else
    e

namespace Format

def lastPlace (f : Format) (n d : Nat) : Int :=
  max f.minExp (floorLog2 n d - f.fractionBits)

/--
The rank of the magnitude nearest to `n / d`, ties to the even significand. A significand that
rounds up to the next power of two gets the rank of that power, because ranks run on from one
exponent to the next; a magnitude past the largest finite one is infinity.
-/
def round (f : Format) (n d : Nat) : Nat :=
  if n = 0 then
    0
  else
    let e := f.lastPlace n d
    min f.infinity
      ((e - f.minExp).toNat * 2 ^ f.fractionBits
        + roundDiv (n * 2 ^ (-e).toNat) (d * 2 ^ e.toNat))

theorem round_le_infinity (f : Format) (n d : Nat) : f.round n d ≤ f.infinity := by
  rw [round]
  split
  · exact Nat.zero_le _
  · exact Nat.min_le_left ..

end Format

/--
A floating point number of a format. Ranks include infinity; what a NaN carries besides its sign is
not kept.
-/
inductive Binary (f : Format) where
  | nan (negative : Bool)
  | number (negative : Bool) (rank : Fin (f.infinity + 1))
deriving DecidableEq, Repr

abbrev Double := Binary .double

abbrev Single := Binary .single

namespace Binary

variable {f : Format}

def ofFraction (negative : Bool) (n d : Nat) : Binary f :=
  .number negative ⟨f.round n d, Nat.lt_succ_of_le (f.round_le_infinity n d)⟩

def infinite (negative : Bool) : Binary f :=
  .number negative ⟨f.infinity, Nat.lt_succ_self _⟩

def zero (negative : Bool) : Binary f :=
  .number negative ⟨0, Nat.zero_lt_succ _⟩

instance : Inhabited (Binary f) := ⟨zero false⟩

def neg : Binary f → Binary f
  | .nan s => .nan (!s)
  | .number s r => .number (!s) r

instance : Neg (Binary f) := ⟨neg⟩

@[simp]
theorem neg_neg (x : Binary f) : - -x = x := by
  cases x <;> simp [Neg.neg, neg]

def isNan : Binary f → Bool
  | .nan _ => true
  | .number .. => false

def isInfinite : Binary f → Bool
  | .nan _ => false
  | .number _ r => r.val == f.infinity

def negative : Binary f → Bool
  | .nan s => s
  | .number s _ => s

/--
The place of a number in the numeric order, where both zeros are at `0`. A NaN has none.
-/
def place : Binary f → Option Int
  | .nan _ => none
  | .number false r => some r.val
  | .number true r => some (-r.val)

def lt (x y : Binary f) : Bool :=
  match x.place, y.place with
  | some a, some b => a < b
  | _, _ => false

def numEq (x y : Binary f) : Bool :=
  match x.place, y.place with
  | some a, some b => a == b
  | _, _ => false

def convert {g : Format} : Binary f → Binary g
  | .nan s => .nan s
  | .number s r =>
    if r.val = f.infinity then
      infinite s
    else
      ofFraction s (f.numerator r.val) (f.denominator r.val)

def truncate : Binary f → Int
  | .nan _ => 0
  | .number s r =>
    let n : Nat := f.numerator r.val / f.denominator r.val
    if s then -n else n

def signPlace (f : Format) : Nat :=
  2 ^ (f.exponentBits + f.fractionBits)

/--
The stored form, sign bit first, then the rank. A NaN is stored as the quiet one.
-/
def toBits (x : Binary f) : Nat :=
  let sign := if x.negative then signPlace f else 0
  match x with
  | .nan _ => sign + f.infinity + 2 ^ (f.fractionBits - 1)
  | .number _ r => sign + r.val

def ofBits (f : Format) (bits : Nat) : Binary f :=
  let s := bits / signPlace f % 2 == 1
  let m := bits % signPlace f
  if h : m ≤ f.infinity then
    .number s ⟨m, Nat.lt_succ_of_le h⟩
  else
    .nan s

end Binary

namespace Double

/--
The nearest single precision number, as the double that equals it. Values past the single
precision range become infinite.
-/
def toSingle (x : Double) : Double :=
  (x.convert : Single).convert

def ofInt? (n : Int) : Option Double :=
  let x : Double := .ofFraction (n < 0) n.natAbs 1
  if x.isInfinite then none else some x

def one : Double := .ofFraction false 1 1

end Double

end ShaderParams
