import ShaderParams.Number.Decimal
import ShaderParams.Text.Digit

/-!
This module contains readers for numerals: integers of a radix and real numbers. Both ignore blanks
around the numeral, accept a sign and allow single underscores between digits.
-/

namespace ShaderParams.Text

inductive Radix where
  | octal
  | decimal
  | hexadecimal
deriving DecidableEq, Repr

namespace Radix

def base : Radix → Nat
  | octal => 8
  | decimal => 10
  | hexadecimal => 16

def marker? : Radix → Option Char
  | octal => some 'o'
  | decimal => none
  | hexadecimal => some 'x'

def limit? : Radix → Option Nat
  | decimal => some 4300
  | octal | hexadecimal => none

def digit? (r : Radix) (c : Char) : Option Nat :=
  let value :=
    if '0' ≤ c ∧ c ≤ '9' then
      c.toNat - '0'.toNat
    else if 'a' ≤ lower c ∧ lower c ≤ 'z' then
      (lower c).toNat - 'a'.toNat + 10
    else
      r.base
  if value < r.base then some value else none

end Radix

/--
The values of one or more digits, with at most one underscore between two of them.
-/
def digitRun? (value? : Char → Option Nat) : List Char → Option (List Nat)
  | [] => none
  | [c] => do
    let d ← value? c
    return [d]
  | c :: '_' :: cs => do
    let d ← value? c
    let ds ← digitRun? value? cs
    return d :: ds
  | c :: cs => do
    let d ← value? c
    let ds ← digitRun? value? cs
    return d :: ds

def ofDigits (base : Nat) (ds : List Nat) : Nat :=
  ds.foldl (fun n d => n * base + d) 0

def sign : List Char → Bool × List Char
  | '-' :: cs => (true, cs)
  | '+' :: cs => (false, cs)
  | cs => (false, cs)

namespace Radix

/--
Drops a marker such as `0x`, with one underscore after it if there is one.
-/
def dropMarker (r : Radix) : List Char → List Char
  | '0' :: m :: cs =>
    if r.marker? = some (lower m) then
      match cs with
      | '_' :: cs => cs
      | cs => cs
    else
      '0' :: m :: cs
  | cs => cs

def integer? (r : Radix) (cs : List Char) : Option Int := do
  let (negative, cs) := sign (trim (cs.map foldNumeral))
  let ds ← digitRun? r.digit? (r.dropMarker cs)
  guard (r.limit?.all (ds.length ≤ ·))
  let n := ofDigits r.base ds
  return if negative then -n else n

end Radix

/--
Removes the underscores of a numeral, each of which must stand between two digits. `afterDigit`
tells whether a digit precedes the text.
-/
def dropUnderscores? (afterDigit : Bool) : List Char → Option (List Char)
  | [] => some []
  | '_' :: cs =>
    match cs with
    | [] => none
    | c :: cs =>
      if afterDigit && c.isDigit then
        (c :: ·) <$> dropUnderscores? true cs
      else
        none
  | c :: cs => (c :: ·) <$> dropUnderscores? c.isDigit cs

/--
Reads a decimal fraction with an optional exponent, such as `1.5`, `.5`, `5.` or `2e-3`.
-/
def decimal? (cs : List Char) : Option Decimal := do
  let whole := cs.takeWhile Char.isDigit
  let (fraction, cs) := match cs.dropWhile Char.isDigit with
    | '.' :: cs => (cs.takeWhile Char.isDigit, cs.dropWhile Char.isDigit)
    | cs => ([], cs)
  guard (!whole.isEmpty || !fraction.isEmpty)
  let ds ← (whole ++ fraction).mapM Radix.decimal.digit?
  let e ← exponent? cs
  return ⟨ofDigits 10 ds, e - fraction.length⟩
where
  exponent? : List Char → Option Int
    | [] => some 0
    | c :: cs =>
      if lower c == 'e' then do
        let (negative, cs) := sign cs
        guard (!cs.isEmpty)
        let ds ← cs.mapM Radix.decimal.digit?
        let n := ofDigits 10 ds
        return if negative then -n else n
      else
        none

/--
Reads a real numeral as the nearest double. The words `inf`, `infinity` and `nan` are numerals too,
in letters of either case.
-/
def real? (cs : List Char) : Option Double := do
  let cs ← dropUnderscores? false (trim (cs.map foldNumeral))
  let (negative, cs) := sign cs
  let word := String.ofList (cs.map lower)
  if word = "inf" ∨ word = "infinity" then
    return .infinite negative
  else if word = "nan" then
    return .nan negative
  else
    return (← decimal? cs).toBinary negative

end ShaderParams.Text
