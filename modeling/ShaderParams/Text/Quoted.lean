import ShaderParams.Text.Digit

/-!
This module contains texts in quotes, with escapes for everything that has no visible form.
-/

namespace ShaderParams.Text

/--
Whether a character has no visible form: controls, blanks other than the plain space, soft hyphens,
joiners, direction marks and private characters.
-/
def isInvisible (c : Char) : Bool :=
  let n := c.toNat
  n < 0x20 || (0x7f ≤ n && n < 0xa0) || isWideBlank c || n == 0xad || n == 0x61c || n == 0x180e
    || (0x200b ≤ n && n ≤ 0x200f) || (0x202a ≤ n && n ≤ 0x202e) || (0x2060 ≤ n && n ≤ 0x206f)
    || (0xe000 ≤ n && n ≤ 0xf8ff) || n == 0xfeff || (0xfff0 ≤ n && n ≤ 0xfffb) || 0xe0000 ≤ n

def hexDigits (width n : Nat) : List Char :=
  let ds := Nat.toDigits 16 n
  List.replicate (width - ds.length) '0' ++ ds

def escape (quote c : Char) : List Char :=
  if c == quote || c == '\\' then
    ['\\', c]
  else if c == '\n' then
    ['\\', 'n']
  else if c == '\r' then
    ['\\', 'r']
  else if c == '\t' then
    ['\\', 't']
  else if isInvisible c then
    if c.toNat < 0x100 then
      '\\' :: 'x' :: hexDigits 2 c.toNat
    else if c.toNat < 0x10000 then
      '\\' :: 'u' :: hexDigits 4 c.toNat
    else
      '\\' :: 'U' :: hexDigits 8 c.toNat
  else
    [c]

/--
A text in single quotes, or in double quotes if it has single ones and no double ones.
-/
def quoted (s : String) : String :=
  let cs := s.toList
  let quote := if cs.contains '\'' && !cs.contains '"' then '"' else '\''
  String.ofList (quote :: cs.flatMap (escape quote) ++ [quote])

end ShaderParams.Text
