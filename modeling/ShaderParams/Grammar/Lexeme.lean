import ShaderParams.Text.Digit
import ShaderParams.Text.Letter

/-!
This module contains the lexemes of shader sources: for each kind of token a scanner that measures
it at the front of a text, and the trivia between tokens.
-/

namespace ShaderParams.Grammar

open Text

/--
A scanner gives the number of characters of the lexeme at the front of a text, if there is one.
-/
abbrev Scanner := List Char → Option Nat

def isSpace (c : Char) : Bool :=
  c == ' ' || c == '\t'

namespace Scanner

def isHexDigit (c : Char) : Bool :=
  c.isDigit || ('a' ≤ lower c && lower c ≤ 'f')

/-- The number of characters that continue a word. A character may be given by its number. -/
def wordLength : List Char → Nat
  | '\\' :: 'u' :: a :: b :: c :: d :: cs =>
    if [a, b, c, d].all isHexDigit then wordLength cs + 6 else 0
  | '\\' :: 'U' :: a :: b :: c :: d :: e :: f :: g :: h :: cs =>
    if [a, b, c, d, e, f, g, h].all isHexDigit then wordLength cs + 10 else 0
  | c :: cs => if isWordPart c then wordLength cs + 1 else 0
  | [] => 0

def word : Scanner := fun cs =>
  if cs.head?.any fun c => isWordStart c || c == '\\' then
    match wordLength cs with
    | 0 => none
    | n + 1 => some (n + 1)
  else
    none

def literal (text : String) : Scanner := fun cs =>
  if text.toList.isPrefixOf cs then some text.length else none

def endOfText : Scanner
  | [] => some 0
  | _ => none

def lineBreak : Scanner
  | '\n' :: _ => some 1
  | '\r' :: '\n' :: _ => some 2
  | _ => none

end Scanner

/-!
Numbers have several readings of a letter (`e` is an exponent mark or a hexadecimal digit), so their
pattern is followed in all ways and the longest lexeme wins.
-/

/-- A pattern gives what may be left of a text behind it, one rest for each way to follow it. -/
abbrev Pattern := List Char → List (List Char)

namespace Pattern

def one (p : Char → Bool) : Pattern
  | [] => []
  | c :: cs => if p c then [cs] else []

def seq (a b : Pattern) : Pattern := fun cs => (a cs).flatMap b

def either (a b : Pattern) : Pattern := fun cs => a cs ++ b cs

def optional (a : Pattern) : Pattern := fun cs => cs :: a cs

def many (p : Char → Bool) : Pattern
  | [] => [[]]
  | c :: cs => (c :: cs) :: if p c then many p cs else []

/-- One or more characters of a class, where a single quote may stand between two of them. -/
def grouped (p : Char → Bool) : Pattern
  | [] => []
  | c :: '\'' :: cs => if p c then ('\'' :: cs) :: grouped p cs else []
  | c :: cs => if p c then cs :: grouped p cs else []

def longest (a : Pattern) : Scanner := fun cs =>
  match a cs with
  | [] => none
  | r :: rs => some (cs.length - (rs.map List.length).foldl min r.length)

end Pattern

namespace Scanner

open Pattern

def isSign (c : Char) : Bool :=
  c == '+' || c == '-'

def baseMark (letter : Char) : Pattern :=
  seq (one (· == '0')) (one fun c => lower c == letter)

def number : Scanner := fun cs =>
  if cs.head?.any fun c => c.isDigit || isSign c || c == '.' then
    longest pattern cs
  else
    none
where
  digits : Pattern := grouped Char.isDigit
  hexDigits : Pattern := grouped isHexDigit
  whole : Pattern :=
    either digits (either (seq (baseMark 'b') digits) (seq (baseMark 'x') hexDigits))
  fraction : Pattern := seq (one (· == '.')) (optional hexDigits)
  exponent : Pattern :=
    seq (one fun c => lower c == 'e' || lower c == 'p')
      (optional (seq (optional (one isSign)) hexDigits))
  pattern : Pattern :=
    seq (optional (one isSign))
      (seq (optional (either (baseMark 'x') (baseMark 'b')))
        (seq (either (seq whole (optional fraction)) (seq (one (· == '.')) digits))
          (seq (optional exponent) (many fun c => "ulwfbd".toList.contains (lower c)))))

def stringContent : Scanner := fun cs =>
  match (cs.takeWhile fun c => c != '"' && c != '\n' && c != '\\').length with
  | 0 => none
  | n + 1 => some (n + 1)

def quotedCharacter : Scanner
  | [] => none
  | c :: _ => if c == '\'' || c == '\n' then none else some 1

def escape : Scanner
  | '\\' :: c :: cs =>
    let digits (p : Char → Bool) (least greatest : Nat) : Option Nat :=
      let n := ((cs.take greatest).takeWhile p).length
      if least ≤ n then some (n + 2) else none
    if c == 'x' then
      digits isHexDigit 1 4
    else if c == 'u' then
      digits isHexDigit 4 4
    else if c == 'U' then
      digits isHexDigit 8 8
    else if c.isDigit then
      digits Char.isDigit 0 2
    else
      some 2
  | _ => none

/--
A file name in angle brackets. A bracket behind a backslash is part of the name if another one
follows.
-/
def bracketedName : Scanner
  | '<' :: cs => (go cs).map (· + 1)
  | _ => none
where
  go : Scanner
    | '\\' :: '>' :: cs => some ((go cs).getD 0 + 2)
    | '>' :: _ => some 1
    | '\n' :: _ => none
    | _ :: cs => (go cs).map (· + 1)
    | [] => none

def directiveName? : List Char → Option (String × Nat)
  | '#' :: cs =>
    let gap := (cs.takeWhile isSpace).length
    let name := (cs.drop gap).takeWhile fun c => c.isAlphanum || c == '_'
    match name with
    | [] => none
    | c :: _ => if c.isAlphanum then some (String.ofList name, gap + name.length + 1) else none
  | _ => none

def anyDirective : Scanner := fun cs =>
  (directiveName? cs).map Prod.snd

/-- The given directive, or what is so far of one with a longer name. -/
def directive (name : String) : Scanner := fun cs => do
  let (found, length) ← directiveName? cs
  if found.startsWith name then some (length - (found.length - name.length)) else none

/--
The rest of a directive: up to a block comment or the end of the line, over line breaks behind a
backslash.
-/
def directiveText : Scanner
  | [] => none
  | c :: cs => if isBlank c then none else some (go cs + 1)
where
  go : List Char → Nat
    | '\\' :: '\n' :: cs => go cs + 2
    | '\\' :: '\r' :: '\n' :: cs => go cs + 3
    | '\n' :: _ => 0
    | '/' :: c :: cs => if c == '*' then 0 else go cs + 2
    | ['/'] => 0
    | _ :: cs => go cs + 1
    | [] => 0

end Scanner

/-!
Between tokens stand blanks, where a backslash joins two lines, and comments.
-/

namespace Trivia

/--
The length of a line comment behind its slashes. A backslash in front of the line break joins the
next line to it.
-/
def lineLength : List Char → Nat
  | '\\' :: '\r' :: '\n' :: cs => lineLength cs + 3
  | '\\' :: '\n' :: cs => lineLength cs + 2
  | '\n' :: _ => 0
  | _ :: cs => lineLength cs + 1
  | [] => 0

def blockLength? : List Char → Option Nat
  | '*' :: '/' :: _ => some 2
  | _ :: cs => (blockLength? cs).map (· + 1)
  | [] => none

def comment : Scanner
  | '/' :: '/' :: cs => some (lineLength cs + 2)
  | '/' :: '*' :: cs => (blockLength? cs).map (· + 2)
  | _ => none

/--
The length of the blank at the front of a text. Spaces are taken together; other blanks are taken
one by one, as a line break may be a token.
-/
def blank : Scanner
  | '\\' :: '\n' :: _ => some 2
  | '\\' :: '\r' :: '\n' :: _ => some 3
  | c :: cs =>
    if isSpace c then some ((cs.takeWhile isSpace).length + 1)
    else if isBlank c then some 1
    else none
  | [] => none

end Trivia

end ShaderParams.Grammar
