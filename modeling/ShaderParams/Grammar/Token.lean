import ShaderParams.Grammar.Lexeme
import ShaderParams.Syntax.Span

/-!
This module contains the tokens of a grammar and reading the next token at a place in the source.
Which tokens a place allows is decided by what stands in front of it: a word is a keyword only where
that keyword is allowed, and a sign belongs to a number only where a number is.
-/

namespace ShaderParams.Grammar

inductive Token where
  | word
  | keyword (text : String)
  | oneOf (type : String) (words : List String)
  | symbol (text : String)
  /-- A parenthesis right behind the token before it. -/
  | opening
  | number
  | stringContent
  | character
  | escape
  | directive (name : String)
  | anyDirective
  | directiveText
  | bracketedName
  | lineBreak
  /-- The end of a line, right behind the token before it. -/
  | lineEnd
  | endOfText
deriving DecidableEq, Hashable, Repr

namespace Token

def type? : Token → Option String
  | word => some "identifier"
  | keyword text | symbol text => some text
  | oneOf type _ => some type
  | opening => some "("
  | number => some "number_literal"
  | stringContent => some "string_content"
  | character => some "character"
  | escape => some "escape_sequence"
  | directive name => some ("#" ++ name)
  | anyDirective => some "preproc_directive"
  | directiveText => some "preproc_arg"
  | bracketedName => some "system_lib_string"
  | lineBreak => some "\n"
  | lineEnd | endOfText => none

def named : Token → Bool
  | keyword _ | symbol _ | opening | directive _ | lineBreak | lineEnd | endOfText => false
  | _ => true

def attached : Token → Bool
  | opening | stringContent | character | lineEnd => true
  | _ => false

/-- Of several tokens that match, those of the highest rank are taken. -/
def rank : Token → Int
  | stringContent | escape => 1
  | directiveText => -1
  | _ => 0

/-- Whether other tokens are special cases of a token, which are taken instead of it. -/
def general : Token → Bool
  | word | anyDirective => true
  | _ => false

def scan (front : Option String) : Token → Scanner
  | word => fun _ => front.map String.length
  | keyword text => fun _ => (front.filter (· == text)).map String.length
  | oneOf _ words => fun _ => (front.filter words.contains).map String.length
  | symbol text => .literal text
  | opening => .literal "("
  | number => .number
  | stringContent => .stringContent
  | character => .quotedCharacter
  | escape => .escape
  | directive name => .directive name
  | anyDirective => .anyDirective
  | directiveText => .directiveText
  | bracketedName => .bracketedName
  | lineBreak => .literal "\n"
  | lineEnd => .lineBreak
  | endOfText => .endOfText

end Token

structure Cursor where
  rest : List Char
  place : Place

namespace Cursor

def advance (c : Cursor) (n : Nat) : Cursor :=
  ⟨c.rest.drop n, c.place.skip (c.rest.take n)⟩

theorem length_advance (c : Cursor) (n : Nat) :
    (c.advance n).rest.length = c.rest.length - n := by
  simp [advance]

end Cursor

structure Match where
  token : Option Nat
  rank : Int
  length : Nat
  general : Bool

/--
The match that is taken of two: that of the higher rank, then the longer, then the one that is not
general, then the first one.
-/
def Match.best (a b : Match) : Match :=
  if a.rank ≠ b.rank then
    if a.rank < b.rank then b else a
  else if a.length ≠ b.length then
    if a.length < b.length then b else a
  else if a.general then b else a

def bestMatch? (tokens : List (Nat × Token)) (attached : Bool) (cs : List Char) : Option Match :=
  let front := (Scanner.word cs).map fun n => String.ofList (cs.take n)
  let comment := (Trivia.comment cs).map fun n => ⟨none, 0, n, false⟩
  tokens.foldl (fun best (number, t) =>
    if t.attached && !attached then
      best
    else
      match (t.scan front cs).map fun n => ⟨some number, t.rank, n, t.general⟩, best with
      | none, best => best
      | some new, none => some new
      | some new, some old => some (old.best new)) comment

inductive Front where
  | token (number length : Nat)
  | comment (length : Nat)
  | blank (length : Nat)
  | nothing

/-- What stands at the front of a text. A blank is taken before tokens of a low rank. -/
def front (tokens : List (Nat × Token)) (attached : Bool) (cs : List Char) : Front :=
  match bestMatch? tokens attached cs with
  | some ⟨none, _, length, _⟩ => .comment length
  | some ⟨some number, rank, length, _⟩ =>
    match Trivia.blank cs with
    | some blank => if rank < 0 then .blank blank else .token number length
    | none => .token number length
  | none =>
    match Trivia.blank cs with
    | some blank => .blank blank
    | none => .nothing

structure Lexed where
  token : Nat
  comments : List SpanTree
  start : Place
  stop : Place

def spanBetween (type : String) (start stop : Place) : Span :=
  { type, start := start.offset, stop := stop.offset, point := start.point }

/--
Reads the next of the allowed tokens. Blanks are skipped and comments collected in front of it.
-/
def readToken (tokens : List (Nat × Token)) (attached : Bool) (c : Cursor) : Option Lexed :=
  match front tokens attached c.rest with
  | .token number length => some ⟨number, [], c.place, (c.advance length).place⟩
  | .comment (n + 1) =>
    if h : c.rest = [] then
      none
    else
      let next := c.advance (n + 1)
      let comment : SpanTree := .mk (spanBetween "comment" c.place next.place) []
      (readToken tokens true next).map fun l => { l with comments := comment :: l.comments }
  | .blank (n + 1) =>
    if h : c.rest = [] then none else readToken tokens false (c.advance (n + 1))
  | _ => none
termination_by c.rest.length
decreasing_by
  all_goals
    have := List.length_pos_iff.mpr h
    rw [Cursor.length_advance]
    omega

end ShaderParams.Grammar
