import ShaderParams.Error
import ShaderParams.Syntax.Node

/-!
This module contains the answer of a grammar to a source text: a tree of byte spans, with flags for
the places where the text did not fit. A tree without such places becomes a document that keeps
every byte of the text.
-/

namespace ShaderParams

/--
What a grammar says about a span of the source: its type, from which byte to which it goes, the
position where it starts, and whether it was put in for a missing token or has an error in it.
-/
structure Span where
  type : String
  start : Nat
  stop : Nat
  point : Point
  named : Bool := true
  missing : Bool := false
  hasError : Bool := false
  field : Option String := none
deriving DecidableEq, Repr

def Span.isError (s : Span) : Bool :=
  s.type == "ERROR" || s.missing

/--
A tree of spans. The spans without children are the tokens.
-/
inductive SpanTree where
  | mk (span : Span) (children : List SpanTree)
deriving Repr

namespace SpanTree

def span : SpanTree → Span
  | mk span _ => span

mutual

/--
The first error in the order of the source. Only children that are flagged are searched.
-/
def firstError? : SpanTree → Option Span
  | mk span children => if span.isError then some span else listFirstError? children

def listFirstError? : List SpanTree → Option Span
  | [] => none
  | c :: cs =>
    if c.span.hasError || c.span.missing then
      match c.firstError? with
      | some span => some span
      | none => listFirstError? cs
    else
      listFirstError? cs

end

end SpanTree

def decodeRange (data : ByteArray) (start stop : Nat) : Except Error String :=
  match String.fromUTF8? (data.extract start stop) with
  | some s => .ok s
  | none => .error .invalidEncoding

mutual

/--
The syntax tree of a tree of spans. The trivia of a token is the text from the end of the token
before it, which is at `offset`; the end of the last token is returned.
-/
def SpanTree.toNode (data : ByteArray) (offset : Nat) : SpanTree → Except Error (Node × Nat)
  | .mk s [] => do
    let leading ← decodeRange data offset s.start
    let text ← decodeRange data s.start s.stop
    let label := {
      type := s.type, text := some text, field := s.field, named := s.named, leading
      start := some s.point }
    return (.mk label [], s.stop)
  | .mk s (c :: cs) => do
    let (children, offset) ← SpanTree.toNodes data offset (c :: cs)
    let label := {
      type := s.type, field := s.field, named := s.named
      start := some s.point }
    return (.mk label children, offset)

def SpanTree.toNodes (data : ByteArray) (offset : Nat) :
    List SpanTree → Except Error (List Node × Nat)
  | [] => return ([], offset)
  | c :: cs => do
    let (n, offset) ← SpanTree.toNode data offset c
    let (ns, offset) ← SpanTree.toNodes data offset cs
    return (n :: ns, offset)

end

/--
The source with a line break at its end: directives end with their line.
-/
def endLine (source : String) : String :=
  if source.endsWith '\n' then source else source.push '\n'

namespace Document

def spanError (t : SpanTree) : Error :=
  match t.firstError? with
  | none => .rejected .invalidSource none
  | some s =>
    if s.missing then
      .rejected (.missingToken s.type) (some s.point)
    else
      .rejected .unexpectedToken (some s.point)

/--
The document that a grammar found in a source. A tree that is flagged as a whole is rejected.
-/
def ofSpans (source : String) (t : SpanTree) : Except Error Document := do
  if t.span.hasError then
    throw (spanError t)
  else
    let data := (endLine source).toUTF8
    let s := { t.span with field := none }
    let .mk _ children := t
    let (root, offset) ← SpanTree.toNode data 0 (.mk s children)
    let trailing ← decodeRange data offset data.size
    return { root, trailing }

end Document

end ShaderParams
