import ShaderParams.Grammar.Table

/-!
This module contains derivations: the ways in which a grammar reads a piece of a source. Derivations
are kept in one list and go by their numbers, so that a piece that takes part in several readings is
there only once. Where a piece can be read in several ways the preferred one is chosen, and its tree
of spans is made. A comment belongs to the innermost node that has tokens on both sides of it.
-/

namespace ShaderParams.Grammar

/--
A derivation: a token with the comments in front of it, or the productions that a name can be read
by, each with the derivations of its steps. A piece starts in front of its trivia.
-/
inductive Derivation where
  | leaf (start : Place) (lexed : Lexed)
  | inner (start stop : Place) (readings : List (Nat × List Nat))

namespace Derivation

def start : Derivation → Place
  | leaf start _ => start
  | inner start _ _ => start

def stop : Derivation → Place
  | leaf _ lexed => lexed.stop
  | inner _ stop _ => stop

def addReading (reading : Nat × List Nat) : Derivation → Derivation
  | inner start stop readings => inner start stop (readings ++ [reading])
  | d => d

end Derivation

def isComment (t : SpanTree) : Bool := t.span.type == "comment"

def setField (field : String) : SpanTree → SpanTree
  | .mk span children => .mk { span with field := some field } children

def assignField (field : Option String) (ts : List SpanTree) : List SpanTree :=
  match field with
  | none => ts
  | some field => ts.map fun t => if isComment t then t else setField field t

def startOf (ts : List SpanTree) (stop : Place) : Place :=
  match ts with
  | [] => stop
  | t :: _ => ⟨t.span.start, t.span.point⟩

/--
A node from its children and the place behind it; comments in front of the children stay in front of
the node.
-/
def makeNode (type : String) (stop : Place) (ts : List SpanTree) : List SpanTree :=
  let children := ts.dropWhile isComment
  ts.takeWhile isComment ++ [.mk (spanBetween type (startOf children stop) stop) children]

def leafTrees (t : Token) (type : Option String) (l : Lexed) : List SpanTree :=
  match type <|> t.type? with
  | none => l.comments
  | some name =>
    l.comments ++ [.mk { spanBetween name l.start l.stop with named := t.named } []]

structure Reading where
  weight : Int := 0
  trees : List SpanTree := []

structure Candidate extends Reading where
  production : Nat
  lastPlace : Nat

namespace Table

variable (t : Table)

/--
The preferred candidate of two: the one with the greater weight, then the one whose last step is the
longer (or the shorter one, for productions grouped to the left), then the one of the first
production.
-/
def prefer (a b : Candidate) : Candidate :=
  if a.weight ≠ b.weight then
    if a.weight < b.weight then b else a
  else if a.lastPlace ≠ b.lastPlace then
    let (longer, shorter) := if a.lastPlace < b.lastPlace then (a, b) else (b, a)
    if t.grouping longer.production = .left then shorter else longer
  else if b.production < a.production then b else a

abbrev Chosen := Array (Option Reading)

mutual

/--
The preferred reading of a derivation. `depth` bounds the nesting of derivations.
-/
def choose (ds : Array Derivation) (depth : Nat) (id : Nat) (chosen : Chosen) : Reading × Chosen :=
  match depth with
  | 0 => ({}, chosen)
  | depth + 1 =>
    match (chosen[id]?).join with
    | some r => (r, chosen)
    | none =>
      match ds[id]? with
      | some (.inner _ stop readings) =>
        let (best, chosen) := chooseAmong ds depth stop readings chosen
        let r : Reading := (best.map Candidate.toReading).getD {}
        (r, chosen.setIfInBounds id (some r))
      | _ => ({}, chosen)
termination_by (depth, 0, 0)

def chooseAmong (ds : Array Derivation) (depth : Nat) (stop : Place)
    (readings : List (Nat × List Nat)) (chosen : Chosen) : Option Candidate × Chosen :=
  match readings with
  | [] => (none, chosen)
  | (production, parts) :: rest =>
    match t.productions[production]? with
    | none => chooseAmong ds depth stop rest chosen
    | some p =>
      let (r, chosen) := chooseParts ds depth p.steps parts chosen
      let trees := match (t.types[p.head]?).join with
        | some type => makeNode type stop r.trees
        | none => r.trees
      let last := parts.getLast?.bind fun d => ds[d]?
      let lastPlace := (last.map fun d => d.start.offset).getD 0
      let new : Candidate := { weight := r.weight + p.weight, trees, production, lastPlace }
      let (other, chosen) := chooseAmong ds depth stop rest chosen
      (some ((other.map (t.prefer new)).getD new), chosen)
termination_by (depth, 1, readings.length)

def chooseParts (ds : Array Derivation) (depth : Nat) (steps : List Step) (parts : List Nat)
    (chosen : Chosen) : Reading × Chosen :=
  match steps, parts with
  | s :: steps, d :: parts =>
    let (r, chosen) := chooseStep ds depth s d chosen
    let (rest, chosen) := chooseParts ds depth steps parts chosen
    (⟨r.weight + rest.weight, assignField s.field r.trees ++ rest.trees⟩, chosen)
  | _, _ => ({}, chosen)
termination_by (depth, 0, steps.length + 2)

def chooseStep (ds : Array Derivation) (depth : Nat) (s : Step) (d : Nat) (chosen : Chosen) :
    Reading × Chosen :=
  match s.symbol, ds[d]? with
  | .token token, some (.leaf _ l) => ({ trees := leafTrees token s.type l }, chosen)
  | _, _ => choose ds depth d chosen
termination_by (depth, 0, 1)

end

end Table

end ShaderParams.Grammar
