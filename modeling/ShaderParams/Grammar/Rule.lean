import ShaderParams.Grammar.Token

/-!
This module contains grammars: rules written with choices and repetitions, and the productions that
they stand for. How strongly the parts of a production bind decides between shifting a token and
finishing the production where both are possible.
-/

namespace ShaderParams.Grammar

inductive Grouping where
  | none
  | left
  | right
deriving DecidableEq, Repr

/--
A rule. Other rules are referred to by their names.
-/
inductive Rule where
  | token (token : Token) (type : Option String)
  | name (name : String)
  | empty
  | seq (first second : Rule)
  | alt (first second : Rule)
  | many1 (body : Rule)
  | role (field : String) (body : Rule)
  /-- The strength with which the parts of the body bind. -/
  | bind (strength : Int) (grouping : Grouping) (body : Rule)
  /-- How much the body is preferred where a text can be read in two ways. -/
  | weigh (weight : Int) (body : Rule)
deriving Repr

inductive Symbol where
  | token (token : Token)
  | name (name : String)
deriving DecidableEq, Repr

/--
A symbol in a production: the node type of its token if it has one of its own, the role it plays,
and how strongly it binds.
-/
structure Step where
  symbol : Symbol
  type : Option String := none
  field : Option String := none
  strength : Option Int := none
deriving Repr

structure Sequence where
  steps : List Step
  grouping : Grouping := .none
  weight : Int := 0
deriving Repr

namespace Sequence

def append (a b : Sequence) : Sequence where
  steps := a.steps ++ b.steps
  grouping := if b.grouping = .none then a.grouping else b.grouping
  weight := a.weight + b.weight

end Sequence

structure Production where
  head : String
  sequence : Sequence
deriving Repr

namespace Rule

/--
The ways to follow a rule, and productions for its repetitions. The names of those are made of
`owner` and their place in the rule.
-/
def expand (owner : String) : Rule → List Sequence × List Production
  | token t type => ([{ steps := [{ symbol := .token t, type }] }], [])
  | name n => ([{ steps := [{ symbol := .name n }] }], [])
  | empty => ([{ steps := [] }], [])
  | seq a b =>
    let (as, ps) := a.expand (owner ++ "l")
    let (bs, qs) := b.expand (owner ++ "r")
    (as.flatMap fun x => bs.map x.append, ps ++ qs)
  | alt a b =>
    let (as, ps) := a.expand (owner ++ "l")
    let (bs, qs) := b.expand (owner ++ "r")
    (as ++ bs, ps ++ qs)
  | many1 a =>
    let (as, ps) := a.expand (owner ++ "l")
    let step : Step := { symbol := .name owner }
    let more (x : Sequence) : Sequence := Sequence.append { steps := [step] } x
    ([{ steps := [step] }], ps ++ as.flatMap fun x => [⟨owner, x⟩, ⟨owner, more x⟩])
  | role field a =>
    let (as, ps) := a.expand (owner ++ "l")
    (as.map fun x =>
      { x with steps := x.steps.map fun s => { s with field := s.field <|> some field } }, ps)
  | bind strength grouping a =>
    let (as, ps) := a.expand (owner ++ "l")
    (as.map fun x =>
      { x with
        steps := x.steps.map fun s => { s with strength := s.strength <|> some strength }
        grouping := if x.grouping = .none then grouping else x.grouping }, ps)
  | weigh weight a =>
    let (as, ps) := a.expand (owner ++ "l")
    (as.map fun x => { x with weight := x.weight + weight }, ps)

end Rule

/--
What a name stands for, and the type of the nodes it makes. A rule without one leaves its parts to
its parent.
-/
structure Definition where
  name : String
  type : Option String
  rule : Rule
deriving Repr

def Definition.productions (d : Definition) : List Production :=
  let (ways, more) := d.rule.expand (d.name ++ ".")
  (ways.filter fun x => !x.steps.isEmpty).map (⟨d.name, ·⟩) ++ more

def node (name : String) (rule : Rule) : Definition :=
  ⟨name, some name, rule⟩

def nodeOf (type name : String) (rule : Rule) : Definition :=
  ⟨name, some type, rule⟩

def group (name : String) (rule : Rule) : Definition :=
  ⟨name, none, rule⟩

namespace Rule

/-! Abbreviations in which grammars are written. -/

def keyword (text : String) : Rule := token (.keyword text) none

def symbol (text : String) : Rule := token (.symbol text) none

def identifier : Rule := token .word none

def word (type : String) : Rule := token .word (some type)

def all : List Rule → Rule
  | [] => empty
  | [r] => r
  | r :: rs => seq r (all rs)

def choice : List Rule → Rule
  | [] => empty
  | [r] => r
  | r :: rs => alt r (choice rs)

def optional (r : Rule) : Rule := alt empty r

def many (r : Rule) : Rule := optional (many1 r)

def commaList (r : Rule) : Rule := seq r (many (seq (symbol ",") r))

def keywords (texts : List String) : Rule := choice (texts.map keyword)

def symbols (texts : List String) : Rule := choice (texts.map symbol)

def names (ns : List String) : Rule := choice (ns.map name)

def parentheses (r : Rule) : Rule := all [symbol "(", r, symbol ")"]

end Rule

end ShaderParams.Grammar
