import ShaderParams.Syntax.Point

/-!
This module contains syntax trees and what can be read off them. A tree keeps the whole source text:
each token has the trivia (whitespace) in front of it, so writing the tokens out one after the other
gives the text back.
-/

namespace ShaderParams

/--
What a node says about itself. A node with a `text` is a token; `leading` is the trivia in front of
it. `field` is the role that the node plays in its parent, `start` the position at which it was
found, if it comes from a source text.
-/
structure Label where
  type : String
  text : Option String := none
  field : Option String := none
  named : Bool := true
  leading : String := ""
  start : Option Point := none
deriving DecidableEq, Repr

namespace Label

def isToken (l : Label) : Bool :=
  l.text.isSome

def render (l : Label) : String :=
  l.leading ++ l.text.getD ""

end Label

/--
A syntax tree. The children of a token do not contribute to the source text.
-/
inductive Node where
  | mk (label : Label) (children : List Node)
deriving Repr

namespace Node

def label : Node → Label
  | mk label _ => label

def children : Node → List Node
  | mk _ children => children

def type (n : Node) : String := n.label.type

def isToken (n : Node) : Bool := n.label.isToken

/--
A token. Punctuation and keywords are named after their own text, all others are named nodes.
-/
def token (type text : String) (leading : String := "") (field : Option String := none) : Node :=
  mk { type, text := some text, field, named := type != text, leading } []

def symbol (text : String) (leading : String := "") (field : Option String := none) : Node :=
  token text text leading field

def branch (type : String) (children : List Node) (field : Option String := none) : Node :=
  mk { type, field } children

mutual

def tokens : Node → List Label
  | mk label children => if label.isToken then [label] else listTokens children

def listTokens : List Node → List Label
  | [] => []
  | c :: cs => c.tokens ++ listTokens cs

end

theorem listTokens_eq_flatMap (cs : List Node) : listTokens cs = cs.flatMap tokens := by
  induction cs with
  | nil => rfl
  | cons c cs ih => simp [listTokens, ih]

@[simp]
theorem listTokens_append (cs ds : List Node) :
    listTokens (cs ++ ds) = listTokens cs ++ listTokens ds := by
  simp [listTokens_eq_flatMap]

def renderTokens (ts : List Label) : String :=
  String.join (ts.map Label.render)

def render (n : Node) : String :=
  renderTokens n.tokens

def text (n : Node) : String :=
  match n.tokens with
  | [] => ""
  | t :: ts => t.text.getD "" ++ renderTokens ts

def leading (n : Node) : String :=
  match n.tokens with
  | [] => ""
  | t :: _ => t.leading

mutual

/--
Changes the trivia in front of a tree, `none` if it has no tokens.
-/
def setLeading? (leading : String) : Node → Option Node
  | mk label children =>
    if label.isToken then
      some (mk { label with leading } children)
    else
      (listSetLeading? leading children).map (mk label)

def listSetLeading? (leading : String) : List Node → Option (List Node)
  | [] => none
  | c :: cs =>
    match c.setLeading? leading with
    | some c => some (c :: cs)
    | none => (listSetLeading? leading cs).map (c :: ·)

end

def setLeading (leading : String) (n : Node) : Node :=
  (n.setLeading? leading).getD n

mutual

/--
The tree and everything below it, parents before their children. Children of tokens are included.
-/
def walk : Node → List Node
  | mk label children => mk label children :: listWalk children

def listWalk : List Node → List Node
  | [] => []
  | c :: cs => c.walk ++ listWalk cs

end

def findFirst? (types : List String) (n : Node) : Option Node :=
  n.walk.find? fun m => types.contains m.type

def childByField? (field : String) (n : Node) : Option Node :=
  n.children.find? fun c => c.label.field == some field

def namedChildren (n : Node) : List Node :=
  n.children.filter fun c => c.label.named

def defaultField (field : Option String) : Node → Node
  | mk label children => mk { label with field := label.field <|> field } children

/--
A tree made ready to stand in the place of `old`: it takes over the trivia in front of it, and its
role unless it has one.
-/
def inPlaceOf (old new : Node) : Node :=
  (new.setLeading old.leading).defaultField old.label.field

end Node

/--
A syntax tree of a whole source text, with the trivia after its last token.
-/
structure Document where
  root : Node
  trailing : String := ""
deriving Repr

def Document.render (d : Document) : String :=
  d.root.render ++ d.trailing

end ShaderParams
