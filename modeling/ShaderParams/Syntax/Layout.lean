import ShaderParams.Error
import ShaderParams.Syntax.Qualifier

/-!
This module contains layout specifications: reading the entries of a `layout(...)` list, and the
specification that is written in front of a converted block.
-/

namespace ShaderParams

/--
One `name` or `name = value` of a layout specification. `node` is the node that `name` is the text
of.
-/
structure LayoutEntry where
  name : String
  value : Option Node
  node : Node
deriving Repr

namespace Node

mutual

/--
The children of the node that holds the parentheses of a layout specification: the node itself, or
else that of its last inner child.
-/
def parenthesized? : Node → Option (List Node)
  | mk _ children =>
    if children.any fun c => c.type == "(" then
      some children
    else
      lastParenthesized? children

def lastParenthesized? : List Node → Option (List Node)
  | [] => none
  | c :: cs =>
    if cs.any fun d => !d.isToken then
      lastParenthesized? cs
    else if c.isToken then
      none
    else
      c.parenthesized?

end

def withoutComments (cs : List Node) : List Node :=
  cs.filter fun c => !c.label.isComment

/--
Splits the children of a parenthesized list at its commas, from the opening parenthesis (`inside`
tells whether it was seen) to the first closing one. Comments are left out.
-/
def splitList (inside : Bool) (current : List Node) : List Node → List (List Node)
  | [] => [current]
  | c :: cs =>
    if c.type == "(" then
      splitList true current cs
    else if c.type == ")" then
      [current]
    else if c.type == "," then
      current :: splitList inside [] cs
    else if inside && !c.label.isComment then
      splitList inside (current ++ [c]) cs
    else
      splitList inside current cs

def layoutEntry (nodes : List Node) : Except Error LayoutEntry :=
  let nodes := match nodes with
    | [n] => if n.isToken then [n] else withoutComments n.children
    | nodes => nodes
  match nodes with
  | [] => .error .missingChild
  | name :: eq :: value :: _ =>
    .ok ⟨name.text, if eq.type == "=" then some value else none, name⟩
  | name :: _ => .ok ⟨name.text, none, name⟩

/--
The entries of a layout specification, in the order of the source. Nothing between two commas is no
entry.
-/
def layoutEntries (layout : Node) : Except Error (List LayoutEntry) :=
  match layout.parenthesized? with
  | none => .ok []
  | some children =>
    ((splitList false [] children).filter fun g => !g.isEmpty).mapM layoutEntry

end Node

def bindingLayout (set binding : Int) : Node :=
  .branch "layout_specification" [
    .symbol "layout",
    .branch "layout_qualifiers" [
      .symbol "(",
      entry "" "set" set,
      .symbol ",",
      entry " " "binding" binding,
      .symbol ")"]]
where
  entry (leading name : String) (value : Int) : Node :=
    .branch "qualifier" [
      .token "identifier" name leading,
      .symbol "=" " ",
      .token "number_literal" (toString value) " "]

end ShaderParams
