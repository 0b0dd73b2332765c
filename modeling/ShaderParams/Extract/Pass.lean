import ShaderParams.Extract.Block
import ShaderParams.Slider.Panel

/-!
This module contains the extraction of sliders from a shader. One pass over the syntax tree, parents
before their children, turns the fields of the first params block into sliders and the block into an
ordinary one, puts literals in the place of the bounds of sliders seen before, and notices the macro
of a still image.
-/

namespace ShaderParams

/--
What the pass knows of the part of the document that it has been through. `pending` is the trivia of
removed tokens on its way to the next token.
-/
structure Progress where
  sliders : List Slider := []
  found : Bool := false
  stillImage : Bool := false
  pending : Option String := none

/--
The bound that a member access names, such as `speed.max` for a numeric slider `speed`.
-/
def namedBound? (sliders : List Slider) (slider member : String) : Option Double :=
  match sliders.find? fun s => s.control.isFloat && s.name == some slider with
  | some ⟨_, .float min max _⟩ =>
    if member = "min" then
      some min
    else if member = "max" then
      some max
    else
      none
  | _ => none

def boundAt? (sliders : List Slider) (n : Node) : Except Error (Option Double) :=
  if n.type == "field_expression" then do
    let some argument := n.childByField? "argument" <|> n.namedChildren.head? | throw .missingChild
    let some member := n.childByField? "field" <|> n.namedChildren.getLast? | throw .missingChild
    if argument.type == "identifier" then
      return namedBound? sliders argument.text member.text
    else
      return none
  else
    return none

def Node.defines (macroName : String) (n : Node) : Bool :=
  n.type == "preproc_def" && (n.childByField? "name").any fun c => c.text == macroName

/--
A node after the pass went through it. `relayout` tells whether it was the params block with its
qualifiers in front of it, whose layout is then still to be replaced.
-/
structure Visited where
  node : Node
  relayout : Bool := false
  progress : Progress

def leaveNode (n : Node) (p : Progress) : Visited :=
  let (n, pending) := n.receive p.pending
  { node := n, progress := { p with pending } }

def takeBlock (o : Options) (place : QualifierPlace) (n : Node) (p : Progress) :
    Logged Visited := do
  let sliders ← n.fields.mapM Slider.ofField
  let (n, pending) := n.convertBlock o place p.pending
  return {
    node := n
    relayout := place == .preceding
    progress := { p with sliders := p.sliders ++ sliders, found := true, pending } }

def skipBlock (n : Node) (p : Progress) : Logged Visited :=
  match n.label.start with
  | none => Logged.throw .missingStart
  | some start => do
    Logged.warn (.extraBlock start.row)
    return leaveNode n p

def putLiteral (x : Double) (n : Node) (p : Progress) : Visited :=
  let v := leaveNode n p
  { v with node := Node.inPlaceOf v.node (.ofDouble x) }

mutual

/--
Goes through a node. `preceding` are the nodes in front of it in its parent, already converted.
-/
def visit (o : Options) (preceding : List Node) (p : Progress) : Node → Logged Visited
  | .mk l cs => do
    match ← paramsLayout? o preceding (.mk l cs) with
    | some (place, _) =>
      if p.found then
        skipBlock (.mk l cs) p
      else
        takeBlock o place (.mk l cs) p
    | none =>
      match ← boundAt? p.sliders (.mk l cs) with
      | some x => return putLiteral x (.mk l cs) p
      | none =>
        let stillImage := p.stillImage || (Node.mk l cs).defines o.stillImageMacro
        let (l, pending) := l.receive p.pending
        let (cs, p) ← visitAll o [] { p with stillImage, pending } cs
        return { node := .mk l cs, progress := p }

def visitAll (o : Options) (done : List Node) (p : Progress) :
    List Node → Logged (List Node × Progress)
  | [] => return (done, p)
  | c :: cs => do
    let v ← visit o done p c
    let done := if v.relayout then Node.replaceQualifierLayout o.layout done else done
    visitAll o (done ++ [v.node]) v.progress cs

end

structure Extraction where
  panel : Panel
  source : String
deriving DecidableEq, Repr

/--
Extracts the sliders of a shader that was parsed from `source`. Without a params block the source is
returned as it was given.
-/
def extract (o : Options) (source : String) (d : Document) : Logged Extraction := do
  let v ← visit o [] {} d.root
  let panel : Panel := { sliders := v.progress.sliders, stillImage := v.progress.stillImage }
  let source := if v.progress.found then { d with root := v.node }.render else source
  return { panel, source }

end ShaderParams
