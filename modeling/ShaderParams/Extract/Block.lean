import ShaderParams.Slider.Field

/-!
This module contains params blocks: recognising the block that a shader declares its parameters in,
and its conversion to an ordinary uniform block.
-/

namespace ShaderParams

/--
What an extraction looks for, and what it writes: the layout entry that marks the params block, the
macro that a still image defines, and the numbers in the layout of the converted block.
-/
structure Options where
  marker : String := "params"
  stillImageMacro : String := "NUANCE_STILL_IMAGE"
  set : Int := 0
  binding : Int := 0
deriving DecidableEq, Repr

def Options.layout (o : Options) : Node :=
  bindingLayout o.set o.binding

/--
Where the qualifiers of a block stand: among its children, or in front of it.
-/
inductive QualifierPlace where
  | own
  | preceding
deriving DecidableEq, Repr

def Node.isBlock (n : Node) : Bool :=
  (n.children.any fun c => c.label.isFieldList) && !(n.children.any fun c => c.type == "struct")

/--
The first qualifier of a block; one in front of it only if it has none of its own.
-/
def firstQualifier? (preceding : List Node) (block : Node) : Option (QualifierPlace × Node) :=
  match qualifiers Node.label block.children with
  | q :: _ => some (.own, q)
  | [] => (qualifiers Node.label preceding).head?.map (.preceding, ·)

/--
The layout that makes a node the params block: its first qualifier is a layout whose first entry is
the marker. `preceding` are the nodes in front of the block in its parent.
-/
def paramsLayout? (o : Options) (preceding : List Node) (n : Node) :
    Except Error (Option (QualifierPlace × Node)) :=
  if n.isBlock then
    match firstQualifier? preceding n with
    | none => return none
    | some (place, q) =>
      match q.layout? with
      | none => return none
      | some layout => do
        let entries ← layout.layoutEntries
        return if entries.head?.any fun e => e.name == o.marker then some (place, layout) else none
  else
    return none

/-!
Removing a token leaves the trivia in front of it to the next token of the document, which loses its
own. Such trivia is on its way in `pending` while the conversion goes through the nodes in order.
-/

/-- A token takes trivia that is on its way. -/
def Label.receive (pending : Option String) (l : Label) : Label × Option String :=
  match pending with
  | some leading => if l.isToken then ({ l with leading }, none) else (l, some leading)
  | none => (l, none)

namespace Node

def receive (pending : Option String) (n : Node) : Node × Option String :=
  match pending with
  | some leading =>
    match n.setLeading? leading with
    | some n => (n, none)
    | none => (n, some leading)
  | none => (n, none)

/--
Drops the marked nodes of a sequence. Each hands the trivia in front of it on.
-/
def dropMarked (pending : Option String) : List (Node × Bool) → List Node × Option String
  | [] => ([], pending)
  | (c, marked) :: cs =>
    let (c, pending) := c.receive pending
    if marked then
      dropMarked (some c.leading) cs
    else
      let (cs, pending) := dropMarked pending cs
      (c :: cs, pending)

def stripField (pending : Option String) : Node → Node × Option String
  | mk l cs =>
    let (l, pending) := l.receive pending
    let (cs, pending) := dropMarked pending (markQualifiers label cs)
    (mk l cs, pending)

def isField (n : Node) : Bool :=
  n.type == "field_declaration"

def stripMembers (pending : Option String) : List Node → List Node × Option String
  | [] => ([], pending)
  | c :: cs =>
    let (c, pending) := if c.isField then c.stripField pending else c.receive pending
    let (cs, pending) := stripMembers pending cs
    (c :: cs, pending)

def stripFieldList (pending : Option String) : Node → Node × Option String
  | mk l cs =>
    let (l, pending) := l.receive pending
    let (cs, pending) := stripMembers pending cs
    (mk l cs, pending)

def stripFirstFieldList (pending : Option String) : List Node → List Node × Option String
  | [] => ([], pending)
  | c :: cs =>
    if c.label.isFieldList then
      let (c, pending) := c.stripFieldList pending
      let (cs, pending) := receiveAll pending cs
      (c :: cs, pending)
    else
      let (c, pending) := c.receive pending
      let (cs, pending) := stripFirstFieldList pending cs
      (c :: cs, pending)
where
  receiveAll (pending : Option String) : List Node → List Node × Option String
    | [] => ([], pending)
    | c :: cs =>
      let (c, pending) := c.receive pending
      let (cs, pending) := receiveAll pending cs
      (c :: cs, pending)

def fields (block : Node) : List Node :=
  match block.children.find? fun c => c.label.isFieldList with
  | some list => list.children.filter isField
  | none => []

/--
A params block as an ordinary block: no field has qualifiers, and the layout that marks it, if it is
the block's own, is the one to be written.
-/
def convertBlock (o : Options) (place : QualifierPlace) (pending : Option String) :
    Node → Node × Option String
  | mk l cs =>
    let (l, pending) := l.receive pending
    let (cs, pending) := stripFirstFieldList pending cs
    match place with
    | .own => (mk l (replaceQualifierLayout o.layout cs), pending)
    | .preceding => (mk l cs, pending)

end Node

end ShaderParams
