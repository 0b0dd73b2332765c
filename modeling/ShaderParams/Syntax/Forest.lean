import ShaderParams.Syntax.Qualifier
import ShaderParams.Text.Quoted

/-!
This module contains syntax trees that are edited in place. All nodes ever made are kept in one
table and go by their number; a node lists its children and knows its parent. A node may be listed
in several places, but only the last place that took it is its parent.
-/

namespace ShaderParams

structure Cell where
  label : Label := { type := "" }
  parent : Option Nat := none
  children : List Nat := []
deriving Repr, Inhabited

structure Forest where
  cells : Array Cell := #[]
deriving Repr

inductive EditError where
  | replaceRoot
  | removeRoot
deriving DecidableEq, Repr

def EditError.message : EditError → String
  | replaceRoot => "Cannot replace the root node"
  | removeRoot => "Cannot remove the root node"

namespace Forest

def size (f : Forest) : Nat :=
  f.cells.size

def cell (f : Forest) (id : Nat) : Cell :=
  f.cells[id]?.getD {}

def label (f : Forest) (id : Nat) : Label :=
  (f.cell id).label

def children (f : Forest) (id : Nat) : List Nat :=
  (f.cell id).children

def parent? (f : Forest) (id : Nat) : Option Nat :=
  (f.cell id).parent

def modify (f : Forest) (id : Nat) (g : Cell → Cell) : Forest :=
  ⟨f.cells.modify id g⟩

@[simp]
theorem size_modify (f : Forest) (id : Nat) (g : Cell → Cell) : (f.modify id g).size = f.size := by
  simp [modify, size]

mutual

/--
Adds a tree to the table, its root first. The root has the number `f.size`.
-/
def add (f : Forest) (parent : Option Nat) : Node → Forest
  | .mk label children =>
    let id := f.size
    let (f, ids) := addAll ⟨f.cells.push { label, parent }⟩ id children
    f.modify id fun c => { c with children := ids }

def addAll (f : Forest) (parent : Nat) : List Node → Forest × List Nat
  | [] => (f, [])
  | c :: cs =>
    let id := f.size
    let (f, ids) := addAll (f.add (some parent) c) parent cs
    (f, id :: ids)

end

def ofNode (n : Node) : Forest :=
  ({} : Forest).add none n

/-!
Below a node are at most as many levels as there are nodes, so the number of nodes bounds the depth
of every search.
-/

def treeTo (f : Forest) (depth id : Nat) : Node :=
  match depth with
  | 0 => .mk (f.label id) []
  | depth + 1 => .mk (f.label id) ((f.children id).map (f.treeTo depth))

def tree (f : Forest) (id : Nat) : Node :=
  f.treeTo f.size id

/-- The numbers of a node and of everything below it, parents before their children. -/
def walkTo (f : Forest) (depth id : Nat) : List Nat :=
  match depth with
  | 0 => [id]
  | depth + 1 => id :: (f.children id).flatMap (f.walkTo depth)

def walk (f : Forest) (id : Nat) : List Nat :=
  f.walkTo f.size id

def tokensTo (f : Forest) (depth id : Nat) : List Nat :=
  if (f.label id).isToken then
    [id]
  else
    match depth with
    | 0 => []
    | depth + 1 => (f.children id).flatMap (f.tokensTo depth)

def tokens (f : Forest) (id : Nat) : List Nat :=
  f.tokensTo f.size id

def firstToken? (f : Forest) (id : Nat) : Option Nat :=
  (f.tokens id).head?

/-- The nodes listed behind a node in its parent; the first place counts. -/
def laterSiblings (f : Forest) (parent id : Nat) : List Nat :=
  ((f.children parent).dropWhile (· != id)).drop 1

/-- The first token behind the tree below a node, searched for at most `depth` levels up. -/
def nextTokenTo? (f : Forest) (depth id : Nat) : Option Nat :=
  match depth, f.parent? id with
  | depth + 1, some parent =>
    (f.laterSiblings parent id).findSome? f.firstToken? <|> f.nextTokenTo? depth parent
  | _, _ => none

def nextToken? (f : Forest) (id : Nat) : Option Nat :=
  f.nextTokenTo? f.size id

def namedChildren (f : Forest) (id : Nat) : List Nat :=
  (f.children id).filter fun c => (f.label c).named

def childByField? (f : Forest) (field : String) (id : Nat) : Option Nat :=
  (f.children id).find? fun c => (f.label c).field == some field

def findFirst? (f : Forest) (types : List String) (id : Nat) : Option Nat :=
  (f.walk id).find? fun c => types.contains (f.label c).type

def leading (f : Forest) (id : Nat) : String :=
  match f.firstToken? id with
  | some t => (f.label t).leading
  | none => ""

def setTokenLeading (f : Forest) (id : Nat) (leading : String) : Forest :=
  f.modify id fun c => { c with label := { c.label with leading } }

def setLeading (f : Forest) (id : Nat) (leading : String) : Forest :=
  match f.firstToken? id with
  | some t => f.setTokenLeading t leading
  | none => f

def setParent (f : Forest) (id : Nat) (parent : Option Nat) : Forest :=
  f.modify id fun c => { c with parent }

def setChildren (f : Forest) (id : Nat) (children : List Nat) : Forest :=
  f.modify id fun c => { c with children }

/-- Lists a node as the last child of another one. Places that listed it before keep it. -/
def append (f : Forest) (id child : Nat) : Forest :=
  (f.setParent child (some id)).setChildren id (f.children id ++ [child])

/--
Puts a node in the place of another one. It takes over the trivia in front of the old node, and the
role of the old node unless it has one.
-/
def replace (f : Forest) (id new : Nat) : Except EditError Forest :=
  match f.parent? id with
  | none => .error .replaceRoot
  | some parent =>
    let f := f.setLeading new (f.leading id)
    let f := f.modify new fun c =>
      { c with label := { c.label with field := c.label.field <|> (f.label id).field } }
    let f := f.setChildren parent ((f.children parent).replace id new)
    .ok ((f.setParent new (some parent)).setParent id none)

/--
Takes a node out of its parent. The next token takes over the trivia in front of it.
-/
def remove (f : Forest) (id : Nat) : Except EditError Forest :=
  match f.parent? id with
  | none => .error .removeRoot
  | some parent =>
    let f := match f.nextToken? id with
      | some t => f.setTokenLeading t (f.leading id)
      | none => f
    .ok ((f.setChildren parent ((f.children parent).erase id)).setParent id none)

/-- Takes nodes out one after the other. It stops at the first that is refused. -/
def removeAll (f : Forest) : List Nat → Forest × Except EditError Unit
  | [] => (f, .ok ())
  | id :: ids =>
    match f.remove id with
    | .ok f => f.removeAll ids
    | .error e => (f, .error e)

def strip (f : Forest) (id : Nat) : Forest × Except EditError Unit :=
  f.removeAll (qualifiers f.label (f.children id))

inductive WalkEdit where
  | replace (new : Node)
  | remove
deriving Repr

def WalkEdit.size : WalkEdit → Nat
  | replace new => new.walk.length
  | remove => 0

def edit (f : Forest) (id : Nat) : WalkEdit → Forest × Except EditError Unit
  | .replace new =>
    let fresh := f.size
    let f := f.add none new
    match f.replace id fresh with
    | .ok f => (f, .ok ())
    | .error e => (f, .error e)
  | .remove =>
    match f.remove id with
    | .ok f => (f, .ok ())
    | .error e => (f, .error e)

mutual

/--
Walks through the tree below a node and does an edit at every node of a type, before the children of
the node are listed. The numbers of the nodes come back in the order in which they were met.
-/
def walkEditTo (edit : WalkEdit) (type : String) (depth : Nat) (f : Forest) (id : Nat) :
    Forest × Except EditError (List Nat) :=
  let (f, done) := if (f.label id).type == type then f.edit id edit else (f, .ok ())
  match done with
  | .error e => (f, .error e)
  | .ok () =>
    match depth with
    | 0 => (f, .ok [id])
    | depth + 1 =>
      let (f, met) := walkEditAll edit type depth f (f.children id)
      (f, met.map (id :: ·))
termination_by (depth, 0)

def walkEditAll (edit : WalkEdit) (type : String) (depth : Nat) (f : Forest) (ids : List Nat) :
    Forest × Except EditError (List Nat) :=
  match ids with
  | [] => (f, .ok [])
  | id :: ids =>
    match walkEditTo edit type depth f id with
    | (f, .error e) => (f, .error e)
    | (f, .ok met) =>
      let (f, rest) := walkEditAll edit type depth f ids
      (f, rest.map (met ++ ·))
termination_by (depth, ids.length + 1)

end

def walkEdit (f : Forest) (edit : WalkEdit) (type : String) (id : Nat) :
    Forest × Except EditError (List Nat) :=
  walkEditTo edit type (f.size + edit.size) f id

def describe (f : Forest) (id : Nat) : String :=
  let l := f.label id
  let rest := match l.text with
    | some text => Text.quoted text
    | none => "children=" ++ toString (f.children id).length
  "ASTNode(" ++ Text.quoted l.type ++ ", " ++ rest ++ ")"

end Forest

end ShaderParams
