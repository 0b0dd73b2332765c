import ShaderParams.Grammar.Derivation

/-!
This module contains the parser. It keeps all stacks of states that a grammar allows at once, as a
graph: a stack node is a state with links to the nodes below it, and a link carries the derivation
of what stands between the two. At every stack node on its own it is worked out which tokens can
come next, and the next token is read among these.
-/

namespace ShaderParams.Grammar

structure Link where
  target : Nat
  derivation : Nat

structure StackNode where
  state : State
  place : Place
  links : List Link

/--
The top of a stack that was not made yet: a state, and the node below it.
-/
abbrev Top := State × Nat

/--
The stack nodes and derivations made so far, by their numbers, and for some tops the tokens that can
come next. The links of a node no longer change when something is put on top of it, so these stay
right.
-/
structure StackGraph where
  nodes : Array StackNode := #[]
  derivations : Array Derivation := #[]
  tokens : Std.HashMap Top NumberSet := {}

namespace StackGraph

def state (g : StackGraph) (n : Nat) : State :=
  (g.nodes[n]?.map StackNode.state).getD []

def place (g : StackGraph) (n : Nat) : Place :=
  (g.nodes[n]?.map StackNode.place).getD .start

def links (g : StackGraph) (n : Nat) : List Link :=
  (g.nodes[n]?.map StackNode.links).getD []

def below (g : StackGraph) : Nat → Nat → List Nat
  | 0, n => [n]
  | k + 1, n => (g.links n).flatMap fun l => g.below k l.target

def paths (g : StackGraph) : Nat → Nat → List (List Nat × Nat)
  | 0, n => [([], n)]
  | k + 1, n =>
    (g.links n).flatMap fun l => (g.paths k l.target).map fun (ds, m) => (ds ++ [l.derivation], m)

def addDerivation (g : StackGraph) (d : Derivation) : Nat × StackGraph :=
  (g.derivations.size, { g with derivations := g.derivations.push d })

def addReading (g : StackGraph) (id : Nat) (reading : Nat × List Nat) : StackGraph :=
  { g with derivations := g.derivations.modify id (Derivation.addReading reading) }

/-- Adds a link to the node of a state among some nodes, which is made if it is not there. -/
def addLink (g : StackGraph) (among : List Nat) (state : State) (place : Place) (l : Link) :
    Nat × StackGraph :=
  match among.find? fun n => g.state n == state with
  | some n => (n, { g with nodes := g.nodes.modify n fun m => { m with links := m.links ++ [l] } })
  | none => (g.nodes.size, { g with nodes := g.nodes.push ⟨state, place, [l]⟩ })

end StackGraph

namespace Table

variable (t : Table)

def finishTops (g : StackGraph) (production : Nat) (node : Nat) : List Top :=
  let (head, length) := t.shape production
  (g.below (length - 1) node).map fun m => (t.goto (g.state m) head, m)

/--
The tokens that can come next at one of some tops, before or after finishing productions.
-/
def allowedFrom (g : StackGraph) : Nat → List Top → NumberSet × StackGraph
  | 0, _ => (0, g)
  | _, [] => (0, g)
  | fuel + 1, top :: tops =>
    let (set, g) := match g.tokens[top]? with
      | some set => (set, g)
      | none =>
        let next := (t.finished top.1).flatMap fun p => t.finishTops g p top.2
        let (set, g) := allowedFrom g fuel next
        let set := set ||| t.allowed top.1
        (set, { g with tokens := g.tokens.insert top set })
    let (sets, g) := allowedFrom g fuel tops
    (set ||| sets, g)

def finishable (g : StackGraph) (fuel token : Nat) (state : State) (node : Nat) :
    List Nat × StackGraph :=
  (t.finished state).foldr (fun p (found, g) =>
    let (set, g) := t.allowedFrom g fuel (t.finishTops g p node)
    (if set.testBit token then p :: found else found, g)) ([], g)

/--
What was done at a place for a token: the nodes it was about, those of them that the token is put
on, and the names that were read, each with the node below it and its derivation.
-/
structure Round where
  graph : StackGraph
  members : List Nat
  shifting : List Nat := []
  names : Std.HashMap (Nat × Nat) Nat := {}

def finish (r : Round) (place : Place) (production : Nat) (parts : List Nat) (node : Nat) :
    Round × Option (Nat × Link) :=
  let (head, _) := t.shape production
  match r.names[(head, node)]? with
  | some d => ({ r with graph := r.graph.addReading d (production, parts) }, none)
  | none =>
    let (d, g) :=
      r.graph.addDerivation (.inner (r.graph.place node) place [(production, parts)])
    let link : Link := ⟨node, d⟩
    let (top, g) := g.addLink r.members (t.goto (g.state node) head) place link
    let members := if r.members.contains top then r.members else r.members ++ [top]
    ({ r with graph := g, members, names := r.names.insert (head, node) d }, some (top, link))

def finishPaths (place : Place) (production : Nat) (link : Link) (r : Round)
    (new : List (Nat × Link)) : List (List Nat × Nat) → Round × List (Nat × Link)
  | [] => (r, new)
  | (parts, node) :: paths =>
    let (r, l) := t.finish r place production (parts ++ [link.derivation]) node
    finishPaths place production link r (new ++ l.toList) paths

def finishEach (place : Place) (link : Link) (r : Round) (new : List (Nat × Link)) :
    List Nat → Round × List (Nat × Link)
  | [] => (r, new)
  | p :: ps =>
    let paths := r.graph.paths ((t.shape p).2 - 1) link.target
    let (r, new) := t.finishPaths place p link r new paths
    finishEach place link r new ps

def finishAll (place : Place) (token : Nat) : Nat → List (Nat × Link) → Round → Round
  | 0, _, r => r
  | _, [], r => r
  | fuel + 1, (top, link) :: todo, r =>
    let state := r.graph.state top
    let (possible, g) := t.finishable r.graph fuel token state link.target
    let (productions, shifts) := t.decide possible (t.shiftStrengths state token)
    let shifting :=
      if shifts && !r.shifting.contains top then r.shifting ++ [top] else r.shifting
    let (r, new) := t.finishEach place link { r with graph := g, shifting } [] productions
    finishAll place token fuel (new ++ todo) r

/--
The tops of the stacks that are ahead, by their places; the stack node behind the end of the text,
once it is there; and the last place from which something was read.
-/
structure Progress where
  graph : StackGraph
  tops : List (Place × Nat)
  done : Option Nat
  reached : Place

def next (g : StackGraph) (c : Cursor) (fuel top : Nat) : Option Lexed × StackGraph :=
  let state := g.state top
  let (set, g) := t.allowedFrom g fuel ((g.links top).map fun l => (state, l.target))
  let set := set ||| t.allowed state
  (readToken ((List.range t.tokens.size).filterMap fun n =>
    if set.testBit n then t.tokens[n]?.map fun token => (n, token) else none) true c, g)

def assign (top : Nat) (lexed : Lexed) : List (Lexed × List Nat) → List (Lexed × List Nat)
  | [] => [(lexed, [top])]
  | (l, tops) :: rest =>
    if l.token = lexed.token ∧ l.stop = lexed.stop then
      (l, tops ++ [top]) :: rest
    else
      (l, tops) :: assign top lexed rest

def push (lexed : Lexed) (leaf : Nat) (p : Progress) (member : Nat) : Progress :=
  let next := t.goto (p.graph.state member) lexed.token
  let ended := t.tokens[lexed.token]? == some .endOfText
  let among := if ended then [] else (p.tops.filter fun x => x.1 == lexed.stop).map Prod.snd
  let (n, g) := p.graph.addLink among next lexed.stop ⟨member, leaf⟩
  if ended then
    { p with graph := g, done := some n }
  else if among.contains n then
    { p with graph := g }
  else
    { p with graph := g, tops := p.tops ++ [(lexed.stop, n)] }

def shift (p : Progress) (place : Place) (fuel : Nat) (lexed : Lexed) (tops : List Nat) :
    Progress :=
  let first := tops.flatMap fun top => (p.graph.links top).map fun l => (top, l)
  let bottom := tops.filter fun top => (p.graph.links top).isEmpty
  let r := t.finishAll place lexed.token fuel first
    { graph := p.graph, members := tops, shifting := bottom }
  let (leaf, g) := r.graph.addDerivation (.leaf place lexed)
  r.shifting.foldl (t.push lexed leaf) { p with graph := g }

def readAll (c : Cursor) (fuel : Nat) (groups : List (Lexed × List Nat)) (g : StackGraph) :
    List Nat → List (Lexed × List Nat) × StackGraph
  | [] => (groups, g)
  | top :: tops =>
    match t.next g c fuel top with
    | (none, g) => readAll c fuel groups g tops
    | (some lexed, g) => readAll c fuel (assign top lexed groups) g tops

def step (p : Progress) (c : Cursor) (tops : List Nat) : Progress :=
  let fuel := (c.place.offset + 256) * (c.place.offset + 256)
  let (groups, g) := t.readAll c fuel [] p.graph tops
  groups.foldl (fun p (lexed, tops) => t.shift p c.place fuel lexed tops)
    { p with graph := g, reached := c.place }

def run (p : Progress) (place : Place) (rest : List Char) : Progress :=
  let here := (p.tops.filter fun x => x.1 == place).map Prod.snd
  let p := { p with tops := p.tops.filter fun x => x.1 != place }
  let p := if here.isEmpty then p else t.step p ⟨rest, place⟩ here
  match rest with
  | [] => p
  | c :: rest => run p (place.next c) rest

/--
The trees that the first name of a grammar stands for in a source, or the place up to which the
source fits. The productions of that name end with the end of the text.
-/
def parse (c : Cursor) : Except Place (List SpanTree) :=
  let fronts := (t.productions.toList.filter fun p => p.head == 0).map NumberedProduction.front
  let start : Progress :=
    ⟨{ nodes := #[⟨fronts, c.place, []⟩] }, [(c.place, 0)], none, c.place⟩
  let p := t.run start c.place c.rest
  let g := p.graph
  let best := p.done.bind fun top =>
    let readings := (t.finished (g.state top)).flatMap fun q =>
      (g.paths (t.shape q).2 top).map fun (parts, _) => (q, parts)
    let size := g.derivations.size
    (t.chooseAmong g.derivations (size + 1) (g.place top) readings (Array.replicate size none)).1
  match best with
  | some r => .ok r.trees
  | none => .error p.reached

end Table

end ShaderParams.Grammar
