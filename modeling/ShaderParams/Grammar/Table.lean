import ShaderParams.Grammar.Rule
import Std.Data.HashMap

/-!
This module contains grammars in a form that can be looked up quickly. Tokens and names are
numbered, tokens first. An item is a place in a production; the items of a production have
consecutive numbers, from the front of its first step to the end. A state of a parser is given by
the items that it is at, in increasing order; the items at the front of productions follow from them
and are left out.
-/

namespace ShaderParams.Grammar

/-- A set of numbers, as the bits of a number. -/
abbrev NumberSet := Nat

abbrev State := List Nat

structure NumberedProduction where
  head : Nat
  steps : List Step
  grouping : Grouping
  weight : Int
  front : Nat

/--
An item: the production that it is in, the symbol behind it (`none` at the end), and the strength of
the step in front of it.
-/
structure Item where
  production : Nat
  next : Option Nat
  strength : Int

structure Table where
  tokens : Array Token
  types : Array (Option String)
  productions : Array NumberedProduction
  items : Array Item
  firstTokens : Array NumberSet
  /-- For a name and a symbol, the items behind the symbol where it is the first thing. -/
  starts : Array (Array State)

namespace Table

def collectTokens (ps : List Production) : Array Token × Std.HashMap Token Nat :=
  ps.foldl (fun acc p => p.sequence.steps.foldl (fun (ts, index) s =>
    match s.symbol with
    | .token t => if index.contains t then (ts, index) else (ts.push t, index.insert t ts.size)
    | .name _ => (ts, index)) acc) (#[], {})

def collectNames (ps : List Production) : Array String × Std.HashMap String Nat :=
  ps.foldl (fun (ns, index) p =>
    if index.contains p.head then (ns, index)
    else (ns.push p.head, index.insert p.head ns.size)) (#[], {})

def spread (firsts : List (Nat × Nat)) (sets : Array NumberSet) : Array NumberSet :=
  firsts.foldl (fun sets (head, first) => sets.modify head (· ||| sets[first]?.getD 0)) sets

def spreadAll (firsts : List (Nat × Nat)) : Nat → Array NumberSet → Array NumberSet
  | 0, sets => sets
  | rounds + 1, sets =>
    let next := spread firsts sets
    if next == sets then sets else spreadAll firsts rounds next

def numberItems (heads : Std.HashMap String Nat) (number : Symbol → Nat) (ps : List Production) :
    Array NumberedProduction × Array Item :=
  ps.foldl (fun (productions, items) p =>
    let front := items.size
    let steps := p.sequence.steps
    let before := 0 :: steps.map fun s => s.strength.getD 0
    let next := steps.map (fun s => some (number s.symbol)) ++ [none]
    let new := (before.zip next).map fun (strength, next) =>
      { production := productions.size, next, strength : Item }
    (productions.push {
      head := heads.getD p.head 0, steps, grouping := p.sequence.grouping
      weight := p.sequence.weight, front }, new.foldl Array.push items)) (#[], #[])

def ofDefinitions (ds : List Definition) : Table :=
  let ps := ds.flatMap Definition.productions
  let (tokens, tokenIndex) := collectTokens ps
  let (names, nameIndex) := collectNames ps
  let types := names.map fun n => (ds.find? fun d => d.name == n).bind Definition.type
  let number : Symbol → Nat
    | .token t => tokenIndex.getD t 0
    | .name n => tokens.size + nameIndex.getD n 0
  let (productions, items) := numberItems nameIndex number ps
  let firstOf (p : NumberedProduction) : Nat := (items[p.front]?.bind Item.next).getD 0
  let firsts := productions.toList.filterMap fun p =>
    let first := firstOf p
    if first < tokens.size then none else some (p.head, first - tokens.size)
  let empty : Array NumberSet := names.map fun _ => 0
  let own := productions.foldl (fun sets p =>
    let first := firstOf p
    if first < tokens.size then sets.modify p.head (· ||| 1 <<< first) else sets) empty
  let reach := spreadAll firsts names.size
    ((Array.range names.size).map fun n => (1 <<< n : NumberSet))
  let starts := reach.map fun set =>
    productions.foldl (fun (table : Array State) p =>
      if set.testBit p.head then table.modify (firstOf p) ((p.front + 1) :: ·) else table)
      (Array.replicate (tokens.size + names.size) [])
  { tokens, types, productions, items, starts, firstTokens := spreadAll firsts names.size own }

variable (t : Table)

def next? (item : Nat) : Option Nat :=
  t.items[item]?.bind Item.next

/-- The items behind a symbol where the given symbol, if it is a name, starts with it. -/
def startsOf (symbol first : Nat) : State :=
  if symbol < t.tokens.size then
    []
  else
    ((t.starts[symbol - t.tokens.size]?.bind fun row => row[first]?)).getD []

def insert (n : Nat) : List Nat → List Nat
  | [] => [n]
  | m :: ms => if n < m then n :: m :: ms else if n = m then m :: ms else m :: insert n ms

def goto (s : State) (symbol : Nat) : State :=
  s.foldl (fun found item =>
    match t.next? item with
    | none => found
    | some next =>
      let found := if next = symbol then insert (item + 1) found else found
      (t.startsOf next symbol).foldl (fun found i => insert i found) found) []

def firstSet (symbol : Nat) : NumberSet :=
  if symbol < t.tokens.size then 1 <<< symbol else t.firstTokens[symbol - t.tokens.size]?.getD 0

def allowed (s : State) : NumberSet :=
  s.foldl (fun set item => set ||| ((t.next? item).map t.firstSet).getD 0) 0

def finished (s : State) : List Nat :=
  s.filterMap fun item =>
    t.items[item]?.bind fun i => if i.next.isNone then some i.production else none

def shiftStrengths (s : State) (token : Nat) : List Int :=
  s.filterMap fun item => do
    let i ← t.items[item]?
    let next ← i.next
    if (t.firstSet next).testBit token then some i.strength else none

def finalStrength (production : Nat) : Int :=
  ((t.productions[production]?.bind fun p => p.steps.getLast?).bind Step.strength).getD 0

def grouping (production : Nat) : Grouping :=
  (t.productions[production]?.map NumberedProduction.grouping).getD .none

def shape (production : Nat) : Nat × Nat :=
  match t.productions[production]? with
  | some p => (t.tokens.size + p.head, p.steps.length)
  | none => (0, 0)

/--
Decides between finishing productions and going on to a token where both are possible: the stronger
wins, and at the same strength the productions are grouped as they say. What remains open is
followed in both ways.
-/
def decide (reductions : List Nat) (shifts : List Int) : List Nat × Bool :=
  match reductions with
  | [] => ([], !shifts.isEmpty)
  | first :: _ =>
    let strength := (reductions.map t.finalStrength).foldl max (t.finalStrength first)
    let kept := reductions.filter fun p => t.finalStrength p == strength
    let weaker := shifts.any (· < strength)
    let stronger := shifts.any (strength < ·)
    if shifts.isEmpty then
      (kept, false)
    else if weaker && !stronger then
      (kept, false)
    else if stronger && !weaker then
      ([], true)
    else if !weaker && !stronger then
      let left := kept.any fun p => t.grouping p == .left
      let right := kept.any fun p => t.grouping p == .right
      if left && !right then
        (kept, false)
      else if right && !left then
        ([], true)
      else
        (kept, true)
    else
      (kept, true)

end Table

end ShaderParams.Grammar
