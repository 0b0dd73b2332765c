import ShaderParams.Slider.Basic

/-!
This module contains the panel of a shader: its sliders in the order of the block members, and
whether it shows a still image. Sliders are edited, added and dropped by their place.
-/

namespace ShaderParams

structure Panel where
  sliders : List Slider := []
  stillImage : Bool := false
deriving DecidableEq, Repr

inductive Change where
  | lowerBound (x : Double)
  | upperBound (x : Double)
  | number (x : Double)
  | components (xs : List Double)
  | switch (n : Int)
deriving DecidableEq, Repr

/--
Applies a change to a control; a change of a property that the control lacks has no effect.
-/
def Control.change : Control → Change → Control
  | .float _ max value, .lowerBound x => .float x max value
  | .float min _ value, .upperBound x => .float min x value
  | .float min max _, .number x => .float min max x
  | .vec3 _, .components xs => .vec3 xs
  | .color _, .components xs => .color xs
  | .bool _, .switch n => .bool n
  | c, _ => c

namespace Panel

/--
The place that an index names; a negative one counts from the end.
-/
def place? (p : Panel) (index : Int) : Option Nat :=
  let i := if index < 0 then index + p.sliders.length else index
  if 0 ≤ i ∧ i < p.sliders.length then some i.toNat else none

def get? (p : Panel) (index : Int) : Option Slider := do
  p.sliders[← p.place? index]?

def change? (p : Panel) (index : Int) (c : Change) : Option (Slider × Panel) := do
  let i ← p.place? index
  let s ← p.sliders[i]?
  let s := { s with control := s.control.change c }
  return (s, { p with sliders := p.sliders.set i s })

def add (p : Panel) (s : Slider) : Panel :=
  { p with sliders := p.sliders ++ [s] }

def drop? (p : Panel) (index : Int) : Option (Slider × Panel) := do
  let i ← p.place? index
  let s ← p.sliders[i]?
  return (s, { p with sliders := p.sliders.eraseIdx i })

def find? (p : Panel) (name : String) : Option Nat :=
  p.sliders.findIdx? fun s => s.name == some name

def floats (p : Panel) : List Nat :=
  (List.range p.sliders.length).filter fun i => p.sliders[i]?.any fun s => s.control.isFloat

def clampAll (p : Panel) : Panel :=
  { p with sliders := p.sliders.map fun s => { s with control := s.control.clamp } }

/--
Whether the sliders at two places are the same; every slider is the same as itself.
-/
def same? (p : Panel) (a b : Int) : Option Bool := do
  let i ← p.place? a
  let j ← p.place? b
  let s ← p.sliders[i]?
  let t ← p.sliders[j]?
  return i == j || s.same t

end Panel

end ShaderParams
