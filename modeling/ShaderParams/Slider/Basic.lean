import ShaderParams.Number.Binary

/-!
This module contains the sliders of a shader: its tunable parameters with their bounds and values.
-/

namespace ShaderParams

/--
What a slider controls: a bounded number, a vector (three components when it is well-formed), the
same shown as a color, or a switch. A `bare` slider controls nothing, and `foreign` things only take
the place of a slider.
-/
inductive Control where
  | float (min max value : Double)
  | vec3 (value : List Double)
  | color (value : List Double)
  | bool (value : Int)
  | bare
  | foreign
deriving DecidableEq, Repr

structure Slider where
  name : Option String := none
  control : Control
deriving DecidableEq, Repr

namespace Control

def origin : List Double :=
  [.zero false, .zero false, .zero false]

def memberType? : Control → Option String
  | float .. => some "float"
  | vec3 _ | color _ => some "vec3"
  | bool _ => some "bool"
  | bare | foreign => none

def isFloat : Control → Bool
  | float .. => true
  | _ => false

def sameComponents : List Double → List Double → Bool
  | [], [] => true
  | x :: xs, y :: ys => x.numEq y && sameComponents xs ys
  | _, _ => false

/--
Whether two controls are of one kind and hold equal numbers. A NaN is equal to nothing.
-/
def same : Control → Control → Bool
  | float a b c, float a' b' c' => a.numEq a' && b.numEq b' && c.numEq c'
  | vec3 v, vec3 v' => sameComponents v v'
  | color v, color v' => sameComponents v v'
  | bool v, bool v' => v == v'
  | bare, bare => true
  | _, _ => false

end Control

namespace Double

def lesser (x y : Double) : Double :=
  if y.lt x then y else x

def greater (x y : Double) : Double :=
  if x.lt y then y else x

end Double

namespace Control

/--
The value of a number moved between its bounds; the lower bound wins if they are crossed. Other
controls have none.
-/
def clamped? : Control → Option Double
  | float min max value => some (min.greater (max.lesser value))
  | _ => none

def clamp : Control → Control
  | float min max value => float min max (min.greater (max.lesser value))
  | c => c

end Control

namespace Slider

def same (s t : Slider) : Bool :=
  s.name == t.name && s.control.same t.control

end Slider

end ShaderParams
