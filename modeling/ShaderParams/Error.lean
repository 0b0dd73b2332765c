import ShaderParams.Syntax.Point

/-!
This module contains everything that can go wrong with a shader: the causes of a rejection with
their wording and the class that each belongs to, the remarks that do not stop an extraction, and
the computations that collect such remarks on their way to a result.
-/

namespace ShaderParams

inductive ErrorClass where
  | extraction
  | parsing
  | field
  | fieldType
  | constant
deriving DecidableEq, Repr

namespace ErrorClass

/--
The class itself and everything that it refines.
-/
def ancestors : ErrorClass → List ErrorClass
  | extraction => [extraction]
  | parsing => [parsing, extraction]
  | field => [field, extraction]
  | fieldType => [fieldType, field, extraction]
  | constant => [constant, field, extraction]

def all : List ErrorClass := [extraction, parsing, field, fieldType, constant]

end ErrorClass

inductive Cause where
  | invalidSource
  | missingToken (type : String)
  | unexpectedToken
  | fieldWithoutName
  | severalNames (field : String)
  | arrayField (field : String)
  | fieldWithoutType
  | unsupportedType (type field : String)
  | valuelessSetting (setting field : String)
  | notConstant (text : String)
  | malformedLiteral (text : String)
deriving DecidableEq, Repr

namespace Cause

def errorClass : Cause → ErrorClass
  | invalidSource | missingToken _ | unexpectedToken => .parsing
  | fieldWithoutName | severalNames _ | arrayField _ | fieldWithoutType | valuelessSetting .. =>
    .field
  | unsupportedType .. => .fieldType
  | notConstant _ | malformedLiteral _ => .constant

def message : Cause → String
  | invalidSource => "Invalid GLSL source"
  | missingToken type => "Invalid GLSL source: missing '" ++ type ++ "'"
  | unexpectedToken => "Invalid GLSL source: syntax error"
  | fieldWithoutName => "Params field has no name"
  | severalNames field => "Params field '" ++ field ++ "' declares more than one name"
  | arrayField field => "Params field '" ++ field ++ "' cannot be an array"
  | fieldWithoutType => "Params field has no type"
  | unsupportedType type field =>
    "Unsupported type '" ++ type ++ "' for params field '" ++ field ++ "'"
  | valuelessSetting setting field =>
    "Setting '" ++ setting ++ "' of param '" ++ field ++ "' needs a value"
  | notConstant text => "Expected a numeric constant, got '" ++ text ++ "'"
  | malformedLiteral text => "Malformed numeric literal '" ++ text ++ "'"

end Cause

def locatedMessage (message : String) : Option Point → String
  | none => message
  | some p =>
    message ++ " at line " ++ toString (p.row + 1) ++ ", column " ++ toString (p.column + 1)

/--
Everything that ends an extraction without a result. Besides rejections of the shader these are
integers past the range of doubles and syntax trees that lack what their node types promise.
-/
inductive Error where
  | rejected (cause : Cause) (location : Option Point)
  | integerOverflow
  | missingChild
  | missingStart
  | invalidEncoding
deriving DecidableEq, Repr

inductive Warning where
  | unknownFloatSetting (setting field : String)
  | unknownVectorSetting (setting field : String)
  | noConstructor (field : String)
  | otherConstructor (field function : String) (arguments : Nat)
  | extraBlock (row : Nat)
deriving DecidableEq, Repr

def Warning.message : Warning → String
  | unknownFloatSetting setting field =>
    "Unsupported setting '" ++ setting ++ "' on float param '" ++ field ++ "'"
  | unknownVectorSetting setting field =>
    "Unsupported setting '" ++ setting ++ "' on vec3 param '" ++ field ++ "'"
  | noConstructor field =>
    "Invalid initializer for param '" ++ field ++ "', expected vec3(x, y, z)"
  | otherConstructor field function arguments =>
    "Invalid initializer for param '" ++ field ++ "': " ++ function ++ " with "
      ++ toString arguments ++ " arguments"
  | extraBlock row => "Ignoring extra params block at line " ++ toString (row + 1)

/--
The outcome of a computation together with the warnings it gave, which are kept if it fails.
-/
structure Logged (α : Type) where
  warnings : List Warning
  result : Except Error α

namespace Logged

variable {α β : Type}

def pure (a : α) : Logged α := ⟨[], .ok a⟩

def bind (x : Logged α) (f : α → Logged β) : Logged β :=
  match x.result with
  | .ok a => ⟨x.warnings ++ (f a).warnings, (f a).result⟩
  | .error e => ⟨x.warnings, .error e⟩

instance : Monad Logged where
  pure := pure
  bind := bind

def warn (w : Warning) : Logged Unit := ⟨[w], .ok ()⟩

def throw (e : Error) : Logged α := ⟨[], .error e⟩

def lift (x : Except Error α) : Logged α := ⟨[], x⟩

instance : MonadLift (Except Error) Logged := ⟨lift⟩

@[simp]
theorem pure_bind (a : α) (f : α → Logged β) : (pure a).bind f = f a := by
  simp [pure, bind]

end Logged

end ShaderParams
