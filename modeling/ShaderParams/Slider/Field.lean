import ShaderParams.Slider.Basic
import ShaderParams.Syntax.Constant
import ShaderParams.Syntax.Layout

/-!
This module contains the fields of a params block: what a field declaration declares, the settings
in its layout qualifier, and the slider that they describe.
-/

namespace ShaderParams

def nameTypes : List String := ["field_identifier", "identifier"]

namespace Node

def isName (n : Node) : Bool :=
  nameTypes.contains n.type

def reject {α : Type} (n : Node) (cause : Cause) : Except Error α :=
  .error (.rejected cause n.label.start)

/--
The name that a field declares: the first one in its declarator, or else among its children.
-/
def fieldName (field : Node) : Except Error String :=
  let declared := (field.childByField? "declarator").bind fun d => d.findFirst? nameTypes
  match declared <|> field.children.find? isName with
  | some n => .ok n.text
  | none => field.reject .fieldWithoutName

def fieldType (field : Node) : Except Error String :=
  let specifier := field.children.find? fun c => c.label.isTypeSpecifier
  match field.childByField? "type" <|> specifier with
  | some n => .ok n.text
  | none => field.reject .fieldWithoutType

def fieldQualifiers (field : Node) : List Node :=
  qualifiers label field.children

def isArrayPart (n : Node) : Bool :=
  n.type == "array_declarator" || n.tokens.any fun t => t.type == "["

/--
Rejects fields that declare several names or an array: every field feeds one member of the buffer.
-/
def checkSingle (field : Node) (name : String) : Except Error Unit :=
  let parts := unqualified label field.children
  if parts.any fun c => c.type == "," then
    field.reject (.severalNames name)
  else
    match parts.find? isArrayPart with
    | some part => part.reject (.arrayField name)
    | none => .ok ()

/--
The settings of a field: the entries of its first qualifier if that is a layout.
-/
def fieldSettings (field : Node) : Except Error (List LayoutEntry) :=
  match field.fieldQualifiers.head?.bind layout? with
  | some layout => layout.layoutEntries
  | none => .ok []

end Node

structure FloatSettings where
  min : Double := .zero false
  max : Double := .one
  init : Double := .zero false
deriving DecidableEq, Repr

namespace FloatSettings

def set? (s : FloatSettings) (name : String) : Option (Double → FloatSettings) :=
  if name = "min" then
    some fun x => { s with min := x }
  else if name = "max" then
    some fun x => { s with max := x }
  else if name = "init" then
    some fun x => { s with init := x }
  else
    none

/--
Applies layout entries in their order. Unknown ones are skipped with a warning; all others need a
constant.
-/
def apply (field : String) (s : FloatSettings) : List LayoutEntry → Logged FloatSettings
  | [] => pure s
  | e :: es =>
    match s.set? e.name with
    | none => do
      Logged.warn (.unknownFloatSetting e.name field)
      apply field s es
    | some set =>
      match e.value with
      | none => Logged.throw (.rejected (.valuelessSetting e.name field) e.node.label.start)
      | some value => do
        let x ← value.single
        apply field (set x) es

end FloatSettings

structure VectorSettings where
  value : List Double := Control.origin
  color : Bool := false
deriving DecidableEq, Repr

/--
Reads the initial value of a vector, which is `vec3` of three constants. Any other expression is
skipped with a warning.
-/
def vectorInitializer (field : String) (value : Option Node) : Logged (Option (List Double)) :=
  match value.filter fun n => n.type == "call_expression" with
  | none => do
    Logged.warn (.noConstructor field)
    return none
  | some call => do
    let some function := call.childByField? "function" <|> call.namedChildren.head?
      | Logged.throw .missingChild
    let some arguments := call.childByField? "arguments" <|> call.namedChildren.getLast?
      | Logged.throw .missingChild
    let arguments := Node.withoutComments arguments.namedChildren
    if function.text = "vec3" ∧ arguments.length = 3 then
      let xs ← Logged.lift (arguments.mapM Node.single)
      return some xs
    else
      Logged.warn (.otherConstructor field function.text arguments.length)
      return none

namespace VectorSettings

def apply (field : String) (s : VectorSettings) : List LayoutEntry → Logged VectorSettings
  | [] => pure s
  | e :: es =>
    if e.name = "color" then
      apply field { s with color := true } es
    else if e.name = "init" then do
      let value ← vectorInitializer field e.value
      apply field { s with value := value.getD s.value } es
    else do
      Logged.warn (.unknownVectorSetting e.name field)
      apply field s es

def toControl (s : VectorSettings) : Control :=
  if s.color then .color s.value else .vec3 s.value

end VectorSettings

namespace Slider

def ofField (field : Node) : Logged Slider := do
  let name ← field.fieldName
  field.checkSingle name
  let type ← field.fieldType
  let settings ← field.fieldSettings
  if type = "float" then
    let s ← FloatSettings.apply name {} settings
    return ⟨some name, .float s.min s.max s.init⟩
  else if type = "vec3" then
    let s ← VectorSettings.apply name {} settings
    return ⟨some name, s.toControl⟩
  else
    Logged.throw (.rejected (.unsupportedType type name) field.label.start)

end Slider

end ShaderParams
