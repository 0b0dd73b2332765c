import ShaderParams.Syntax.Node

/-!
This module contains the qualifiers in front of a declaration: which nodes are qualifiers, where
they end, and the layout specification that a qualifier stands for.
-/

namespace ShaderParams

def qualifierKeywords : List String :=
  ["const", "in", "out", "inout", "uniform", "buffer", "shared", "attribute", "varying", "centroid",
    "sample", "patch", "flat", "smooth", "noperspective", "coherent", "volatile", "restrict",
    "readonly", "writeonly", "highp", "mediump", "lowp", "invariant", "precise"]

/--
The node types that only wrap qualifiers.
-/
def qualifierWrappers : List String :=
  ["type_qualifier", "storage_class_specifier", "extension_storage_class", "precision_qualifier",
    "interpolation_qualifier"]

def typeSpecifiers : List String :=
  ["primitive_type", "type_identifier", "sized_type_specifier"]

namespace Label

def isComment (l : Label) : Bool :=
  l.type == "comment"

def isWrapper (l : Label) : Bool :=
  qualifierWrappers.contains l.type

def isLayout (l : Label) : Bool :=
  l.type == "layout_specification"

def isTypeSpecifier (l : Label) : Bool :=
  typeSpecifiers.contains l.type

def isFieldList (l : Label) : Bool :=
  l.type == "field_declaration_list"

def isQualifier (l : Label) : Bool :=
  l.isLayout || l.isWrapper || l.text.any qualifierKeywords.contains

def endsQualifiers (l : Label) : Bool :=
  l.isTypeSpecifier || l.isFieldList

end Label

section

variable {α : Type} (label : α → Label)

/--
The children of a declaration, each with whether it is one of the qualifiers in front. Comments are
none, and nothing is from the type or the list of members on.
-/
def markQualifiers : List α → List (α × Bool)
  | [] => []
  | c :: cs =>
    if (label c).isComment then
      (c, false) :: markQualifiers cs
    else if (label c).endsQualifiers then
      (c, false) :: cs.map (·, false)
    else
      (c, (label c).isQualifier) :: markQualifiers cs

@[simp]
theorem map_fst_markQualifiers (cs : List α) : (markQualifiers label cs).map Prod.fst = cs := by
  induction cs with
  | nil => rfl
  | cons c cs ih =>
    rw [markQualifiers]
    split
    · simp [ih]
    · split
      · simp [Function.comp_def]
      · simp [ih]

def qualifiers (cs : List α) : List α :=
  ((markQualifiers label cs).filter Prod.snd).map Prod.fst

def unqualified (cs : List α) : List α :=
  ((markQualifiers label cs).filter fun c => !c.2).map Prod.fst

end

namespace Node

mutual

/--
The layout specification that a qualifier stands for: itself, or in a wrapper what the first member
stands for. Other qualifiers stand for none.
-/
def layout? : Node → Option Node
  | mk label children =>
    if label.isLayout then
      some (mk label children)
    else if label.isWrapper then
      firstLayout? children
    else
      none

def firstLayout? : List Node → Option Node
  | [] => none
  | c :: cs => if c.label.isComment then firstLayout? cs else c.layout?

end

mutual

/--
Replaces the layout specification that a qualifier stands for; others stay as they are.
-/
def replaceLayout (new : Node) : Node → Node
  | mk label children =>
    if label.isLayout then
      inPlaceOf (mk label children) new
    else if label.isWrapper then
      mk label (replaceFirstLayout new children)
    else
      mk label children

def replaceFirstLayout (new : Node) : List Node → List Node
  | [] => []
  | c :: cs =>
    if c.label.isComment then
      c :: replaceFirstLayout new cs
    else
      replaceLayout new c :: cs

end

def replaceQualifierLayout (new : Node) (cs : List Node) : List Node :=
  go (markQualifiers label cs)
where
  go : List (Node × Bool) → List Node
    | [] => []
    | (c, false) :: cs => c :: go cs
    | (c, true) :: cs => replaceLayout new c :: cs.map Prod.fst

end Node

end ShaderParams
