import ShaderParams.Grammar.Expression

/-!
This module contains the grammar of declarations: variables, interface blocks, structures and
functions.
-/

namespace ShaderParams.Grammar

open Rule

def primitiveTypes : List String :=
  ["bool", "char", "int", "float", "double", "void", "size_t", "ssize_t", "ptrdiff_t", "intptr_t",
    "uintptr_t", "charptr_t", "nullptr_t", "max_align_t", "int8_t", "int16_t", "int32_t", "int64_t",
    "uint8_t", "uint16_t", "uint32_t", "uint64_t", "char8_t", "char16_t", "char32_t", "char64_t"]

/-- Qualifiers in front of a declaration that stand by themselves. -/
def freeQualifiers : List String :=
  ["in", "out", "inout", "uniform", "buffer", "shared", "attribute", "varying", "centroid",
    "sample", "patch", "flat", "smooth", "noperspective", "coherent", "readonly", "writeonly",
    "highp", "mediump", "lowp", "invariant", "precise", "precision", "subroutine"]

def extensionQualifiers : List String :=
  ["hitAttributeEXT", "callableDataEXT", "callableDataInEXT", "rayPayloadEXT", "rayPayloadInEXT",
    "shaderRecordEXT", "hitAttributeNV", "callableDataNV", "callableDataInNV", "rayPayloadNV",
    "rayPayloadInNV", "shaderRecordNV", "perprimitiveNV", "perviewNV", "taskNV"]

def typeQualifiers : List String :=
  ["const", "constexpr", "volatile", "restrict", "__restrict__", "__extension__", "_Atomic",
    "_Noreturn", "noreturn", "_Nonnull"]

def storageWords : List String :=
  ["extern", "static", "auto", "register", "inline", "__inline", "__inline__", "__forceinline",
    "thread_local", "__thread"]

def callWords : List String :=
  ["__cdecl", "__clrcall", "__stdcall", "__fastcall", "__thiscall", "__vectorcall"]

def sizeWords : List String := ["signed", "unsigned", "long", "short"]

def primitiveType : Rule := token (.oneOf "primitive_type" primitiveTypes) none

def typeName : Rule := word "type_identifier"

def leadingQualifiers : Rule :=
  many (choice [
    name "layout_specification", name "extension_storage_class", keywords freeQualifiers])

def modifiers : Rule :=
  many (names ["storage_class_specifier", "type_qualifier", "attribute_specifier",
    "attribute_declaration", "ms_declspec_modifier"])

def callModifier : Rule := optional (name "ms_call_modifier")

def star : Rule :=
  all [symbol "*", many (name "ms_pointer_modifier"), many (name "type_qualifier")]

def arraySize : Rule :=
  all [
    symbol "[", many (alt (name "type_qualifier") (keyword "static")),
    optional (role "size" (alt (name "expression") (symbol "*"))), symbol "]"]

/--
Declarators of one kind: a declared name with what makes it a pointer, an array or a function. The
rules have the given ending; `functions` may be declared, and `declared` is the name itself.
-/
def declarators (ending : String) (functions : List Definition) (declared : Rule) :
    List Definition :=
  let any := name ("declarator" ++ ending)
  [ group ("declarator" ++ ending) (choice [
      name ("pointer_declarator" ++ ending), name ("function_declarator" ++ ending),
      name ("array_declarator" ++ ending), name ("parenthesized_declarator" ++ ending),
      name ("attributed_declarator" ++ ending), declared]),
    nodeOf "attributed_declarator" ("attributed_declarator" ++ ending) (bind 0 .right (all [
      any, many1 (name "attribute_declaration")])),
    nodeOf "pointer_declarator" ("pointer_declarator" ++ ending) (weigh 1 (bind 0 .right (all [
      optional (name "ms_based_modifier"), star, role "declarator" any]))),
    nodeOf "array_declarator" ("array_declarator" ++ ending) (bind 1 .none (all [
      role "declarator" any, arraySize])),
    nodeOf "parenthesized_declarator" ("parenthesized_declarator" ++ ending) (weigh (-10)
      (parentheses (all [callModifier, any])))] ++ functions

/-- The functions among declarators of one kind, with what may follow their parameters. -/
def functionDeclarator (ending : String) (grouping : Grouping) (more : Rule) : Definition :=
  nodeOf "function_declarator" ("function_declarator" ++ ending) (bind 1 grouping (all [
    role "declarator" (name ("declarator" ++ ending)), role "parameters" (name "parameter_list"),
    more]))

def declaratorRules : List Definition :=
  declarators "" [
    functionDeclarator "" .right (all [
      optional (name "gnu_asm_expression"),
      many (choice [name "attribute_specifier", identifier, name "macro_call"])]),
    nodeOf "function_declarator" "declared_function" (bind 1 .right (all [
      role "declarator" (name "declarator"), role "parameters" (name "parameter_list"),
      optional (name "gnu_asm_expression"), many (name "attribute_specifier")])),
    nodeOf "function_declarator" "bare_function_declarator" (all [
      role "declarator" (name "declarator"), role "parameters" (name "bare_parameter_list")])]
    identifier
  ++ declarators " of field" [functionDeclarator " of field" .none empty] (word "field_identifier")
  ++ declarators " of type" [functionDeclarator " of type" .none empty]
    (choice (typeName :: primitiveType :: sizeWords.map fun text =>
      token (.keyword text) (some "primitive_type"))) ++ [
  group "abstract_declarator" (names [
    "abstract_pointer_declarator", "abstract_function_declarator", "abstract_array_declarator",
    "abstract_parenthesized_declarator"]),
  node "abstract_pointer_declarator" (weigh 1 (bind 0 .right (all [
    star, optional (role "declarator" (name "abstract_declarator"))]))),
  node "abstract_function_declarator" (bind 1 .none (all [
    optional (role "declarator" (name "abstract_declarator")),
    role "parameters" (name "parameter_list")])),
  node "abstract_array_declarator" (bind 1 .none (all [
    optional (role "declarator" (name "abstract_declarator")), arraySize])),
  node "abstract_parenthesized_declarator" (bind 1 .none
    (parentheses (all [callModifier, name "abstract_declarator"])))]

def typeRules : List Definition := [
  group "type_specifier" (choice [
    typeName, primitiveType, name "struct_specifier", name "union_specifier",
    name "enum_specifier", name "macro_type_specifier", name "sized_type_specifier"]),
  node "sized_type_specifier" (alt
    (all [many size, sized, many1 size])
    (all [many1 size, many (name "type_qualifier"), optional sized, many size])),
  node "struct_specifier" (bind 0 .right (all [
    keyword "struct", optional (name "attribute_specifier"),
    optional (name "ms_declspec_modifier"), typeBody, optional (name "attribute_specifier")])),
  node "union_specifier" (bind 0 .right (all [
    keyword "union", optional (name "ms_declspec_modifier"), typeBody,
    optional (name "attribute_specifier")])),
  node "enum_specifier" (all [
    keyword "enum",
    alt
      (all [
        role "name" typeName,
        optional (all [symbol ":", role "underlying_type" primitiveType]),
        optional (role "body" (name "enumerator_list"))])
      (role "body" (name "enumerator_list")),
    optional (name "attribute_specifier")]),
  node "enumerator_list" (all [
    symbol "\x7b",
    many (choice [
      all [name "enumerator", symbol ","], name "preproc_if of enumerator",
      name "preproc_ifdef of enumerator", all [name "preproc_call", symbol ","]]),
    optional (choice [
      name "enumerator", name "preproc_if of last enumerator",
      name "preproc_ifdef of last enumerator", name "preproc_call"]),
    symbol "\x7d"]),
  node "enumerator" (all [
    role "name" identifier, optional (all [symbol "=", role "value" (name "expression")])]),
  node "macro_type_specifier" (weigh (-1) (all [
    role "name" identifier, parentheses (role "type" (name "type_descriptor"))])),
  node "type_descriptor" (all [
    many (name "type_qualifier"), role "type" (name "type_specifier"),
    many (name "type_qualifier"), optional (role "declarator" (name "abstract_declarator"))]),
  node "storage_class_specifier" (keywords storageWords),
  node "extension_storage_class" (keywords extensionQualifiers),
  node "type_qualifier" (alt (keywords typeQualifiers) (name "alignas_qualifier")),
  node "alignas_qualifier" (all [
    keywords ["alignas", "_Alignas"], parentheses (names ["expression", "type_descriptor"])]),
  node "attribute_specifier" (all [
    keywords ["__attribute__", "__attribute"], parentheses (name "argument_list")]),
  node "attribute_declaration" (all [symbol "[[", commaList (name "attribute"), symbol "]]"]),
  node "attribute" (all [
    optional (all [role "prefix" identifier, symbol "::"]), role "name" identifier,
    optional (name "argument_list")]),
  node "ms_declspec_modifier" (all [keyword "__declspec", parentheses identifier]),
  node "ms_based_modifier" (all [keyword "__based", name "argument_list"]),
  node "ms_call_modifier" (keywords callWords),
  node "ms_pointer_modifier" (names [
    "ms_unaligned_ptr_modifier", "ms_restrict_modifier", "ms_unsigned_ptr_modifier",
    "ms_signed_ptr_modifier"]),
  node "ms_unaligned_ptr_modifier" (keywords ["_unaligned", "__unaligned"]),
  node "ms_restrict_modifier" (keyword "__restrict"),
  node "ms_unsigned_ptr_modifier" (keyword "__uptr"),
  node "ms_signed_ptr_modifier" (keyword "__sptr"),
  node "layout_specification" (all [keyword "layout", name "layout_qualifiers"]),
  node "layout_qualifiers" (parentheses (commaList (name "qualifier"))),
  node "qualifier" (alt
    (keyword "shared")
    (all [identifier, optional (all [symbol "=", name "expression"])])),
  node "field_declaration_list" (all [
    symbol "\x7b", many (name "member"), symbol "\x7d"])]
where
  size : Rule := keywords sizeWords
  sized : Rule := role "type" (alt (weigh (-1) typeName) primitiveType)
  typeBody : Rule :=
    alt
      (all [role "name" typeName, optional (role "body" (name "field_declaration_list"))])
      (role "body" (name "field_declaration_list"))

def declarationRules : List Definition := [
  group "specifiers" (bind 0 .right (all [
    modifiers, role "type" (name "type_specifier"), modifiers])),
  node "declaration" (choice [
    all [keywords ["invariant", "precise"], identifier, symbol ";"],
    all [
      leadingQualifiers, name "specifiers", commaList declared, symbol ";"],
    all [
      leadingQualifiers, identifier, name "field_declaration_list",
      optional (alt identifier (name "array_declarator")), symbol ";"]]),
  node "init_declarator" (all [
    role "declarator" (name "declarator"), symbol "=",
    role "value" (names ["initializer_list", "expression"])]),
  node "field_declaration" (all [
    leadingQualifiers, name "specifiers",
    optional (commaList (all [
      role "declarator" (name "declarator of field"), optional (name "bitfield_clause")])),
    optional (name "attribute_specifier"), symbol ";"]),
  node "bitfield_clause" (all [symbol ":", name "expression"]),
  node "function_definition" (all [
    optional (all [keyword "subroutine", parentheses (commaList identifier)]),
    callModifier, name "specifiers", callModifier, role "declarator" (name "declarator"),
    role "body" (name "compound_statement")]),
  nodeOf "function_definition" "bare_function_definition" (all [
    callModifier, name "specifiers", role "declarator" (name "bare_function_declarator"),
    many (name "declaration"), role "body" (name "compound_statement")]),
  node "parameter_list" (parentheses (alt
    (optional (commaList (names ["parameter_declaration", "variadic_parameter"])))
    (name "compound_statement"))),
  nodeOf "parameter_list" "bare_parameter_list" (parentheses
    (optional (commaList (alt identifier (name "variadic_parameter"))))),
  node "variadic_parameter" (symbol "..."),
  node "parameter_declaration" (all [
    optional (keywords ["in", "out", "inout"]), name "specifiers",
    optional (role "declarator" (names ["declarator", "abstract_declarator"])),
    many (name "attribute_specifier")]),
  node "type_definition" (all [
    optional (keyword "__extension__"), keyword "typedef", many (name "type_qualifier"),
    role "type" (name "type_specifier"), many (name "type_qualifier"),
    commaList (role "declarator" (name "declarator of type")), many (name "attribute_specifier"),
    symbol ";"]),
  node "linkage_specification" (all [
    keyword "extern", role "value" (name "string_literal"),
    role "body" (names ["function_definition", "declaration", "declaration_list"])]),
  node "declaration_list" (all [symbol "\x7b", many (name "item"), symbol "\x7d"]),
  group "empty_declaration" (all [name "type_specifier", symbol ";"])]
where
  declared : Rule :=
    role "declarator" (alt
      (name "init_declarator")
      (all [
        alt identifier (names [
          "attributed_declarator", "pointer_declarator", "declared_function", "array_declarator",
          "parenthesized_declarator"]),
        optional (name "gnu_asm_expression")]))

end ShaderParams.Grammar
