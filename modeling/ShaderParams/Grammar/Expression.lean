import ShaderParams.Grammar.Rule

/-!
This module contains the grammar of expressions.
-/

namespace ShaderParams.Grammar

open Rule

def operatorStrengths : List (String × Int) :=
  [("+", 10), ("-", 10), ("*", 11), ("/", 11), ("%", 11), ("||", 1), ("&&", 2), ("|", 3), ("^", 4),
    ("&", 5), ("==", 6), ("!=", 6), (">", 7), (">=", 7), ("<=", 7), ("<", 7), ("<<", 9), (">>", 9)]

def assignmentOperators : List String :=
  ["=", "*=", "/=", "%=", "+=", "-=", "<<=", ">>=", "&=", "^=", "|="]

def binaryOperators (operand : Rule) : Rule :=
  choice (operatorStrengths.map fun (text, strength) =>
    bind strength .left (all [
      role "left" operand, role "operator" (symbol text), role "right" operand]))

def assignable : Rule :=
  alt identifier (names ["call_expression", "field_expression", "pointer_expression",
    "subscript_expression", "parenthesized_expression"])

def expressionList : Rule :=
  names ["expression", "comma_expression"]

def simpleExpressions : Rule :=
  choice [
    identifier,
    token .number none,
    token (.oneOf "true" ["TRUE", "true"]) none,
    token (.oneOf "false" ["FALSE", "false"]) none]

/-- The expressions of several tokens but those with a binary operator. -/
def plainExpressions : List String :=
  ["conditional_expression", "assignment_expression", "pointer_expression", "unary_expression",
    "update_expression", "cast_expression", "sizeof_expression", "alignof_expression",
    "offsetof_expression", "generic_expression", "subscript_expression", "call_expression",
    "gnu_asm_expression", "extension_expression", "field_expression",
    "compound_literal_expression", "parenthesized_expression", "char_literal", "string", "null"]

/-- Text between quotes, which may be marked by a word for the kind of its characters. -/
def quoted (mark : String) (content : Rule) : Rule :=
  all [symbols (["L", "u", "U", "u8", ""].map (· ++ mark)), content, symbol mark]

def operandList (type operand : String) : Definition :=
  node type (all [symbol ":", optional (commaList (role "operand" (name operand)))])

def operand (type : String) : Definition :=
  node type (all [
    optional (all [symbol "[", role "symbol" identifier, symbol "]"]),
    role "constraint" (name "string_literal"), parentheses (role "value" (name "expression"))])

def assemblerRules : List Definition := [
  node "gnu_asm_expression" (bind 15 .none (all [
    keywords ["asm", "__asm__", "__asm"], many (name "gnu_asm_qualifier"),
    parentheses (all [
      role "assembly_code" (name "string"),
      optional (all [
        role "output_operands" (name "gnu_asm_output_operand_list"),
        optional (all [
          role "input_operands" (name "gnu_asm_input_operand_list"),
          optional (all [
            role "clobbers" (name "gnu_asm_clobber_list"),
            optional (role "goto_labels" (name "gnu_asm_goto_list"))])])])])])),
  node "gnu_asm_qualifier" (keywords ["volatile", "__volatile__", "inline", "goto"]),
  operandList "gnu_asm_output_operand_list" "gnu_asm_output_operand",
  operand "gnu_asm_output_operand",
  operandList "gnu_asm_input_operand_list" "gnu_asm_input_operand",
  operand "gnu_asm_input_operand",
  node "gnu_asm_clobber_list" (all [
    symbol ":", optional (commaList (role "register" (name "string")))]),
  node "gnu_asm_goto_list" (all [
    symbol ":", optional (commaList (role "label" identifier))])]

def expressionRules : List Definition := [
  group "expression" (alt simpleExpressions (names ("binary_expression" :: plainExpressions))),
  group "string" (bind 0 .left (names ["concatenated_string", "string_literal"])),
  node "comma_expression" (all [
    role "left" (name "expression"), symbol ",", role "right" expressionList]),
  node "conditional_expression" (bind (-1) .right (all [
    role "condition" (name "expression"), symbol "?", optional (role "consequence" expressionList),
    symbol ":", role "alternative" (name "expression")])),
  node "assignment_expression" (bind (-2) .right (all [
    role "left" assignable, role "operator" (symbols assignmentOperators),
    role "right" (name "expression")])),
  node "pointer_expression" (bind 12 .left (all [
    role "operator" (symbols ["*", "&"]), role "argument" (name "expression")])),
  node "unary_expression" (bind 14 .left (all [
    role "operator" (symbols ["!", "~", "-", "+"]), role "argument" (name "expression")])),
  node "binary_expression" (binaryOperators (name "expression")),
  node "update_expression" (bind 14 .right (alt
    (all [role "operator" (symbols ["--", "++"]), role "argument" (name "expression")])
    (all [role "argument" (name "expression"), role "operator" (symbols ["--", "++"])]))),
  node "cast_expression" (bind 12 .none (all [
    parentheses (role "type" (name "type_descriptor")), role "value" (name "expression")])),
  node "sizeof_expression" (bind 13 .none (all [
    keyword "sizeof",
    alt (role "value" (name "expression")) (parentheses (role "type" (name "type_descriptor")))])),
  node "alignof_expression" (bind 13 .none (all [
    keywords ["__alignof__", "__alignof", "_alignof", "alignof", "_Alignof"],
    parentheses (role "type" (name "type_descriptor"))])),
  node "offsetof_expression" (bind 8 .none (all [
    keyword "offsetof",
    parentheses (all [
      role "type" (name "type_descriptor"), symbol ",",
      role "member" (word "field_identifier")])])),
  node "generic_expression" (bind 15 .none (all [
    keyword "_Generic",
    parentheses (all [
      name "expression", symbol ",",
      commaList (all [name "type_descriptor", symbol ":", name "expression"])])])),
  node "subscript_expression" (bind 17 .none (all [
    role "argument" (name "expression"), symbol "[", role "index" (name "expression"),
    symbol "]"])),
  node "call_expression" (bind 15 .none (all [
    role "function" (name "expression"), role "arguments" (name "argument_list")])),
  node "extension_expression" (all [keyword "__extension__", name "expression"]),
  node "argument_list" (parentheses
    (optional (commaList (names ["expression", "compound_statement"])))),
  node "field_expression" (all [
    bind 16 .none (all [
      role "argument" (name "expression"), role "operator" (symbols [".", "->"])]),
    role "field" (word "field_identifier")]),
  node "compound_literal_expression" (all [
    parentheses (role "type" (name "type_descriptor")), role "value" (name "initializer_list")]),
  node "parenthesized_expression" (parentheses
    (names ["expression", "comma_expression", "compound_statement"])),
  node "initializer_list" (all [
    symbol "\x7b",
    optional (commaList (names ["initializer_pair", "expression", "initializer_list"])),
    optional (symbol ","),
    symbol "\x7d"]),
  node "initializer_pair" (alt
    (all [
      role "designator" (many1 (names [
        "subscript_designator", "subscript_range_designator", "field_designator"])),
      symbol "=",
      role "value" (names ["expression", "initializer_list"])])
    (all [
      role "designator" (word "field_identifier"), symbol ":",
      role "value" (names ["expression", "initializer_list"])])),
  node "subscript_designator" (all [symbol "[", name "expression", symbol "]"]),
  node "subscript_range_designator" (all [
    symbol "[", role "start" (name "expression"), symbol "...", role "end" (name "expression"),
    symbol "]"]),
  node "field_designator" (all [symbol ".", word "field_identifier"]),
  node "char_literal" (quoted "'" (many1 (alt (token .escape none) (token .character none)))),
  node "concatenated_string" (bind 0 .right (all [
    choice [
      all [identifier, name "string_literal"], all [name "string_literal", name "string_literal"],
      all [name "string_literal", identifier]],
    many (alt (name "string_literal") identifier)])),
  node "string_literal" (quoted "\"" (many (alt (token .stringContent none) (token .escape none)))),
  node "null" (keywords ["NULL", "nullptr"])] ++ assemblerRules

end ShaderParams.Grammar
