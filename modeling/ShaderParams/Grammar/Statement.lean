import ShaderParams.Grammar.Declaration
import ShaderParams.Grammar.Directive
import ShaderParams.Grammar.Stack

/-!
This module contains the grammar of statements and of whole shaders.
-/

namespace ShaderParams.Grammar

open Rule

def commonStatements : List String :=
  ["labeled_statement", "compound_statement", "if_statement", "switch_statement", "do_statement",
    "while_statement", "for_statement", "return_statement", "break_statement",
    "continue_statement", "goto_statement", "attributed_statement"]

/--
What can stand in a block, around the given statements. Where a text is both, a declaration is
preferred to a statement, and a statement to a type by itself.
-/
def itemsAround (statements : List String) : List String :=
  ["function_definition", "bare_function_definition", "declaration", "type_definition",
    "linkage_specification"] ++ statements ++ ["empty_declaration", "preproc_if",
    "preproc_ifdef", "preproc_include", "preproc_def", "preproc_function_def", "preproc_call",
    "preproc_extension"]

def statementRules : List Definition := [
  group "statement" (alt (name "case_statement") (name "plain_statement")),
  group "plain_statement" (names ("expression_statement" :: commonStatements ++ [
    "seh_try_statement", "seh_leave_statement"])),
  node "attributed_statement" (all [many1 (name "attribute_declaration"), name "statement"]),
  node "labeled_statement" (all [
    role "label" (word "statement_identifier"), symbol ":", names ["declaration", "statement"]]),
  node "compound_statement" (all [symbol "\x7b", many (name "item"), symbol "\x7d"]),
  node "expression_statement" (all [optional expressionList, symbol ";"]),
  nodeOf "expression_statement" "top_expression_statement" (all [
    optional (alt simpleExpressions (names plainExpressions)), symbol ";"]),
  node "if_statement" (bind 0 .right (all [
    keyword "if", role "condition" (name "parenthesized_expression"),
    role "consequence" (name "statement"), optional (role "alternative" (name "else_clause"))])),
  node "else_clause" (all [keyword "else", name "statement"]),
  node "switch_statement" (all [
    keyword "switch", role "condition" (name "parenthesized_expression"),
    role "body" (name "compound_statement")]),
  node "case_statement" (bind 0 .right (all [
    alt (all [keyword "case", role "value" (name "expression")]) (keyword "default"), symbol ":",
    many (names ["plain_statement", "declaration", "type_definition"])])),
  node "while_statement" (all [
    keyword "while", role "condition" (name "parenthesized_expression"),
    role "body" (name "statement")]),
  node "do_statement" (all [
    keyword "do", role "body" (name "statement"), keyword "while",
    role "condition" (name "parenthesized_expression"), symbol ";"]),
  node "for_statement" (all [
    keyword "for", symbol "(",
    alt
      (role "initializer" (name "declaration"))
      (all [optional (role "initializer" expressionList), symbol ";"]),
    optional (role "condition" expressionList), symbol ";",
    optional (role "update" expressionList), symbol ")", role "body" (name "statement")]),
  node "return_statement" (all [keyword "return", optional expressionList, symbol ";"]),
  node "break_statement" (all [keyword "break", symbol ";"]),
  node "continue_statement" (all [keyword "continue", symbol ";"]),
  node "goto_statement" (all [
    keyword "goto", role "label" (word "statement_identifier"), symbol ";"]),
  node "seh_try_statement" (all [
    keyword "__try", role "body" (name "compound_statement"),
    names ["seh_except_clause", "seh_finally_clause"]]),
  node "seh_except_clause" (all [
    keyword "__except", role "filter" (name "parenthesized_expression"),
    role "body" (name "compound_statement")]),
  node "seh_finally_clause" (all [
    keyword "__finally", role "body" (name "compound_statement")]),
  node "seh_leave_statement" (all [keyword "__leave", symbol ";"])]

def shaderRules : List Definition :=
  group "source" (all [many (name "top_item"), token .endOfText none])
  :: group "top_item" (names (itemsAround (
    "case_statement" :: "top_expression_statement" :: commonStatements)))
  :: group "item" (names (itemsAround ["statement"]))
  :: group "member" (names ["field_declaration", "preproc_def", "preproc_function_def",
    "preproc_call", "preproc_if of member", "preproc_ifdef of member"])
  :: statementRules ++ expressionRules ++ declaratorRules ++ typeRules ++ declarationRules
  ++ directiveRules
  ++ conditionals "" 0 (name "item")
  ++ conditionals " of member" 0 (name "member")
  ++ conditionals " of enumerator" 0 (all [name "enumerator", symbol ","])
  ++ conditionals " of last enumerator" (-1) (name "enumerator")

def shaderTable : Table := .ofDefinitions shaderRules

def byteOrderMark : Char := Char.ofNat 0xfeff

/--
The syntax tree of a shader, or an error where it stops to be one. The text is read with a line
break at its end. The null character is part of no shader.
-/
def parse (source : String) : SpanTree :=
  let text := (endLine source).toList
  let stop := Place.start.skip text
  let error (place : Place) : SpanTree :=
    .mk { spanBetween "ERROR" place stop with hasError := true } []
  let start : Cursor := ⟨text, .start⟩
  let start := if text.head? = some byteOrderMark then start.advance 1 else start
  if text.contains '\x00' then
    error (Place.start.skip (text.takeWhile (· != '\x00')))
  else
    match shaderTable.parse start with
    | .ok children =>
      .mk (spanBetween "translation_unit" (startOf children stop) stop) children
    | .error place => error place

end Grammar

def Document.parse (source : String) : Except Error Document :=
  ofSpans source (Grammar.parse source)

end ShaderParams
