import ShaderParams.Grammar.Expression

/-!
This module contains the grammar of directives. A directive ends with its line, so the line breaks
behind it are tokens.
-/

namespace ShaderParams.Grammar

open Rule

def directive (name : String) : Rule := token (.directive name) none

def lineEnd : Rule := token .lineEnd none

def directiveText : Rule := token .directiveText none

def conditionLine : Rule :=
  all [role "condition" (name "condition"), token .lineBreak none]

/--
The conditionals around one kind of content, with how strongly they bind. The rules have the given
ending.
-/
def conditionals (ending : String) (strength : Int) (content : Rule) : List Definition :=
  let alternative := optional (role "alternative" (names [
    "preproc_else" ++ ending, "preproc_elif" ++ ending, "preproc_elifdef" ++ ending]))
  let conditional (type : String) (parts : List Rule) : Definition :=
    nodeOf type (type ++ ending) (bind strength .none (all parts))
  [ conditional "preproc_if" [
      directive "if", conditionLine, many content, alternative, directive "endif"],
    conditional "preproc_ifdef" [
      alt (directive "ifdef") (directive "ifndef"), role "name" identifier, many content,
      alternative, directive "endif"],
    conditional "preproc_else" [directive "else", many content],
    conditional "preproc_elif" [
      directive "elif", conditionLine, many content, alternative],
    conditional "preproc_elifdef" [
      alt (directive "elifdef") (directive "elifndef"), role "name" identifier, many content,
      alternative]]

def directiveRules : List Definition := [
  node "preproc_include" (all [
    directive "include",
    role "path" (choice [
      name "string_literal", token .bracketedName none, identifier, name "macro_call"]),
    lineEnd]),
  node "preproc_def" (all [
    directive "define", role "name" identifier, optional (role "value" directiveText), lineEnd]),
  node "preproc_function_def" (all [
    directive "define", role "name" identifier, role "parameters" (name "preproc_params"),
    optional (role "value" directiveText), lineEnd]),
  node "preproc_params" (all [
    token .opening none, optional (commaList (alt identifier (symbol "..."))), symbol ")"]),
  node "preproc_call" (all [
    role "directive" (token .anyDirective none), optional (role "argument" directiveText),
    lineEnd]),
  node "preproc_extension" (all [
    role "directive" (token .anyDirective none), role "extension" identifier, symbol ":",
    role "behavior" (name "extension_behavior"), lineEnd]),
  node "extension_behavior" (keywords ["require", "enable", "warn", "disable"]),
  group "condition" (alt identifier (alt (token .number none) (names [
    "macro_call", "char_literal", "preproc_defined", "unary_condition", "binary_condition",
    "parenthesized_condition"]))),
  nodeOf "parenthesized_expression" "parenthesized_condition" (parentheses (name "condition")),
  node "preproc_defined" (alt
    (bind 15 .none (all [keyword "defined", parentheses identifier]))
    (all [keyword "defined", identifier])),
  nodeOf "unary_expression" "unary_condition" (bind 14 .left (all [
    role "operator" (symbols ["!", "~", "-", "+"]), role "argument" (name "condition")])),
  nodeOf "binary_expression" "binary_condition" (binaryOperators (name "condition")),
  nodeOf "call_expression" "macro_call" (bind 15 .none (all [
    role "function" identifier, role "arguments" (name "macro_arguments")])),
  nodeOf "argument_list" "macro_arguments" (parentheses (optional (commaList (name "condition"))))]

end ShaderParams.Grammar
