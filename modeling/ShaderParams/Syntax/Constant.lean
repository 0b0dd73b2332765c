import ShaderParams.Error
import ShaderParams.Number.Literal
import ShaderParams.Number.Spelling
import ShaderParams.Syntax.Node

/-!
This module contains constants in syntax trees: reading the value of a numeric expression, and
writing a number as an expression.
-/

namespace ShaderParams.Node

def readLiteral (n : Node) : Except Error Literal :=
  match Literal.read n.text.toList with
  | .ok l => .ok l
  | .error cs => .error (.rejected (.malformedLiteral (String.ofList cs)) n.label.start)

/--
The literal that a sign is applied to, and whether the sign is a minus; `none` for any other
expression.
-/
def signedLiteral? (n : Node) : Except Error (Option (Bool × Node)) :=
  if n.type == "unary_expression" then do
    let some operator := n.childByField? "operator" <|> n.children.head? | throw .missingChild
    let some operand := n.childByField? "argument" <|> n.children.getLast? | throw .missingChild
    if (operator.text == "-" || operator.text == "+") && operand.type == "number_literal" then
      return some (operator.text == "-", operand)
    else
      return none
  else
    return none

/--
The literal that an expression is, where a sign in front of a numeral counts as a part of it. Every
other expression is rejected.
-/
def literal (n : Node) : Except Error Literal := do
  match ← n.signedLiteral? with
  | some (negative, operand) =>
    let l ← operand.readLiteral
    return if negative then l.neg else l
  | none =>
    if n.type == "number_literal" then
      n.readLiteral
    else
      throw (.rejected (.notConstant n.text) n.label.start)

def constant (target : NumericType) (n : Node) : Except Error Number := do
  let l ← n.literal
  match l.value.cast? target with
  | some v => return v
  | none => throw .integerOverflow

def single (n : Node) : Except Error Double := do
  let v ← n.constant .f32
  match v.toDouble? with
  | some x => return x
  | none => throw .integerOverflow

theorem single_eq (n : Node) :
    n.single = (do
      let l ← n.literal
      match l.value.toDouble? with
      | some x => return x.toSingle
      | none => throw .integerOverflow) := by
  rw [single, constant]
  cases n.literal with
  | error e => rfl
  | ok l =>
    cases h : l.value.toDouble? <;> simp [Number.cast?, h, bind, Except.bind, pure, Except.pure,
      throw, throwThe, MonadExceptOf.throw]

theorem constant_f32 (n : Node) : n.constant .f32 = n.single.map .float := by
  rw [single_eq, constant]
  cases n.literal with
  | error e => rfl
  | ok l =>
    cases h : l.value.toDouble? <;> simp [Number.cast?, h, bind, Except.bind, pure, Except.pure,
      throw, throwThe, MonadExceptOf.throw, Except.map]

theorem mapM_constant_f32 (ns : List Node) :
    ns.mapM (constant .f32) = (ns.mapM single).map (List.map .float) := by
  induction ns with
  | nil => rfl
  | cons n ns ih =>
    rw [List.mapM_cons, List.mapM_cons, constant_f32, ih]
    cases n.single with
    | error e => rfl
    | ok x => cases ns.mapM single <;> rfl

/--
An expression for a double. A negative number stands in parentheses, so that its sign cannot join
an operator in front of it.
-/
def ofDouble (x : Double) : Node :=
  let text := x.spell
  match text.toList with
  | '-' :: digits =>
    branch "parenthesized_expression" [
      symbol "(",
      branch "unary_expression" [
        symbol "-" "" (some "operator"),
        token "number_literal" (String.ofList digits) "" (some "argument")],
      symbol ")"]
  | _ => token "number_literal" text

end ShaderParams.Node
