import MiniLang.Syntax.Grammar
import MiniLang.Syntax.Parser.Basic

/-!
# Parsing expressions

An expression begins with a form that its first token selects, and goes on as long as the next
token binds tighter than the expression is asked to. The forms take the parser of the expressions
inside them as an argument; `expression` closes this loop. An expression inside another begins at
least one token later, so that nesting is bounded by the number of tokens.
-/

set_option autoImplicit false

namespace MiniLang.Parse

/-- A parser of the expressions that bind tighter than the given power. -/
abbrev ExprParser := BindingPower → Parse Expr

/-- A written-out value. -/
def literal : Parse Expr := do
  let token ← advance
  let value : Literal ←
    match token.kind with
    | .integer =>
      match Integer.parse? token.text.toList with
      | some value => pure (.int value)
      | none => throw ⟨.integerOverflow token.text, token.span, false⟩
    | .kwTrue => pure (.bool true)
    | .kwFalse => pure (.bool false)
    | _ => throw (.unexpected "expression" token)
  return .literal (← freshId) token.span value

/-- One or more expressions with commas between them, at most as many as the number says. -/
def commaSeparated (inner : ExprParser) : Nat → Parse (List Expr)
  | 0 => pure []
  | fuel + 1 => do
    let first ← inner .default
    if (← currentKind) = .comma then
      let _ ← advance
      return first :: (← commaSeparated inner fuel)
    else
      return [first]

/-- The arguments of a call after its opening parenthesis. -/
def arguments (inner : ExprParser) : Parse (List Expr) := do
  if (← currentKind) = .closeParen then return [] else bounded (commaSeparated inner)

/-- A name by itself, or the name of a function and its arguments. -/
def nameOrCall (inner : ExprParser) : Parse Expr := do
  let name ← advance
  if (← currentKind) = .openParen then
    let opening ← advance
    let values ← arguments inner
    let closing ← expectClosing .closeParen "`)`" "argument list" opening
    return .call (← freshId) (name.span.join closing.span) name.text name.span values
  else
    return .var (← freshId) name.span name.text

/-- An operator and its operand. -/
def unaryOperation (inner : ExprParser) : Parse Expr := do
  let operator ← advance
  let op : UnaryOp := if operator.kind = .dash then .neg else .not
  let operand ← inner .unary
  return .unary (← freshId) (operator.span.join operand.span) op operand

/-- An expression in parentheses, which leave no trace in the tree. -/
def grouping (inner : ExprParser) : Parse Expr := do
  let opening ← advance
  let e ← inner .default
  let _ ← expectClosing .closeParen "`)`" "parenthesized expression" opening
  return e

/-- Text that forms no token is no expression. -/
def unknown : Parse Expr := do
  throw (.unexpected "expression" (← advance))

/-- The form that begins an expression. -/
def prefixForm (inner : ExprParser) : PrefixRule → Parse Expr
  | .literal => literal
  | .name => nameOrCall inner
  | .operator => unaryOperation inner
  | .grouping => grouping inner
  | .unknown => unknown

/-- An operator after its left operand. The right operand binds tighter than the operator, so
that operators of one power group to the left. -/
def binaryOperation (inner : ExprParser) (power : BindingPower) (left : Expr) : Parse Expr := do
  let operator ← advance
  match BinaryOp.ofToken? operator.kind with
  | none => throw (.unexpected "operator" operator)
  | some op =>
    let right ← inner power
    return .binary (← freshId) (left.span.join right.span) op left right

/-- An assignment after its left side, which has to be a plain name. The value may be an
assignment again, so that assignments group to the right. -/
def assignment (inner : ExprParser) (left : Expr) : Parse Expr := do
  let _ ← advance
  let value ← inner .default
  match left with
  | .var _ span name =>
    return .assignment (← freshId) (span.join value.span) name span value
  | _ => throw ⟨.invalidAssignmentTarget, left.span, false⟩

/-- The form that continues an expression. -/
def infixForm (inner : ExprParser) (power : BindingPower) (left : Expr) : InfixRule → Parse Expr
  | .operator => binaryOperation inner power left
  | .assignment => assignment inner left

/-- Continues an expression while tokens bind tighter than `power`, in at most as many rounds as the
number says. -/
def extend (g : Grammar) (inner : ExprParser) (power : BindingPower) : Nat → Expr → Parse Expr
  | 0, left => pure left
  | fuel + 1, left => do
    match g.infixRule (← currentKind) with
    | none => return left
    | some (own, rule) =>
      if own.level ≤ power.level then
        return left
      else
        extend g inner power fuel (← infixForm inner own left rule)

/-- An expression that nests at most as deep as the number says. -/
def expressionFrom (g : Grammar) : Nat → ExprParser
  | 0, _ => fun p => .error (.unexpected "expression" p.current) p
  | fuel + 1, power => do
    match g.prefixRule (← currentKind) with
    | none => fun p => .error (.unexpected "expression" p.current) p
    | some rule =>
      let left ← prefixForm (expressionFrom g fuel) rule
      bounded fun rounds => extend g (expressionFrom g fuel) power rounds left

/-- An expression that binds tighter than the given power. -/
def expression (g : Grammar) : ExprParser := fun power =>
  bounded fun fuel => expressionFrom g fuel power

end MiniLang.Parse
