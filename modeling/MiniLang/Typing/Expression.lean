import MiniLang.Typing.TypedSyntax

/-!
# Typing expressions

The type of an expression follows from the types of what is below it and from what its names refer
to. Each rule gives a type and the problems it finds. Where something below has an error as its
type, the rules keep silent and pass the error on, so that one mistake is complained about once.
-/

set_option autoImplicit false

namespace MiniLang.Typing

/-- What the type of a name depends on: the symbols, and the types inferred so far for variables
that state none. -/
structure Context where
  resolution : Resolution
  inferred : Table SymbolRef Ty := .empty

namespace Context

/-- The type of a symbol: the one that is stated for it, or else the one inferred. -/
def symbolType (c : Context) (ref : SymbolRef) : Ty :=
  match c.resolution.tree.symbol? ref with
  | some { type := some type, .. } => type
  | _ => (c.inferred.get? ref).getD .unknown

/-- Whether a symbol stands for a function. -/
def isFunction (c : Context) (ref : SymbolRef) : Bool :=
  match c.resolution.tree.symbol? ref with
  | some symbol => symbol.kind == .function
  | none => false

end Context

/-- The diagnostics that a rule adds at one place. -/
def reported (problems : List Problem) (span : Span) : List Diagnostic :=
  problems.map fun problem => .of problem span

/-- The problem of a value where another type is needed, if there is one. -/
def mismatch (expected found : Ty) : List Problem :=
  if found.isError || found = expected then [] else [.typeMismatch expected.text found.text]

/-- The type of a written-out value. -/
def literalType : Literal → Ty
  | .int _ => .int
  | .bool _ => .bool

/-- The type of an operator's result for operands of the given types, if it can be applied to
them. -/
def binaryType (op : BinaryOp) (left right : Ty) : Option Ty :=
  match left, right with
  | .int, .int =>
    if op.isArithmetic then some .int
    else if op.isRelational || op.isEquality then some .bool
    else none
  | .bool, .bool => if op.isLogical || op.isEquality then some .bool else none
  | _, _ => none

/-- Types an operator between operands. -/
def binaryRule (op : BinaryOp) (left right : Ty) : Ty × List Problem :=
  if left.isError || right.isError then
    (.error, [])
  else
    match binaryType op left right with
    | some type => (type, [])
    | none => (.error, [.invalidOperands op.symbol [left.text, right.text]])

/-- Whether an operator divides by its right operand. -/
def divides : BinaryOp → Bool
  | .div | .rem => true
  | _ => false

/-- The warning about a divisor that is written out as zero. -/
def divisorRule (op : BinaryOp) (right : Typed.Expr) : List Problem :=
  if divides op && right.literal? == some (.int 0) then [.divisionByZero] else []

/-- Types an operator before its operand. -/
def unaryRule (op : UnaryOp) (operand : Ty) : Ty × List Problem :=
  if operand.isError then
    (.error, [])
  else
    match op, operand with
    | .neg, .int => (.int, [])
    | .not, .bool => (.bool, [])
    | _, _ => (.error, [.invalidOperands op.symbol [operand.text]])

/-- Types a name that stands for a value. -/
def nameRule (c : Context) (name : String) : Option SymbolRef → Ty × List Problem
  | none => (.error, [])
  | some ref =>
    if c.isFunction ref then (.error, [.functionAsValue name]) else (c.symbolType ref, [])

/-- The problems of arguments against the types of the parameters, at the arguments; positions count
on from `position`. -/
def argumentRule (callee : String) : Nat → List Ty → List Typed.Expr → List Diagnostic
  | position, param :: params, argument :: arguments =>
    let problems :=
      if argument.type.isError || argument.type = param then []
      else [.argumentTypeMismatch callee position param.text argument.type.text]
    reported problems argument.span ++ argumentRule callee (position + 1) params arguments
  | _, _, _ => []

/-- Types a call: the callee has to be a function, and the arguments have to fit it. Their types are
compared only if their number is right. -/
def callRule (c : Context) (callee : String) (calleeSpan span : Span)
    (arguments : List Typed.Expr) : Option SymbolRef → Ty × List Diagnostic
  | none => (.error, [])
  | some ref =>
    let type := c.symbolType ref
    if type.isError then
      (.error, [])
    else
      match type with
      | .function params result =>
        if params.length = arguments.length then
          (result, argumentRule callee 1 params arguments)
        else
          (result, reported [.arityMismatch callee params.length arguments.length] span)
      | _ => (.error, reported [.notCallable callee] calleeSpan)

/-- Types an assignment: the target has to be a variable or parameter of the value's type. -/
def assignmentRule (c : Context) (target : String) (targetSpan span : Span) (value : Ty) :
    Option SymbolRef → Ty × List Diagnostic
  | none => (.error, [])
  | some ref =>
    if c.isFunction ref then
      (.error, reported [.notAssignable target] targetSpan)
    else
      let type := c.symbolType ref
      (type, if type.isError then [] else reported (mismatch type value) span)

mutual

/-- Types an expression, and gives the problems in the order in which they are found. -/
def typeExpr (c : Context) : Expr → Typed.Expr × List Diagnostic
  | .literal id span value => (.literal ⟨id, span, literalType value⟩ value, [])
  | .var id span name =>
    let symbol := c.resolution.references.get? id
    let (type, problems) := nameRule c name symbol
    (.var ⟨id, span, type⟩ name symbol, reported problems span)
  | .binary id span op left right =>
    let (left, inLeft) := typeExpr c left
    let (right, inRight) := typeExpr c right
    let (type, problems) := binaryRule op left.type right.type
    (.binary ⟨id, span, type⟩ op left right,
      inLeft ++ inRight ++ reported problems span ++ reported (divisorRule op right) right.span)
  | .unary id span op operand =>
    let (operand, inOperand) := typeExpr c operand
    let (type, problems) := unaryRule op operand.type
    (.unary ⟨id, span, type⟩ op operand, inOperand ++ reported problems span)
  | .call id span callee calleeSpan arguments =>
    let symbol := c.resolution.references.get? id
    let (arguments, inArguments) := typeExprs c arguments
    let (type, problems) := callRule c callee calleeSpan span arguments symbol
    (.call ⟨id, span, type⟩ callee symbol arguments, inArguments ++ problems)
  | .assignment id span target targetSpan value =>
    let (value, inValue) := typeExpr c value
    let symbol := c.resolution.references.get? id
    let (type, problems) := assignmentRule c target targetSpan span value.type symbol
    (.assignment ⟨id, span, type⟩ target symbol value, inValue ++ problems)

/-- Types expressions in order. -/
def typeExprs (c : Context) : List Expr → List Typed.Expr × List Diagnostic
  | [] => ([], [])
  | e :: es =>
    let (first, inFirst) := typeExpr c e
    let (rest, inRest) := typeExprs c es
    (first :: rest, inFirst ++ inRest)

end

end MiniLang.Typing
