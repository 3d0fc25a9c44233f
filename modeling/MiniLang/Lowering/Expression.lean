import MiniLang.InternalError
import MiniLang.Lowering.Folding
import MiniLang.Lowering.Layout
import MiniLang.Typing.TypedSyntax

/-!
# Code for expressions

Every part of an expression gets a temporary of its own for its value, from left to right, so that
no temporary is written twice. Values that are written out need no code. The numbers of temporaries
and labels are handed out in order; an operator that may skip its right operand takes its label
before the labels inside its operands.
-/

set_option autoImplicit false

namespace MiniLang.Lowering

open Ir

/-- The first temporary and the first label number that a function does not use yet. -/
structure Fresh where
  temp : Temp := 0
  label : Nat := 0
  deriving DecidableEq, Repr

/-- Code generation: draws numbers, and fails on a program that should not be here. -/
abbrev Lower := StateT Fresh (Except InternalError)

/-- Draws a temporary. -/
def freshTemp : Lower Temp :=
  fun fresh => .ok (fresh.temp, { fresh with temp := fresh.temp + 1 })

/-- Draws a label number. -/
def freshLabel : Lower Nat :=
  fun fresh => .ok (fresh.label, { fresh with label := fresh.label + 1 })

/-- Where a variable or parameter lives: those of the global scope are shared, the others are told
apart by the scope that declares them. -/
def placeOf (symbol : Option SymbolRef) (name : String) (span : Span) :
    Except InternalError Place :=
  match symbol with
  | none => .error (.unresolvedName name span)
  | some ref =>
    if ref.scope = globalScope then .ok (.global name)
    else .ok (.frame (name ++ "." ++ toString ref.scope))

/-- Fails on an expression whose type is an error. -/
def checkType (info : Typed.Info) : Except InternalError Unit :=
  if info.type.isError then .error (.errorType info.span) else .ok ()

/-- The value of an operator between written-out values, if folding is wanted. -/
def folded? (folding : Bool) (op : BinaryOp) (left right : Typed.Expr) : Option Int := do
  guard folding
  fold? op (← left.literal?) (← right.literal?)

mutual

/-- The code of an expression. -/
def lowerExpr (folding : Bool) : Typed.Expr → Lower Value
  | .literal info value => do
    checkType info
    return ⟨[], .const value.code⟩
  | .var info name symbol => do
    checkType info
    let place ← placeOf symbol name info.span
    let dest ← freshTemp
    return ⟨[.load dest place], .temp dest⟩
  | .binary info op left right => do
    checkType info
    match folded? folding op left right with
    | some value => return ⟨[], .const value⟩
    | none =>
      if op.isLogical then
        let number ← freshLabel
        let left ← lowerExpr folding left
        let right ← lowerExpr folding right
        let dest ← freshTemp
        return shortCircuit op number left right dest
      else
        let left ← lowerExpr folding left
        let right ← lowerExpr folding right
        let dest ← freshTemp
        return ⟨left.code ++ right.code ++ [.binary dest op left.operand right.operand],
          .temp dest⟩
  | .unary info op operand => do
    checkType info
    let operand ← lowerExpr folding operand
    let dest ← freshTemp
    return ⟨operand.code ++ [.unary dest op operand.operand], .temp dest⟩
  | .call info callee symbol arguments => do
    checkType info
    match symbol with
    | none => throw (.unresolvedName callee info.span)
    | some _ =>
      let arguments ← lowerExprs folding arguments
      let code := arguments.flatMap Value.code
      let operands := arguments.map Value.operand
      if info.type = .unit then
        return ⟨code ++ [.call none callee operands], .const 0⟩
      else
        let dest ← freshTemp
        return ⟨code ++ [.call (some dest) callee operands], .temp dest⟩
  | .assignment info target symbol value => do
    checkType info
    let value ← lowerExpr folding value
    let place ← placeOf symbol target info.span
    return ⟨value.code ++ [.store place value.operand], value.operand⟩

/-- The code of expressions in order. -/
def lowerExprs (folding : Bool) : List Typed.Expr → Lower (List Value)
  | [] => return []
  | e :: es => do
    let first ← lowerExpr folding e
    let rest ← lowerExprs folding es
    return first :: rest

end

end MiniLang.Lowering
