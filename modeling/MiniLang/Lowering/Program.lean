import MiniLang.Lowering.Expression

/-!
# Code for statements and programs

The statements outside of functions make up the entry function, and every declared function becomes
a function of its own, with numbers of its own. All code ends with a `return`.
-/

set_option autoImplicit false

namespace MiniLang.Lowering

open Ir

/-- Fails on a statement that stands nowhere. -/
def checkSpan (span : Span) : Except InternalError Unit :=
  if span.Valid then .ok () else .error (.invalidSpan span)

mutual

/-- The code of a statement. Functions inside others have none. -/
def lowerStmt (folding : Bool) : Typed.Stmt → Lower (List Instr)
  | .letVar span name symbol _ value => do
    checkSpan span
    let value ← lowerExpr folding value
    let place ← placeOf symbol name span
    return value.code ++ [.store place value.operand]
  | .ifThen span condition thenBlock => do
    checkSpan span
    let number ← freshLabel
    let condition ← lowerExpr folding condition
    let thenCode ← lowerBlock folding thenBlock
    return choice number condition thenCode
  | .ifThenElse span condition thenBlock elseBranch => do
    checkSpan span
    let number ← freshLabel
    let condition ← lowerExpr folding condition
    let thenCode ← lowerBlock folding thenBlock
    let elseCode ← lowerStmt folding elseBranch
    return choiceElse number condition thenCode elseCode
  | .whileLoop span condition body => do
    checkSpan span
    let number ← freshLabel
    let condition ← lowerExpr folding condition
    let body ← lowerBlock folding body
    return loop number condition body
  | .block b => do
    checkSpan b.span
    lowerBlock folding b
  | .expression span value => do
    checkSpan span
    let value ← lowerExpr folding value
    return value.code
  | .function span _ _ => do
    checkSpan span
    return []
  | .ret span none => do
    checkSpan span
    return [.ret none]
  | .ret span (some value) => do
    checkSpan span
    let value ← lowerExpr folding value
    return value.code ++ [.ret (some value.operand)]
  | .error span => do
    checkSpan span
    throw (.errorNode span)

/-- The code of a block. -/
def lowerBlock (folding : Bool) : Typed.Block → Lower (List Instr)
  | .mk _ _ body => lowerAll folding body

/-- The code of statements in order. -/
def lowerAll (folding : Bool) : List Typed.Stmt → Lower (List Instr)
  | [] => return []
  | s :: ss => do
    let first ← lowerStmt folding s
    let rest ← lowerAll folding ss
    return first ++ rest

end

/-- A function from the code of its body. -/
def function (name : String) (params : List Place) (body : Lower (List Instr)) :
    Except InternalError Function := do
  let (code, fresh) ← body.run {}
  return { name := name, params := params, code := closed code, temps := fresh.temp }

/-- The function that a program starts with: its statements that declare no function. -/
def lowerEntry (folding : Bool) (body : List Typed.Stmt) : Except InternalError Function :=
  function Ir.Program.entryName [] (lowerAll folding (body.filter (!·.isFunction)))

/-- A declared function. -/
def lowerFunction (folding : Bool) : Typed.Program.Function → Except InternalError Function
  | (span, header, body) => do
    let params ← header.params.mapM fun p => placeOf p.symbol p.name span
    function header.name params (lowerBlock folding body)

end Lowering

/-- Generates the code of a program. Only a program that has errors makes it fail. -/
def generate (folding : Bool) (p : Typed.Program) : Except InternalError Ir.Program := do
  let entry ← Lowering.lowerEntry folding p.body
  let functions ← p.functions.mapM (Lowering.lowerFunction folding)
  return ⟨entry :: functions⟩

end MiniLang
