import MiniLang.Proofs.Syntax.Trees
import MiniLang.Typing.Statement

/-!
# All parts of a typed tree

The expressions and statements of a typed tree, however deep they stand (`Typed.Program.exprs`,
`Typed.Program.statements`), and what can be missing in one of them: the symbol of a name that an
expression uses (`Typed.Expr.unresolved`) or that a statement declares (`Typed.Stmt.undeclared`).
-/

set_option autoImplicit false

namespace MiniLang

namespace Typed

namespace Expr

mutual

/-- An expression and all expressions below it, parents first. -/
def nodes : Expr → List Expr
  | literal info value => [literal info value]
  | var info name symbol => [var info name symbol]
  | binary info op left right => binary info op left right :: (nodes left ++ nodes right)
  | unary info op operand => unary info op operand :: nodes operand
  | call info callee symbol arguments => call info callee symbol arguments :: nodesAll arguments
  | assignment info target symbol value => assignment info target symbol value :: nodes value

/-- Expressions and all expressions below them, in order. -/
def nodesAll : List Expr → List Expr
  | [] => []
  | e :: es => nodes e ++ nodesAll es

end

theorem self_mem_nodes (e : Expr) : e ∈ e.nodes := by
  cases e <;> exact List.mem_cons_self

theorem mem_nodesAll {e : Expr} {es : List Expr} (h : e ∈ es) : e ∈ nodesAll es := by
  induction es with
  | nil => cases h
  | cons first es ih =>
    rcases List.mem_cons.1 h with rfl | later
    · exact List.mem_append_left _ e.self_mem_nodes
    · exact List.mem_append_right _ (ih later)

/-- Whether the name that an expression holds itself means nothing. -/
def unresolved : Expr → Bool
  | var _ _ symbol => symbol.isNone
  | call _ _ symbol _ => symbol.isNone
  | assignment _ _ symbol _ => symbol.isNone
  | literal .. | binary .. | unary .. => false

end Expr

namespace Stmt

/-- Whether a statement stands for text that could not be read. -/
def isError : Stmt → Bool
  | error _ => true
  | _ => false

/-- The expressions that a statement holds itself, not those of statements below it. -/
def ownExprs : Stmt → List Expr
  | letVar _ _ _ _ value => [value]
  | ifThen _ condition _ => [condition]
  | ifThenElse _ condition _ _ => [condition]
  | whileLoop _ condition _ => [condition]
  | expression _ value => [value]
  | ret _ value => value.toList
  | block _ | function .. | error _ => []

/-- The type of the variable that a statement declares, if it does. -/
def variableType? : Stmt → Option Ty
  | letVar _ _ _ type _ => some type
  | _ => none

/-- Whether the variable or a parameter that a statement declares has no symbol, since its name was
declared before. -/
def undeclared : Stmt → Bool
  | letVar _ _ symbol _ _ => symbol.isNone
  | function _ header _ => header.params.any fun p => p.symbol.isNone
  | _ => false

/-- Whether a statement declares a function that has no symbol, since its name was declared
before. -/
def undeclaredFunction : Stmt → Bool
  | function _ header _ => header.symbol.isNone
  | _ => false

mutual

/-- A statement and all statements below it, parents first. -/
def preorder : Stmt → List Stmt
  | letVar span name symbol type value => [letVar span name symbol type value]
  | ifThen span condition thenBlock => ifThen span condition thenBlock :: inBlock thenBlock
  | ifThenElse span condition thenBlock elseBranch =>
    ifThenElse span condition thenBlock elseBranch :: (inBlock thenBlock ++ preorder elseBranch)
  | whileLoop span condition body => whileLoop span condition body :: inBlock body
  | block b => block b :: inBlock b
  | expression span value => [expression span value]
  | function span header body => function span header body :: inBlock body
  | ret span value => [ret span value]
  | error span => [error span]

/-- All statements of a block and those below them, in order. -/
def inBlock : Block → List Stmt
  | .mk _ _ body => preorderAll body

/-- All given statements and those below them, in order. -/
def preorderAll : List Stmt → List Stmt
  | [] => []
  | s :: ss => preorder s ++ preorderAll ss

end

theorem preorderAll_eq_flatMap (ss : List Stmt) : preorderAll ss = ss.flatMap preorder := by
  induction ss with
  | nil => rfl
  | cons s ss ih => simp [preorderAll, ih]

end Stmt

namespace Program

/-- All statements of a program, those inside others included, in order. -/
def statements (p : Program) : List Stmt := Stmt.preorderAll p.body

/-- All expressions of a program. -/
def exprs (p : Program) : List Expr :=
  p.statements.flatMap fun s => s.ownExprs.flatMap Expr.nodes

/-- The functions of a program are statements of its top level. -/
theorem mem_functionsOf {ss : List Stmt} {span : Span} {header : FunctionHeader} {body : Block} :
    (span, header, body) ∈ functionsOf ss ↔ .function span header body ∈ ss := by
  induction ss with
  | nil => simp [functionsOf]
  | cons s ss ih => cases s <;> simp [functionsOf, ih]

end Program

end Typed

end MiniLang
