import MiniLang.Syntax.Expr

/-!
# Statements and programs

The tree of a program. Where a statement could not be read, an error placeholder stands in its
place; expressions hold none. `preorder` lists a statement before the statements below it.
-/

set_option autoImplicit false

namespace MiniLang

/-- The types that can be written in a source text. -/
inductive TypeName where
  | int
  | bool
  deriving DecidableEq, Repr

namespace TypeName

/-- A type as it is written. -/
def text : TypeName → String
  | int => "int"
  | bool => "bool"

end TypeName

/-- A type written in a source text, and where it stands. -/
structure WrittenType where
  name : TypeName
  span : Span
  deriving DecidableEq, Repr

/-- A parameter of a function. -/
structure Param where
  id : NodeId
  span : Span
  name : String
  type : WrittenType
  deriving DecidableEq, Repr

/-- A function without its body. A function without a return type returns no value. -/
structure FunctionHeader where
  id : NodeId
  name : String
  nameSpan : Span
  params : List Param
  returnType : Option WrittenType
  deriving DecidableEq, Repr

mutual

/-- Statements. -/
inductive Stmt where
  /-- Declares a variable and gives it its first value. -/
  | letVar (id : NodeId) (span : Span) (name : String) (nameSpan : Span)
      (declared : Option WrittenType) (value : Expr)
  /-- Runs a block if a condition holds. -/
  | ifThen (span : Span) (condition : Expr) (thenBlock : Block)
  /-- Runs a block if a condition holds, and another statement if it does not. -/
  | ifThenElse (span : Span) (condition : Expr) (thenBlock : Block) (elseBranch : Stmt)
  /-- Runs a block as long as a condition holds. -/
  | whileLoop (span : Span) (condition : Expr) (body : Block)
  /-- A block by itself. -/
  | block (inner : Block)
  /-- Evaluates an expression. -/
  | expression (span : Span) (value : Expr)
  /-- Declares a function. -/
  | function (span : Span) (header : FunctionHeader) (body : Block)
  /-- Leaves the function, with a value if there is one. -/
  | ret (span : Span) (value : Option Expr)
  /-- Stands for text that is no statement. -/
  | error (span : Span)

/-- Statements between braces, with a scope of their own. -/
inductive Block where
  | mk (id : NodeId) (span : Span) (body : List Stmt)

end

/-- The statements of a source text. -/
structure Program where
  span : Span
  body : List Stmt

namespace Block

/-- The number of a block. -/
def id : Block → NodeId
  | mk id _ _ => id

/-- Where a block stands, its braces included. -/
def span : Block → Span
  | mk _ span _ => span

/-- The statements of a block. -/
def body : Block → List Stmt
  | mk _ _ body => body

end Block

namespace Stmt

/-- Where a statement stands. -/
def span : Stmt → Span
  | letVar _ span _ _ _ _ => span
  | ifThen span _ _ => span
  | ifThenElse span _ _ _ => span
  | whileLoop span _ _ => span
  | block b => b.span
  | expression span _ => span
  | function span _ _ => span
  | ret span _ => span
  | error span => span

/-- Whether a statement is an error placeholder. -/
def isError : Stmt → Bool
  | error _ => true
  | _ => false

/-- Whether a statement is a `return`. -/
def isReturn : Stmt → Bool
  | ret _ _ => true
  | _ => false

/-- The function that a statement declares. -/
def function? : Stmt → Option (FunctionHeader × Block)
  | function _ header body => some (header, body)
  | _ => none

/-- The expressions that a statement holds itself, not those of statements below it. -/
def ownExprs : Stmt → List Expr
  | letVar _ _ _ _ _ value => [value]
  | ifThen _ condition _ => [condition]
  | ifThenElse _ condition _ _ => [condition]
  | whileLoop _ condition _ => [condition]
  | expression _ value => [value]
  | ret _ value => value.toList
  | block _ | function _ _ _ | error _ => []

mutual

/-- A statement and all statements below it, parents first. -/
def preorder : Stmt → List Stmt
  | letVar id span name nameSpan declared value =>
    [letVar id span name nameSpan declared value]
  | ifThen span condition thenBlock => ifThen span condition thenBlock :: inBlock thenBlock
  | ifThenElse span condition thenBlock elseBranch =>
    ifThenElse span condition thenBlock elseBranch :: (inBlock thenBlock ++ preorder elseBranch)
  | whileLoop span condition body => whileLoop span condition body :: inBlock body
  | block b => block b :: inBlock b
  | expression span value => [expression span value]
  | function span header body => function span header body :: inBlock body
  | ret span value => [ret span value]
  | error span => [error span]

/-- All statements of a block and those below them, in order. -/
def inBlock : Block → List Stmt
  | .mk _ _ body => preorderAll body

/-- All given statements and those below them, in order. -/
def preorderAll : List Stmt → List Stmt
  | [] => []
  | s :: ss => preorder s ++ preorderAll ss

end

theorem preorderAll_eq_flatMap (ss : List Stmt) : preorderAll ss = ss.flatMap preorder := by
  induction ss with
  | nil => rfl
  | cons s ss ih => simp [preorderAll, ih]

/-- The list starts with the statement itself. -/
theorem head?_preorder (s : Stmt) : (preorder s).head? = some s := by
  cases s <;> simp [preorder]

end Stmt

namespace Program

/-- All statements of a program, those inside others included, in order. -/
def statements (p : Program) : List Stmt := Stmt.preorderAll p.body

/-- The functions that a program declares at its top level. -/
def functions (p : Program) : List (FunctionHeader × Block) := p.body.filterMap Stmt.function?

/-- Whether an error placeholder stands anywhere in a program. -/
def hasErrorNodes (p : Program) : Bool := p.statements.any Stmt.isError

end Program

end MiniLang
