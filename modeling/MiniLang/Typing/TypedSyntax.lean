import MiniLang.Scope.Resolution

/-!
# Typed programs

The tree of a program in which every expression has its type, and every name the symbol it refers
to, if it refers to one. Together with the scopes it holds all that is needed to generate code.
`Block.returns` says when control never reaches the end of a block.
-/

set_option autoImplicit false

namespace MiniLang.Typed

/-- What all typed expressions have: the number of the node, where it stands, and its type. -/
structure Info where
  id : NodeId
  span : Span
  type : Ty
  deriving DecidableEq, Repr

/-- Typed expressions. -/
inductive Expr where
  | literal (info : Info) (value : Literal)
  | var (info : Info) (name : String) (symbol : Option SymbolRef)
  | binary (info : Info) (op : BinaryOp) (left right : Expr)
  | unary (info : Info) (op : UnaryOp) (operand : Expr)
  | call (info : Info) (callee : String) (symbol : Option SymbolRef) (arguments : List Expr)
  | assignment (info : Info) (target : String) (symbol : Option SymbolRef) (value : Expr)
  deriving Repr

namespace Expr

/-- The number, place and type of an expression. -/
def info : Expr → Info
  | literal info _ => info
  | var info _ _ => info
  | binary info _ _ _ => info
  | unary info _ _ => info
  | call info _ _ _ => info
  | assignment info _ _ _ => info

/-- The type of an expression. -/
def type (e : Expr) : Ty := e.info.type

/-- Where an expression stands. -/
def span (e : Expr) : Span := e.info.span

/-- The value of an expression that is written out. -/
def literal? : Expr → Option Literal
  | literal _ value => some value
  | _ => none

end Expr

/-- A parameter with its symbol and type. -/
structure Param where
  name : String
  symbol : Option SymbolRef
  type : Ty
  deriving DecidableEq, Repr

/-- A function without its body. -/
structure FunctionHeader where
  name : String
  symbol : Option SymbolRef
  params : List Param
  returnType : Ty
  deriving DecidableEq, Repr

mutual

/-- Typed statements. -/
inductive Stmt where
  | letVar (span : Span) (name : String) (symbol : Option SymbolRef) (type : Ty) (value : Expr)
  | ifThen (span : Span) (condition : Expr) (thenBlock : Block)
  | ifThenElse (span : Span) (condition : Expr) (thenBlock : Block) (elseBranch : Stmt)
  | whileLoop (span : Span) (condition : Expr) (body : Block)
  | block (inner : Block)
  | expression (span : Span) (value : Expr)
  | function (span : Span) (header : FunctionHeader) (body : Block)
  | ret (span : Span) (value : Option Expr)
  | error (span : Span)

/-- Typed blocks; one that was not looked at has no scope. -/
inductive Block where
  | mk (scope : Option ScopeId) (span : Span) (body : List Stmt)

end

namespace Block

/-- Where a block stands. -/
def span : Block → Span
  | mk _ span _ => span

/-- The statements of a block. -/
def body : Block → List Stmt
  | mk _ _ body => body

end Block

namespace Stmt

/-- Where a statement stands. -/
def span : Stmt → Span
  | letVar span _ _ _ _ => span
  | ifThen span _ _ => span
  | ifThenElse span _ _ _ => span
  | whileLoop span _ _ => span
  | block b => b.span
  | expression span _ => span
  | function span _ _ => span
  | ret span _ => span
  | error span => span

/-- Whether a statement declares a function. -/
def isFunction : Stmt → Bool
  | function _ _ _ => true
  | _ => false

mutual

/-- Whether control never gets past a statement: it is a `return`, a block that has one such
statement, or a choice between two of them. A loop may run no round at all. -/
def returns : Stmt → Bool
  | ret _ _ => true
  | block b => blockReturns b
  | ifThenElse _ _ thenBlock elseBranch => blockReturns thenBlock && returns elseBranch
  | letVar _ _ _ _ _ => false
  | ifThen _ _ _ => false
  | whileLoop _ _ _ => false
  | expression _ _ => false
  | function _ _ _ => false
  | error _ => false

/-- Whether control never reaches the end of a block. -/
def blockReturns : Block → Bool
  | .mk _ _ body => anyReturns body

/-- Whether control never gets past one of the given statements. -/
def anyReturns : List Stmt → Bool
  | [] => false
  | s :: ss => returns s || anyReturns ss

end

theorem anyReturns_eq_any (ss : List Stmt) : anyReturns ss = ss.any returns := by
  induction ss with
  | nil => rfl
  | cons s ss ih => simp [anyReturns, ih]

end Stmt

namespace Block

/-- Whether control never reaches the end of a block. -/
def returns (b : Block) : Bool := Stmt.blockReturns b

end Block

/-- A typed program and its scopes. -/
structure Program where
  span : Span
  body : List Stmt
  tree : ScopeTree

namespace Program

/-- A function of a program: where it stands, what it is called with, and its body. -/
abbrev Function := Span × FunctionHeader × Block

/-- The functions that the given statements declare. -/
def functionsOf : List Stmt → List Function
  | [] => []
  | .function span header body :: ss => (span, header, body) :: functionsOf ss
  | _ :: ss => functionsOf ss

/-- The functions that a program declares at its top level. -/
def functions (p : Program) : List Function := functionsOf p.body

end Program

end MiniLang.Typed
