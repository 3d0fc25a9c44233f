import MiniLang.Typing.Expression

/-!
# Typing statements and programs

Statements are typed in order, since a variable that states no type gets the one of its first
value. A value has to fit the type that is stated for it, a condition has to be a truth value, and
a function with a return type has to return such a value on every path. The first statement after a
`return` of the same list is warned about.
-/

set_option autoImplicit false

namespace MiniLang.Typing

/-- Typing in progress: the types inferred so far, and the session. -/
structure Checker where
  context : Context
  session : Session

namespace Checker

/-- Before anything is typed. -/
def start (resolution : Resolution) (s : Session) : Checker := ⟨{ resolution := resolution }, s⟩

/-- Records diagnostics. -/
def recordAll (k : Checker) (ds : List Diagnostic) : Checker :=
  { k with session := k.session.recordAll ds }

/-- Keeps the type inferred for a symbol. -/
def infer (k : Checker) (symbol : Option SymbolRef) (type : Ty) : Checker :=
  match symbol with
  | some ref =>
    { k with context := { k.context with inferred := k.context.inferred.insert ref type } }
  | none => k

/-- Types an expression. -/
def expr (k : Checker) (e : Expr) : Typed.Expr × Checker :=
  let (typed, ds) := typeExpr k.context e
  (typed, k.recordAll ds)

/-- Types an expression that has to be a truth value. -/
def condition (k : Checker) (e : Expr) : Typed.Expr × Checker :=
  let (typed, k) := k.expr e
  (typed, k.recordAll (reported (mismatch .bool typed.type) typed.span))

/-- Asks the session whether to go on. -/
def checkpoint (k : Checker) (span : Span) : Bool × Checker :=
  let (passed, session) := k.session.checkpoint span
  (passed, { k with session := session })

end Checker

/-- The type of a declared variable, and the problem of its first value: the value has to fit the
stated type; without one the variable takes the value's type, but has to have a value. -/
def declarationRule (name : String) (declared : Option WrittenType) (value : Ty) :
    Ty × List Problem :=
  match declared with
  | some type => (.ofName type.name, mismatch (.ofName type.name) value)
  | none => if value = .unit then (.error, [.unitValue name]) else (value, [])

/-- The problem of a `return` in a function that gives back `expected`. At the top level nothing is
expected, and there is a complaint already. -/
def returnRule (expected : Option Ty) (span : Span) (value : Option Typed.Expr) : List Diagnostic :=
  match expected, value with
  | none, _ => []
  | some expected, some e => reported (mismatch expected e.type) e.span
  | some expected, none => reported (mismatch expected .unit) span

/-- The problem of a function whose body may reach its end though a value is expected. -/
def functionRule (header : FunctionHeader) (body : Typed.Block) : List Diagnostic :=
  if Ty.ofReturn header.returnType ≠ .unit && !body.returns then
    reported [.missingReturn header.name] header.nameSpan
  else
    []

/-- A function header with symbols and types. -/
def typeHeader (r : Resolution) (f : FunctionHeader) : Typed.FunctionHeader where
  name := f.name
  symbol := r.declarations.get? f.id
  params := f.params.map fun p => ⟨p.name, r.declarations.get? p.id, .ofName p.type.name⟩
  returnType := .ofReturn f.returnType

mutual

/-- Types a statement in a function that gives back `expected`. -/
def typeStmt (expected : Option Ty) : Stmt → Checker → Typed.Stmt × Checker
  | .letVar id span name _ declared value, k =>
    let (value, k) := k.expr value
    let symbol := k.context.resolution.declarations.get? id
    let (type, problems) := declarationRule name declared value.type
    (.letVar span name symbol type value,
      (k.recordAll (reported problems value.span)).infer symbol type)
  | .ifThen span test thenBlock, k =>
    let (test, k) := k.condition test
    let (thenBlock, k) := typeBlock expected thenBlock k
    (.ifThen span test thenBlock, k)
  | .ifThenElse span test thenBlock elseBranch, k =>
    let (test, k) := k.condition test
    let (thenBlock, k) := typeBlock expected thenBlock k
    let (elseBranch, k) := typeStmt expected elseBranch k
    (.ifThenElse span test thenBlock elseBranch, k)
  | .whileLoop span test body, k =>
    let (test, k) := k.condition test
    let (passed, k) := k.checkpoint body.span
    if passed then
      let (body, k) := typeBlock expected body k
      (.whileLoop span test body, k)
    else
      (.whileLoop span test (.mk none body.span []), k)
  | .block b, k =>
    let (b, k) := typeBlock expected b k
    (.block b, k)
  | .expression span e, k =>
    let (e, k) := k.expr e
    (.expression span e, k)
  | .function span header body, k =>
    let (body, k) := typeBlock (some (.ofReturn header.returnType)) body k
    (.function span (typeHeader k.context.resolution header) body,
      k.recordAll (functionRule header body))
  | .ret span (some e), k =>
    let (e, k) := k.expr e
    (.ret span (some e), k.recordAll (returnRule expected span (some e)))
  | .ret span none, k => (.ret span none, k.recordAll (returnRule expected span none))
  | .error span, k => (.error span, k)

/-- Types a block. -/
def typeBlock (expected : Option Ty) : Block → Checker → Typed.Block × Checker
  | .mk id span body, k =>
    let scope := k.context.resolution.blockScopes.get? id
    let (body, k) := typeAll expected false body k
    (.mk scope span body, k)

/-- Types the statements of a block in order; `afterReturn` says whether a `return` stands just
before them. -/
def typeAll (expected : Option Ty) (afterReturn : Bool) :
    List Stmt → Checker → List Typed.Stmt × Checker
  | [], k => ([], k)
  | s :: ss, k =>
    let k := if afterReturn then k.recordAll (reported [.unreachableCode] s.span) else k
    let (first, k) := typeStmt expected s k
    let (rest, k) := typeAll expected s.isReturn ss k
    (first :: rest, k)

end

/-- Types the statements of a program in order, with a checkpoint before each. -/
def typeTopLevel (afterReturn : Bool) : List Stmt → Checker → List Typed.Stmt × Checker
  | [], k => ([], k)
  | s :: ss, k =>
    let (passed, k) := k.checkpoint s.span
    if passed then
      let k := if afterReturn then k.recordAll (reported [.unreachableCode] s.span) else k
      let (first, k) := typeStmt none s k
      let (rest, k) := typeTopLevel s.isReturn ss k
      (first :: rest, k)
    else
      ([], k)

end Typing

/-- Types a program whose names are resolved. -/
def typeCheck (p : Program) (r : Resolution) (s : Session) : Typed.Program × Session :=
  let (body, k) := Typing.typeTopLevel false p.body (.start r s)
  (⟨p.span, body, r.tree⟩, k.session)

end MiniLang
