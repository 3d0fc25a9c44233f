import MiniLang.Proofs.Scope.Moved
import MiniLang.Typing.Statement

/-!
# Typing at other places

No decision of the type checker depends on where something stands: typing a program whose parts
stand elsewhere gives the same types and reports the same problems, each at the place where its
cause stands now. Each rule and each step of the checker has its lemma.
-/

set_option autoImplicit false

namespace MiniLang

variable (move : Span → Span)

namespace Typed

/-- The same node at another place. -/
def Info.moved (info : Info) : Info := { info with span := move info.span }

namespace Expr

mutual

/-- The same expression at other places. -/
def moved : Expr → Expr
  | literal info value => literal (info.moved move) value
  | var info name symbol => var (info.moved move) name symbol
  | binary info op left right => binary (info.moved move) op (moved left) (moved right)
  | unary info op operand => unary (info.moved move) op (moved operand)
  | call info callee symbol arguments => call (info.moved move) callee symbol (movedAll arguments)
  | assignment info target symbol value => assignment (info.moved move) target symbol (moved value)

/-- The same expressions at other places. -/
def movedAll : List Expr → List Expr
  | [] => []
  | e :: es => moved e :: movedAll es

end

theorem type_moved (e : Expr) : (e.moved move).type = e.type := by cases e <;> rfl

theorem span_moved (e : Expr) : (e.moved move).span = move e.span := by cases e <;> rfl

theorem literal?_moved (e : Expr) : (e.moved move).literal? = e.literal? := by cases e <;> rfl

theorem length_movedAll : ∀ es : List Expr, (movedAll move es).length = es.length
  | [] => rfl
  | _ :: es => congrArg (· + 1) (length_movedAll es)

end Expr

namespace Stmt

mutual

/-- The same statement at other places. -/
def moved : Stmt → Stmt
  | letVar span name symbol type value => letVar (move span) name symbol type (value.moved move)
  | ifThen span condition thenBlock =>
    ifThen (move span) (condition.moved move) (movedBlock thenBlock)
  | ifThenElse span condition thenBlock elseBranch =>
    ifThenElse (move span) (condition.moved move) (movedBlock thenBlock) (moved elseBranch)
  | whileLoop span condition body =>
    whileLoop (move span) (condition.moved move) (movedBlock body)
  | block b => block (movedBlock b)
  | expression span value => expression (move span) (value.moved move)
  | function span header body => function (move span) header (movedBlock body)
  | ret span value => ret (move span) (value.map (Expr.moved move))
  | error span => error (move span)

/-- The same block at other places. -/
def movedBlock : Block → Block
  | .mk scope span body => .mk scope (move span) (movedAll body)

/-- The same statements at other places. -/
def movedAll : List Stmt → List Stmt
  | [] => []
  | s :: ss => moved s :: movedAll ss

end

mutual

theorem returns_moved : ∀ s : Stmt, (s.moved move).returns = s.returns
  | ifThenElse _ _ thenBlock elseBranch => by
    rw [moved, returns, returns, blockReturns_moved thenBlock, returns_moved elseBranch]
  | block b => by rw [moved, returns, returns, blockReturns_moved b]
  | letVar .. | ifThen .. | whileLoop .. | expression .. | function .. | ret .. | error .. => rfl

theorem blockReturns_moved : ∀ b : Block, blockReturns (movedBlock move b) = blockReturns b
  | .mk _ _ body => by rw [movedBlock, blockReturns, blockReturns, anyReturns_moved body]

theorem anyReturns_moved : ∀ ss : List Stmt, anyReturns (movedAll move ss) = anyReturns ss
  | [] => rfl
  | s :: ss => by rw [movedAll, anyReturns, anyReturns, returns_moved s, anyReturns_moved ss]

end

end Stmt

/-- The same program at other places. -/
def Program.moved (p : Program) : Program :=
  ⟨move p.span, Stmt.movedAll move p.body, p.tree.moved move⟩

end Typed

namespace Typing

/-! ## Expressions -/

/-- What is known of names that are declared elsewhere. -/
def Context.moved (c : Context) : Context := { c with resolution := c.resolution.moved move }

theorem reported_moved (problems : List Problem) (span : Span) :
    (reported problems span).map (Diagnostic.moved move) = reported problems (move span) := by
  simp [reported, Diagnostic.of_moved]

theorem Context.symbolType_moved (c : Context) (ref : SymbolRef) :
    (c.moved move).symbolType ref = c.symbolType ref := by
  have found : (c.moved move).resolution.tree.symbol? ref =
      (c.resolution.tree.symbol? ref).map (Symbol.moved move) := ScopeTree.symbol?_moved ..
  unfold symbolType
  rw [found]
  cases c.resolution.tree.symbol? ref with
  | none => rfl
  | some symbol =>
    obtain ⟨name, kind, type, scope, span, node⟩ := symbol
    cases type <;> rfl

theorem Context.isFunction_moved (c : Context) (ref : SymbolRef) :
    (c.moved move).isFunction ref = c.isFunction ref := by
  have found : (c.moved move).resolution.tree.symbol? ref =
      (c.resolution.tree.symbol? ref).map (Symbol.moved move) := ScopeTree.symbol?_moved ..
  unfold isFunction
  rw [found]
  cases c.resolution.tree.symbol? ref <;> rfl

variable (c : Context)

theorem references_moved :
    (c.moved move).resolution.references = c.resolution.references := rfl

theorem divisorRule_moved (op : BinaryOp) (right : Typed.Expr) :
    divisorRule op (right.moved move) = divisorRule op right := by
  simp only [divisorRule, Typed.Expr.literal?_moved]

theorem nameRule_moved (name : String) (symbol : Option SymbolRef) :
    nameRule (c.moved move) name symbol = nameRule c name symbol := by
  cases symbol with
  | none => rfl
  | some ref => simp only [nameRule, Context.isFunction_moved, Context.symbolType_moved]

theorem argumentRule_moved (callee : String) :
    ∀ (position : Nat) (params : List Ty) (arguments : List Typed.Expr),
      argumentRule callee position params (Typed.Expr.movedAll move arguments) =
        (argumentRule callee position params arguments).map (Diagnostic.moved move)
  | _, [], _ => by simp [argumentRule]
  | _, _ :: _, [] => rfl
  | position, param :: params, argument :: arguments => by
    simp only [Typed.Expr.movedAll, argumentRule, Typed.Expr.type_moved, Typed.Expr.span_moved,
      List.map_append, reported_moved, argumentRule_moved callee (position + 1) params arguments]

theorem callRule_moved (callee : String) (calleeSpan span : Span) (arguments : List Typed.Expr)
    (symbol : Option SymbolRef) :
    callRule (c.moved move) callee (move calleeSpan) (move span)
        (Typed.Expr.movedAll move arguments) symbol =
      ((callRule c callee calleeSpan span arguments symbol).1,
        (callRule c callee calleeSpan span arguments symbol).2.map (Diagnostic.moved move)) := by
  cases symbol with
  | none => rfl
  | some ref =>
    simp only [callRule, Context.symbolType_moved, Typed.Expr.length_movedAll,
      argumentRule_moved]
    split
    · rfl
    · split
      · split
        · rfl
        · rw [← reported_moved]
      · rw [← reported_moved]

theorem assignmentRule_moved (target : String) (targetSpan span : Span) (value : Ty)
    (symbol : Option SymbolRef) :
    assignmentRule (c.moved move) target (move targetSpan) (move span) value symbol =
      ((assignmentRule c target targetSpan span value symbol).1,
        (assignmentRule c target targetSpan span value symbol).2.map (Diagnostic.moved move)) := by
  cases symbol with
  | none => rfl
  | some ref =>
    simp only [assignmentRule, Context.isFunction_moved, Context.symbolType_moved]
    split
    · rw [← reported_moved]
    · split
      · rfl
      · rw [← reported_moved]

mutual

theorem typeExpr_moved : ∀ e : Expr, typeExpr (c.moved move) (e.view (.moved move)) =
    ((typeExpr c e).1.moved move, (typeExpr c e).2.map (Diagnostic.moved move))
  | .literal .. => rfl
  | .var id span name => by
    simp only [Expr.view, typeExpr, references_moved, nameRule_moved, reported_moved,
      View.span_moved]
    rfl
  | .binary _ span op left right => by
    simp only [Expr.view, typeExpr, typeExpr_moved left, typeExpr_moved right,
      Typed.Expr.type_moved, Typed.Expr.span_moved, divisorRule_moved, List.map_append,
      reported_moved, View.span_moved]
    rfl
  | .unary _ span op operand => by
    simp only [Expr.view, typeExpr, typeExpr_moved operand, Typed.Expr.type_moved,
      List.map_append, reported_moved, View.span_moved]
    rfl
  | .call id span callee calleeSpan arguments => by
    simp only [Expr.view, typeExpr, typeExprs_moved arguments, references_moved, callRule_moved,
      List.map_append, View.span_moved]
    rfl
  | .assignment id span target targetSpan value => by
    simp only [Expr.view, typeExpr, typeExpr_moved value, references_moved, assignmentRule_moved,
      Typed.Expr.type_moved, List.map_append, View.span_moved]
    rfl

theorem typeExprs_moved : ∀ es : List Expr,
    typeExprs (c.moved move) (Expr.viewAll (.moved move) es) =
      (Typed.Expr.movedAll move (typeExprs c es).1,
        (typeExprs c es).2.map (Diagnostic.moved move))
  | [] => rfl
  | e :: es => by
    simp only [Expr.viewAll, typeExprs, typeExpr_moved e, typeExprs_moved es, List.map_append]
    rfl

end

/-! ## Statements -/

namespace Checker

/-- Typing in progress of what stands elsewhere. -/
def moved (k : Checker) : Checker := ⟨k.context.moved move, k.session.moved move⟩

variable (k : Checker)

theorem recordAll_moved (ds : List Diagnostic) :
    (k.moved move).recordAll (ds.map (Diagnostic.moved move)) = (k.recordAll ds).moved move := by
  simp only [recordAll, moved, Session.recordAll_moved]

theorem infer_moved (symbol : Option SymbolRef) (type : Ty) :
    (k.moved move).infer symbol type = (k.infer symbol type).moved move := by
  cases symbol <;> rfl

theorem expr_moved (e : Expr) : (k.moved move).expr (e.view (.moved move)) =
    ((k.expr e).1.moved move, (k.expr e).2.moved move) := by
  have typed := typeExpr_moved move k.context e
  unfold expr
  simp only [show (k.moved move).context = k.context.moved move from rfl, typed, recordAll_moved]

theorem condition_moved (e : Expr) : (k.moved move).condition (e.view (.moved move)) =
    ((k.condition e).1.moved move, (k.condition e).2.moved move) := by
  unfold condition
  simp only [expr_moved, Typed.Expr.type_moved, Typed.Expr.span_moved, ← reported_moved,
    recordAll_moved]

theorem checkpoint_moved (span : Span) : (k.moved move).checkpoint (move span) =
    ((k.checkpoint span).1, (k.checkpoint span).2.moved move) := by
  unfold checkpoint
  simp only [moved, Session.checkpoint_moved]

/-- Reporting unreachable code. -/
theorem warned_moved (afterReturn : Bool) (span : Span) :
    (if afterReturn then (k.moved move).recordAll (reported [.unreachableCode] (move span))
      else k.moved move) =
    (if afterReturn then k.recordAll (reported [.unreachableCode] span) else k).moved move := by
  rw [← reported_moved, recordAll_moved]
  split <;> rfl

end Checker

theorem declarationRule_moved (name : String) (declared : Option WrittenType) (value : Ty) :
    declarationRule name (declared.map (WrittenType.view (.moved move))) value =
      declarationRule name declared value := by
  cases declared <;> rfl

theorem returnRule_moved (expected : Option Ty) (span : Span) (value : Option Typed.Expr) :
    returnRule expected (move span) (value.map (Typed.Expr.moved move)) =
      (returnRule expected span value).map (Diagnostic.moved move) := by
  cases expected with
  | none => rfl
  | some expected =>
    cases value with
    | none => simp only [returnRule, Option.map_none, reported_moved]
    | some e =>
      simp only [returnRule, Option.map_some, Typed.Expr.type_moved, Typed.Expr.span_moved,
        reported_moved]

theorem functionRule_moved (header : FunctionHeader) (body : Typed.Block) :
    functionRule (header.view (.moved move)) (Typed.Stmt.movedBlock move body) =
      (functionRule header body).map (Diagnostic.moved move) := by
  have type : Ty.ofReturn (header.view (.moved move)).returnType = Ty.ofReturn header.returnType :=
    Ty.ofReturn_moved move header.returnType
  have returns : (Typed.Stmt.movedBlock move body).returns = body.returns :=
    Typed.Stmt.blockReturns_moved move body
  unfold functionRule
  rw [type, returns]
  split
  · exact (reported_moved move [.missingReturn header.name] header.nameSpan).symm
  · rfl

theorem typeHeader_moved (r : Resolution) (f : FunctionHeader) :
    typeHeader (r.moved move) (f.view (.moved move)) = typeHeader r f := by
  simp only [typeHeader, FunctionHeader.view, Ty.ofReturn_moved, List.map_map]
  rfl

mutual

theorem typeStmt_moved (expected : Option Ty) : ∀ (s : Stmt) (k : Checker),
    typeStmt expected (s.view (.moved move)) (k.moved move) =
      ((typeStmt expected s k).1.moved move, (typeStmt expected s k).2.moved move)
  | .letVar id span name nameSpan declared value, k => by
    simp only [Stmt.view, typeStmt, Checker.expr_moved, Typed.Expr.type_moved,
      declarationRule_moved, Typed.Expr.span_moved, ← reported_moved, Checker.recordAll_moved]
    exact congrArg (Prod.mk _) (Checker.infer_moved ..)
  | .ifThen span condition thenBlock, k => by
    simp only [Stmt.view, typeStmt, Checker.condition_moved, typeBlock_moved expected thenBlock]
    rfl
  | .ifThenElse span condition thenBlock elseBranch, k => by
    simp only [Stmt.view, typeStmt, Checker.condition_moved, typeBlock_moved expected thenBlock,
      typeStmt_moved expected elseBranch]
    rfl
  | .whileLoop span condition body, k => by
    simp only [Stmt.view, typeStmt, Checker.condition_moved, Stmt.span_viewBlock, View.span_moved,
      Checker.checkpoint_moved]
    split
    · rw [typeBlock_moved expected body]
      rfl
    · rfl
  | .block b, k => by
    simp only [Stmt.view, typeStmt, typeBlock_moved expected b]
    rfl
  | .expression span value, k => by
    simp only [Stmt.view, typeStmt, Checker.expr_moved]
    rfl
  | .function span header body, k => by
    have type : Ty.ofReturn (header.view (.moved move)).returnType =
        Ty.ofReturn header.returnType := Ty.ofReturn_moved move header.returnType
    have typed := fun k : Checker => typeHeader_moved move k.context.resolution header
    simp only [Stmt.view, typeStmt, type, typeBlock_moved (some (.ofReturn header.returnType)) body,
      functionRule_moved, Checker.recordAll_moved]
    exact congrArg (fun header => (Typed.Stmt.function _ header _, _)) (typed _)
  | .ret span (some e), k => by
    have rule := fun e => returnRule_moved move expected span (some e)
    simp only [Option.map_some] at rule
    simp only [Stmt.view, Option.map_some, typeStmt, Checker.expr_moved, View.span_moved, rule,
      Checker.recordAll_moved]
    rfl
  | .ret span none, k => by
    have rule := returnRule_moved move expected span none
    simp only [Option.map_none] at rule
    simp only [Stmt.view, Option.map_none, typeStmt, View.span_moved, rule,
      Checker.recordAll_moved]
    rfl
  | .error span, k => rfl

theorem typeBlock_moved (expected : Option Ty) : ∀ (b : Block) (k : Checker),
    typeBlock expected (Stmt.viewBlock (.moved move) b) (k.moved move) =
      (Typed.Stmt.movedBlock move (typeBlock expected b k).1, (typeBlock expected b k).2.moved move)
  | .mk id span body, k => by
    simp only [Stmt.viewBlock, typeBlock, typeAll_moved expected false body]
    rfl

theorem typeAll_moved (expected : Option Ty) (afterReturn : Bool) :
    ∀ (ss : List Stmt) (k : Checker),
      typeAll expected afterReturn (Stmt.viewAll (.moved move) ss) (k.moved move) =
        (Typed.Stmt.movedAll move (typeAll expected afterReturn ss k).1,
          (typeAll expected afterReturn ss k).2.moved move)
  | [], k => rfl
  | s :: ss, k => by
    simp only [Stmt.viewAll, typeAll, Stmt.span_view, View.span_moved, Checker.warned_moved,
      typeStmt_moved expected s, Stmt.isReturn_view, typeAll_moved expected s.isReturn ss]
    rfl

end

end Typing

end MiniLang
