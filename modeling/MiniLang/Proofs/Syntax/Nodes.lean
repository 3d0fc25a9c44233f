import MiniLang.Proofs.Syntax.View

/-!
# All expressions of a tree

The expressions of a tree by themselves, not only their numbers: those of an expression
(`Expr.nodes`) and those of statements, however deep they stand (`Stmt.exprs`).
-/

set_option autoImplicit false

namespace MiniLang

namespace Expr

mutual

/-- An expression and all expressions below it, parents first. -/
def nodes : Expr → List Expr
  | literal id span value => [literal id span value]
  | var id span name => [var id span name]
  | binary id span op left right => binary id span op left right :: (nodes left ++ nodes right)
  | unary id span op operand => unary id span op operand :: nodes operand
  | call id span callee calleeSpan arguments =>
    call id span callee calleeSpan arguments :: nodesAll arguments
  | assignment id span target targetSpan value =>
    assignment id span target targetSpan value :: nodes value

/-- Expressions and all expressions below them, in order. -/
def nodesAll : List Expr → List Expr
  | [] => []
  | e :: es => nodes e ++ nodesAll es

end

mutual

theorem map_id_nodes : ∀ e : Expr, e.nodes.map id = e.preorder
  | literal .. | var .. => rfl
  | binary _ _ _ left right => by
    rw [nodes, List.map_cons, List.map_append, map_id_nodes left, map_id_nodes right]
    rfl
  | unary _ _ _ operand => by
    rw [nodes, List.map_cons, map_id_nodes operand]
    rfl
  | call _ _ _ _ arguments => by
    rw [nodes, List.map_cons, map_id_nodesAll arguments]
    rfl
  | assignment _ _ _ _ value => by
    rw [nodes, List.map_cons, map_id_nodes value]
    rfl

theorem map_id_nodesAll : ∀ es : List Expr, (nodesAll es).map id = preorderAll es
  | [] => rfl
  | e :: es => by
    rw [nodesAll, List.map_append, map_id_nodes e, map_id_nodesAll es]
    rfl

end

/-- The number of an expression was drawn after the numbers below it. -/
def DrawnLast (e : Expr) : Prop := ∀ id ∈ e.preorder.tail, id < e.id

/-! ### In a view -/

variable (v : View)

mutual

theorem nodes_view : ∀ e : Expr, (e.view v).nodes = e.nodes.map (view v)
  | literal .. | var .. => rfl
  | binary _ _ _ left right => by
    simp only [view, nodes, nodes_view left, nodes_view right, List.map_cons, List.map_append]
  | unary _ _ _ operand => by simp only [view, nodes, nodes_view operand, List.map_cons]
  | call _ _ _ _ arguments => by simp only [view, nodes, nodesAll_view arguments, List.map_cons]
  | assignment _ _ _ _ value => by simp only [view, nodes, nodes_view value, List.map_cons]

theorem nodesAll_view : ∀ es : List Expr, nodesAll (viewAll v es) = (nodesAll es).map (view v)
  | [] => rfl
  | e :: es => by simp only [viewAll, nodesAll, nodes_view e, nodesAll_view es, List.map_append]

end

theorem drawnLast_view {e : Expr} : (e.view v).DrawnLast ↔ e.DrawnLast := by
  have same : (e.view v).id = e.id := by cases e <;> rfl
  unfold DrawnLast
  rw [preorder_view, same]

end Expr

namespace Stmt

mutual

/-- All expressions of a statement, those of statements inside of it included. -/
def exprs : Stmt → List Expr
  | letVar _ _ _ _ _ value => value.nodes
  | ifThen _ condition thenBlock => condition.nodes ++ blockExprs thenBlock
  | ifThenElse _ condition thenBlock elseBranch =>
    condition.nodes ++ blockExprs thenBlock ++ exprs elseBranch
  | whileLoop _ condition body => condition.nodes ++ blockExprs body
  | block b => blockExprs b
  | expression _ value => value.nodes
  | function _ _ body => blockExprs body
  | ret _ none => []
  | ret _ (some value) => value.nodes
  | error _ => []

/-- All expressions of a block. -/
def blockExprs : Block → List Expr
  | .mk _ _ body => exprsAll body

/-- All expressions of statements in order. -/
def exprsAll : List Stmt → List Expr
  | [] => []
  | s :: ss => exprs s ++ exprsAll ss

end

mutual

/-- The expressions of a statement are those that the statements in it hold themselves, and the
expressions below them. -/
theorem exprs_eq_flatMap : ∀ s : Stmt,
    s.exprs = s.preorder.flatMap fun t => t.ownExprs.flatMap Expr.nodes
  | letVar .. | expression .. | ret _ (some _) | ret _ none | error _ => by
    simp [exprs, preorder, ownExprs]
  | ifThen _ _ thenBlock => by
    simp [exprs, preorder, ownExprs, blockExprs_eq_flatMap thenBlock]
  | ifThenElse _ _ thenBlock elseBranch => by
    simp [exprs, preorder, ownExprs, blockExprs_eq_flatMap thenBlock, exprs_eq_flatMap elseBranch]
  | whileLoop _ _ body => by simp [exprs, preorder, ownExprs, blockExprs_eq_flatMap body]
  | block b => by simp [exprs, preorder, ownExprs, blockExprs_eq_flatMap b]
  | function _ _ body => by simp [exprs, preorder, ownExprs, blockExprs_eq_flatMap body]

theorem blockExprs_eq_flatMap : ∀ b : Block,
    blockExprs b = (inBlock b).flatMap fun t => t.ownExprs.flatMap Expr.nodes
  | .mk _ _ body => exprsAll_eq_flatMap body

theorem exprsAll_eq_flatMap : ∀ ss : List Stmt,
    exprsAll ss = (preorderAll ss).flatMap fun t => t.ownExprs.flatMap Expr.nodes
  | [] => rfl
  | s :: ss => by
    rw [exprsAll, preorderAll, List.flatMap_append, exprs_eq_flatMap s, exprsAll_eq_flatMap ss]

end

variable (v : View)

mutual

theorem exprs_view : ∀ s : Stmt, (s.view v).exprs = s.exprs.map (Expr.view v)
  | letVar _ _ _ _ _ value | expression _ value | ret _ (some value) => by
    simp only [view, exprs, value.nodes_view, Option.map_some]
  | ifThen _ condition thenBlock => by
    simp only [view, exprs, condition.nodes_view, blockExprs_view thenBlock, List.map_append]
  | ifThenElse _ condition thenBlock elseBranch => by
    simp only [view, exprs, condition.nodes_view, blockExprs_view thenBlock,
      exprs_view elseBranch, List.map_append]
  | whileLoop _ condition body => by
    simp only [view, exprs, condition.nodes_view, blockExprs_view body, List.map_append]
  | block b => by simp only [view, exprs, blockExprs_view b]
  | function _ _ body => by simp only [view, exprs, blockExprs_view body]
  | ret _ none | error _ => rfl

theorem blockExprs_view : ∀ b : Block, blockExprs (viewBlock v b) = (blockExprs b).map (Expr.view v)
  | .mk _ _ body => by simp only [viewBlock, blockExprs, exprsAll_view body]

theorem exprsAll_view :
    ∀ ss : List Stmt, exprsAll (viewAll v ss) = (exprsAll ss).map (Expr.view v)
  | [] => rfl
  | s :: ss => by simp only [viewAll, exprsAll, exprs_view s, exprsAll_view ss, List.map_append]

end

end Stmt

/-- All expressions of a program. -/
def Program.exprs (p : Program) : List Expr := Stmt.exprsAll p.body

end MiniLang
