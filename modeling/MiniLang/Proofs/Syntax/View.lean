import MiniLang.Proofs.Syntax.Trees

/-!
# Trees seen from a distance

A view says what is seen of the places and of the names in a tree; operators, written-out values,
types and the numbers of nodes are always seen. Two trees look alike in a view if they are equal in
it. Seen exactly they are then the same tree (`Stmt.view_exact`), and in every view their nodes have
the same numbers (`Stmt.idsAll_view`).
-/

set_option autoImplicit false

namespace MiniLang

/-- What is seen of places and of names. -/
structure View where
  span : Span → Span
  name : String → String

namespace View

/-- Everything is seen as it is. -/
def exact : View := ⟨id, id⟩

/-- Neither places nor names are seen. -/
def shape : View := ⟨fun _ => .origin, fun _ => ""⟩

end View

variable (v : View)

namespace Expr

mutual

/-- An expression in a view. -/
def view : Expr → Expr
  | literal id span value => literal id (v.span span) value
  | var id span name => var id (v.span span) (v.name name)
  | binary id span op left right => binary id (v.span span) op (view left) (view right)
  | unary id span op operand => unary id (v.span span) op (view operand)
  | call id span callee calleeSpan arguments =>
    call id (v.span span) (v.name callee) (v.span calleeSpan) (viewAll arguments)
  | assignment id span target targetSpan value =>
    assignment id (v.span span) (v.name target) (v.span targetSpan) (view value)

/-- Expressions in a view. -/
def viewAll : List Expr → List Expr
  | [] => []
  | e :: es => view e :: viewAll es

end

theorem span_view (e : Expr) : (e.view v).span = v.span e.span := by cases e <;> rfl

/-- What looks like a variable is one. -/
theorem view_eq_var {e : Expr} {id : NodeId} {span : Span} {name : String}
    (h : e.view v = .var id span name) :
    ∃ span' name', e = .var id span' name' ∧ v.span span' = span ∧ v.name name' = name := by
  cases e with
  | var id' span' name' =>
    cases h
    exact ⟨span', name', rfl, rfl, rfl⟩
  | _ => cases h

mutual

theorem view_exact : ∀ e : Expr, e.view .exact = e
  | literal .. | var .. => rfl
  | binary _ _ _ left right => by
    rw [view, view_exact left, view_exact right]
    rfl
  | unary _ _ _ operand => by
    rw [view, view_exact operand]
    rfl
  | call _ _ _ _ arguments => by
    rw [view, viewAll_exact arguments]
    rfl
  | assignment _ _ _ _ value => by
    rw [view, view_exact value]
    rfl

theorem viewAll_exact : ∀ es : List Expr, viewAll .exact es = es
  | [] => rfl
  | e :: es => by rw [viewAll, view_exact e, viewAll_exact es]

end

mutual

theorem preorder_view : ∀ e : Expr, (e.view v).preorder = e.preorder
  | literal .. | var .. => rfl
  | binary _ _ _ left right => by
    simp only [view, preorder, preorder_view left, preorder_view right]
  | unary _ _ _ operand => by simp only [view, preorder, preorder_view operand]
  | call _ _ _ _ arguments => by simp only [view, preorder, preorderAll_view arguments]
  | assignment _ _ _ _ value => by simp only [view, preorder, preorder_view value]

theorem preorderAll_view : ∀ es : List Expr, preorderAll (viewAll v es) = preorderAll es
  | [] => rfl
  | e :: es => by simp only [viewAll, preorderAll, preorder_view e, preorderAll_view es]

end

end Expr

/-- A type in a view. -/
def WrittenType.view (type : WrittenType) : WrittenType := ⟨type.name, v.span type.span⟩

/-- A parameter in a view. -/
def Param.view (p : Param) : Param := ⟨p.id, v.span p.span, v.name p.name, p.type.view v⟩

/-- The header of a function in a view. -/
def FunctionHeader.view (f : FunctionHeader) : FunctionHeader :=
  ⟨f.id, v.name f.name, v.span f.nameSpan, f.params.map (Param.view v),
    f.returnType.map (WrittenType.view v)⟩

theorem Param.ids_view (ps : List Param) :
    (ps.map (Param.view v)).map Param.id = ps.map Param.id := by
  rw [List.map_map]
  rfl

theorem WrittenType.map_view_exact (type : Option WrittenType) :
    type.map (WrittenType.view .exact) = type := by cases type <;> rfl

theorem FunctionHeader.view_exact (f : FunctionHeader) : f.view .exact = f := by
  have params : f.params.map (Param.view .exact) = f.params := List.map_id _
  rw [FunctionHeader.view, params, WrittenType.map_view_exact]
  rfl

namespace Stmt

mutual

/-- A statement in a view. -/
def view : Stmt → Stmt
  | letVar id span name nameSpan declared value =>
    letVar id (v.span span) (v.name name) (v.span nameSpan) (declared.map (WrittenType.view v))
      (value.view v)
  | ifThen span condition thenBlock =>
    ifThen (v.span span) (condition.view v) (viewBlock thenBlock)
  | ifThenElse span condition thenBlock elseBranch =>
    ifThenElse (v.span span) (condition.view v) (viewBlock thenBlock) (view elseBranch)
  | whileLoop span condition body => whileLoop (v.span span) (condition.view v) (viewBlock body)
  | block b => block (viewBlock b)
  | expression span value => expression (v.span span) (value.view v)
  | function span header body => function (v.span span) (header.view v) (viewBlock body)
  | ret span value => ret (v.span span) (value.map (Expr.view v))
  | error span => error (v.span span)

/-- A block in a view. -/
def viewBlock : Block → Block
  | .mk id span body => .mk id (v.span span) (viewAll body)

/-- Statements in a view. -/
def viewAll : List Stmt → List Stmt
  | [] => []
  | s :: ss => view s :: viewAll ss

end

theorem span_viewBlock (b : Block) : (viewBlock v b).span = v.span b.span := by cases b; rfl

mutual

theorem view_exact : ∀ s : Stmt, s.view .exact = s
  | letVar _ _ _ _ declared value => by
    rw [view, value.view_exact, WrittenType.map_view_exact]
    rfl
  | ifThen _ condition thenBlock => by
    rw [view, condition.view_exact, viewBlock_exact thenBlock]
    rfl
  | ifThenElse _ condition thenBlock elseBranch => by
    rw [view, condition.view_exact, viewBlock_exact thenBlock, view_exact elseBranch]
    rfl
  | whileLoop _ condition body => by
    rw [view, condition.view_exact, viewBlock_exact body]
    rfl
  | block b => by rw [view, viewBlock_exact b]
  | expression _ value => by
    rw [view, value.view_exact]
    rfl
  | function _ header body => by
    rw [view, header.view_exact, viewBlock_exact body]
    rfl
  | ret _ value => by
    have same : Expr.view .exact = id := funext Expr.view_exact
    rw [view, same, Option.map_id]
    rfl
  | error _ => rfl

theorem viewBlock_exact : ∀ b : Block, viewBlock .exact b = b
  | .mk _ _ body => by
    rw [viewBlock, viewAll_exact body]
    rfl

theorem viewAll_exact : ∀ ss : List Stmt, viewAll .exact ss = ss
  | [] => rfl
  | s :: ss => by rw [viewAll, view_exact s, viewAll_exact ss]

end

mutual

theorem ids_view : ∀ s : Stmt, (s.view v).ids = s.ids
  | letVar _ _ _ _ _ value => by simp only [view, ids, value.preorder_view]
  | ifThen _ condition thenBlock => by
    simp only [view, ids, condition.preorder_view, blockIds_view thenBlock]
  | ifThenElse _ condition thenBlock elseBranch => by
    simp only [view, ids, condition.preorder_view, blockIds_view thenBlock, ids_view elseBranch]
  | whileLoop _ condition body => by
    simp only [view, ids, condition.preorder_view, blockIds_view body]
  | block b => by simp only [view, ids, blockIds_view b]
  | expression _ value => by simp only [view, ids, value.preorder_view]
  | function _ header body => by
    simp only [view, ids, FunctionHeader.view, Param.ids_view, blockIds_view body]
  | ret _ none => rfl
  | ret _ (some value) => by simp only [view, Option.map_some, ids, value.preorder_view]
  | error _ => rfl

theorem blockIds_view : ∀ b : Block, blockIds (viewBlock v b) = blockIds b
  | .mk _ _ body => by simp only [viewBlock, blockIds, idsAll_view body]

theorem idsAll_view : ∀ ss : List Stmt, idsAll (viewAll v ss) = idsAll ss
  | [] => rfl
  | s :: ss => by simp only [viewAll, idsAll, ids_view s, idsAll_view ss]

end

end Stmt

end MiniLang
