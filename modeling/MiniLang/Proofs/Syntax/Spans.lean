import MiniLang.Proofs.Text.Place
import MiniLang.Syntax.Stmt

/-!
# The spans of a program

All spans that stand in a tree: those of its nodes and those of the names, parameters and types that
nodes hold themselves. What is true of all places of a program is said of these lists.

In the tree of a source text every node covers the nodes below it: their spans lie within its own,
in the order of the text and without overlap, and none of them is all of it (`Span.Holds`). The same
goes for the names that a node holds itself. So two places of a tree are the same only if they
belong to the same thing (`Expr.LaidOut`, `Stmt.LaidOut`, `Program.LaidOut`).
-/

set_option autoImplicit false

namespace MiniLang

/-! ## All spans -/

namespace Expr

mutual

/-- The spans of an expression, of the expressions below it, and of the names in it. -/
def spans : Expr → List Span
  | literal _ span _ => [span]
  | var _ span _ => [span]
  | binary _ span _ left right => span :: (spans left ++ spans right)
  | unary _ span _ operand => span :: spans operand
  | call _ span _ calleeSpan arguments => span :: calleeSpan :: spansAll arguments
  | assignment _ span _ targetSpan value => span :: targetSpan :: spans value

/-- The spans of expressions. -/
def spansAll : List Expr → List Span
  | [] => []
  | e :: es => spans e ++ spansAll es

end

theorem span_mem_spans (e : Expr) : e.span ∈ e.spans := by
  cases e <;> simp [span, spans]

mutual

/-- Where an expression names something is one of its spans. -/
theorem nameUses_spans : ∀ e : Expr, ∀ use ∈ e.nameUses, use.span ∈ e.spans
  | literal .. => List.forall_mem_nil _
  | var .. => List.forall_mem_singleton.2 List.mem_cons_self
  | binary _ _ _ left right => List.forall_mem_append.2
    ⟨fun use mem => List.mem_cons_of_mem _ (List.mem_append_left _ (nameUses_spans left use mem)),
      fun use mem =>
        List.mem_cons_of_mem _ (List.mem_append_right _ (nameUses_spans right use mem))⟩
  | unary _ _ _ operand => fun use mem => List.mem_cons_of_mem _ (nameUses_spans operand use mem)
  | call _ _ _ _ arguments => List.forall_mem_cons.2
    ⟨List.mem_cons_of_mem _ List.mem_cons_self, fun use mem =>
      List.mem_cons_of_mem _ (List.mem_cons_of_mem _ (nameUsesAll_spans arguments use mem))⟩
  | assignment _ _ _ _ value => List.forall_mem_append.2
    ⟨fun use mem =>
      List.mem_cons_of_mem _ (List.mem_cons_of_mem _ (nameUses_spans value use mem)),
      List.forall_mem_singleton.2 (List.mem_cons_of_mem _ List.mem_cons_self)⟩

theorem nameUsesAll_spans : ∀ es : List Expr, ∀ use ∈ nameUsesAll es, use.span ∈ spansAll es
  | [] => List.forall_mem_nil _
  | e :: es => List.forall_mem_append.2
    ⟨fun use mem => List.mem_append_left _ (nameUses_spans e use mem),
      fun use mem => List.mem_append_right _ (nameUsesAll_spans es use mem)⟩

end

end Expr

/-- The spans of a parameter. -/
def Param.spans (p : Param) : List Span := [p.span, p.type.span]

/-- The spans in the header of a function. -/
def FunctionHeader.spans (f : FunctionHeader) : List Span :=
  f.nameSpan :: (f.params.flatMap Param.spans ++ (f.returnType.map WrittenType.span).toList)

namespace Stmt

mutual

/-- The spans of a statement and of all that is in it. -/
def spans : Stmt → List Span
  | letVar _ span _ nameSpan declared value =>
    span :: nameSpan :: ((declared.map WrittenType.span).toList ++ value.spans)
  | ifThen span condition thenBlock => span :: (condition.spans ++ blockSpans thenBlock)
  | ifThenElse span condition thenBlock elseBranch =>
    span :: (condition.spans ++ blockSpans thenBlock ++ spans elseBranch)
  | whileLoop span condition body => span :: (condition.spans ++ blockSpans body)
  | block b => blockSpans b
  | expression span value => span :: value.spans
  | function span header body => span :: (header.spans ++ blockSpans body)
  | ret span value => span :: value.toList.flatMap Expr.spans
  | error span => [span]

/-- The spans of a block and of all that is in it. -/
def blockSpans : Block → List Span
  | .mk _ span body => span :: spansAll body

/-- The spans of statements. -/
def spansAll : List Stmt → List Span
  | [] => []
  | s :: ss => spans s ++ spansAll ss

end

theorem span_mem_blockSpans (b : Block) : b.span ∈ blockSpans b := by
  cases b with
  | mk => exact List.mem_cons_self

theorem span_mem_spans (s : Stmt) : s.span ∈ s.spans := by
  cases s with
  | block b => exact span_mem_blockSpans b
  | _ => exact List.mem_cons_self

end Stmt

/-- All spans of a program. -/
def Program.spans (p : Program) : List Span := p.span :: Stmt.spansAll p.body

/-! ## Where they stand -/

namespace Expr

mutual

/-- All expressions below an expression, and the names in it, stand where they belong. -/
def LaidOut : Expr → Prop
  | literal _ span _ => span.Holds []
  | var _ span _ => span.Holds []
  | binary _ span _ left right => span.Holds [left.span, right.span] ∧ LaidOut left ∧ LaidOut right
  | unary _ span _ operand => span.Holds [operand.span] ∧ LaidOut operand
  | call _ span _ calleeSpan arguments =>
    span.Holds (calleeSpan :: arguments.map Expr.span) ∧ AllLaidOut arguments
  | assignment _ span _ targetSpan value => span.Holds [targetSpan, value.span] ∧ LaidOut value

/-- The same for each of the given expressions. -/
def AllLaidOut : List Expr → Prop
  | [] => True
  | e :: es => LaidOut e ∧ AllLaidOut es

end

theorem LaidOut.nonempty {e : Expr} (h : e.LaidOut) : e.span.start < e.span.stop := by
  cases e with
  | literal | var => exact Span.Holds.nonempty h
  | binary | unary | call | assignment => exact h.1.nonempty

end Expr

namespace Stmt

mutual

/-- All that is in a statement stands where it belongs. -/
def LaidOut : Stmt → Prop
  | letVar _ span _ nameSpan declared value =>
    span.Holds (nameSpan :: (declared.map WrittenType.span).toList ++ [value.span]) ∧ value.LaidOut
  | ifThen span condition thenBlock =>
    span.Holds [condition.span, thenBlock.span] ∧ condition.LaidOut ∧ BlockLaidOut thenBlock
  | ifThenElse span condition thenBlock elseBranch =>
    span.Holds [condition.span, thenBlock.span, elseBranch.span] ∧ condition.LaidOut ∧
      BlockLaidOut thenBlock ∧ LaidOut elseBranch
  | whileLoop span condition body =>
    span.Holds [condition.span, body.span] ∧ condition.LaidOut ∧ BlockLaidOut body
  | block b => BlockLaidOut b
  | expression span value => span.Holds [value.span] ∧ value.LaidOut
  | function span header body =>
    span.Holds (header.nameSpan :: header.params.map Param.span ++
        (header.returnType.map WrittenType.span).toList ++ [body.span]) ∧
      (∀ p ∈ header.params, p.span.Holds [p.type.span]) ∧ BlockLaidOut body
  | ret span value => span.Holds (value.map Expr.span).toList ∧ ∀ e ∈ value, e.LaidOut
  | error span => span.Holds []

/-- All that is in a block stands where it belongs. -/
def BlockLaidOut : Block → Prop
  | .mk _ span body => span.Holds (body.map Stmt.span) ∧ AllLaidOut body

/-- The same for each of the given statements. -/
def AllLaidOut : List Stmt → Prop
  | [] => True
  | s :: ss => LaidOut s ∧ AllLaidOut ss

end

theorem BlockLaidOut.nonempty {b : Block} (h : BlockLaidOut b) : b.span.start < b.span.stop := by
  cases b with
  | mk => exact h.1.nonempty

theorem LaidOut.nonempty {s : Stmt} (h : s.LaidOut) : s.span.start < s.span.stop := by
  cases s with
  | error => exact Span.Holds.nonempty h
  | block => exact BlockLaidOut.nonempty h
  | letVar | ifThen | ifThenElse | whileLoop | expression | function | ret => exact h.1.nonempty

end Stmt

/-- All that is in a program stands where it belongs. -/
structure Program.LaidOut (p : Program) : Prop where
  inOrder : Span.InOrder p.span.start p.span.stop (p.body.map Stmt.span)
  laidOut : Stmt.AllLaidOut p.body

end MiniLang
