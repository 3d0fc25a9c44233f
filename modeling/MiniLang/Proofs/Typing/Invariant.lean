import MiniLang.Proofs.Session.Invariant
import MiniLang.Proofs.Syntax.Spans
import MiniLang.Proofs.Typing.Blame.Expressions
import MiniLang.Proofs.Typing.Progress

/-!
# What typing keeps

The rules complain at the expressions that they are about, at the names in them, and at statements,
and the checker asks before statements of the top level and before bodies of loops. So what is to
stay true does, if all places of the program are of the right kind (`keeps_typeCheck`).
-/

set_option autoImplicit false

namespace MiniLang

namespace Typing

variable {I : Invariant}

/-! ## Rules -/

/-- Problems that are all about the program. -/
structure Found (problems : List Problem) : Prop where
  all : ∀ p ∈ problems, p.InProgram

theorem Found.nil : Found [] := ⟨List.forall_mem_nil _⟩

theorem Found.single {p : Problem} (h : p.InProgram) : Found [p] :=
  ⟨List.forall_mem_singleton.2 h⟩

theorem found_mismatch (expected found : Ty) : Found (mismatch expected found) := by
  unfold mismatch
  split
  · exact .nil
  · exact .single (by rintro ⟨⟩)

theorem found_nameRule (c : Context) (name : String) (symbol : Option SymbolRef) :
    Found (nameRule c name symbol).2 := by
  unfold nameRule
  split
  · exact .nil
  · split
    · exact .single (by rintro ⟨⟩)
    · exact .nil

theorem found_binaryRule (op : BinaryOp) (left right : Ty) :
    Found (binaryRule op left right).2 := by
  unfold binaryRule
  split
  · exact .nil
  · split
    · exact .nil
    · exact .single (by rintro ⟨⟩)

theorem found_unaryRule (op : UnaryOp) (operand : Ty) : Found (unaryRule op operand).2 := by
  unfold unaryRule
  split
  · exact .nil
  · split
    · exact .nil
    · exact .nil
    · exact .single (by rintro ⟨⟩)

theorem found_divisorRule (op : BinaryOp) (right : Typed.Expr) :
    Found (divisorRule op right) := by
  unfold divisorRule
  split
  · exact .single (by rintro ⟨⟩)
  · exact .nil

theorem found_declarationRule (name : String) (declared : Option WrittenType) (value : Ty) :
    Found (declarationRule name declared value).2 := by
  unfold declarationRule
  split
  · exact found_mismatch ..
  · split
    · exact .single (by rintro ⟨⟩)
    · exact .nil

/-- What a rule finds at a place of the right kind. -/
theorem findings_reported {problems : List Problem} (found : Found problems) {span : Span}
    (here : I.place span) : I.Findings (reported problems span) := by
  intro d mem
  obtain ⟨problem, there, rfl⟩ := List.mem_map.1 mem
  exact ⟨problem, span, rfl, found.all problem there, here⟩

theorem findings_argumentRule (callee : String) : ∀ (position : Nat) (params : List Ty)
    {arguments : List Typed.Expr}, (∀ a ∈ arguments, I.place a.span) →
    I.Findings (argumentRule callee position params arguments)
  | _, [], _, _ => by
    rw [argumentRule]
    · exact .nil
    · nofun
  | _, _ :: _, [], _ => .nil
  | position, param :: params, argument :: arguments, places => by
    obtain ⟨here, others⟩ := List.forall_mem_cons.1 places
    rw [argumentRule]
    refine .append (findings_reported ?_ here)
      (findings_argumentRule callee (position + 1) params others)
    split
    · exact .nil
    · exact .single (by rintro ⟨⟩)

theorem findings_callRule (c : Context) (callee : String) {calleeSpan span : Span}
    {arguments : List Typed.Expr} (symbol : Option SymbolRef) (atCallee : I.place calleeSpan)
    (here : I.place span) (places : ∀ a ∈ arguments, I.place a.span) :
    I.Findings (callRule c callee calleeSpan span arguments symbol).2 := by
  unfold callRule
  split
  · exact .nil
  · dsimp only
    split
    · exact .nil
    · split
      · split
        · exact findings_argumentRule callee 1 _ places
        · exact findings_reported (.single (by rintro ⟨⟩)) here
      · exact findings_reported (.single (by rintro ⟨⟩)) atCallee

theorem findings_assignmentRule (c : Context) (target : String) {targetSpan span : Span}
    (value : Ty) (symbol : Option SymbolRef) (atTarget : I.place targetSpan)
    (here : I.place span) :
    I.Findings (assignmentRule c target targetSpan span value symbol).2 := by
  unfold assignmentRule
  split
  · exact .nil
  · split
    · exact findings_reported (.single (by rintro ⟨⟩)) atTarget
    · dsimp only
      split
      · exact .nil
      · exact findings_reported (found_mismatch ..) here

theorem findings_functionRule (header : FunctionHeader) (body : Typed.Block)
    (here : I.place header.nameSpan) : I.Findings (functionRule header body) := by
  unfold functionRule
  split
  · exact findings_reported (.single (by rintro ⟨⟩)) here
  · exact .nil

theorem findings_returnRule (expected : Option Ty) {span : Span} (value : Option Typed.Expr)
    (here : I.place span) (places : ∀ e ∈ value, I.place e.span) :
    I.Findings (returnRule expected span value) := by
  unfold returnRule
  split
  · exact .nil
  · exact findings_reported (found_mismatch ..) (places _ rfl)
  · exact findings_reported (found_mismatch ..) here

/-! ## Expressions -/

mutual

theorem findings_ofExpr (c : Context) :
    ∀ e : Expr, I.All e.spans → I.Findings (typeExpr c e).2
  | .literal .., _ => .nil
  | .var .., places => findings_reported (found_nameRule ..) places.head
  | .binary _ _ op left right, places => by
    refine .append (.append ((findings_ofExpr c left places.tail.left).append
      (findings_ofExpr c right places.tail.right))
      (findings_reported (found_binaryRule ..) places.head))
      (findings_reported (found_divisorRule ..) ?_)
    rw [span_typeExpr]
    exact places.tail.right _ right.span_mem_spans
  | .unary _ _ op operand, places =>
    (findings_ofExpr c operand places.tail).append
      (findings_reported (found_unaryRule ..) places.head)
  | .call _ _ callee _ arguments, places => by
    obtain ⟨findings, typed⟩ := findings_ofExprs c arguments places.tail.tail
    exact findings.append (findings_callRule c callee _ places.tail.head places.head typed)
  | .assignment _ _ target _ value, places =>
    (findings_ofExpr c value places.tail.tail).append
      (findings_assignmentRule c target _ _ places.tail.head places.head)

theorem findings_ofExprs (c : Context) : ∀ es : List Expr, I.All (Expr.spansAll es) →
    I.Findings (typeExprs c es).2 ∧ ∀ a ∈ (typeExprs c es).1, I.place a.span
  | [], _ => ⟨.nil, List.forall_mem_nil _⟩
  | e :: es, places => by
    obtain ⟨findings, typed⟩ := findings_ofExprs c es places.right
    have first : I.place (typeExpr c e).1.span := by
      rw [span_typeExpr]
      exact places.left _ e.span_mem_spans
    exact ⟨(findings_ofExpr c e places.left).append findings, List.forall_mem_cons.2 ⟨first, typed⟩⟩

end

/-! ## Statements -/

section

variable {k : Checker}

theorem keeps_expr (law : I.Lawful) {e : Expr} (places : I.All e.spans)
    (h : I.session k.session) : I.session (k.expr e).2.session :=
  law.recordAll h (findings_ofExpr k.context e places)

/-- An expression that is typed stands where it did. -/
theorem place_expr {e : Expr} (places : I.All e.spans) : I.place (k.expr e).1.span := by
  change I.place (typeExpr k.context e).1.span
  rw [span_typeExpr]
  exact places _ e.span_mem_spans

theorem keeps_condition (law : I.Lawful) {e : Expr} (places : I.All e.spans)
    (h : I.session k.session) : I.session (k.condition e).2.session :=
  law.recordAll (keeps_expr law places h)
    (findings_reported (found_mismatch ..) (place_expr places))

theorem keeps_warning (law : I.Lawful) (afterReturn : Bool) {span : Span} (here : I.place span)
    (h : I.session k.session) :
    I.session
      (if afterReturn then k.recordAll (reported [.unreachableCode] span) else k).session := by
  split
  · exact law.recordAll h (findings_reported (.single (by rintro ⟨⟩)) here)
  · exact h

end

mutual

theorem keeps_typeStmt (law : I.Lawful) (expected : Option Ty) :
    ∀ (s : Stmt) {k : Checker}, I.All s.spans → I.session k.session →
      I.session (typeStmt expected s k).2.session
  | .letVar _ _ _ _ _ value, k, places, h => by
    have inside : I.All value.spans := places.tail.tail.right
    simp only [typeStmt, Checker.session_infer]
    exact law.recordAll (keeps_expr law inside h)
      (findings_reported (found_declarationRule ..) (place_expr inside))
  | .ifThen _ test thenBlock, _, places, h =>
    keeps_typeBlock law expected thenBlock places.tail.right
      (keeps_condition law places.tail.left h)
  | .ifThenElse _ test thenBlock elseBranch, _, places, h =>
    keeps_typeStmt law expected elseBranch places.tail.right
      (keeps_typeBlock law expected thenBlock places.tail.left.right
        (keeps_condition law places.tail.left.left h))
  | .whileLoop _ test body, k, places, h => by
    have asked : I.session ((k.condition test).2.checkpoint body.span).2.session :=
      law.checkpoint (keeps_condition law places.tail.left h)
        (places.tail.right _ (Stmt.span_mem_blockSpans body))
    simp only [typeStmt]
    split
    · exact keeps_typeBlock law expected body places.tail.right asked
    · exact asked
  | .block b, _, places, h => keeps_typeBlock law expected b places h
  | .expression _ e, _, places, h => keeps_expr law places.tail h
  | .function _ header body, _, places, h =>
    law.recordAll (keeps_typeBlock law _ body places.tail.right h)
      (findings_functionRule header _ places.tail.left.head)
  | .ret _ (some e), _, places, h => by
    have inside : I.All e.spans := places.tail.left
    refine law.recordAll (keeps_expr law inside h) (findings_returnRule expected _ places.head ?_)
    intro typed mem
    obtain rfl := Option.some.inj mem
    exact place_expr inside
  | .ret _ none, _, places, h =>
    law.recordAll h (findings_returnRule expected none places.head nofun)
  | .error _, _, _, h => h

theorem keeps_typeBlock (law : I.Lawful) (expected : Option Ty) :
    ∀ (b : Block) {k : Checker}, I.All (Stmt.blockSpans b) → I.session k.session →
      I.session (typeBlock expected b k).2.session
  | .mk _ _ body, _, places, h => keeps_typeAll law expected false body places.tail h

theorem keeps_typeAll (law : I.Lawful) (expected : Option Ty) :
    ∀ (afterReturn : Bool) (ss : List Stmt) {k : Checker}, I.All (Stmt.spansAll ss) →
      I.session k.session → I.session (typeAll expected afterReturn ss k).2.session
  | _, [], _, _, h => h
  | afterReturn, s :: ss, _, places, h =>
    keeps_typeAll law expected _ ss places.right
      (keeps_typeStmt law expected s places.left
        (keeps_warning law afterReturn (places.left _ s.span_mem_spans) h))

end

theorem keeps_typeTopLevel (law : I.Lawful) :
    ∀ (afterReturn : Bool) (ss : List Stmt) {k : Checker}, I.All (Stmt.spansAll ss) →
      I.session k.session → I.session (typeTopLevel afterReturn ss k).2.session
  | _, [], _, _, h => h
  | afterReturn, s :: ss, k, places, h => by
    have here : I.place s.span := places.left _ s.span_mem_spans
    have asked : I.session (k.checkpoint s.span).2.session := law.checkpoint h here
    simp only [typeTopLevel]
    split
    · exact keeps_typeTopLevel law _ ss places.right
        (keeps_typeStmt law none s places.left (keeps_warning law afterReturn here asked))
    · exact asked

end Typing

/-- What is to stay true does while a program is typed. -/
theorem keeps_typeCheck {I : Invariant} (law : I.Lawful) {p : Program} (r : Resolution)
    {s : Session} (places : I.All p.spans) (h : I.session s) :
    I.session (typeCheck p r s).2 :=
  Typing.keeps_typeTopLevel law false p.body places.tail h

end MiniLang
