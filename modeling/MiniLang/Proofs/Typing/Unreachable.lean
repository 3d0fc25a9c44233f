import MiniLang.Proofs.Syntax.Parser.Order.Programs
import MiniLang.Proofs.Typing.Blame.Statements

/-!
# Unreachable statements

The checker warns about each statement that stands right behind a `return` of its list, and about no
other (`typeCheck_unreachables`). In a program that was read from a text no two statements share a
place (`nodup_spans_parseSource`), so that the warnings can be counted list by list
(`typeCheck_unreachable`). A list in which only one `return` is followed by a statement is warned
about once, at the statement behind its first `return`. But a `return` behind a `return` is warned
about, and makes the checker warn about the statement behind it again (`typeCheck_returnsInARow`).
-/

set_option autoImplicit false

namespace MiniLang

open Typing

namespace Stmt

/-! ## Lists of statements -/

mutual

/-- The lists of statements in a statement: those of its blocks, however deep they stand. -/
def lists : Stmt → List (List Stmt)
  | ifThen _ _ thenBlock => blockLists thenBlock
  | ifThenElse _ _ thenBlock elseBranch => blockLists thenBlock ++ lists elseBranch
  | whileLoop _ _ body => blockLists body
  | block b => blockLists b
  | function _ _ body => blockLists body
  | letVar .. | expression .. | ret .. | error _ => []

/-- The list of a block and the lists in it. -/
def blockLists : Block → List (List Stmt)
  | .mk _ _ body => body :: listsAll body

/-- The lists in each of the given statements. -/
def listsAll : List Stmt → List (List Stmt)
  | [] => []
  | s :: ss => lists s ++ listsAll ss

end

/-- The statements of a list that stand right behind a `return`; `afterReturn` says whether one
stands right before the list. -/
def behindReturns (afterReturn : Bool) : List Stmt → List Stmt
  | [] => []
  | s :: ss =>
    if afterReturn then s :: behindReturns s.isReturn ss else behindReturns s.isReturn ss

/-- The statement right behind the first `return` of a list. -/
def behindFirstReturn? : List Stmt → Option Stmt
  | [] => none
  | s :: ss => if s.isReturn then ss.head? else behindFirstReturn? ss

theorem behindReturns_sublist : ∀ (afterReturn : Bool) (ss : List Stmt),
    (behindReturns afterReturn ss).Sublist ss
  | _, [] => .slnil
  | false, s :: ss => (behindReturns_sublist s.isReturn ss).cons s
  | true, s :: ss => (behindReturns_sublist s.isReturn ss).cons_cons s

theorem head?_behindReturns (ss : List Stmt) :
    (behindReturns false ss).head? = behindFirstReturn? ss := by
  induction ss with
  | nil => rfl
  | cons s ss ih =>
    cases isReturn : s.isReturn with
    | false => simpa [behindReturns, behindFirstReturn?, isReturn] using ih
    | true => cases ss <;> simp [behindReturns, behindFirstReturn?, isReturn]

/-- If only one statement of a list stands right behind a `return`, it stands behind the first. -/
theorem map_behindReturns_eq_iff {α : Type} (place : Stmt → α) (ss : List Stmt) :
    (behindReturns false ss).map place = (behindFirstReturn? ss).toList.map place ↔
      (behindReturns false ss).length ≤ 1 := by
  rw [← head?_behindReturns]
  cases behindReturns false ss with
  | nil => simp
  | cons s rest => cases rest <;> simp

/-! ## Statements that are warned about -/

mutual

/-- The statements in a statement that are warned about, in the order of the warnings. -/
def warned : Stmt → List Stmt
  | ifThen _ _ thenBlock => blockWarned thenBlock
  | ifThenElse _ _ thenBlock elseBranch => blockWarned thenBlock ++ warned elseBranch
  | whileLoop _ _ body => blockWarned body
  | block b => blockWarned b
  | function _ _ body => blockWarned body
  | letVar .. | expression .. | ret .. | error _ => []

/-- The statements of a block that are warned about. -/
def blockWarned : Block → List Stmt
  | .mk _ _ body => warnedAll false body

/-- The statements of a list, and those in them, that are warned about. -/
def warnedAll (afterReturn : Bool) : List Stmt → List Stmt
  | [] => []
  | s :: ss => (if afterReturn then [s] else []) ++ warned s ++ warnedAll s.isReturn ss

end

mutual

/-- What is warned about stands right behind a `return` of one of the lists. -/
theorem perm_warned : ∀ s : Stmt, s.warned.Perm (s.lists.flatMap (behindReturns false))
  | ifThen _ _ thenBlock => perm_blockWarned thenBlock
  | ifThenElse _ _ thenBlock elseBranch => by
    rw [warned, lists, List.flatMap_append]
    exact (perm_blockWarned thenBlock).append (perm_warned elseBranch)
  | whileLoop _ _ body => perm_blockWarned body
  | block b => perm_blockWarned b
  | function _ _ body => perm_blockWarned body
  | letVar .. | expression .. | ret .. | error _ => .nil

theorem perm_blockWarned : ∀ b : Block,
    (blockWarned b).Perm ((blockLists b).flatMap (behindReturns false))
  | .mk _ _ body => perm_warnedAll false body

theorem perm_warnedAll : ∀ (afterReturn : Bool) (ss : List Stmt),
    (warnedAll afterReturn ss).Perm
      (behindReturns afterReturn ss ++ (listsAll ss).flatMap (behindReturns false))
  | _, [] => .nil
  | afterReturn, s :: ss => by
    have here : behindReturns afterReturn (s :: ss) =
        (if afterReturn then [s] else []) ++ behindReturns s.isReturn ss := by
      cases afterReturn <;> rfl
    rw [warnedAll, listsAll, here, List.flatMap_append, List.append_assoc, List.append_assoc]
    refine .append_left _ (((perm_warned s).append (perm_warnedAll s.isReturn ss)).trans ?_)
    exact List.perm_append_comm_assoc ..

end

mutual

/-- The order of a list is kept. -/
theorem sublist_warned : ∀ s : Stmt, ∀ ss ∈ s.lists, (behindReturns false ss).Sublist s.warned
  | ifThen _ _ thenBlock => sublist_blockWarned thenBlock
  | ifThenElse _ _ thenBlock elseBranch => List.forall_mem_append.2
    ⟨fun ss mem => (sublist_blockWarned thenBlock ss mem).trans (List.sublist_append_left ..),
      fun ss mem => (sublist_warned elseBranch ss mem).trans (List.sublist_append_right ..)⟩
  | whileLoop _ _ body => sublist_blockWarned body
  | block b => sublist_blockWarned b
  | function _ _ body => sublist_blockWarned body
  | letVar .. | expression .. | ret .. | error _ => List.forall_mem_nil _

theorem sublist_blockWarned : ∀ b : Block,
    ∀ ss ∈ blockLists b, (behindReturns false ss).Sublist (blockWarned b)
  | .mk _ _ body => List.forall_mem_cons.2
    ⟨sublist_warnedAll_self false body, sublist_warnedAll false body⟩

theorem sublist_warnedAll_self : ∀ (afterReturn : Bool) (ss : List Stmt),
    (behindReturns afterReturn ss).Sublist (warnedAll afterReturn ss)
  | _, [] => .slnil
  | afterReturn, s :: ss => by
    have rest := (sublist_warnedAll_self s.isReturn ss).trans (List.sublist_append_right s.warned _)
    cases afterReturn with
    | false => exact rest
    | true => exact rest.cons_cons s

theorem sublist_warnedAll : ∀ (afterReturn : Bool) (ss : List Stmt), ∀ ts ∈ listsAll ss,
    (behindReturns false ts).Sublist (warnedAll afterReturn ss)
  | _, [] => List.forall_mem_nil _
  | _, s :: ss => List.forall_mem_append.2
    ⟨fun ts mem => ((sublist_warned s ts mem).trans (List.sublist_append_right ..)).trans
        (List.sublist_append_left ..),
      fun ts mem => (sublist_warnedAll s.isReturn ss ts mem).trans (List.sublist_append_right ..)⟩

end

mutual

/-- A statement and the statements of the lists in it are among those below it. -/
theorem subperm_preorder : ∀ s : Stmt, (s :: s.lists.flatten).Subperm s.preorder
  | ifThen _ _ thenBlock => (List.subperm_cons _).2 (subperm_inBlock thenBlock)
  | ifThenElse _ _ thenBlock elseBranch => by
    rw [lists, List.flatten_append]
    have inElse := (List.sublist_cons_self elseBranch _).subperm.trans (subperm_preorder elseBranch)
    exact (List.subperm_cons _).2 ((subperm_inBlock thenBlock).append inElse)
  | whileLoop _ _ body => (List.subperm_cons _).2 (subperm_inBlock body)
  | block b => (List.subperm_cons _).2 (subperm_inBlock b)
  | function _ _ body => (List.subperm_cons _).2 (subperm_inBlock body)
  | letVar .. | expression .. | ret .. | error _ => .refl _

theorem subperm_inBlock : ∀ b : Block, (blockLists b).flatten.Subperm (inBlock b)
  | .mk _ _ body => subperm_preorderAll body

theorem subperm_preorderAll : ∀ ss : List Stmt,
    (ss ++ (listsAll ss).flatten).Subperm (preorderAll ss)
  | [] => .refl _
  | s :: ss => by
    have both := (subperm_preorder s).append (subperm_preorderAll ss)
    rw [listsAll, List.flatten_append, preorderAll]
    refine List.Subperm.trans (List.Perm.subperm ?_) both
    exact (List.perm_append_comm_assoc ss s.lists.flatten _).cons s

end

/-! ## Places of statements -/

/-- The places of statements, as those of warnings about them. -/
def sites (ss : List Stmt) : List Blame := ss.map fun s => (.unreachableCode, s.span)

/-- The statements stand in a part of a text, no two of them at the same place. -/
abbrev Placed (span : Span) (ss : List Stmt) : Prop := Spread span.start span.stop (sites ss)

theorem placed_flatten {span : Span} {spans : List Span} {parts : List (List Stmt)}
    (holds : span.Holds spans) (each : List.Forall₂ Placed spans parts) :
    Placed span parts.flatten ∧ ∀ s ∈ parts.flatten, s.span ≠ span := by
  have spreads : List.Forall₂ (fun s bs => Spread s.start s.stop bs) spans (parts.map sites) :=
    List.forall₂_map_right_iff.2 each
  have whole : sites parts.flatten = (parts.map sites).flatten := List.map_flatten
  refine ⟨?_, fun s mem => ?_⟩
  · rw [Placed, whole]
    exact .flatten spreads holds.inOrder
  · exact Spread.proper spreads holds.proper (.unreachableCode, s.span)
      (whole ▸ List.mem_map_of_mem mem)

/-- A statement with all that is in it. -/
theorem placed_cons {s : Stmt} {spans : List Span} {parts : List (List Stmt)}
    (holds : s.span.Holds spans) (each : List.Forall₂ Placed spans parts) :
    Placed s.span (s :: parts.flatten) := by
  obtain ⟨inside, apart⟩ := placed_flatten holds each
  have here : Placed s.span [s] := .single le_rfl holds.nonempty le_rfl
  refine here.union inside (List.forall_mem_singleton.2 fun mem => ?_)
  obtain ⟨t, there, same⟩ := List.mem_map.1 mem
  exact apart t there (Prod.mk.inj same).2

mutual

/-- The statements below a statement stand in it, no two of them at the same place. -/
theorem placed_preorder : ∀ {s : Stmt}, s.LaidOut → Placed s.span s.preorder
  | ifThen span test thenBlock, ⟨holds, _, inThen⟩ => by
    have placed := placed_cons (s := ifThen span test thenBlock)
      (holds.sublist (List.sublist_cons_self ..)) (.cons (placed_inBlock inThen) .nil)
    rwa [List.flatten_singleton] at placed
  | ifThenElse span test thenBlock elseBranch, ⟨holds, _, inThen, inElse⟩ => by
    have placed := placed_cons (s := ifThenElse span test thenBlock elseBranch)
      (holds.sublist (List.sublist_cons_self ..))
      (.cons (placed_inBlock inThen) (.cons (placed_preorder inElse) .nil))
    rwa [List.flatten_cons, List.flatten_singleton] at placed
  | whileLoop span test body, ⟨holds, _, inBody⟩ => by
    have placed := placed_cons (s := whileLoop span test body)
      (holds.sublist (List.sublist_cons_self ..)) (.cons (placed_inBlock inBody) .nil)
    rwa [List.flatten_singleton] at placed
  | block (.mk id span body), ⟨holds, inside⟩ => by
    have placed := placed_cons (s := block (.mk id span body)) holds (placed_each inside)
    rwa [← List.flatMap_def, ← preorderAll_eq_flatMap] at placed
  | function span header body, ⟨holds, _, inBody⟩ => by
    have placed := placed_cons (s := function span header body)
      (holds.sublist (List.sublist_append_right ..)) (.cons (placed_inBlock inBody) .nil)
    rwa [List.flatten_singleton] at placed
  | letVar .., ⟨holds, _⟩ => .single le_rfl holds.nonempty le_rfl
  | expression .., ⟨holds, _⟩ => .single le_rfl holds.nonempty le_rfl
  | ret .., ⟨holds, _⟩ => .single le_rfl holds.nonempty le_rfl
  | error _, holds => .single le_rfl (Span.Holds.nonempty holds) le_rfl

theorem placed_inBlock : ∀ {b : Block}, BlockLaidOut b → Placed b.span (inBlock b)
  | .mk _ _ body, ⟨holds, inside⟩ => by
    have placed := (placed_flatten holds (placed_each inside)).1
    rwa [← List.flatMap_def, ← preorderAll_eq_flatMap] at placed

theorem placed_each : ∀ {ss : List Stmt}, AllLaidOut ss →
    List.Forall₂ Placed (ss.map span) (ss.map preorder)
  | [], _ => .nil
  | _ :: _, ⟨first, others⟩ => .cons (placed_preorder first) (placed_each others)

end

end Stmt

open Stmt

/-- The lists of statements of a program: its own and those of all blocks and functions. -/
def Program.lists (p : Program) : List (List Stmt) := p.body :: listsAll p.body

/-- No two statements of a text stand at the same place. -/
theorem nodup_spans_parseSource (source : List Char) {s : Session} (uncancelled : s.Uncancelled) :
    ((parseSource source s).program.statements.map Stmt.span).Nodup := by
  obtain ⟨⟨lo, hi, inOrder⟩, laidOut⟩ := laidOut_parseSource source uncancelled
  have spread : Spread lo hi
      (((parseSource source s).program.body.map preorder).map sites).flatten :=
    .flatten (List.forall₂_map_right_iff.2 (placed_each laidOut)) inOrder
  have whole : sites (parseSource source s).program.statements =
      (((parseSource source s).program.body.map preorder).map sites).flatten := by
    rw [Program.statements, preorderAll_eq_flatMap, List.flatMap_def]
    exact List.map_flatten
  rw [← whole] at spread
  refine List.Nodup.of_map (fun span : Span => ((.unreachableCode, span) : Blame)) ?_
  rw [List.map_map]
  exact spread.nodup

/-! ## Warnings -/

namespace Typing

/-- Where diagnostics warn about unreachable statements. -/
def unreachables (ds : List Diagnostic) : List Span :=
  (ds.filter fun d => d.problem = .unreachableCode).map Diagnostic.span

@[simp] theorem unreachables_append (ds ds' : List Diagnostic) :
    unreachables (ds ++ ds') = unreachables ds ++ unreachables ds' := by
  simp [unreachables]

@[simp] theorem unreachables_mismatch (expected found : Ty) (span : Span) :
    unreachables (reported (mismatch expected found) span) = [] := by
  unfold mismatch
  split <;> rfl

@[simp] theorem unreachables_nameRule (c : Context) (name : String) (symbol : Option SymbolRef)
    (span : Span) : unreachables (reported (nameRule c name symbol).2 span) = [] := by
  unfold nameRule
  split
  · rfl
  · split <;> rfl

@[simp] theorem unreachables_binaryRule (op : BinaryOp) (left right : Ty) (span : Span) :
    unreachables (reported (binaryRule op left right).2 span) = [] := by
  unfold binaryRule
  split
  · rfl
  · split <;> rfl

@[simp] theorem unreachables_unaryRule (op : UnaryOp) (operand : Ty) (span : Span) :
    unreachables (reported (unaryRule op operand).2 span) = [] := by
  unfold unaryRule
  split
  · rfl
  · split <;> rfl

@[simp] theorem unreachables_divisorRule (op : BinaryOp) (right : Typed.Expr) (span : Span) :
    unreachables (reported (divisorRule op right) span) = [] := by
  unfold divisorRule
  split <;> rfl

@[simp] theorem unreachables_declarationRule (name : String) (declared : Option WrittenType)
    (value : Ty) (span : Span) :
    unreachables (reported (declarationRule name declared value).2 span) = [] := by
  unfold declarationRule
  split
  · exact unreachables_mismatch ..
  · split <;> rfl

@[simp] theorem unreachables_argumentRule (callee : String) : ∀ (position : Nat) (params : List Ty)
    (arguments : List Typed.Expr), unreachables (argumentRule callee position params arguments) = []
  | _, [], _ | _, _ :: _, [] => by simp [argumentRule, unreachables]
  | position, param :: params, argument :: arguments => by
    rw [argumentRule, unreachables_append, unreachables_argumentRule callee (position + 1)]
    split <;> rfl

@[simp] theorem unreachables_callRule (c : Context) (callee : String) (calleeSpan span : Span)
    (arguments : List Typed.Expr) (symbol : Option SymbolRef) :
    unreachables (callRule c callee calleeSpan span arguments symbol).2 = [] := by
  unfold callRule
  split
  · rfl
  · dsimp only
    split
    · rfl
    · split
      · split
        · exact unreachables_argumentRule ..
        · rfl
      · rfl

@[simp] theorem unreachables_assignmentRule (c : Context) (target : String)
    (targetSpan span : Span) (value : Ty) (symbol : Option SymbolRef) :
    unreachables (assignmentRule c target targetSpan span value symbol).2 = [] := by
  unfold assignmentRule
  split
  · rfl
  · split
    · rfl
    · dsimp only
      split
      · rfl
      · exact unreachables_mismatch ..

@[simp] theorem unreachables_returnRule (expected : Option Ty) (span : Span)
    (value : Option Typed.Expr) : unreachables (returnRule expected span value) = [] := by
  unfold returnRule
  split
  · rfl
  · exact unreachables_mismatch ..
  · exact unreachables_mismatch ..

@[simp] theorem unreachables_functionRule (header : FunctionHeader) (body : Typed.Block) :
    unreachables (functionRule header body) = [] := by
  unfold functionRule
  split <;> rfl

mutual

/-- About expressions there are no such warnings. -/
@[simp] theorem unreachables_typeExpr (c : Context) : ∀ e : Expr,
    unreachables (typeExpr c e).2 = []
  | .literal .. => rfl
  | .var .. => unreachables_nameRule ..
  | .binary _ _ _ left right => by
    simp [typeExpr, unreachables_typeExpr c left, unreachables_typeExpr c right]
  | .unary _ _ _ operand => by simp [typeExpr, unreachables_typeExpr c operand]
  | .call _ _ _ _ arguments => by simp [typeExpr, unreachables_typeExprs c arguments]
  | .assignment _ _ _ _ value => by simp [typeExpr, unreachables_typeExpr c value]

theorem unreachables_typeExprs (c : Context) : ∀ es : List Expr,
    unreachables (typeExprs c es).2 = []
  | [] => rfl
  | e :: es => by simp [typeExprs, unreachables_typeExpr c e, unreachables_typeExprs c es]

end

/-! ## The walk -/

namespace Checker

variable {k k' k'' : Checker} {ss ss' : List Stmt}

/-- Between two states of the checker it warned about the given statements, in this order. -/
def Warns (k : Checker) (ss : List Stmt) (k' : Checker) : Prop :=
  ∃ ds, k'.session = k.session.recordAll ds ∧ unreachables ds = ss.map Stmt.span

theorem Warns.trans (h : k.Warns ss k') (h' : k'.Warns ss' k'') : k.Warns (ss ++ ss') k'' := by
  obtain ⟨ds, session, warned⟩ := h
  obtain ⟨ds', session', warned'⟩ := h'
  refine ⟨ds ++ ds', ?_, ?_⟩
  · rw [session', session]
    simp [Session.recordAll]
  · rw [unreachables_append, warned, warned', List.map_append]

/-- What is found without a warning. -/
theorem Warns.silent {ds : List Diagnostic} (session : k'.session = k.session.recordAll ds)
    (silent : unreachables ds = []) : k.Warns [] k' := ⟨ds, session, silent⟩

theorem warns_expr (k : Checker) (e : Expr) : k.Warns [] (k.expr e).2 :=
  .silent rfl (unreachables_typeExpr k.context e)

theorem warns_condition (k : Checker) (e : Expr) : k.Warns [] (k.condition e).2 :=
  (warns_expr k e).trans (.silent rfl (unreachables_mismatch ..))

/-- The warning about a statement behind a `return`. -/
theorem warns_warning (k : Checker) (afterReturn : Bool) (s : Stmt) :
    k.Warns (if afterReturn then [s] else [])
      (if afterReturn then k.recordAll (reported [.unreachableCode] s.span) else k) := by
  cases afterReturn with
  | false => exact ⟨[], (Session.recordAll_nil _).symm, rfl⟩
  | true => exact ⟨_, rfl, rfl⟩

end Checker

open Checker
open Semantics (typeStmt_whileLoop_of_uncancelled typeTopLevel_cons_of_uncancelled)

mutual

theorem warns_typeStmt (expected : Option Ty) : ∀ (s : Stmt) {k : Checker},
    k.session.Uncancelled → k.Warns s.warned (typeStmt expected s k).2
  | .letVar _ _ _ _ _ value, k, _ =>
    (warns_expr k value).trans (.silent (session_infer ..) (unreachables_declarationRule ..))
  | .ifThen _ test thenBlock, k, uncancelled => by
    have goesOn := (leads_condition k test).uncancelled uncancelled
    exact (warns_condition k test).trans (warns_typeBlock expected thenBlock goesOn)
  | .ifThenElse _ test thenBlock elseBranch, k, uncancelled => by
    have goesOn := (leads_condition k test).uncancelled uncancelled
    have goesOn' := (leads_typeBlock expected thenBlock _).uncancelled goesOn
    exact (warns_condition k test).trans ((warns_typeBlock expected thenBlock goesOn).trans
      (warns_typeStmt expected elseBranch goesOn'))
  | .whileLoop _ test body, k, uncancelled => by
    have goesOn := (leads_condition k test).uncancelled uncancelled
    rw [typeStmt_whileLoop_of_uncancelled uncancelled]
    exact (warns_condition k test).trans (warns_typeBlock expected body goesOn)
  | .block b, _, uncancelled => warns_typeBlock expected b uncancelled
  | .expression _ e, k, _ => warns_expr k e
  | .function _ header body, k, uncancelled => by
    have inBody := warns_typeBlock (some (.ofReturn header.returnType)) body uncancelled
    rw [Stmt.warned, ← List.append_nil (Stmt.blockWarned body)]
    exact inBody.trans (.silent rfl (unreachables_functionRule header _))
  | .ret span (some e), k, _ =>
    (warns_expr k e).trans (.silent rfl (unreachables_returnRule expected span _))
  | .ret span none, _, _ => .silent rfl (unreachables_returnRule expected span none)
  | .error _, _, _ => .silent (Session.recordAll_nil _).symm rfl

theorem warns_typeBlock (expected : Option Ty) : ∀ (b : Block) {k : Checker},
    k.session.Uncancelled → k.Warns (Stmt.blockWarned b) (typeBlock expected b k).2
  | .mk _ _ body, _, uncancelled => warns_typeAll expected false body uncancelled

theorem warns_typeAll (expected : Option Ty) :
    ∀ (afterReturn : Bool) (ss : List Stmt) {k : Checker}, k.session.Uncancelled →
      k.Warns (warnedAll afterReturn ss) (typeAll expected afterReturn ss k).2
  | _, [], _, _ => .silent (Session.recordAll_nil _).symm rfl
  | afterReturn, s :: ss, k, uncancelled => by
    have warned := (leads_warning afterReturn k (reported [.unreachableCode] s.span)).uncancelled
      uncancelled
    have goesOn := (leads_typeStmt expected s _).uncancelled warned
    exact ((warns_warning k afterReturn s).trans (warns_typeStmt expected s warned)).trans
      (warns_typeAll expected s.isReturn ss goesOn)

end

theorem warns_typeTopLevel : ∀ (afterReturn : Bool) (ss : List Stmt) {k : Checker},
    k.session.Uncancelled → k.Warns (warnedAll afterReturn ss) (typeTopLevel afterReturn ss k).2
  | _, [], _, _ => .silent (Session.recordAll_nil _).symm rfl
  | afterReturn, s :: ss, k, uncancelled => by
    obtain ⟨k₁, rfl, result⟩ := typeTopLevel_cons_of_uncancelled uncancelled afterReturn s ss
    have warned := (leads_warning afterReturn k (reported [.unreachableCode] s.span)).uncancelled
      uncancelled
    have goesOn := (leads_typeStmt none s _).uncancelled warned
    rw [result]
    exact ((warns_warning k afterReturn s).trans (warns_typeStmt none s warned)).trans
      (warns_typeTopLevel s.isReturn ss goesOn)

/-- The checker warns about each statement that stands right behind a `return` of its list, and
about no other. -/
theorem typeCheck_unreachables (p : Program) (r : Resolution) {s : Session}
    (uncancelled : s.Uncancelled) :
    ∃ ds, (typeCheck p r s).2 = s.recordAll ds ∧
      unreachables ds = (warnedAll false p.body).map Stmt.span :=
  warns_typeTopLevel false p.body (k := .start r s) uncancelled

end Typing

/-! ## List by list -/

section

variable {p : Program}

theorem nodup_flatten_lists (distinct : (p.statements.map Stmt.span).Nodup) :
    p.lists.flatten.Nodup := by
  obtain ⟨ss, perm, sub⟩ := subperm_preorderAll p.body
  exact perm.nodup_iff.1 ((List.Nodup.of_map _ distinct).sublist sub)

/-- Where no two statements stand at the same place, the lists of a program have none in common. -/
theorem list_unique (distinct : (p.statements.map Stmt.span).Nodup) {ss ts : List Stmt}
    (mem : ss ∈ p.lists) (mem' : ts ∈ p.lists) {s t : Stmt} (inFirst : s ∈ ss) (inSecond : t ∈ ts)
    (same : s.span = t.span) : s = t ∧ ss = ts := by
  have all : ∀ {u us}, us ∈ p.lists → u ∈ us → u ∈ p.statements := fun there inside =>
    (subperm_preorderAll p.body).subset (List.mem_flatten_of_mem there inside)
  obtain rfl : s = t :=
    List.inj_on_of_nodup_map distinct (all mem inFirst) (all mem' inSecond) same
  refine ⟨rfl, ?_⟩
  by_contra other
  have symmetric : Std.Symm (@List.Disjoint Stmt) := ⟨fun _ _ => List.Disjoint.symm⟩
  have disjoint := (List.nodup_flatten.1 (nodup_flatten_lists distinct)).2.forall mem mem' other
  exact disjoint inFirst inSecond

/-- Of the statements that are warned about, those of one list stand behind its `return`s. -/
theorem filter_warnedAll (distinct : (p.statements.map Stmt.span).Nodup) {ss : List Stmt}
    (mem : ss ∈ p.lists) :
    (warnedAll false p.body).filter (fun s => s.span ∈ ss.map Stmt.span) =
      behindReturns false ss := by
  have perm : (warnedAll false p.body).Perm (p.lists.flatMap (behindReturns false)) :=
    perm_warnedAll false p.body
  have sub : (p.lists.flatMap (behindReturns false)).Sublist p.lists.flatten := by
    rw [← List.flatMap_id]
    exact .flatMap_right _ fun ss _ => behindReturns_sublist false ss
  have nodup : (warnedAll false p.body).Nodup :=
    perm.nodup_iff.2 ((nodup_flatten_lists distinct).sublist sub)
  have ordered : (behindReturns false ss).Sublist (warnedAll false p.body) := by
    rcases List.mem_cons.1 mem with rfl | inside
    · exact sublist_warnedAll_self false p.body
    · exact sublist_warnedAll false p.body ss inside
  have own : (behindReturns false ss).filter (fun s => s.span ∈ ss.map Stmt.span) =
      behindReturns false ss := List.filter_eq_self.2 fun s here =>
    decide_eq_true (List.mem_map_of_mem ((behindReturns_sublist false ss).subset here))
  have within := ordered.filter fun s => s.span ∈ ss.map Stmt.span
  rw [own] at within
  refine (within.eq_of_length_le ((nodup.filter _).subperm fun s here => ?_).length_le).symm
  obtain ⟨warned, inList⟩ := List.mem_filter.1 here
  obtain ⟨t, there, same⟩ := List.mem_map.1 (of_decide_eq_true inList)
  obtain ⟨ts, isList, behind⟩ := List.mem_flatMap.1 (perm.subset warned)
  obtain ⟨-, rfl⟩ :=
    list_unique distinct mem isList there ((behindReturns_sublist false ts).subset behind) same
  exact behind

end

/-- The checker warns about the statements of a list that stand right behind one of its `return`s,
in their order. So it warns only once, about the statement behind the first `return`, exactly if
only one of the `return`s is followed by a statement of the list. -/
theorem typeCheck_unreachable (source : List Char) (r : Resolution) {s t : Session}
    (uncancelled : s.Uncancelled) (uncancelled' : t.Uncancelled) :
    ∃ ds, (typeCheck (parseSource source s).program r t).2 = t.recordAll ds ∧
      (unreachables ds).Perm
        (((parseSource source s).program.lists.flatMap (behindReturns false)).map Stmt.span) ∧
      ∀ ss ∈ (parseSource source s).program.lists,
        (unreachables ds).filter (fun span => span ∈ ss.map Stmt.span) =
            (behindReturns false ss).map Stmt.span ∧
          ((unreachables ds).filter (fun span => span ∈ ss.map Stmt.span) =
              (behindFirstReturn? ss).toList.map Stmt.span ↔
            (behindReturns false ss).length ≤ 1) := by
  obtain ⟨ds, session, warned⟩ :=
    typeCheck_unreachables (parseSource source s).program r uncancelled'
  refine ⟨ds, session, ?_, fun ss mem => ?_⟩
  · rw [warned]
    exact (perm_warnedAll false _).map Stmt.span
  · have own : (unreachables ds).filter (fun span => span ∈ ss.map Stmt.span) =
        (behindReturns false ss).map Stmt.span := by
      rw [warned, List.filter_map]
      exact congrArg (List.map Stmt.span)
        (filter_warnedAll (nodup_spans_parseSource source uncancelled) mem)
    refine ⟨own, ?_⟩
    rw [own]
    exact map_behindReturns_eq_iff Stmt.span ss

/-- A function with two statements behind a `return`. -/
def twoBehind : List Char := "fn f() -> int \x7b return 1; print(2); print(3); \x7d".toList

/-- Behind a `return` only the first statement is warned about. -/
theorem typeCheck_unreachable_twoBehind :
    Session.fresh.Uncancelled ∧ ∃ ds,
      (typeCheck (parseSource twoBehind .fresh).program
        (resolve (parseSource twoBehind .fresh).program .fresh).1 .fresh).2 =
          Session.fresh.recordAll ds ∧
      unreachables ds = [⟨26, 35, 1, 27⟩] ∧
      ∀ ss ∈ (parseSource twoBehind .fresh).program.lists,
        (unreachables ds).filter (fun span => span ∈ ss.map Stmt.span) =
          (behindFirstReturn? ss).toList.map Stmt.span := by
  obtain ⟨ds, session, all, each⟩ := typeCheck_unreachable twoBehind
    (resolve (parseSource twoBehind .fresh).program .fresh).1 uncancelled_fresh uncancelled_fresh
  have one : ((parseSource twoBehind .fresh).program.lists.flatMap (behindReturns false)).map
      Stmt.span = [⟨26, 35, 1, 27⟩] := by decide +kernel
  have atMost : ∀ ss ∈ (parseSource twoBehind .fresh).program.lists,
      (behindReturns false ss).length ≤ 1 := by decide +kernel
  rw [one] at all
  exact ⟨uncancelled_fresh, ds, session, List.perm_singleton.1 all,
    fun ss mem => (each ss mem).2.2 (atMost ss mem)⟩

/-- A function with one `return` after another. -/
def returnsInARow : List Char := "fn f() \x7b return; return; return; \x7d".toList

/-- The second `return` and the third one are both warned about. -/
theorem typeCheck_returnsInARow :
    (parseSource returnsInARow .fresh).valid = true ∧
      (parseSource returnsInARow .fresh).program.lists.map (fun ss =>
          ((unreachables (typeCheck (parseSource returnsInARow .fresh).program
              (resolve (parseSource returnsInARow .fresh).program .fresh).1
              .fresh).2.diagnostics).filter (fun span => span ∈ ss.map Stmt.span),
            (behindFirstReturn? ss).toList.map Stmt.span)) =
        [([], []), ([⟨17, 24, 1, 18⟩, ⟨25, 32, 1, 26⟩], [⟨17, 24, 1, 18⟩])] := by
  decide +kernel

end MiniLang
