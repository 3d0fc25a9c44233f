import Mathlib.Data.List.Forall2
import MiniLang.Proofs.Scope.Symbols
import MiniLang.Proofs.Typing.Nodes
import MiniLang.Proofs.Typing.Progress

/-!
# What typed trees say about nodes and symbols

Every statement of a typed program is the typed form of a statement of the program, in order
(`typed_typeTopLevel`); some may be missing after a cancellation. So no two expressions of a typed
program have the same number (`nodup_ids_typeCheck`), and the variables and parameters that it
reads, writes and declares are symbols of the names that stand there (`named_typeCheck`).
-/

set_option autoImplicit false

namespace MiniLang

open Scoping (Declaration)

/-! ## Expressions of the program -/

namespace Expr

mutual

/-- An expression below another one uses no more names. -/
theorem nameUses_subset {n : Expr} : ∀ e : Expr, n ∈ e.nodes → n.nameUses ⊆ e.nameUses
  | literal .., mem | var .., mem => by
    rw [List.mem_singleton.1 mem]
    exact List.Subset.refl _
  | binary _ _ _ left right, mem => by
    rcases List.mem_cons.1 mem with rfl | mem
    · exact List.Subset.refl _
    · rcases List.mem_append.1 mem with mem | mem
      · exact List.subset_append_of_subset_left _ (nameUses_subset left mem)
      · exact List.subset_append_of_subset_right _ (nameUses_subset right mem)
  | unary _ _ _ operand, mem => by
    rcases List.mem_cons.1 mem with rfl | mem
    · exact List.Subset.refl _
    · exact nameUses_subset operand mem
  | call _ _ _ _ arguments, mem => by
    rcases List.mem_cons.1 mem with rfl | mem
    · exact List.Subset.refl _
    · exact List.Subset.trans (nameUsesAll_subset arguments mem) (List.subset_cons_self ..)
  | assignment _ _ _ _ value, mem => by
    rcases List.mem_cons.1 mem with rfl | mem
    · exact List.Subset.refl _
    · exact List.subset_append_of_subset_left _ (nameUses_subset value mem)

theorem nameUsesAll_subset {n : Expr} :
    ∀ es : List Expr, n ∈ nodesAll es → n.nameUses ⊆ nameUsesAll es
  | [], mem => by cases mem
  | e :: es, mem => by
    rcases List.mem_append.1 mem with mem | mem
    · exact List.subset_append_of_subset_left _ (nameUses_subset e mem)
    · exact List.subset_append_of_subset_right _ (nameUsesAll_subset es mem)

end

end Expr

namespace Stmt

mutual

/-- The names that a statement uses are those that the expressions of the statements in it use. -/
theorem uses_eq_flatMap : ∀ s : Stmt,
    s.uses = s.preorder.flatMap fun t => t.ownExprs.flatMap Expr.nameUses
  | letVar .. | expression .. | ret _ (some _) | ret _ none | error _ => by
    simp [uses, preorder, ownExprs]
  | ifThen _ _ thenBlock => by
    simp [uses, preorder, ownExprs, blockUses_eq_flatMap thenBlock]
  | ifThenElse _ _ thenBlock elseBranch => by
    simp [uses, preorder, ownExprs, blockUses_eq_flatMap thenBlock, uses_eq_flatMap elseBranch]
  | whileLoop _ _ body => by simp [uses, preorder, ownExprs, blockUses_eq_flatMap body]
  | block b => by simp [uses, preorder, ownExprs, blockUses_eq_flatMap b]
  | function _ _ body => by simp [uses, preorder, ownExprs, blockUses_eq_flatMap body]

theorem blockUses_eq_flatMap : ∀ b : Block,
    blockUses b = (inBlock b).flatMap fun t => t.ownExprs.flatMap Expr.nameUses
  | .mk _ _ body => usesAll_eq_flatMap body

theorem usesAll_eq_flatMap : ∀ ss : List Stmt,
    usesAll ss = (preorderAll ss).flatMap fun t => t.ownExprs.flatMap Expr.nameUses
  | [] => rfl
  | s :: ss => by
    rw [usesAll, preorderAll, List.flatMap_append, uses_eq_flatMap s, usesAll_eq_flatMap ss]

end

mutual

/-- Expressions are nodes of their own. -/
theorem ids_exprs : ∀ s : Stmt, (s.exprs.map Expr.id).Sublist s.ids
  | letVar id _ _ _ _ value => by
    rw [exprs, value.map_id_nodes]
    exact List.sublist_cons_self id _
  | ifThen _ condition thenBlock | whileLoop _ condition thenBlock => by
    rw [exprs, List.map_append, condition.map_id_nodes]
    exact (ids_blockExprs thenBlock).append_left _
  | ifThenElse _ condition thenBlock elseBranch => by
    rw [exprs, List.map_append, List.map_append, condition.map_id_nodes]
    exact ((ids_blockExprs thenBlock).append_left _).append (ids_exprs elseBranch)
  | block b => ids_blockExprs b
  | expression _ value | ret _ (some value) => by
    rw [exprs, value.map_id_nodes]
    exact List.Sublist.refl _
  | function _ header body =>
    ((ids_blockExprs body).trans (List.sublist_append_right ..)).cons header.id
  | ret _ none | error _ => List.nil_sublist _

theorem ids_blockExprs : ∀ b : Block, ((blockExprs b).map Expr.id).Sublist (blockIds b)
  | .mk id _ body => (ids_exprsAll body).cons id

theorem ids_exprsAll : ∀ ss : List Stmt, ((exprsAll ss).map Expr.id).Sublist (idsAll ss)
  | [] => List.nil_sublist _
  | s :: ss => by
    rw [exprsAll, List.map_append]
    exact (ids_exprs s).append (ids_exprsAll ss)

end

end Stmt

/-! ## Typed forms -/

namespace Typing

mutual

/-- Typing an expression types every expression below it. -/
theorem nodes_typeExpr (c : Context) : ∀ e : Expr,
    (typeExpr c e).1.nodes = e.nodes.map fun n => (typeExpr c n).1
  | .literal .. | .var .. => rfl
  | .binary _ _ _ left right => by
    rw [Expr.nodes, List.map_cons, List.map_append, ← nodes_typeExpr c left,
      ← nodes_typeExpr c right]
    rfl
  | .unary _ _ _ operand => by
    rw [Expr.nodes, List.map_cons, ← nodes_typeExpr c operand]
    rfl
  | .call _ _ _ _ arguments => by
    rw [Expr.nodes, List.map_cons, ← nodesAll_typeExprs c arguments]
    rfl
  | .assignment _ _ _ _ value => by
    rw [Expr.nodes, List.map_cons, ← nodes_typeExpr c value]
    rfl

theorem nodesAll_typeExprs (c : Context) : ∀ es : List Expr,
    Typed.Expr.nodesAll (typeExprs c es).1 = (Expr.nodesAll es).map fun n => (typeExpr c n).1
  | [] => rfl
  | e :: es => by
    rw [Expr.nodesAll, List.map_append, ← nodes_typeExpr c e, ← nodesAll_typeExprs c es]
    rfl

end

theorem id_typeExpr (c : Context) (e : Expr) : (typeExpr c e).1.info.id = e.id := by
  cases e <;> rfl

end Typing

namespace Typed.Stmt

/-- The variable or the parameters that a statement declares, with their symbols. -/
def declared : Stmt → List (String × Option SymbolRef)
  | letVar _ name symbol _ _ => [(name, symbol)]
  | function _ header _ => header.params.map fun p => (p.name, p.symbol)
  | _ => []

/-- The numbers of the expressions that statements hold themselves, and of those below them. -/
def exprIds (ss : List Stmt) : List NodeId :=
  (ss.flatMap fun s => s.ownExprs.flatMap Expr.nodes).map (·.info.id)

theorem exprIds_append (ss ss' : List Stmt) : exprIds (ss ++ ss') = exprIds ss ++ exprIds ss' := by
  rw [exprIds, List.flatMap_append, List.map_append]
  rfl

theorem exprIds_cons (s : Stmt) (ss : List Stmt) :
    exprIds (s :: ss) = (s.ownExprs.flatMap Expr.nodes).map (·.info.id) ++ exprIds ss := by
  rw [exprIds, List.flatMap_cons, List.map_append]
  rfl

end Typed.Stmt

namespace Typing

/-- What a typed statement holds itself is what a statement of the program holds, typed with the
names that a resolution knows. -/
structure TypedForm (R : Resolution) (t : Typed.Stmt) (s : Stmt) : Prop where
  exprs : ∃ c : Context, c.resolution = R ∧ t.ownExprs = s.ownExprs.map fun e => (typeExpr c e).1
  declared : t.declared =
    (Declaration.inStmt s).map fun d => (d.name, d.node.bind R.declarations.get?)

/-- Typed statements are typed forms of statements of a list in order, some of which may be left
out. -/
abbrev TypedForms (R : Resolution) : List Typed.Stmt → List Stmt → Prop :=
  List.SublistForall₂ (TypedForm R)

theorem TypedForms.append {R : Resolution} {ts ts' : List Typed.Stmt} {ss ss' : List Stmt}
    (h : TypedForms R ts ss) (h' : TypedForms R ts' ss') :
    TypedForms R (ts ++ ts') (ss ++ ss') := by
  induction h with
  | @nil ss =>
    induction ss with
    | nil => exact h'
    | cons s ss ih => exact .cons_right ih
  | cons first _ ih => exact .cons first ih
  | cons_right _ ih => exact .cons_right ih

section

variable {R : Resolution} {k : Checker} {t : Typed.Stmt} {s : Stmt}

/-- A statement that declares nothing and holds expressions that were typed in one context. -/
theorem typedForm_of_exprs (h : k.context.resolution = R)
    (exprs : t.ownExprs = s.ownExprs.map fun e => (typeExpr k.context e).1)
    (typed : t.declared = []) (source : Declaration.inStmt s = []) : TypedForm R t s := by
  refine ⟨⟨k.context, h, exprs⟩, ?_⟩
  rw [typed, source]
  rfl

end

mutual

theorem typed_typeStmt {R : Resolution} (expected : Option Ty) :
    ∀ (s : Stmt) {k : Checker}, k.context.resolution = R →
      TypedForms R (typeStmt expected s k).1.preorder s.preorder
  | .letVar id _ name _ _ value, k, h => by
    refine .cons ⟨⟨k.context, h, rfl⟩, ?_⟩ .nil
    rw [← h]
    rfl
  | .ifThen _ test thenBlock, k, h =>
    .cons (typedForm_of_exprs h rfl rfl rfl) (typed_typeBlock expected thenBlock
      ((Checker.leads_condition k test).resolution.trans h))
  | .ifThenElse _ test thenBlock elseBranch, k, h => by
    have tested := Checker.leads_condition k test
    have typed := tested.trans (leads_typeBlock expected thenBlock _)
    exact .cons (typedForm_of_exprs h rfl rfl rfl) (TypedForms.append
      (typed_typeBlock expected thenBlock (tested.resolution.trans h))
      (typed_typeStmt expected elseBranch (typed.resolution.trans h)))
  | .whileLoop _ test body, k, h => by
    have asked := (Checker.leads_condition k test).trans (Checker.leads_checkpoint _ body.span)
    simp only [typeStmt]
    split
    · exact .cons (typedForm_of_exprs h rfl rfl rfl)
        (typed_typeBlock expected body (asked.resolution.trans h))
    · exact .cons (typedForm_of_exprs h rfl rfl rfl) .nil
  | .block b, k, h => .cons (typedForm_of_exprs h rfl rfl rfl) (typed_typeBlock expected b h)
  | .expression _ value, k, h => .cons (typedForm_of_exprs h rfl rfl rfl) .nil
  | .function _ header body, k, h => by
    have typed := leads_typeBlock (some (.ofReturn header.returnType)) body k
    refine .cons ⟨⟨k.context, h, rfl⟩, ?_⟩
      (typed_typeBlock (some (.ofReturn header.returnType)) body h)
    rw [← h, ← typed.resolution]
    simp [typeHeader, Typed.Stmt.declared, Declaration.inStmt, Declaration.ofParam]
  | .ret _ (some _), k, h => .cons (typedForm_of_exprs h rfl rfl rfl) .nil
  | .ret _ none, k, h => .cons (typedForm_of_exprs h rfl rfl rfl) .nil
  | .error _, _, h => .cons (typedForm_of_exprs h rfl rfl rfl) .nil

theorem typed_typeBlock {R : Resolution} (expected : Option Ty) :
    ∀ (b : Block) {k : Checker}, k.context.resolution = R →
      TypedForms R (Typed.Stmt.inBlock (typeBlock expected b k).1) (Stmt.inBlock b)
  | .mk _ _ body, _, h => typed_typeAll expected false body h

theorem typed_typeAll {R : Resolution} (expected : Option Ty) :
    ∀ (afterReturn : Bool) (ss : List Stmt) {k : Checker}, k.context.resolution = R →
      TypedForms R (Typed.Stmt.preorderAll (typeAll expected afterReturn ss k).1)
        (Stmt.preorderAll ss)
  | _, [], _, _ => .nil
  | afterReturn, s :: ss, k, h => by
    have warned := Checker.leads_warning afterReturn k (reported [.unreachableCode] s.span)
    have typed := warned.trans (leads_typeStmt expected s _)
    exact TypedForms.append (typed_typeStmt expected s (warned.resolution.trans h))
      (typed_typeAll expected s.isReturn ss (typed.resolution.trans h))

end

/-- The statements of a typed program are typed forms of the statements of the program. -/
theorem typed_typeTopLevel {R : Resolution} :
    ∀ (afterReturn : Bool) (ss : List Stmt) {k : Checker}, k.context.resolution = R →
      TypedForms R (Typed.Stmt.preorderAll (typeTopLevel afterReturn ss k).1)
        (Stmt.preorderAll ss)
  | _, [], _, _ => .nil
  | afterReturn, s :: ss, k, h => by
    have ready := (Checker.leads_checkpoint k s.span).trans
      (Checker.leads_warning afterReturn _ (reported [.unreachableCode] s.span))
    have typed := ready.trans (leads_typeStmt none s _)
    simp only [typeTopLevel]
    split
    · exact TypedForms.append (typed_typeStmt none s (ready.resolution.trans h))
        (typed_typeTopLevel s.isReturn ss (typed.resolution.trans h))
    · exact .nil

/-! ### Numbers of expressions -/

section

variable {R : Resolution} {ts : List Typed.Stmt} {ss : List Stmt}

theorem TypedForm.ids {t : Typed.Stmt} {s : Stmt} (h : TypedForm R t s) :
    (t.ownExprs.flatMap Typed.Expr.nodes).map (·.info.id) =
      (s.ownExprs.flatMap Expr.nodes).map Expr.id := by
  obtain ⟨c, -, exprs⟩ := h.exprs
  rw [exprs, List.flatMap_map, List.map_flatMap, List.map_flatMap]
  refine congrArg (List.flatMap · s.ownExprs) (funext fun e => ?_)
  rw [nodes_typeExpr, List.map_map]
  exact List.map_congr_left fun n _ => id_typeExpr c n

theorem TypedForms.ids (h : TypedForms R ts ss) :
    (Typed.Stmt.exprIds ts).Sublist
      ((ss.flatMap fun s => s.ownExprs.flatMap Expr.nodes).map Expr.id) := by
  induction h with
  | nil => exact List.nil_sublist _
  | cons first _ ih =>
    rw [Typed.Stmt.exprIds_cons, List.flatMap_cons, List.map_append, first.ids]
    exact ih.append_left _
  | cons_right _ ih =>
    rw [List.flatMap_cons, List.map_append]
    exact List.sublist_append_of_sublist_right ih

/-- Each of them is the typed form of a statement of the list. -/
theorem TypedForms.exists_source (h : TypedForms R ts ss) :
    ∀ t ∈ ts, ∃ s ∈ ss, TypedForm R t s := by
  induction h with
  | nil => exact List.forall_mem_nil _
  | cons first _ ih =>
    refine List.forall_mem_cons.2 ⟨⟨_, List.mem_cons_self, first⟩, fun t mem => ?_⟩
    obtain ⟨s, inside, form⟩ := ih t mem
    exact ⟨s, List.mem_cons_of_mem _ inside, form⟩
  | cons_right _ ih =>
    intro t mem
    obtain ⟨s, inside, form⟩ := ih t mem
    exact ⟨s, List.mem_cons_of_mem _ inside, form⟩

end

end Typing

/-- No two expressions of a typed program have the same number. -/
theorem nodup_ids_typeCheck {p : Program} (distinct : (Stmt.idsAll p.body).Nodup) (R : Resolution)
    (s : Session) : ((typeCheck p R s).1.exprs.map (·.info.id)).Nodup := by
  have forms : Typing.TypedForms R (typeCheck p R s).1.statements p.statements :=
    Typing.typed_typeTopLevel false p.body rfl
  have sub := Stmt.ids_exprsAll p.body
  rw [Stmt.exprsAll_eq_flatMap] at sub
  exact distinct.sublist (forms.ids.trans sub)

/-! ## Variables and parameters -/

/-- A reference refers to a variable or parameter of the given name. -/
def ScopeTree.HasVariable (t : ScopeTree) (name : String) (ref : SymbolRef) : Prop :=
  ∃ symbol, t.symbol? ref = some symbol ∧ symbol.name = name ∧ symbol.kind ≠ .function

namespace Typed

/-- The name whose value an expression itself reads or writes, with the symbol it refers to. -/
def Expr.variable? : Expr → Option (String × SymbolRef)
  | var _ name symbol => symbol.map fun ref => (name, ref)
  | assignment _ target symbol _ => symbol.map fun ref => (target, ref)
  | literal .. | binary .. | unary .. | call .. => none

/-- Unless it was complained about, an expression reads or writes a variable or parameter of the
name that stands there. -/
def Expr.Named (t : ScopeTree) (e : Expr) : Prop :=
  e.type.isError = false → ∀ x ∈ e.variable?, t.HasVariable x.1 x.2

/-- All names in a statement itself, those that it declares and those in its expressions, are names
of the variables and parameters that they refer to. -/
structure Stmt.Named (t : ScopeTree) (s : Stmt) : Prop where
  exprs : ∀ e ∈ s.ownExprs, ∀ n ∈ e.nodes, n.Named t
  declared : ∀ x ∈ s.declared, ∀ ref ∈ x.2, t.HasVariable x.1 ref

end Typed

namespace Typing

variable {R : Resolution} {p : Program}

/-- Rules that complain about functions have no other type for them than the error. -/
theorem isFunction_eq_false {α : Type} {c : Context} {ref : SymbolRef} {found : α} {other : Ty × α}
    (typed : (if c.isFunction ref then (.error, found) else other).1.isError = false) :
    c.isFunction ref = false := by
  by_contra isFunction
  rw [Bool.not_eq_false] at isFunction
  rw [if_pos isFunction] at typed
  cases typed

/-- A used name that refers to no function refers to a variable or parameter. -/
theorem hasVariable_of_use {c : Context} {u : NameUse} {ref : SymbolRef} (h : R.Knows p)
    (same : c.resolution = R) (used : u ∈ p.uses) (found : R.references.get? u.id = some ref)
    (value : c.isFunction ref = false) : R.tree.HasVariable u.name ref := by
  obtain ⟨symbol, known, named⟩ := h.uses u used ref found
  refine ⟨symbol, known, named, ?_⟩
  rw [Context.isFunction, same, known] at value
  exact ne_of_beq_false value

/-- The name that an expression itself reads or writes is that of its symbol. -/
theorem named_typeExpr {c : Context} (h : R.Knows p) (same : c.resolution = R) {e : Expr}
    (used : e.nameUses ⊆ p.uses) : (typeExpr c e).1.Named R.tree := by
  intro typed x mem
  cases e with
  | var id span name =>
    obtain ⟨ref, found, rfl⟩ := Option.map_eq_some_iff.1 mem
    have isUsed : ⟨id, name, span⟩ ∈ p.uses := used (List.mem_singleton_self _)
    refine hasVariable_of_use h same isUsed (same ▸ found) ?_
    change (nameRule c name (c.resolution.references.get? id)).1.isError = false at typed
    rw [found, nameRule] at typed
    exact isFunction_eq_false typed
  | assignment id span target targetSpan value =>
    obtain ⟨ref, found, rfl⟩ := Option.map_eq_some_iff.1 mem
    have isUsed : ⟨id, target, targetSpan⟩ ∈ p.uses :=
      used (List.mem_append_right _ (List.mem_singleton_self _))
    refine hasVariable_of_use h same isUsed (same ▸ found) ?_
    change (assignmentRule c target targetSpan span (typeExpr c value).1.type
      (c.resolution.references.get? id)).1.isError = false at typed
    rw [found, assignmentRule] at typed
    exact isFunction_eq_false typed
  | _ => cases mem

/-- A variable or parameter that a statement declares is known by its symbol. -/
theorem hasVariable_of_inStmt (h : R.Knows p) {s : Stmt} (inside : s ∈ p.statements)
    {d : Declaration} (mem : d ∈ Declaration.inStmt s) {ref : SymbolRef}
    (found : d.node.bind R.declarations.get? = some ref) : R.tree.HasVariable d.name ref := by
  have declared : d ∈ p.declarations :=
    List.mem_flatMap.2 ⟨s, inside, List.mem_append_right _ mem⟩
  refine ⟨_, h.declarations d declared ref found, rfl, ?_⟩
  change d.kind ≠ .function
  cases s with
  | letVar =>
    obtain rfl := List.mem_singleton.1 mem
    exact nofun
  | function =>
    obtain ⟨p, -, rfl⟩ := List.mem_map.1 mem
    exact nofun
  | _ => cases mem

theorem TypedForm.named {t : Typed.Stmt} {s : Stmt} (form : TypedForm R t s) (h : R.Knows p)
    (inside : s ∈ p.statements) : t.Named R.tree := by
  constructor
  · obtain ⟨c, same, exprs⟩ := form.exprs
    rw [exprs]
    intro typed mem n below
    obtain ⟨e, own, rfl⟩ := List.mem_map.1 mem
    rw [nodes_typeExpr] at below
    obtain ⟨m, inE, rfl⟩ := List.mem_map.1 below
    refine named_typeExpr h same (List.Subset.trans (Expr.nameUses_subset e inE) fun u used => ?_)
    rw [Program.uses, Stmt.usesAll_eq_flatMap]
    exact List.mem_flatMap.2 ⟨s, inside, List.mem_flatMap.2 ⟨e, own, used⟩⟩
  · rw [form.declared]
    intro x mem ref found
    obtain ⟨d, declares, rfl⟩ := List.mem_map.1 mem
    exact hasVariable_of_inStmt h inside declares found

end Typing

/-- The names in a typed program are those of the variables and parameters that they refer to. -/
theorem named_typeCheck {p : Program} {R : Resolution} (h : R.Knows p) (s : Session) :
    ∀ t ∈ (typeCheck p R s).1.statements, t.Named R.tree := by
  have forms : Typing.TypedForms R (typeCheck p R s).1.statements p.statements :=
    Typing.typed_typeTopLevel false p.body rfl
  intro t mem
  obtain ⟨source, inside, form⟩ := forms.exists_source t mem
  exact form.named h inside

/-- A typed program whose scopes are in order and whose symbols have names, in which all names are
those of the variables and parameters that they refer to, and all expressions have numbers of their
own. -/
structure Typed.Program.WellNamed (t : Typed.Program) : Prop where
  scopes : t.tree.WellFormed
  areNames : ∀ ref symbol, t.tree.symbol? ref = some symbol → IsName symbol.name
  named : ∀ s ∈ t.statements, s.Named t.tree
  distinct : (Typed.Stmt.exprIds t.statements).Nodup

/-- So is every source text, whatever is wrong with it, after its program was resolved and typed. -/
theorem wellNamed_typeCheck (source : List Char) (s s' s'' : Session) :
    (typeCheck (parseSource source s).program (resolve (parseSource source s).program s').1
      s'').1.WellNamed := by
  have knows := knows_resolve source s s'
  exact ⟨knows.wellFormed, knows.names, named_typeCheck knows s'',
    nodup_ids_typeCheck (nodup_ids_parse (deliveries source) s) _ s''⟩

end MiniLang
