import Mathlib.Tactic
import MiniLang.Proofs.Syntax.Trees
import MiniLang.Proofs.Typing.Progress
import MiniLang.Scope.Resolution

/-!
# The scopes of blocks differ

A block gets the number of scopes that there are as the number of its scope, and scopes are never
taken away. So no two blocks have the same scope (`Resolver.Apart`), whatever else is found out or
found wrong about a program (`apart_resolve`). Typed blocks carry the scopes that resolution gave to
them, and no two blocks of a typed program carry the same (`nodup_scopes_typeCheck`), since no two
nodes of a program have the same number.
-/

set_option autoImplicit false

namespace MiniLang

/-! ## Resolution -/

/-- The scopes of blocks are among those that there are, and no two blocks have the same. -/
structure Resolver.Apart (r : Resolver) : Prop where
  known : ∀ id scope, r.resolution.blockScopes.get? id = some scope →
    scope < r.resolution.tree.size
  apart : ∀ id id' scope, r.resolution.blockScopes.get? id = some scope →
    r.resolution.blockScopes.get? id' = some scope → id = id'

namespace Resolver

variable {r r' : Resolver}

/-- No scope is taken away, and blocks keep theirs. -/
theorem Apart.of_eq (h : r.Apart) (size : r'.resolution.tree.size = r.resolution.tree.size)
    (scopes : r'.resolution.blockScopes = r.resolution.blockScopes) : r'.Apart := by
  constructor
  · rw [size, scopes]
    exact h.known
  · rw [scopes]
    exact h.apart

theorem Apart.declare (h : r.Apart) (scope : ScopeId) (node : NodeId) (name : String)
    (kind : SymbolKind) (type : Option Ty) (span : Span) :
    (r.declare scope node name kind type span).Apart := by
  unfold Resolver.declare ScopeTree.declare
  cases r.resolution.tree.scope? scope with
  | none => exact h.of_eq rfl rfl
  | some S =>
    cases here : S.get? name with
    | some index =>
      simp only [here]
      exact h.of_eq rfl rfl
    | none =>
      simp only [here]
      exact h.of_eq List.length_set rfl

theorem Apart.hoist (h : r.Apart) (scope : ScopeId) (body : List Stmt) :
    (r.hoist scope body).Apart := by
  refine List.foldlRecOn (motive := Apart) body (hoistFunction scope) h fun r h s _ => ?_
  unfold hoistFunction
  split
  · exact h.declare ..
  · exact h

theorem Apart.resolveExpr (h : r.Apart) (scope : ScopeId) (e : Expr) :
    (r.resolveExpr scope e).Apart := by
  refine List.foldlRecOn (motive := Apart) e.nameUses (resolveUse scope) h fun r h use _ => ?_
  unfold resolveUse
  split <;> exact h.of_eq rfl rfl

theorem Apart.declareParams (h : r.Apart) (scope : ScopeId) (params : List Param) :
    (params.foldl (declareParam scope) r).Apart :=
  List.foldlRecOn (motive := Apart) params (declareParam scope) h fun _ h _ _ => h.declare ..

/-- A block gets a scope that no other block has. -/
theorem Apart.enter (h : r.Apart) (kind : ScopeKind) (parent : ScopeId) (block : NodeId) :
    (r.enter kind parent block).2.Apart := by
  have size : (r.enter kind parent block).2.resolution.tree.size = r.resolution.tree.size + 1 :=
    List.length_append
  have get : ∀ id, (r.enter kind parent block).2.resolution.blockScopes.get? id =
      if block = id then some r.resolution.tree.size else r.resolution.blockScopes.get? id :=
    fun id => Table.get?_insert ..
  constructor
  · intro id scope found
    rw [get] at found
    rw [size]
    split at found
    · rw [← Option.some.inj found]
      exact Nat.lt_succ_self _
    · exact Nat.lt_succ_of_lt (h.known id scope found)
  · intro id id' scope found found'
    rw [get] at found found'
    split at found
    next here =>
      obtain rfl := Option.some.inj found
      split at found'
      next here' => rw [← here, ← here']
      next => exact absurd (h.known id' _ found') (Nat.lt_irrefl _)
    next =>
      split at found'
      next =>
        obtain rfl := Option.some.inj found'
        exact absurd (h.known id _ found) (Nat.lt_irrefl _)
      next => exact h.apart id id' scope found found'

mutual

theorem apart_resolveStmt (scope : ScopeId) (inFunction : Bool) :
    ∀ (s : Stmt) {r : Resolver}, r.Apart → (resolveStmt scope inFunction s r).Apart
  | .letVar _ _ _ _ _ value, _, h => (h.resolveExpr scope value).declare ..
  | .ifThen _ condition thenBlock, _, h =>
    apart_resolveBlock scope inFunction thenBlock (h.resolveExpr scope condition)
  | .ifThenElse _ condition thenBlock elseBranch, _, h =>
    apart_resolveStmt scope inFunction elseBranch
      (apart_resolveBlock scope inFunction thenBlock (h.resolveExpr scope condition))
  | .whileLoop _ condition body, r, h => by
    have asked : ((r.resolveExpr scope condition).checkpoint body.span).2.Apart :=
      (h.resolveExpr scope condition).of_eq rfl rfl
    simp only [resolveStmt]
    split
    · exact apart_resolveBlock scope inFunction body asked
    · exact asked
  | .block b, _, h => apart_resolveBlock scope inFunction b h
  | .expression _ value, _, h => h.resolveExpr scope value
  | .function _ header body, _, h => apart_resolveFunction scope header body h
  | .ret span value, r, h => by
    have complained : Apart (if inFunction then r else
        { r with session := r.session.report .returnOutsideFunction span }) := by
      split
      · exact h
      · exact h.of_eq rfl rfl
    cases value with
    | none => exact complained
    | some e => exact complained.resolveExpr scope e
  | .error _, _, h => h

theorem apart_resolveBlock (parent : ScopeId) (inFunction : Bool) :
    ∀ (b : Block) {r : Resolver}, r.Apart → (resolveBlock parent inFunction b r).Apart
  | .mk id _ body, _, h =>
    apart_resolveAll _ inFunction body ((h.enter .block parent id).hoist _ body)

theorem apart_resolveFunction (parent : ScopeId) (header : FunctionHeader) :
    ∀ (b : Block) {r : Resolver}, r.Apart → (resolveFunction parent header b r).Apart
  | .mk id _ body, _, h =>
    apart_resolveAll _ true body
      (((h.enter .function parent id).declareParams _ header.params).hoist _ body)

theorem apart_resolveAll (scope : ScopeId) (inFunction : Bool) :
    ∀ (ss : List Stmt) {r : Resolver}, r.Apart → (resolveAll scope inFunction ss r).Apart
  | [], _, h => h
  | s :: ss, _, h =>
    apart_resolveAll scope inFunction ss (apart_resolveStmt scope inFunction s h)

end

theorem apart_resolveTopLevel :
    ∀ (ss : List Stmt) {r : Resolver}, r.Apart → (resolveTopLevel ss r).Apart
  | [], _, h => h
  | s :: ss, r, h => by
    have asked : (r.checkpoint s.span).2.Apart := h.of_eq rfl rfl
    simp only [resolveTopLevel]
    split
    · exact apart_resolveTopLevel ss (apart_resolveStmt globalScope false s asked)
    · exact asked

/-- Before anything is resolved no block has a scope. -/
theorem apart_start (s : Session) : (start s).Apart :=
  ⟨fun _ _ found => (by cases found), fun _ _ _ found => by cases found⟩

end Resolver

/-- No two blocks of a program have the same scope. -/
theorem apart_resolve (p : Program) (s : Session) {id id' : NodeId} {scope : ScopeId}
    (found : (resolve p s).1.blockScopes.get? id = some scope)
    (found' : (resolve p s).1.blockScopes.get? id' = some scope) : id = id' :=
  (Resolver.apart_resolveTopLevel p.body
    ((Resolver.apart_start s).hoist globalScope p.body)).apart id id' scope found found'

/-! ## Typed programs -/

namespace Typed.Stmt

mutual

/-- The scopes of the blocks of a statement, in order. -/
def scopes : Stmt → List ScopeId
  | ifThen _ _ thenBlock => blockScopes thenBlock
  | ifThenElse _ _ thenBlock elseBranch => blockScopes thenBlock ++ scopes elseBranch
  | whileLoop _ _ body => blockScopes body
  | block b => blockScopes b
  | function _ _ body => blockScopes body
  | letVar .. | expression .. | ret .. | error _ => []

/-- The scope of a block, if it has one, and those of the blocks inside of it. -/
def blockScopes : Block → List ScopeId
  | .mk scope _ body => scope.toList ++ scopesAll body

/-- The scopes of the blocks of statements, in order. -/
def scopesAll : List Stmt → List ScopeId
  | [] => []
  | s :: ss => scopes s ++ scopesAll ss

end

/-- Statements that are left out take their scopes with them. -/
theorem scopesAll_filter (keep : Stmt → Bool) (ss : List Stmt) :
    (scopesAll (ss.filter keep)).Sublist (scopesAll ss) := by
  induction ss with
  | nil => exact .slnil
  | cons s ss ih =>
    rw [List.filter_cons]
    split
    · exact (List.Sublist.refl _).append ih
    · exact List.sublist_append_of_sublist_right ih

/-- The scopes of a function are among those of the program. -/
theorem blockScopes_function {ss : List Stmt} {f : Program.Function}
    (mem : f ∈ Program.functionsOf ss) : (blockScopes f.2.2).Sublist (scopesAll ss) := by
  induction ss with
  | nil => cases mem
  | cons s ss ih =>
    cases s with
    | function span header body =>
      rcases List.mem_cons.1 mem with rfl | mem
      · exact List.sublist_append_left ..
      · exact List.sublist_append_of_sublist_right (ih mem)
    | _ => exact List.sublist_append_of_sublist_right (ih mem)

end Typed.Stmt

/-- The scopes of those of the given nodes that are blocks. -/
def Resolution.scopesOf (R : Resolution) (ids : List NodeId) : List ScopeId :=
  ids.filterMap R.blockScopes.get?

theorem Resolution.scopesOf_append (R : Resolution) (ids ids' : List NodeId) :
    R.scopesOf (ids ++ ids') = R.scopesOf ids ++ R.scopesOf ids' := List.filterMap_append

namespace Typing

open Typed.Stmt (scopes blockScopes scopesAll)

/-- More nodes stand in front. -/
theorem sublist_behind {R : Resolution} {scopes : List ScopeId} {ids : List NodeId}
    (h : scopes.Sublist (R.scopesOf ids)) (before : List NodeId) :
    scopes.Sublist (R.scopesOf (before ++ ids)) := by
  rw [R.scopesOf_append]
  exact List.sublist_append_of_sublist_right h

theorem sublist_append {R : Resolution} {scopes scopes' : List ScopeId} {ids ids' : List NodeId}
    (h : scopes.Sublist (R.scopesOf ids)) (h' : scopes'.Sublist (R.scopesOf ids')) :
    (scopes ++ scopes').Sublist (R.scopesOf (ids ++ ids')) := by
  rw [R.scopesOf_append]
  exact h.append h'

mutual

/-- The scopes in the typed form of a statement are those of its blocks. -/
theorem scopes_typeStmt {R : Resolution} (expected : Option Ty) :
    ∀ (s : Stmt) {k : Checker}, k.context.resolution = R →
      (scopes (typeStmt expected s k).1).Sublist (R.scopesOf s.ids)
  | .letVar .., _, _ => List.nil_sublist _
  | .ifThen _ test thenBlock, k, h => sublist_behind
    (scopes_typeBlock expected thenBlock
      ((Checker.leads_condition k test).resolution.trans h)) test.preorder
  | .ifThenElse _ test thenBlock elseBranch, k, h => by
    have tested := Checker.leads_condition k test
    have typed := tested.trans (leads_typeBlock expected thenBlock _)
    exact sublist_append
      (sublist_behind (scopes_typeBlock expected thenBlock (tested.resolution.trans h))
        test.preorder)
      (scopes_typeStmt expected elseBranch (typed.resolution.trans h))
  | .whileLoop _ test body, k, h => by
    have asked := (Checker.leads_condition k test).trans (Checker.leads_checkpoint _ body.span)
    simp only [typeStmt]
    split
    · exact sublist_behind (scopes_typeBlock expected body (asked.resolution.trans h)) _
    · exact List.nil_sublist _
  | .block b, k, h => scopes_typeBlock expected b h
  | .expression .., _, _ => List.nil_sublist _
  | .function _ header body, k, h =>
    sublist_behind (scopes_typeBlock (some (.ofReturn header.returnType)) body h)
      (header.id :: header.params.map Param.id)
  | .ret _ none, _, _ => List.nil_sublist _
  | .ret _ (some _), _, _ => List.nil_sublist _
  | .error .., _, _ => List.nil_sublist _

theorem scopes_typeBlock {R : Resolution} (expected : Option Ty) :
    ∀ (b : Block) {k : Checker}, k.context.resolution = R →
      (blockScopes (typeBlock expected b k).1).Sublist (R.scopesOf (Stmt.blockIds b))
  | .mk id _ body, k, h => by
    have here : R.scopesOf [id] = (k.context.resolution.blockScopes.get? id).toList := by
      rw [h, Resolution.scopesOf, List.filterMap_cons]
      cases R.blockScopes.get? id <;> rfl
    have own : (k.context.resolution.blockScopes.get? id).toList.Sublist (R.scopesOf [id]) := by
      rw [here]
    exact sublist_append own (scopes_typeAll expected false body h)

theorem scopes_typeAll {R : Resolution} (expected : Option Ty) :
    ∀ (afterReturn : Bool) (ss : List Stmt) {k : Checker}, k.context.resolution = R →
      (scopesAll (typeAll expected afterReturn ss k).1).Sublist (R.scopesOf (Stmt.idsAll ss))
  | _, [], _, _ => List.nil_sublist _
  | afterReturn, s :: ss, k, h => by
    have warned := Checker.leads_warning afterReturn k (reported [.unreachableCode] s.span)
    have typed := warned.trans (leads_typeStmt expected s _)
    exact sublist_append (scopes_typeStmt expected s (warned.resolution.trans h))
      (scopes_typeAll expected s.isReturn ss (typed.resolution.trans h))

end

theorem scopes_typeTopLevel {R : Resolution} :
    ∀ (afterReturn : Bool) (ss : List Stmt) {k : Checker}, k.context.resolution = R →
      (scopesAll (typeTopLevel afterReturn ss k).1).Sublist (R.scopesOf (Stmt.idsAll ss))
  | _, [], _, _ => List.nil_sublist _
  | afterReturn, s :: ss, k, h => by
    have ready := (Checker.leads_checkpoint k s.span).trans
      (Checker.leads_warning afterReturn _ (reported [.unreachableCode] s.span))
    have typed := ready.trans (leads_typeStmt none s _)
    simp only [typeTopLevel]
    split
    · exact sublist_append (scopes_typeStmt none s (ready.resolution.trans h))
        (scopes_typeTopLevel s.isReturn ss (typed.resolution.trans h))
    · exact List.nil_sublist _

end Typing

/-- No two blocks of a typed program have the same scope. -/
theorem nodup_scopes_typeCheck {p : Program} (distinct : (Stmt.idsAll p.body).Nodup)
    (s s' : Session) : (Typed.Stmt.scopesAll (typeCheck p (resolve p s).1 s').1.body).Nodup :=
  List.Nodup.sublist (Typing.scopes_typeTopLevel false p.body rfl)
    (distinct.filterMap fun _ _ _ found found' => apart_resolve p s found found')

end MiniLang
