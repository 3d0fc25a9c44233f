import MiniLang.Proofs.Session.Invariant
import MiniLang.Proofs.Syntax.Spans
import MiniLang.Scope.Resolution

/-!
# What resolution keeps

Resolution complains about names where they stand and about a `return` where it stands, and it asks
before statements of the top level and before bodies of loops. So what is to stay true does, if all
places of the program are of the right kind (`keeps_resolve`).
-/

set_option autoImplicit false

namespace MiniLang

namespace Resolver

variable {I : Invariant} {r : Resolver}

theorem keeps_declare (law : I.Lawful) (h : I.session r.session) (scope : ScopeId) (node : NodeId)
    (name : String) (kind : SymbolKind) (type : Option Ty) {span : Span} (here : I.place span) :
    I.session (r.declare scope node name kind type span).session := by
  have found : Problem.InProgram (.redeclaration name) := nofun
  unfold declare
  split
  · exact h
  · exact law.report h found here

theorem keeps_hoist (law : I.Lawful) (scope : ScopeId) {body : List Stmt}
    (places : I.All (Stmt.spansAll body)) (h : I.session r.session) :
    I.session (r.hoist scope body).session := by
  unfold hoist
  induction body generalizing r with
  | nil => exact h
  | cons s ss ih =>
    refine ih places.right ?_
    cases s with
    | function span header body =>
      exact keeps_declare law h scope _ _ _ _ places.left.tail.head
    | _ => exact h

theorem keeps_resolveUse (law : I.Lawful) (scope : ScopeId) {use : NameUse}
    (here : I.place use.span) (h : I.session r.session) :
    I.session (resolveUse scope r use).session := by
  have found : Problem.InProgram (.undeclaredIdentifier use.name) := nofun
  unfold resolveUse
  split
  · exact h
  · exact law.report h found here

theorem keeps_resolveExpr (law : I.Lawful) (scope : ScopeId) {e : Expr} (places : I.All e.spans)
    (h : I.session r.session) : I.session (r.resolveExpr scope e).session :=
  List.foldlRecOn (motive := fun r => I.session r.session) e.nameUses (resolveUse scope) h
    fun _ kept use mem => keeps_resolveUse law scope (places _ (e.nameUses_spans use mem)) kept

theorem keeps_declareParams (law : I.Lawful) (scope : ScopeId) {params : List Param}
    (places : I.All (params.flatMap Param.spans)) (h : I.session r.session) :
    I.session (params.foldl (declareParam scope) r).session := by
  refine List.foldlRecOn (motive := fun r => I.session r.session) params (declareParam scope) h
    fun _ kept p mem => keeps_declare law kept scope _ _ _ _ (places _ ?_)
  exact List.mem_flatMap.2 ⟨p, mem, List.mem_cons_self⟩

mutual

theorem keeps_resolveStmt (law : I.Lawful) (scope : ScopeId) (inFunction : Bool) :
    ∀ (s : Stmt) {r : Resolver}, I.All s.spans → I.session r.session →
      I.session (resolveStmt scope inFunction s r).session
  | .letVar _ _ _ _ _ value, _, places, h =>
    keeps_declare law (keeps_resolveExpr law scope places.tail.tail.right h) scope _ _ _ _
      places.tail.head
  | .ifThen _ condition thenBlock, _, places, h =>
    keeps_resolveBlock law scope inFunction thenBlock places.tail.right
      (keeps_resolveExpr law scope places.tail.left h)
  | .ifThenElse _ condition thenBlock elseBranch, _, places, h =>
    keeps_resolveStmt law scope inFunction elseBranch places.tail.right
      (keeps_resolveBlock law scope inFunction thenBlock places.tail.left.right
        (keeps_resolveExpr law scope places.tail.left.left h))
  | .whileLoop _ condition body, r, places, h => by
    have asked : I.session ((r.resolveExpr scope condition).checkpoint body.span).2.session :=
      law.checkpoint (keeps_resolveExpr law scope places.tail.left h)
        (places.tail.right _ (Stmt.span_mem_blockSpans body))
    simp only [resolveStmt]
    split
    · exact keeps_resolveBlock law scope inFunction body places.tail.right asked
    · exact asked
  | .block b, _, places, h => keeps_resolveBlock law scope inFunction b places h
  | .expression _ value, _, places, h => keeps_resolveExpr law scope places.tail h
  | .function _ header body, _, places, h =>
    keeps_resolveFunction law scope header body places.tail.left.tail.left places.tail.right h
  | .ret span value, r, places, h => by
    have found : Problem.InProgram .returnOutsideFunction := nofun
    have complained : I.session (if inFunction then r else
        { r with session := r.session.report .returnOutsideFunction span }).session := by
      split
      · exact h
      · exact law.report h found places.head
    cases value with
    | none => exact complained
    | some e => exact keeps_resolveExpr law scope places.tail.left complained
  | .error _, _, _, h => h

theorem keeps_resolveBlock (law : I.Lawful) (parent : ScopeId) (inFunction : Bool) :
    ∀ (b : Block) {r : Resolver}, I.All (Stmt.blockSpans b) → I.session r.session →
      I.session (resolveBlock parent inFunction b r).session
  | .mk _ _ body, _, places, h =>
    keeps_resolveAll law _ inFunction body places.tail (keeps_hoist law _ places.tail h)

theorem keeps_resolveFunction (law : I.Lawful) (parent : ScopeId) (header : FunctionHeader) :
    ∀ (b : Block) {r : Resolver}, I.All (header.params.flatMap Param.spans) →
      I.All (Stmt.blockSpans b) → I.session r.session →
      I.session (resolveFunction parent header b r).session
  | .mk _ _ body, _, params, places, h =>
    keeps_resolveAll law _ true body places.tail
      (keeps_hoist law _ places.tail (keeps_declareParams law _ params h))

theorem keeps_resolveAll (law : I.Lawful) (scope : ScopeId) (inFunction : Bool) :
    ∀ (ss : List Stmt) {r : Resolver}, I.All (Stmt.spansAll ss) → I.session r.session →
      I.session (resolveAll scope inFunction ss r).session
  | [], _, _, h => h
  | s :: ss, _, places, h =>
    keeps_resolveAll law scope inFunction ss places.right
      (keeps_resolveStmt law scope inFunction s places.left h)

end

theorem keeps_resolveTopLevel (law : I.Lawful) :
    ∀ (ss : List Stmt) {r : Resolver}, I.All (Stmt.spansAll ss) → I.session r.session →
      I.session (resolveTopLevel ss r).session
  | [], _, _, h => h
  | s :: ss, r, places, h => by
    have asked : I.session (r.checkpoint s.span).2.session :=
      law.checkpoint h (places.left _ s.span_mem_spans)
    simp only [resolveTopLevel]
    split
    · exact keeps_resolveTopLevel law ss places.right
        (keeps_resolveStmt law globalScope false s places.left asked)
    · exact asked

end Resolver

/-- What is to stay true does while the names of a program are resolved. -/
theorem keeps_resolve {I : Invariant} (law : I.Lawful) {p : Program} {s : Session}
    (places : I.All p.spans) (h : I.session s) : I.session (resolve p s).2 :=
  Resolver.keeps_resolveTopLevel law p.body places.tail
    (Resolver.keeps_hoist law globalScope places.tail h)

end MiniLang
