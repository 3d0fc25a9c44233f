import MiniLang.Proofs.Syntax.Moved
import MiniLang.Scope.Resolution

/-!
# Resolution at other places

No decision of the resolution depends on where something stands: resolving a program whose parts
stand elsewhere gives the same scopes, symbols and references, and reports the same problems, each
at the place where its cause stands now (`Resolver.resolveTopLevel_moved`). Each step of the
resolution has its lemma.
-/

set_option autoImplicit false

namespace MiniLang

variable (move : Span → Span)

/-- The same symbol, declared elsewhere. -/
def Symbol.moved (s : Symbol) : Symbol := { s with span := move s.span }

/-- A scope of symbols that are declared elsewhere. -/
def Scope.moved (s : Scope) : Scope := { s with symbols := s.symbols.map (Symbol.moved move) }

/-- Scopes of symbols that are declared elsewhere. -/
def ScopeTree.moved (t : ScopeTree) : ScopeTree := ⟨t.scopes.map (Scope.moved move)⟩

/-- What the names of a program mean if it stands elsewhere. -/
def Resolution.moved (r : Resolution) : Resolution := { r with tree := r.tree.moved move }

/-- A resolution in progress of what stands elsewhere. -/
def Resolver.moved (r : Resolver) : Resolver := ⟨r.resolution.moved move, r.session.moved move⟩

theorem Scope.get?_moved (s : Scope) (name : String) : (s.moved move).get? name = s.get? name := by
  simp only [get?, moved, List.findIdx?_map]
  rfl

namespace ScopeTree

theorem scope?_moved (t : ScopeTree) (id : ScopeId) :
    (t.moved move).scope? id = (t.scope? id).map (Scope.moved move) := List.getElem?_map ..

theorem size_moved (t : ScopeTree) : (t.moved move).size = t.size := List.length_map _

theorem symbol?_moved (t : ScopeTree) (ref : SymbolRef) :
    (t.moved move).symbol? ref = (t.symbol? ref).map (Symbol.moved move) := by
  unfold symbol?
  rw [scope?_moved]
  cases t.scope? ref.scope with
  | none => rfl
  | some scope => exact List.getElem?_map ..

theorem push_moved (t : ScopeTree) (kind : ScopeKind) (parent : ScopeId) :
    (t.moved move).push kind parent =
      ((t.push kind parent).1, (t.push kind parent).2.moved move) := by
  simp [push, moved, Scope.moved, size]

theorem declare_moved (t : ScopeTree) (symbol : Symbol) :
    (t.moved move).declare (symbol.moved move) =
      (t.declare symbol).map fun (ref, grown) => (ref, grown.moved move) := by
  have place : (symbol.moved move).scope = symbol.scope := rfl
  have name : (symbol.moved move).name = symbol.name := rfl
  unfold declare
  rw [place, scope?_moved]
  cases t.scope? symbol.scope with
  | none => rfl
  | some scope =>
    simp only [Option.map_some, name, Scope.get?_moved]
    cases scope.get? symbol.name with
    | some index => rfl
    | none => simp [Except.map, moved, Scope.moved, List.map_set]

theorem lookupFrom_moved (t : ScopeTree) (name : String) :
    ∀ (fuel : Nat) (id : ScopeId),
      (t.moved move).lookupFrom name fuel id = t.lookupFrom name fuel id
  | 0, _ => rfl
  | fuel + 1, id => by
    rw [lookupFrom, lookupFrom, scope?_moved]
    cases t.scope? id with
    | none => rfl
    | some scope =>
      have parent : (scope.moved move).parent = scope.parent := rfl
      simp only [Option.map_some, Scope.get?_moved, parent]
      cases scope.get? name with
      | some index => rfl
      | none =>
        cases scope.parent with
        | none => rfl
        | some parent => exact lookupFrom_moved t name fuel parent

theorem lookup_moved (t : ScopeTree) (scope : ScopeId) (name : String) :
    (t.moved move).lookup scope name = t.lookup scope name := by
  rw [lookup, lookup, size_moved, lookupFrom_moved]

end ScopeTree

theorem Ty.ofReturn_moved (type : Option WrittenType) :
    Ty.ofReturn (type.map (WrittenType.view (.moved move))) = Ty.ofReturn type := by
  cases type <;> rfl

theorem Ty.ofHeader_moved (f : FunctionHeader) :
    Ty.ofHeader (f.view (.moved move)) = Ty.ofHeader f := by
  simp only [Ty.ofHeader, FunctionHeader.view, Ty.ofReturn_moved, List.map_map]
  rfl

namespace Resolver

variable (r : Resolver)

theorem declare_moved (scope : ScopeId) (node : NodeId) (name : String) (kind : SymbolKind)
    (type : Option Ty) (span : Span) :
    (r.moved move).declare scope node name kind type (move span) =
      (r.declare scope node name kind type span).moved move := by
  have tree := r.resolution.tree.declare_moved move ⟨name, kind, type, scope, span, some node⟩
  unfold declare
  simp only [moved, Resolution.moved]
  rw [show (⟨name, kind, type, scope, move span, some node⟩ : Symbol) =
    Symbol.moved move ⟨name, kind, type, scope, span, some node⟩ from rfl, tree]
  cases r.resolution.tree.declare ⟨name, kind, type, scope, span, some node⟩ with
  | ok grown => rfl
  | error ref => simp [Except.map, Session.report_moved]

theorem hoistFunction_moved (scope : ScopeId) (s : Stmt) :
    hoistFunction scope (r.moved move) (s.view (.moved move)) =
      (hoistFunction scope r s).moved move := by
  unfold hoistFunction
  rw [Stmt.function?_view]
  cases s.function? with
  | none => rfl
  | some f =>
    simp only [Option.map_some, Ty.ofHeader_moved]
    exact declare_moved move r scope f.1.id f.1.name .function _ f.1.nameSpan

theorem hoist_moved (scope : ScopeId) (body : List Stmt) :
    (r.moved move).hoist scope (Stmt.viewAll (.moved move) body) =
      (r.hoist scope body).moved move := by
  induction body generalizing r with
  | nil => rfl
  | cons s body ih =>
    rw [Stmt.viewAll, hoist, List.foldl_cons, hoistFunction_moved]
    exact ih _

theorem resolveUse_moved (scope : ScopeId) (use : NameUse) :
    resolveUse scope (r.moved move) (use.moved move) = (resolveUse scope r use).moved move := by
  have found : (r.moved move).resolution.tree.lookup scope (use.moved move).name =
      r.resolution.tree.lookup scope use.name := ScopeTree.lookup_moved ..
  unfold resolveUse
  rw [found]
  cases r.resolution.tree.lookup scope use.name with
  | some ref => rfl
  | none =>
    simp only [moved, Session.report_moved]
    rfl

theorem resolveExpr_moved (scope : ScopeId) (e : Expr) :
    (r.moved move).resolveExpr scope (e.view (.moved move)) =
      (r.resolveExpr scope e).moved move := by
  unfold resolveExpr
  rw [Expr.nameUses_moved]
  generalize e.nameUses = uses
  induction uses generalizing r with
  | nil => rfl
  | cons use uses ih =>
    rw [List.map_cons, List.foldl_cons, List.foldl_cons, resolveUse_moved]
    exact ih _

theorem enter_moved (kind : ScopeKind) (parent : ScopeId) (block : NodeId) :
    (r.moved move).enter kind parent block =
      ((r.enter kind parent block).1, (r.enter kind parent block).2.moved move) := by
  unfold enter
  simp only [moved, Resolution.moved, ScopeTree.push_moved]

theorem declareParams_moved (scope : ScopeId) (ps : List Param) :
    (ps.map (Param.view (.moved move))).foldl (declareParam scope) (r.moved move) =
      (ps.foldl (declareParam scope) r).moved move := by
  induction ps generalizing r with
  | nil => rfl
  | cons p ps ih =>
    have first : declareParam scope (r.moved move) (p.view (.moved move)) =
        (declareParam scope r p).moved move := declare_moved ..
    rw [List.map_cons, List.foldl_cons, List.foldl_cons, first]
    exact ih _

theorem checkpoint_moved (span : Span) : (r.moved move).checkpoint (move span) =
    ((r.checkpoint span).1, (r.checkpoint span).2.moved move) := by
  unfold checkpoint
  simp only [moved, Session.checkpoint_moved]

mutual

theorem resolveStmt_moved (scope : ScopeId) (inFunction : Bool) : ∀ (s : Stmt) (r : Resolver),
    resolveStmt scope inFunction (s.view (.moved move)) (r.moved move) =
      (resolveStmt scope inFunction s r).moved move
  | .letVar id _ name nameSpan declared value, r => by
    have type : (declared.map (WrittenType.view (.moved move))).map (fun t => Ty.ofName t.name) =
        declared.map fun t => Ty.ofName t.name := by
      cases declared <;> rfl
    simp only [Stmt.view, resolveStmt, resolveExpr_moved, type]
    exact declare_moved ..
  | .ifThen _ condition thenBlock, r => by
    simp only [Stmt.view, resolveStmt, resolveExpr_moved]
    exact resolveBlock_moved scope inFunction thenBlock _
  | .ifThenElse _ condition thenBlock elseBranch, r => by
    simp only [Stmt.view, resolveStmt, resolveExpr_moved]
    rw [resolveBlock_moved scope inFunction thenBlock,
      resolveStmt_moved scope inFunction elseBranch]
  | .whileLoop _ condition body, r => by
    simp only [Stmt.view, resolveStmt, resolveExpr_moved, Stmt.span_viewBlock, View.span_moved,
      checkpoint_moved]
    split
    · exact resolveBlock_moved scope inFunction body _
    · rfl
  | .block b, r => by
    simp only [Stmt.view, resolveStmt]
    exact resolveBlock_moved scope inFunction b r
  | .expression _ value, r => by
    simp only [Stmt.view, resolveStmt]
    exact resolveExpr_moved ..
  | .function _ header body, r => by
    simp only [Stmt.view, resolveStmt]
    exact resolveFunction_moved scope header body r
  | .ret span value, r => by
    have stray : (if inFunction then r.moved move else
          { r.moved move with
            session := (r.moved move).session.report .returnOutsideFunction (move span) }) =
        (if inFunction then r else
          { r with session := r.session.report .returnOutsideFunction span }).moved move := by
      split
      · rfl
      · simp only [moved, Session.report_moved]
    simp only [Stmt.view, resolveStmt, View.span_moved, stray]
    cases value with
    | none => rfl
    | some e => exact resolveExpr_moved ..
  | .error _, r => rfl

theorem resolveBlock_moved (parent : ScopeId) (inFunction : Bool) : ∀ (b : Block) (r : Resolver),
    resolveBlock parent inFunction (Stmt.viewBlock (.moved move) b) (r.moved move) =
      (resolveBlock parent inFunction b r).moved move
  | .mk id _ body, r => by
    simp only [Stmt.viewBlock, resolveBlock, enter_moved, hoist_moved]
    exact resolveAll_moved _ inFunction body _

theorem resolveFunction_moved (parent : ScopeId) (header : FunctionHeader) :
    ∀ (b : Block) (r : Resolver),
      resolveFunction parent (header.view (.moved move)) (Stmt.viewBlock (.moved move) b)
        (r.moved move) = (resolveFunction parent header b r).moved move
  | .mk id _ body, r => by
    simp only [Stmt.viewBlock, resolveFunction, enter_moved, FunctionHeader.view,
      declareParams_moved, hoist_moved]
    exact resolveAll_moved _ true body _

theorem resolveAll_moved (scope : ScopeId) (inFunction : Bool) :
    ∀ (ss : List Stmt) (r : Resolver),
      resolveAll scope inFunction (Stmt.viewAll (.moved move) ss) (r.moved move) =
        (resolveAll scope inFunction ss r).moved move
  | [], r => rfl
  | s :: ss, r => by
    simp only [Stmt.viewAll, resolveAll, resolveStmt_moved scope inFunction s]
    exact resolveAll_moved scope inFunction ss _

end

end Resolver

end MiniLang
