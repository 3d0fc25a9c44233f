import MiniLang.Proofs.Session.Progress
import MiniLang.Proofs.Syntax.Trees
import MiniLang.Scope.Resolution

/-!
# How resolution goes on

While names are resolved, scopes and symbols are added and never taken away
(`ScopeTree.Grows`), symbols are added to the open scope only, and what was found out about a node
is not touched again (`Resolver.Later`). A statement inside of which scopes are opened closes them
again, so that only declarations leave a trace in the scope around them.
-/

set_option autoImplicit false

namespace MiniLang

namespace ScopeTree

variable {t t' t'' : ScopeTree}

/-- The scopes of a tree are in another one too, inside of the same scopes, and with more symbols at
their ends. -/
def Grows (t t' : ScopeTree) : Prop :=
  ∀ id S, t.scope? id = some S →
    ∃ S', t'.scope? id = some S' ∧ S'.parent = S.parent ∧ S.symbols <+: S'.symbols

namespace Grows

theorem refl (t : ScopeTree) : t.Grows t := fun _ S here => ⟨S, here, rfl, List.prefix_refl _⟩

theorem trans (h : t.Grows t') (h' : t'.Grows t'') : t.Grows t'' := by
  intro id S here
  obtain ⟨S', here', parent, symbols⟩ := h id S here
  obtain ⟨S'', here'', parent', symbols'⟩ := h' id S' here'
  exact ⟨S'', here'', parent'.trans parent, symbols.trans symbols'⟩

/-- References stay good. -/
theorem symbol? {ref : SymbolRef} {symbol : Symbol} (h : t.Grows t')
    (known : t.symbol? ref = some symbol) : t'.symbol? ref = some symbol := by
  obtain ⟨S, here, at_⟩ := Option.bind_eq_some_iff.1 known
  obtain ⟨S', here', -, symbols⟩ := h _ S here
  refine Option.bind_eq_some_iff.2 ⟨S', here', ?_⟩
  obtain ⟨more, same⟩ := symbols
  rw [← same, List.getElem?_append_left]
  · exact at_
  · exact (List.getElem?_eq_some_iff.1 at_).1

end Grows

theorem scope?_eq_none_iff {id : ScopeId} : t.scope? id = none ↔ t.size ≤ id :=
  List.getElem?_eq_none_iff

theorem lt_size {id : ScopeId} {S : Scope} (h : t.scope? id = some S) : id < t.size :=
  (List.getElem?_eq_some_iff.1 h).1

/-- Opening a scope. -/
theorem scope?_push (t : ScopeTree) (kind : ScopeKind) (parent : ScopeId) (id : Nat) :
    (t.push kind parent).2.scope? id =
      if id = t.size then some { id := t.size, parent := some parent, kind := kind }
      else t.scope? id := by
  unfold push scope? size
  by_cases isNew : id = t.scopes.length
  · rw [if_pos isNew, isNew, List.getElem?_concat_length]
  · rw [if_neg isNew]
    by_cases less : id < t.scopes.length
    · rw [List.getElem?_append_left less]
    · rw [List.getElem?_eq_none (by simp; omega), List.getElem?_eq_none (by omega)]

theorem grows_push (t : ScopeTree) (kind : ScopeKind) (parent : ScopeId) :
    t.Grows (t.push kind parent).2 := by
  intro id S here
  have less := lt_size here
  refine ⟨S, ?_, rfl, List.prefix_refl _⟩
  rw [scope?_push, if_neg less.ne]
  exact here

/-- When a declaration succeeds, and what it changes. -/
theorem declare_ok_iff {symbol : Symbol} {ref : SymbolRef} :
    t.declare symbol = .ok (ref, t') ↔ ∃ S, t.scope? symbol.scope = some S ∧
      S.get? symbol.name = none ∧ ref = ⟨symbol.scope, S.symbols.length⟩ ∧
      t' = ⟨t.scopes.set symbol.scope { S with symbols := S.symbols ++ [symbol] }⟩ := by
  unfold declare
  split
  next none => simp [none]
  next S here =>
    split
    next index found => simp [here, found]
    next isNew => simp [here, isNew, eq_comm]

theorem scope?_set {id : ScopeId} {S S' : Scope} (here : t.scope? id = some S) (other : ScopeId) :
    scope? ⟨t.scopes.set id S'⟩ other = if id = other then some S' else t.scope? other := by
  unfold scope?
  rw [List.getElem?_set]
  by_cases same : id = other
  · rw [if_pos same, if_pos same]
    exact if_pos (lt_size here)
  · rw [if_neg same, if_neg same]

end ScopeTree

/-- A name that a scope declares has a symbol. -/
theorem ScopeTree.symbol?_of_get? {tree : ScopeTree} {id : ScopeId} {S : Scope} {name : String}
    {index : Nat} (here : tree.scope? id = some S) (found : S.get? name = some index) :
    ∃ symbol, tree.symbol? ⟨id, index⟩ = some symbol := by
  obtain ⟨less, -⟩ := List.findIdx?_eq_some_iff_getElem.1 found
  exact ⟨S.symbols[index], Option.bind_eq_some_iff.2 ⟨S, here, List.getElem?_eq_getElem less⟩⟩

/-- What a scope declares after one more symbol was added. -/
theorem Scope.get?_grown (S : Scope) (symbol : Symbol) (name : String) :
    Scope.get? { S with symbols := S.symbols ++ [symbol] } name =
      (S.get? name).or (if symbol.name = name then some S.symbols.length else none) := by
  unfold Scope.get?
  rw [List.findIdx?_append, List.findIdx?_cons]
  by_cases same : symbol.name = name
  · simp [same]
  · simp [same]

/-- The tree of a resolver. -/
abbrev Resolver.tree (r : Resolver) : ScopeTree := r.resolution.tree

/-- Resolution has gone on. Symbols were added to new scopes and to the given one only, and
something was found out about the given nodes only. -/
structure Resolver.Later (own : Option ScopeId) (ids : List NodeId) (r r' : Resolver) : Prop where
  leads : r.session.Leads r'.session
  grows : r.tree.Grows r'.tree
  frame : ∀ id S, r.tree.scope? id = some S → own ≠ some id → r'.tree.scope? id = some S
  references : ∀ id ∉ ids, r'.resolution.references.get? id = r.resolution.references.get? id
  declarations : ∀ id ∉ ids, r'.resolution.declarations.get? id = r.resolution.declarations.get? id
  blockScopes : ∀ id ∉ ids, r'.resolution.blockScopes.get? id = r.resolution.blockScopes.get? id

namespace Resolver

namespace Later

variable {own : Option ScopeId} {ids ids' : List NodeId} {r r' r'' : Resolver}

theorem refl (own : Option ScopeId) (r : Resolver) : Later own [] r r :=
  ⟨.refl _, .refl _, fun _ _ here _ => here, fun _ _ => rfl, fun _ _ => rfl, fun _ _ => rfl⟩

/-- Only the session has changed. -/
theorem session {s : Session} (leads : r.session.Leads s) :
    Later own [] r { r with session := s } :=
  ⟨leads, .refl _, fun _ _ here _ => here, fun _ _ => rfl, fun _ _ => rfl, fun _ _ => rfl⟩

theorem trans (h : Later own ids r r') (h' : Later own ids' r' r'') :
    Later own (ids ++ ids') r r'' := by
  refine ⟨h.leads.trans h'.leads, h.grows.trans h'.grows,
    fun id S here other => h'.frame id S (h.frame id S here other) other,
    fun id notMem => ?_, fun id notMem => ?_, fun id notMem => ?_⟩
  all_goals rw [List.mem_append, not_or] at notMem
  · rw [h'.references id notMem.2, h.references id notMem.1]
  · rw [h'.declarations id notMem.2, h.declarations id notMem.1]
  · rw [h'.blockScopes id notMem.2, h.blockScopes id notMem.1]

/-- More may have changed. -/
theorem widen {own' : Option ScopeId} (h : Later own ids r r') (scope : own = none ∨ own = own')
    (nodes : ids ⊆ ids') : Later own' ids' r r' := by
  refine ⟨h.leads, h.grows, fun id S here other => h.frame id S here ?_,
    fun id notMem => h.references id fun mem => notMem (nodes mem),
    fun id notMem => h.declarations id fun mem => notMem (nodes mem),
    fun id notMem => h.blockScopes id fun mem => notMem (nodes mem)⟩
  rcases scope with rfl | rfl
  · exact nofun
  · exact other

/-- What happens inside of a new scope leaves no trace in the others. -/
theorem leave {scope : ScopeId} (h : Later none ids r r') (isNew : r.tree.scope? scope = none)
    (h' : Later (some scope) ids' r' r'') : Later none (ids ++ ids') r r'' := by
  have first : Later (some scope) ids r r' := h.widen (.inl rfl) (List.Subset.refl _)
  have whole := first.trans h'
  refine ⟨whole.leads, whole.grows, fun id S here _ => ?_, whole.references, whole.declarations,
    whole.blockScopes⟩
  refine whole.frame id S here fun same => ?_
  rw [← Option.some.inj same, isNew] at here
  cases here

end Later

/-! ## Steps of resolution -/

/-- The first declaration of a name adds a symbol at the end of the scope. -/
theorem declare_of_new {r : Resolver} {scope : ScopeId} {S : Scope} {name : String}
    (here : r.tree.scope? scope = some S) (isNew : S.get? name = none) (node : NodeId)
    (kind : SymbolKind) (type : Option Ty) (span : Span) :
    r.declare scope node name kind type span =
      { r with
        resolution :=
          { r.resolution with
            tree := ⟨r.tree.scopes.set scope
              { S with symbols := S.symbols ++ [⟨name, kind, type, scope, span, some node⟩] }⟩
            declarations :=
              r.resolution.declarations.insert node ⟨scope, S.symbols.length⟩ } } := by
  unfold declare
  rw [ScopeTree.declare_ok_iff.2 ⟨S, here, isNew, rfl, rfl⟩]

/-- Another declaration of a name is an error. -/
theorem declare_of_declared {r : Resolver} {scope : ScopeId} {S : Scope} {name : String}
    {index : Nat} (here : r.tree.scope? scope = some S) (declared : S.get? name = some index)
    (node : NodeId) (kind : SymbolKind) (type : Option Ty) (span : Span) :
    r.declare scope node name kind type span =
      { r with session := r.session.report (.redeclaration name) span } := by
  unfold declare ScopeTree.declare
  simp only [here, declared]

theorem later_declare (r : Resolver) (scope : ScopeId) (node : NodeId) (name : String)
    (kind : SymbolKind) (type : Option Ty) (span : Span) :
    Later (some scope) [node] r (r.declare scope node name kind type span) := by
  unfold declare
  split
  next ref grown declared =>
    obtain ⟨S, here, -, -, rfl⟩ := ScopeTree.declare_ok_iff.1 declared
    refine ⟨.refl _, fun id T there => ?_, fun id T there other => ?_, fun id _ => rfl,
      fun id notMem => Table.get?_insert_of_ne _ _ (Ne.symm (List.ne_of_not_mem_cons notMem)),
      fun _ _ => rfl⟩
    · change ∃ T', ScopeTree.scope? ⟨r.tree.scopes.set scope _⟩ id = some T' ∧ _
      rw [ScopeTree.scope?_set here]
      by_cases same : scope = id
      · subst same
        rw [here] at there
        obtain rfl := Option.some.inj there
        exact ⟨_, if_pos rfl, rfl, List.prefix_append ..⟩
      · exact ⟨T, (if_neg same).trans there, rfl, List.prefix_refl _⟩
    · change ScopeTree.scope? ⟨r.tree.scopes.set scope _⟩ id = some T
      rw [ScopeTree.scope?_set here, if_neg fun same => other (congrArg some same)]
      exact there
  next =>
    exact (Later.session (.report ..)).widen (.inr rfl) (List.nil_subset _)

theorem later_checkpoint (own : Option ScopeId) (r : Resolver) (span : Span) :
    Later own [] r (r.checkpoint span).2 :=
  .session (Session.Leads.checkpoint r.session span).1

theorem later_enter (r : Resolver) (kind : ScopeKind) (parent : ScopeId) (block : NodeId) :
    Later none [block] r (r.enter kind parent block).2 := by
  refine ⟨.refl _, ScopeTree.grows_push _ _ _, fun id S here _ => ?_, fun _ _ => rfl,
    fun _ _ => rfl, fun id notMem =>
      Table.get?_insert_of_ne _ _ (Ne.symm (List.ne_of_not_mem_cons notMem))⟩
  change (r.tree.push kind parent).2.scope? id = some S
  rw [ScopeTree.scope?_push, if_neg (ScopeTree.lt_size here).ne]
  exact here

/-! ## Names in expressions -/

theorem later_resolveUse (scope : ScopeId) (r : Resolver) (u : NameUse) :
    Later none [u.id] r (resolveUse scope r u) := by
  unfold resolveUse
  split
  · exact ⟨.refl _, .refl _, fun _ _ here _ => here, fun id notMem =>
      Table.get?_insert_of_ne _ _ (Ne.symm (List.ne_of_not_mem_cons notMem)), fun _ _ => rfl,
      fun _ _ => rfl⟩
  · exact (Later.session (.report ..)).widen (.inl rfl) (List.nil_subset _)

theorem tree_resolveUse (scope : ScopeId) (r : Resolver) (u : NameUse) :
    (resolveUse scope r u).tree = r.tree := by
  unfold resolveUse
  split <;> rfl

theorem tree_resolveUses (scope : ScopeId) (uses : List NameUse) :
    ∀ r : Resolver, (uses.foldl (resolveUse scope) r).tree = r.tree := by
  induction uses with
  | nil => exact fun _ => rfl
  | cons u uses ih => exact fun r => (ih _).trans (tree_resolveUse scope r u)

theorem later_resolveUses (scope : ScopeId) (uses : List NameUse) :
    ∀ r : Resolver, Later none (uses.map NameUse.id) r (uses.foldl (resolveUse scope) r) := by
  induction uses with
  | nil => exact fun r => .refl none r
  | cons u uses ih => exact fun r => (later_resolveUse scope r u).trans (ih _)

/-- Without errors every name means something, and is known to mean it afterwards. -/
theorem references_resolveUses (scope : ScopeId) (uses : List NameUse) :
    ∀ r : Resolver, (uses.map NameUse.id).Nodup →
      (uses.foldl (resolveUse scope) r).session.hasErrors = false →
      ∀ u ∈ uses, ∃ ref, r.tree.lookup scope u.name = some ref ∧
        (uses.foldl (resolveUse scope) r).resolution.references.get? u.id = some ref := by
  induction uses with
  | nil => exact fun _ _ _ u mem => by cases mem
  | cons u uses ih =>
    intro r distinct clean v mem
    obtain ⟨isNew, distinct⟩ := List.nodup_cons.1 distinct
    have later := later_resolveUses scope uses (resolveUse scope r u)
    rcases List.mem_cons.1 mem with rfl | mem
    · cases found : r.tree.lookup scope v.name with
      | some ref =>
        refine ⟨ref, rfl, (later.references v.id isNew).trans ?_⟩
        rw [resolveUse, found]
        exact Table.get?_insert_self ..
      | none =>
        have errors : (resolveUse scope r v).session.hasErrors = true := by
          rw [resolveUse, found]
          exact (Session.hasErrors_report ..).trans (Bool.or_true _)
        rw [List.foldl_cons, later.leads.errors errors] at clean
        cases clean
    · obtain ⟨ref, found, known⟩ := ih _ distinct clean v mem
      rw [tree_resolveUse] at found
      exact ⟨ref, found, known⟩

end Resolver

namespace Expr

mutual

/-- Names are used by nodes of the expression. -/
theorem mem_preorder_of_mem_nameUses :
    ∀ (e : Expr) {u : NameUse}, u ∈ e.nameUses → u.id ∈ e.preorder
  | literal .., u, mem => by cases mem
  | var .., u, mem => by
    rw [List.mem_singleton.1 mem]
    exact List.mem_cons_self
  | binary _ _ _ left right, u, mem => by
    rcases List.mem_append.1 mem with mem | mem
    · exact List.mem_cons_of_mem _
        (List.mem_append_left _ (mem_preorder_of_mem_nameUses left mem))
    · exact List.mem_cons_of_mem _
        (List.mem_append_right _ (mem_preorder_of_mem_nameUses right mem))
  | unary _ _ _ operand, u, mem =>
    List.mem_cons_of_mem _ (mem_preorder_of_mem_nameUses operand mem)
  | call _ _ _ _ arguments, u, mem => by
    rcases List.mem_cons.1 mem with rfl | mem
    · exact List.mem_cons_self
    · exact List.mem_cons_of_mem _ (mem_preorderAll_of_mem_nameUsesAll arguments mem)
  | assignment _ _ _ _ value, u, mem => by
    rcases List.mem_append.1 mem with mem | mem
    · exact List.mem_cons_of_mem _ (mem_preorder_of_mem_nameUses value mem)
    · rw [List.mem_singleton.1 mem]
      exact List.mem_cons_self

/-- Names are used by nodes of the expressions. -/
theorem mem_preorderAll_of_mem_nameUsesAll :
    ∀ (es : List Expr) {u : NameUse}, u ∈ nameUsesAll es → u.id ∈ preorderAll es
  | [], u, mem => by cases mem
  | e :: es, u, mem => by
    rcases List.mem_append.1 mem with mem | mem
    · exact List.mem_append_left _ (mem_preorder_of_mem_nameUses e mem)
    · exact List.mem_append_right _ (mem_preorderAll_of_mem_nameUsesAll es mem)

end

/-- No two uses of names in an expression share a node. -/
theorem nodup_of_sub {uses uses' : List NameUse} {ids ids' : List NodeId}
    (h : (uses.map NameUse.id).Nodup) (h' : (uses'.map NameUse.id).Nodup)
    (sub : ∀ u ∈ uses, u.id ∈ ids) (sub' : ∀ u ∈ uses', u.id ∈ ids') (apart : ids.Disjoint ids') :
    ((uses ++ uses').map NameUse.id).Nodup := by
  rw [List.map_append]
  refine List.Nodup.append h h' fun id mem mem' => ?_
  obtain ⟨u, used, rfl⟩ := List.mem_map.1 mem
  obtain ⟨v, used', same⟩ := List.mem_map.1 mem'
  exact apart (sub u used) (same ▸ sub' v used')

mutual

theorem nodup_nameUses :
    ∀ e : Expr, e.preorder.Nodup → (e.nameUses.map NameUse.id).Nodup
  | literal .., _ => List.nodup_nil
  | var .., _ => List.nodup_singleton _
  | binary _ _ _ left right, distinct => by
    obtain ⟨inLeft, inRight, apart⟩ := List.nodup_append'.1 (List.nodup_cons.1 distinct).2
    exact nodup_of_sub (nodup_nameUses left inLeft) (nodup_nameUses right inRight)
      (fun _ => mem_preorder_of_mem_nameUses left) (fun _ => mem_preorder_of_mem_nameUses right)
      apart
  | unary _ _ _ operand, distinct => nodup_nameUses operand (List.nodup_cons.1 distinct).2
  | call _ _ _ _ arguments, distinct => by
    obtain ⟨isNew, distinct⟩ := List.nodup_cons.1 distinct
    refine List.nodup_cons.2 ⟨fun mem => ?_, nodup_nameUsesAll arguments distinct⟩
    obtain ⟨u, used, same⟩ := List.mem_map.1 mem
    have below := mem_preorderAll_of_mem_nameUsesAll arguments used
    rw [same] at below
    exact isNew below
  | assignment id _ _ _ value, distinct => by
    obtain ⟨isNew, distinct⟩ := List.nodup_cons.1 distinct
    refine nodup_of_sub (nodup_nameUses value distinct) (List.nodup_singleton _)
      (fun _ => mem_preorder_of_mem_nameUses value) (fun u mem => ?_) (?_ : List.Disjoint _ [id])
    · rw [List.mem_singleton.1 mem]
      exact List.mem_cons_self
    · intro other mem mem'
      exact isNew (List.mem_singleton.1 mem' ▸ mem)

theorem nodup_nameUsesAll :
    ∀ es : List Expr, (preorderAll es).Nodup → ((nameUsesAll es).map NameUse.id).Nodup
  | [], _ => List.nodup_nil
  | e :: es, distinct => by
    obtain ⟨first, rest, apart⟩ := List.nodup_append'.1 distinct
    exact nodup_of_sub (nodup_nameUses e first) (nodup_nameUsesAll es rest)
      (fun _ => mem_preorder_of_mem_nameUses e) (fun _ => mem_preorderAll_of_mem_nameUsesAll es)
      apart

end

end Expr

namespace Resolver

theorem tree_resolveExpr (r : Resolver) (scope : ScopeId) (e : Expr) :
    (r.resolveExpr scope e).tree = r.tree := tree_resolveUses scope e.nameUses r

theorem later_resolveExpr (r : Resolver) (scope : ScopeId) (e : Expr) :
    Later none e.preorder r (r.resolveExpr scope e) := by
  refine (later_resolveUses scope e.nameUses r).widen (.inl rfl) fun id mem => ?_
  obtain ⟨u, used, rfl⟩ := List.mem_map.1 mem
  exact e.mem_preorder_of_mem_nameUses used

/-! ## Statements -/

/-- Inside of blocks there are no functions. -/
theorem hoist_eq_self {body : List Stmt} (h : Stmt.AllWellPlaced body) (r : Resolver)
    (scope : ScopeId) : r.hoist scope body = r := by
  induction body with
  | nil => rfl
  | cons s ss ih =>
    obtain ⟨first, rest⟩ := h
    change (ss.foldl (hoistFunction scope) (hoistFunction scope r s)) = r
    rw [hoistFunction, first.function?_eq_none]
    exact ih rest

theorem scope?_size (r : Resolver) : r.tree.scope? r.tree.size = none :=
  ScopeTree.scope?_eq_none_iff.2 (Nat.le_refl _)

mutual

/-- A statement that declares nothing leaves no trace in the scopes around it. -/
theorem later_resolveStmt :
    ∀ (s : Stmt) (scope : ScopeId) (inFunction : Bool) (r : Resolver), s.WellPlaced →
      s.declares = false → Later none s.ids r (resolveStmt scope inFunction s r)
  | .ifThen _ condition thenBlock, scope, inFunction, r, h, _ =>
    (later_resolveExpr r scope condition).trans (later_resolveBlock thenBlock _ _ _ h)
  | .ifThenElse _ condition thenBlock elseBranch, scope, inFunction, r, h, _ =>
    ((later_resolveExpr r scope condition).trans (later_resolveBlock thenBlock _ _ _ h.1)).trans
      (later_resolveStmt elseBranch _ _ _ h.2.1 h.2.2)
  | .whileLoop _ condition body, scope, inFunction, r, h, _ => by
    have test := later_resolveExpr r scope condition
    have asked := later_checkpoint none (r.resolveExpr scope condition) body.span
    simp only [resolveStmt]
    split
    · exact test.trans (asked.trans (later_resolveBlock body _ _ _ h))
    · refine (test.trans asked).widen (.inl rfl) ?_
      rw [List.append_nil]
      exact List.subset_append_left _ _
  | .block b, scope, inFunction, r, h, _ => later_resolveBlock b _ _ r h
  | .expression _ value, scope, inFunction, r, _, _ => later_resolveExpr r scope value
  | .ret span value, scope, inFunction, r, _, _ => by
    have complaint : Later none [] r (if inFunction then r
        else { r with session := r.session.report .returnOutsideFunction span }) := by
      split
      · exact .refl none r
      · exact .session (.report ..)
    cases value with
    | none => exact complaint
    | some e => exact complaint.trans (later_resolveExpr _ scope e)
  | .letVar .., _, _, _, _, declares => by cases declares
  | .function .., _, _, _, h, _ => h.elim
  | .error .., _, _, r, _, _ => .refl none r

/-- A block leaves no trace in the scopes around it. -/
theorem later_resolveBlock :
    ∀ (b : Block) (parent : ScopeId) (inFunction : Bool) (r : Resolver), Stmt.BlockWellPlaced b →
      Later none (Stmt.blockIds b) r (resolveBlock parent inFunction b r)
  | .mk id span body, parent, inFunction, r, h => by
    have entered := later_enter r .block parent id
    have inside : Later (some r.tree.size) (Stmt.idsAll body) (r.enter .block parent id).2
        (resolveAll r.tree.size inFunction body (r.enter .block parent id).2) :=
      later_resolveAll body _ _ _ h
    rw [resolveBlock]
    simp only [hoist_eq_self h]
    exact entered.leave r.scope?_size inside

/-- Statements of one scope leave their declarations in it. -/
theorem later_resolveAll :
    ∀ (ss : List Stmt) (scope : ScopeId) (inFunction : Bool) (r : Resolver),
      Stmt.AllWellPlaced ss →
        Later (some scope) (Stmt.idsAll ss) r (resolveAll scope inFunction ss r)
  | [], scope, inFunction, r, _ => .refl _ r
  | s :: ss, scope, inFunction, r, h => by
    refine Later.trans ?_ (later_resolveAll ss _ _ _ h.2)
    cases declares : s.declares with
    | false => exact (later_resolveStmt s _ _ r h.1 declares).widen (.inl rfl) (List.Subset.refl _)
    | true =>
      cases s with
      | letVar id span name nameSpan declared value =>
        have first : Later (some scope) value.preorder r (r.resolveExpr scope value) :=
          (later_resolveExpr r scope value).widen (.inl rfl) (List.Subset.refl _)
        refine (first.trans (later_declare ..)).widen (.inr rfl) fun id mem => ?_
        rcases List.mem_append.1 mem with mem | mem
        · exact List.mem_cons_of_mem _ mem
        · rw [List.mem_singleton.1 mem]
          exact List.mem_cons_self
      | function => exact h.1.elim
      | _ => cases declares

end

end Resolver

/-! ## Programs -/

namespace Stmt

/-- The numbers of the nodes of a statement, but for the function that it declares. -/
def innerIds : Stmt → List NodeId
  | function _ header body => header.params.map Param.id ++ blockIds body
  | s => s.ids

theorem WellPlaced.innerIds_eq {s : Stmt} (h : s.WellPlaced) : s.innerIds = s.ids := by
  cases s with
  | function => exact h.elim
  | _ => rfl

theorem innerIds_subset (s : Stmt) : s.innerIds ⊆ s.ids := by
  cases s with
  | function => exact List.subset_cons_self _ _
  | _ => exact List.Subset.refl _

theorem flatMap_innerIds_subset (ss : List Stmt) : ss.flatMap innerIds ⊆ idsAll ss := by
  induction ss with
  | nil => exact List.Subset.refl _
  | cons s ss ih =>
    exact List.append_subset.2 ⟨List.subset_append_of_subset_left _ (innerIds_subset s),
      List.subset_append_of_subset_right _ ih⟩

end Stmt

namespace Resolver

theorem later_declareParams (scope : ScopeId) (params : List Param) :
    ∀ r : Resolver, Later (some scope) (params.map Param.id) r
      (params.foldl (declareParam scope) r) := by
  induction params with
  | nil => exact fun r => .refl _ r
  | cons p params ih => exact fun r => (later_declare ..).trans (ih _)

/-- A function leaves no trace in the scopes around it; its name is declared before. -/
theorem later_resolveFunction (parent : ScopeId) (header : FunctionHeader) {b : Block}
    (r : Resolver) (h : Stmt.BlockWellPlaced b) :
    Later none (header.params.map Param.id ++ Stmt.blockIds b) r
      (resolveFunction parent header b r) := by
  cases b with
  | mk id span body =>
    have entered := later_enter r .function parent id
    have params := later_declareParams r.tree.size header.params (r.enter .function parent id).2
    rw [resolveFunction]
    simp only [hoist_eq_self h]
    have inside := params.trans (later_resolveAll body r.tree.size true _ h)
    have whole : Later none (id :: (header.params.map Param.id ++ Stmt.idsAll body)) r _ :=
      entered.leave r.scope?_size inside
    exact whole.widen (.inl rfl) List.perm_middle.symm.subset

/-- A statement may leave a declaration in its scope. -/
theorem later_resolveInner {s : Stmt} (scope : ScopeId) (inFunction : Bool) (r : Resolver)
    (h : s.WellPlaced) : Later (some scope) s.ids r (resolveStmt scope inFunction s r) := by
  refine (later_resolveAll [s] scope inFunction r ⟨h, trivial⟩).widen (.inr rfl) ?_
  rw [Stmt.idsAll, Stmt.idsAll, List.append_nil]
  exact List.Subset.refl _

/-- A statement of the top level. A function was declared before, so that nothing is found out about
its own node. -/
theorem later_resolveTop {s : Stmt} {scope : ScopeId} (r : Resolver) (h : s.TopWellPlaced) :
    Later (some scope) s.innerIds r (resolveStmt scope false s r) := by
  cases h with
  | inner h =>
    rw [h.innerIds_eq]
    exact later_resolveInner scope false r h
  | function h => exact (later_resolveFunction _ _ r h).widen (.inl rfl) (List.Subset.refl _)

theorem later_resolveTopInner :
    ∀ (ss : List Stmt) (r : Resolver), (∀ s ∈ ss, s.TopWellPlaced) →
      Later (some globalScope) (ss.flatMap Stmt.innerIds) r (resolveTopLevel ss r)
  | [], r, _ => .refl _ r
  | s :: ss, r, h => by
    have asked := later_checkpoint (some globalScope) r s.span
    simp only [resolveTopLevel]
    split
    · have first : Later (some globalScope) s.innerIds (r.checkpoint s.span).2 _ :=
        later_resolveTop _ (h s List.mem_cons_self)
      exact (asked.trans first).trans
        (later_resolveTopInner ss _ fun s mem => h s (List.mem_cons_of_mem _ mem))
    · exact asked.widen (.inr rfl) (List.nil_subset _)

theorem later_resolveTopLevel (ss : List Stmt) (r : Resolver) (h : ∀ s ∈ ss, s.TopWellPlaced) :
    Later (some globalScope) (Stmt.idsAll ss) r (resolveTopLevel ss r) :=
  (later_resolveTopInner ss r h).widen (.inr rfl) (Stmt.flatMap_innerIds_subset ss)

end Resolver

end MiniLang
