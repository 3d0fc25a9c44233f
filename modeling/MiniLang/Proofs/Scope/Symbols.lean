import MiniLang.Proofs.Scope.Store
import MiniLang.Proofs.Syntax.RoundTrip

/-!
# Where symbols come from

Resolution builds the tree of scopes by opening scopes and by declaring what the program declares,
and does nothing else to it (`builtFrom_resolve`). So every symbol is a declaration of the program,
or a name that every program can use, put into the scope that has it; no two symbols of a scope have
the same name; and what the tables know of a node is a symbol of the name that stands there
(`knows_resolve`). This is so whatever is wrong with a program, and also after a cancellation.
-/

set_option autoImplicit false

namespace MiniLang

open Scoping

/-! ## Declarations of a program -/

namespace Scoping.Declaration

/-- The names that a statement itself declares. -/
def ofStmt (s : Stmt) : List Declaration :=
  (s.function?.map fun f => ofFunction f.1).toList ++ inStmt s

end Scoping.Declaration

/-- All names that a program declares, in order. -/
def Program.declarations (p : Program) : List Declaration :=
  p.statements.flatMap Declaration.ofStmt

namespace Scoping

theorem nodesOf_append (ds ds' : List Declaration) :
    nodesOf (ds ++ ds') = nodesOf ds ++ nodesOf ds' := List.filterMap_append

mutual

/-- Declarations are nodes of their own. -/
theorem nodes_preorder : ∀ s : Stmt, (nodesOf (s.preorder.flatMap Declaration.ofStmt)).Sublist s.ids
  | .letVar id _ _ _ _ value => (List.nil_sublist value.preorder).cons_cons id
  | .ifThen _ condition thenBlock =>
    (nodes_inBlock thenBlock).trans (List.sublist_append_right condition.preorder _)
  | .ifThenElse _ condition thenBlock elseBranch => by
    have inThen := (nodes_inBlock thenBlock).trans
      (List.sublist_append_right condition.preorder _)
    have whole := inThen.append (nodes_preorder elseBranch)
    rw [← nodesOf_append, ← List.flatMap_append] at whole
    exact whole
  | .whileLoop _ condition body =>
    (nodes_inBlock body).trans (List.sublist_append_right condition.preorder _)
  | .block b => nodes_inBlock b
  | .expression .. | .ret .. | .error _ => List.nil_sublist _
  | .function _ header body => by
    have params : (nodesOf (header.params.map .ofParam)).Sublist (header.params.map Param.id) := by
      rw [nodesOf_params]
    have inside := params.append (nodes_inBlock body)
    rw [← nodesOf_append] at inside
    exact inside.cons_cons header.id

theorem nodes_inBlock :
    ∀ b : Block, (nodesOf ((Stmt.inBlock b).flatMap Declaration.ofStmt)).Sublist (Stmt.blockIds b)
  | .mk id _ body => (nodes_preorderAll body).cons id

theorem nodes_preorderAll :
    ∀ ss : List Stmt,
      (nodesOf ((Stmt.preorderAll ss).flatMap Declaration.ofStmt)).Sublist (Stmt.idsAll ss)
  | [] => List.nil_sublist _
  | s :: ss => by
    rw [Stmt.preorderAll, List.flatMap_append, nodesOf_append]
    exact (nodes_preorder s).append (nodes_preorderAll ss)

end

/-- A node declares one thing only. -/
theorem eq_of_node {ds : List Declaration} (distinct : (nodesOf ds).Nodup) {d d' : Declaration}
    (mem : d ∈ ds) (mem' : d' ∈ ds) {node : NodeId} (isNode : d.node = some node)
    (isNode' : d'.node = some node) : d = d' := by
  by_contra other
  have apart : ds.Pairwise fun a b => ∀ n ∈ a.node, ∀ n' ∈ b.node, n ≠ n' :=
    List.pairwise_filterMap.1 distinct
  have symmetric : Std.Symm fun a b : Declaration => ∀ n ∈ a.node, ∀ n' ∈ b.node, n ≠ n' :=
    ⟨fun _ _ h n mem n' mem' => (h n' mem' n mem).symm⟩
  exact apart.forall mem mem' other node isNode node isNode' rfl

mutual

/-- What a statement declares has a name. -/
theorem isName_of_mem_preorder : ∀ s : Stmt, s.Printable →
    ∀ t ∈ s.preorder, ∀ d ∈ Declaration.ofStmt t, IsName d.name
  | .letVar .., h =>
    List.forall_mem_singleton.2 (List.forall_mem_singleton.2 h.1)
  | .ifThen _ _ thenBlock, h =>
    List.forall_mem_cons.2 ⟨List.forall_mem_nil _, isName_of_mem_inBlock thenBlock h.2⟩
  | .ifThenElse _ _ thenBlock elseBranch, h =>
    List.forall_mem_cons.2 ⟨List.forall_mem_nil _, List.forall_mem_append.2
      ⟨isName_of_mem_inBlock thenBlock h.2.1, isName_of_mem_preorder elseBranch h.2.2.2⟩⟩
  | .whileLoop _ _ body, h =>
    List.forall_mem_cons.2 ⟨List.forall_mem_nil _, isName_of_mem_inBlock body h.2⟩
  | .block b, h => List.forall_mem_cons.2 ⟨List.forall_mem_nil _, isName_of_mem_inBlock b h⟩
  | .expression .., _ | .ret .., _ | .error _, _ =>
    List.forall_mem_singleton.2 (List.forall_mem_nil _)
  | .function .., h => h.elim

theorem isName_of_mem_inBlock : ∀ b : Block, Stmt.BlockPrintable b →
    ∀ t ∈ Stmt.inBlock b, ∀ d ∈ Declaration.ofStmt t, IsName d.name
  | .mk _ _ body, h => isName_of_mem_preorderAll body h

theorem isName_of_mem_preorderAll : ∀ ss : List Stmt, Stmt.AllPrintable ss →
    ∀ t ∈ Stmt.preorderAll ss, ∀ d ∈ Declaration.ofStmt t, IsName d.name
  | [], _ => List.forall_mem_nil _
  | s :: ss, h => List.forall_mem_append.2
    ⟨isName_of_mem_preorder s h.1, isName_of_mem_preorderAll ss h.2⟩

end

/-- Functions and their parameters have names too. -/
theorem isName_of_top {s : Stmt} (h : s.TopPrintable) :
    ∀ t ∈ s.preorder, ∀ d ∈ Declaration.ofStmt t, IsName d.name := by
  cases s with
  | function span header body =>
    refine List.forall_mem_cons.2 ⟨?_, isName_of_mem_inBlock body h.2⟩
    refine List.forall_mem_cons.2 ⟨h.1.1, fun d mem => ?_⟩
    obtain ⟨p, isParam, rfl⟩ := List.mem_map.1 mem
    exact h.1.2 p isParam
  | _ => exact isName_of_mem_preorder _ h

end Scoping

/-- Whatever a program declares has a name. -/
theorem Program.isName_of_mem_declarations {p : Program} (h : p.Printable) :
    ∀ d ∈ p.declarations, IsName d.name := by
  intro d mem
  obtain ⟨t, inside, declared⟩ := List.mem_flatMap.1 mem
  rw [Program.statements, Stmt.preorderAll_eq_flatMap] at inside
  obtain ⟨s, top, below⟩ := List.mem_flatMap.1 inside
  exact isName_of_top (h s top) t below d declared

/-! ## The tree of scopes -/

/-- A tree that was built from the global scope by opening scopes and declaring what is listed. -/
structure ScopeTree.BuiltFrom (t : ScopeTree) (ds : List Declaration) : Prop where
  built : ScopeTree.new.Becomes t
  origin : ∀ ref symbol, t.symbol? ref = some symbol → ∃ d ∈ ds, symbol = d.symbol ref.scope

namespace ScopeTree

variable {t : ScopeTree} {ds : List Declaration} {scope : ScopeId}

theorem BuiltFrom.new (ds : List Declaration) : ScopeTree.new.BuiltFrom ds := by
  refine ⟨.refl, fun ref symbol known => ?_⟩
  obtain ⟨S, here, at_⟩ := Option.bind_eq_some_iff.1 known
  obtain ⟨rfl⟩ := List.mem_singleton.1 (List.mem_of_getElem? here)
  cases at_

theorem BuiltFrom.push (h : t.BuiltFrom ds) (kind : ScopeKind) (there : scope < t.size) :
    (t.push kind scope).2.BuiltFrom ds := by
  refine ⟨h.built.step (.push kind scope) there, fun ref symbol known => ?_⟩
  rw [symbol?_push] at known
  exact h.origin ref symbol known

theorem BuiltFrom.declare (h : t.BuiltFrom ds) {d : Declaration} (mem : d ∈ ds)
    (there : scope < t.size) : (t.after (.declare (d.symbol scope))).BuiltFrom ds := by
  refine ⟨h.built.step _ there, fun ref symbol known => ?_⟩
  obtain ⟨S, here, ⟨-, -, -, same⟩ | ⟨-, -, grown⟩⟩ := @declare_cases t (d.symbol scope) there
  · rw [same] at known
    exact h.origin ref symbol known
  · rw [grown, symbol?_set here] at known
    split at known
    next isNew => exact ⟨d, mem, by rw [isNew, ← Option.some.inj known]; rfl⟩
    next => exact h.origin ref symbol known

theorem size_declare (there : scope < t.size) (d : Declaration) :
    (t.after (.declare (d.symbol scope))).size = t.size := by
  obtain ⟨S, here, ⟨-, -, -, same⟩ | ⟨-, -, grown⟩⟩ := @declare_cases t (d.symbol scope) there
  · rw [same]
  · rw [grown]
    exact List.length_set

/-- A symbol lies in the scope that it names. -/
theorem WellFormed.scope_eq (h : t.WellFormed) {ref : SymbolRef} {symbol : Symbol}
    (known : t.symbol? ref = some symbol) : symbol.scope = ref.scope := by
  obtain ⟨S, here, at_⟩ := Option.bind_eq_some_iff.1 known
  exact h.owners ref.scope S here symbol (List.mem_of_getElem? at_)

/-- In one scope a name belongs to one symbol. -/
theorem WellFormed.eq_of_name (h : t.WellFormed) {ref ref' : SymbolRef} {symbol symbol' : Symbol}
    (known : t.symbol? ref = some symbol) (known' : t.symbol? ref' = some symbol')
    (scopes : ref.scope = ref'.scope) (names : symbol.name = symbol'.name) : ref = ref' := by
  obtain ⟨scope, i⟩ := ref
  obtain ⟨scope', j⟩ := ref'
  obtain rfl : scope = scope' := scopes
  obtain ⟨S, here, at_⟩ := Option.bind_eq_some_iff.1 known
  rw [symbol?_eq here] at known known'
  have distinct := h.names scope S here
  have first := (Scope.get?_eq_some_iff distinct).2 ⟨symbol, known, rfl⟩
  have second := (Scope.get?_eq_some_iff distinct).2 ⟨symbol', known', rfl⟩
  rw [names, second] at first
  rw [Option.some.inj first]

end ScopeTree

/-! ## Resolution -/

namespace Resolver

/-- The tree was built from what is listed, and has the scope in which resolution goes on. -/
structure Building (ds : List Declaration) (scope : ScopeId) (r : Resolver) : Prop where
  tree : r.tree.BuiltFrom ds
  there : scope < r.tree.size

/-- What statements, and those below them, declare is listed. -/
abbrev Lists (ds : List Declaration) (ss : List Stmt) : Prop :=
  ∀ s ∈ ss, Declaration.ofStmt s ⊆ ds

variable {r r' : Resolver} {ds : List Declaration} {scope : ScopeId}

theorem tree_declare (r : Resolver) (scope : ScopeId) (node : NodeId) (name : String)
    (kind : SymbolKind) (type : Option Ty) (span : Span) :
    (r.declare scope node name kind type span).tree =
      r.tree.after (.declare ⟨name, kind, type, scope, span, some node⟩) := by
  simp only [tree, declare, ScopeTree.after]
  cases r.resolution.tree.declare ⟨name, kind, type, scope, span, some node⟩ <;> rfl

namespace Building

theorem of_tree_eq (h : Building ds scope r) (same : r'.tree = r.tree) : Building ds scope r' := by
  constructor
  · rw [same]
    exact h.tree
  · rw [same]
    exact h.there

theorem resolveExpr (h : Building ds scope r) (e : Expr) :
    Building ds scope (r.resolveExpr scope e) := h.of_tree_eq (tree_resolveExpr r scope e)

theorem declareIn (h : Building ds scope r) {d : Declaration} (mem : d ∈ ds) :
    Building ds scope (Scoping.declareIn scope r d) := by
  cases node : d.node with
  | none =>
    refine h.of_tree_eq ?_
    rw [Scoping.declareIn, node]
  | some n =>
    have symbol : (⟨d.name, d.kind, d.type, scope, d.span, some n⟩ : Symbol) = d.symbol scope := by
      rw [← node]
      rfl
    have tree : (Scoping.declareIn scope r d).tree = r.tree.after (.declare (d.symbol scope)) := by
      rw [Scoping.declareIn, node, ← symbol]
      exact tree_declare ..
    constructor
    · rw [tree]
      exact h.tree.declare mem h.there
    · rw [tree, ScopeTree.size_declare h.there]
      exact h.there

theorem declareAll (h : Building ds scope r) {ds' : List Declaration} (sub : ds' ⊆ ds) :
    Building ds scope (ds'.foldl (Scoping.declareIn scope) r) :=
  List.foldlRecOn (motive := Building ds scope) ds' _ h fun _ h _ mem => h.declareIn (sub mem)

theorem hoist (h : Building ds scope r) {body : List Stmt}
    (listed : Lists ds (Stmt.preorderAll body)) : Building ds scope (r.hoist scope body) := by
  rw [hoist_eq]
  refine h.declareAll fun d mem => ?_
  obtain ⟨f, isFunction, rfl⟩ := List.mem_map.1 mem
  obtain ⟨s, inBody, declares⟩ := List.mem_filterMap.1 isFunction
  have inside : s ∈ Stmt.preorderAll body := by
    rw [Stmt.preorderAll_eq_flatMap]
    exact List.mem_flatMap.2 ⟨s, inBody, List.mem_of_head? s.head?_preorder⟩
  refine listed s inside (List.mem_append_left _ ?_)
  rw [declares]
  exact List.mem_singleton_self _

/-- A scope is opened. -/
theorem enter (h : Building ds scope r) (kind : ScopeKind) (block : NodeId) :
    Building ds r.tree.size (r.enter kind scope block).2 := by
  refine ⟨h.tree.push kind h.there, ?_⟩
  change r.tree.size < (r.tree.scopes ++ [_]).length
  rw [List.length_append]
  exact Nat.lt_succ_self _

/-- The scopes around it are still there when it is left. -/
theorem leave (h : Building ds r.tree.size r') (around : scope < r.tree.size) :
    Building ds scope r' := ⟨h.tree, around.trans h.there⟩

end Building

mutual

theorem building_resolveStmt (inFunction : Bool) : ∀ (s : Stmt) {scope : ScopeId} {r : Resolver},
    Lists ds s.preorder → Building ds scope r → Building ds scope (resolveStmt scope inFunction s r)
  | .letVar id _ name nameSpan declared value, scope, r, listed, h => by
    have mem : ⟨some id, name, .variable, declared.map fun type => .ofName type.name, nameSpan⟩ ∈
        ds := listed _ (List.mem_singleton_self _) (List.mem_singleton_self _)
    exact (h.resolveExpr value).declareIn mem
  | .ifThen _ condition thenBlock, _, _, listed, h =>
    building_resolveBlock inFunction thenBlock (List.forall_mem_cons.1 listed).2
      (h.resolveExpr condition)
  | .ifThenElse _ condition thenBlock elseBranch, _, _, listed, h => by
    obtain ⟨inThen, inElse⟩ := List.forall_mem_append.1 (List.forall_mem_cons.1 listed).2
    exact building_resolveStmt inFunction elseBranch inElse
      (building_resolveBlock inFunction thenBlock inThen (h.resolveExpr condition))
  | .whileLoop _ condition body, scope, r, listed, h => by
    have asked : Building ds scope ((r.resolveExpr scope condition).checkpoint body.span).2 :=
      (h.resolveExpr condition).of_tree_eq rfl
    simp only [resolveStmt]
    split
    · exact building_resolveBlock inFunction body (List.forall_mem_cons.1 listed).2 asked
    · exact asked
  | .block b, _, _, listed, h =>
    building_resolveBlock inFunction b (List.forall_mem_cons.1 listed).2 h
  | .expression _ value, _, _, _, h => h.resolveExpr value
  | .function _ header body, _, _, listed, h => by
    obtain ⟨own, inBody⟩ := List.forall_mem_cons.1 listed
    exact building_resolveFunction header body
      (List.Subset.trans (List.subset_append_right ..) own) inBody h
  | .ret span value, scope, r, _, h => by
    have complained : Building ds scope (if inFunction then r else
        { r with session := r.session.report .returnOutsideFunction span }) := by
      split
      · exact h
      · exact h.of_tree_eq rfl
    cases value with
    | none => exact complained
    | some e => exact complained.resolveExpr e
  | .error _, _, _, _, h => h

theorem building_resolveBlock (inFunction : Bool) : ∀ (b : Block) {scope : ScopeId} {r : Resolver},
    Lists ds (Stmt.inBlock b) → Building ds scope r →
      Building ds scope (resolveBlock scope inFunction b r)
  | .mk id _ body, _, _, listed, h =>
    (building_resolveAll inFunction body listed ((h.enter .block id).hoist listed)).leave h.there

theorem building_resolveFunction (header : FunctionHeader) :
    ∀ (b : Block) {scope : ScopeId} {r : Resolver},
      header.params.map Declaration.ofParam ⊆ ds → Lists ds (Stmt.inBlock b) →
        Building ds scope r → Building ds scope (resolveFunction scope header b r)
  | .mk id _ body, scope, r, params, listed, h => by
    have declared := (h.enter .function id).declareAll params
    rw [← foldl_declareParam] at declared
    exact (building_resolveAll true body listed (declared.hoist listed)).leave h.there

theorem building_resolveAll (inFunction : Bool) :
    ∀ (ss : List Stmt) {scope : ScopeId} {r : Resolver}, Lists ds (Stmt.preorderAll ss) →
      Building ds scope r → Building ds scope (resolveAll scope inFunction ss r)
  | [], _, _, _, h => h
  | s :: ss, _, _, listed, h => by
    obtain ⟨first, others⟩ := List.forall_mem_append.1 listed
    exact building_resolveAll inFunction ss others (building_resolveStmt inFunction s first h)

end

theorem building_resolveTopLevel :
    ∀ (ss : List Stmt) {r : Resolver}, Lists ds (Stmt.preorderAll ss) →
      Building ds globalScope r → Building ds globalScope (resolveTopLevel ss r)
  | [], _, _, h => h
  | s :: ss, r, listed, h => by
    obtain ⟨first, others⟩ := List.forall_mem_append.1 listed
    have asked : Building ds globalScope (r.checkpoint s.span).2 := h.of_tree_eq rfl
    simp only [resolveTopLevel]
    split
    · exact building_resolveTopLevel ss others (building_resolveStmt false s first asked)
    · exact asked

/-- Before anything of a program is resolved, only what every program can use is declared. -/
theorem building_start (s : Session) (sub : Frame.builtins.declarations ⊆ ds) :
    Building ds globalScope (start s) := by
  have whole : (start s).tree = Frame.builtins.declarations.foldl
      (fun t d => t.after (.declare (d.symbol globalScope))) .new := rfl
  have built : (start s).tree.BuiltFrom ds ∧ (start s).tree.size = 1 := by
    rw [whole]
    refine List.foldlRecOn
      (motive := fun t : ScopeTree => t.BuiltFrom ds ∧ t.size = 1) _ _ ⟨.new ds, rfl⟩ ?_
    intro t h d mem
    have there : globalScope < t.size := by
      rw [h.2]
      exact Nat.one_pos
    exact ⟨h.1.declare (sub mem) there, (ScopeTree.size_declare there d).trans h.2⟩
  refine ⟨built.1, ?_⟩
  rw [built.2]
  exact Nat.one_pos

end Resolver

/-- The tree of scopes of a program is built from what the program declares and what every program
can use. -/
theorem builtFrom_resolve (p : Program) (s : Session) :
    (resolve p s).1.tree.BuiltFrom (Frame.builtins.declarations ++ p.declarations) := by
  have listed : Resolver.Lists (Frame.builtins.declarations ++ p.declarations)
      (Stmt.preorderAll p.body) := by
    intro t mem
    exact List.subset_append_of_subset_right _ fun d declared =>
      List.mem_flatMap.2 ⟨t, mem, declared⟩
  have begun := Resolver.building_start s (List.subset_append_left _ p.declarations)
  exact (Resolver.building_resolveTopLevel p.body listed (begun.hoist listed)).tree

/-! ## What is known of names -/

/-- What a resolution knows about the names of a program. No two symbols of a scope have one name,
and all have names; what a used name refers to is a symbol of that name; and what a declaration is
known by is the symbol that it declares. -/
structure Resolution.Knows (R : Resolution) (p : Program) : Prop where
  wellFormed : R.tree.WellFormed
  names : ∀ ref symbol, R.tree.symbol? ref = some symbol → IsName symbol.name
  uses : ∀ u ∈ p.uses, ∀ ref, R.references.get? u.id = some ref →
    ∃ symbol, R.tree.symbol? ref = some symbol ∧ symbol.name = u.name
  declarations : ∀ d ∈ p.declarations, ∀ ref, d.node.bind R.declarations.get? = some ref →
    R.tree.symbol? ref = some (d.symbol ref.scope)

/-- What every program can use has a name. -/
theorem Scoping.isName_of_mem_builtins :
    ∀ d ∈ Frame.builtins.declarations, IsName d.name :=
  List.forall_mem_singleton.2
    ⟨'p', ['r', 'i', 'n', 't'], rfl, rfl, List.all_eq_true.1 rfl, rfl⟩

theorem Resolver.Answers.symbol {r : Resolver} {u : NameUse} {ref : SymbolRef} (h : r.Answers u)
    (found : r.resolution.references.get? u.id = some ref) :
    ∃ symbol, r.resolution.tree.symbol? ref = some symbol ∧ symbol.name = u.name := by
  unfold Resolver.Answers at h
  rw [found] at h
  exact h

/-- Whatever is wrong with a source text, this is known after the names of its program are resolved,
whether or not a cancellation was seen. -/
theorem knows_resolve (source : List Char) (s t : Session) :
    (resolve (parseSource source s).program t).1.Knows (parseSource source s).program := by
  have tree := builtFrom_resolve (parseSource source s).program t
  have printable : (parseSource source s).program.Printable :=
    printable_of_mem_parsesOf List.mem_cons_self
  have distinct := nodup_ids_parse (deliveries source) s
  have fresh : Fresh (Resolver.start t).resolution
      (Stmt.idsAll (parseSource source s).program.body) :=
    ⟨fun _ _ => rfl, fun _ _ => rfl, fun _ _ => rfl⟩
  have handled := (Resolver.handles_resolve
    (parse_wellPlaced (deliveries source) s) t).handled fresh distinct
  refine ⟨ScopeTree.WellFormed.new.becomes tree.built, ?_, ?_, ?_⟩
  · intro ref symbol known
    obtain ⟨d, mem, rfl⟩ := tree.origin ref symbol known
    rcases List.mem_append.1 mem with builtin | declared
    · exact isName_of_mem_builtins d builtin
    · exact Program.isName_of_mem_declarations printable d declared
  · exact fun u used ref found => (handled.answers u used).symbol found
  · intro d mem ref found
    obtain ⟨node, isNode, found⟩ := Option.bind_eq_some_iff.1 found
    obtain ⟨symbol, known, declares⟩ :=
      ((handled.complete (.start t)).declarations node ref).1 found
    obtain ⟨d', mem', rfl⟩ := tree.origin ref symbol known
    -- the symbol was declared at the node, and nothing else was
    have declared : d' ∈ (parseSource source s).program.declarations := by
      rcases List.mem_append.1 mem' with builtin | declared
      · obtain rfl := List.mem_singleton.1 builtin
        cases declares
      · exact declared
    have nodes := distinct.sublist (nodes_preorderAll (parseSource source s).program.body)
    rw [eq_of_node nodes mem declared isNode declares]
    exact known

end MiniLang
