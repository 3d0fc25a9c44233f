import MiniLang.Proofs.Scope.Around
import MiniLang.Proofs.Syntax.Parser.Likeness.Shape
import MiniLang.Proofs.Syntax.Placement
import MiniLang.Syntax.Parser.Source

/-!
# Resolution is lexical scoping

While a program is resolved, the scopes around the place that was reached declare what the frames
around it say, so that each step records the errors of its events and settles them (`Records`).
What was settled stays so, because every node is looked at once.
-/

set_option autoImplicit false

namespace MiniLang.Scoping

variable {r r' r'' : Resolver} {ids ids' : List NodeId} {own : Option ScopeId}
  {f : Frame} {frames : List Frame} {scope : ScopeId} {d : Declaration}

/-! ## Steps of resolution -/

/-- Between two resolvers stand the given events: their errors were recorded, and they are settled
for nodes among the given ones. -/
structure Records (ids : List NodeId) (events : List Event) (r r' : Resolver) : Prop where
  session : r'.session = r.session.recordAll (events.filterMap Event.diagnostic?)
  settled : ∀ e ∈ events, e.Settled r'.resolution
  nodes : ∀ e ∈ events, e.nodes ⊆ ids

/-- A resolver stands inside of the frames, is not cancelled, and has not looked at the nodes. -/
structure Ready (r : Resolver) (ids : List NodeId) (frames : List Frame) (scope : ScopeId) :
    Prop where
  uncancelled : r.session.Uncancelled
  fresh : Fresh r.resolution ids
  distinct : ids.Nodup
  around : Around r.resolution frames scope

variable {events events' : List Event}

/-- A step without events. -/
theorem Records.nil (ids : List NodeId) (same : r'.session = r.session) : Records ids [] r r' :=
  ⟨same.trans (Session.recordAll_nil _).symm, List.forall_mem_nil _, List.forall_mem_nil _⟩

theorem Records.widen (h : Records ids events r r') (sub : ids ⊆ ids') :
    Records ids' events r r' :=
  ⟨h.session, h.settled, fun e mem => List.Subset.trans (h.nodes e mem) sub⟩

/-- One event that is settled at once. -/
theorem Records.single {e : Event}
    (session : r'.session = r.session.recordAll e.diagnostic?.toList)
    (settled : e.Settled r'.resolution) (nodes : e.nodes ⊆ ids) :
    Records ids [e] r r' := by
  refine ⟨?_, fun e' mem => List.mem_singleton.1 mem ▸ settled,
    fun e' mem => List.mem_singleton.1 mem ▸ nodes⟩
  rw [session]
  cases diagnostic : e.diagnostic? <;> simp [diagnostic]

theorem Records.trans (h : Records ids events r r') (h' : Records ids' events' r' r'')
    (later : Resolver.Later own ids' r' r'') (fresh : Fresh r'.resolution ids')
    (apart : ids.Disjoint ids') : Records (ids ++ ids') (events ++ events') r r'' := by
  refine ⟨?_, fun e mem => ?_, fun e mem => ?_⟩
  · rw [h'.session, h.session, List.filterMap_append]
    simp [Session.recordAll]
  · rcases List.mem_append.1 mem with mem | mem
    · exact (h.settled e mem).later later fresh (List.disjoint_of_subset_left (h.nodes e mem) apart)
    · exact h'.settled e mem
  · rcases List.mem_append.1 mem with mem | mem
    · exact List.subset_append_of_subset_left _ (h.nodes e mem)
    · exact List.subset_append_of_subset_right _ (h'.nodes e mem)

namespace Ready

theorem mono (h : Ready r ids' frames scope) (sub : ids ⊆ ids') (distinct : ids.Nodup) :
    Ready r ids frames scope := ⟨h.uncancelled, h.fresh.mono sub, distinct, h.around⟩

/-- The order of the nodes does not matter. -/
theorem perm (h : Ready r ids' frames scope) (turned : ids.Perm ids') : Ready r ids frames scope :=
  h.mono turned.subset (turned.nodup_iff.2 h.distinct)

theorem left (h : Ready r (ids ++ ids') frames scope) : Ready r ids frames scope :=
  h.mono (List.subset_append_left ..) (List.nodup_append.1 h.distinct).1

/-- After some nodes were looked at, others are still to come. -/
theorem next {frames' : List Frame} {scope' : ScopeId} (h : Ready r (ids ++ ids') frames scope)
    (first : Records ids events r r') (later : Resolver.Later own ids r r')
    (around : Around r'.resolution frames' scope') : Ready r' ids' frames' scope' := by
  obtain ⟨-, distinct, apart⟩ := List.nodup_append'.1 h.distinct
  refine ⟨?_, ?_, distinct, around⟩
  · rw [first.session]
    exact h.uncancelled.recordAll _
  · exact (h.fresh.mono (List.subset_append_right ..)).later later apart

/-- The rule of sequencing. -/
theorem seq {frames' : List Frame} {scope' : ScopeId} {own' : Option ScopeId}
    (h : Ready r (ids ++ ids') frames scope) (first : Records ids events r r')
    (later : Resolver.Later own ids r r') (around : Around r'.resolution frames' scope')
    (second : Ready r' ids' frames' scope' → Records ids' events' r' r'')
    (later' : Resolver.Later own' ids' r' r'') :
    Records (ids ++ ids') (events ++ events') r r'' := by
  have ready := h.next first later around
  exact first.trans (second ready) later' ready.fresh (List.nodup_append'.1 h.distinct).2.2

/-- The scopes around are those from before if nothing was declared in them. -/
theorem stay (h : Ready r ids frames scope) (later : Resolver.Later none ids r r') :
    Around r'.resolution frames scope := h.around.later later h.fresh

end Ready

/-! ### Names in expressions -/

theorem records_resolveUse {u : NameUse} (ready : Ready r [u.id] frames scope) :
    Records [u.id] [.use u frames] r (r.resolveUse scope u) := by
  have found := ready.around.lookup u.name
  have nodes : (Event.use u frames).nodes ⊆ [u.id] := List.Subset.refl _
  unfold Resolver.resolveUse
  cases means : meaning? u.name frames with
  | none =>
    rw [means] at found
    rw [show r.resolution.tree.lookup scope u.name = none from found]
    refine .single ?_ ?_ nodes
    · simp only [Event.diagnostic?, means]
      rfl
    · simp only [Event.Settled, means]
      exact ready.fresh.references _ (List.mem_singleton_self _)
  | some meaning =>
    rw [means] at found
    obtain ⟨ref, found, denotes⟩ := found
    rw [show r.resolution.tree.lookup scope u.name = some ref from found]
    refine .single ?_ ?_ nodes
    · simp only [Event.diagnostic?, means]
      exact (Session.recordAll_nil _).symm
    · simp only [Event.Settled, means]
      refine ⟨ref, Table.get?_insert_self .., denotes.scope, denotes.symbol, denotes.declared⟩

theorem records_resolveUses (uses : List NameUse) :
    ∀ {r : Resolver}, Ready r (uses.map NameUse.id) frames scope →
      Records (uses.map NameUse.id) (uses.map (.use · frames)) r
        (uses.foldl (Resolver.resolveUse scope) r) := by
  induction uses with
  | nil => exact fun _ => .nil _ rfl
  | cons u uses ih =>
    intro r ready
    have later := Resolver.later_resolveUse scope r u
    have ready : Ready r ([u.id] ++ uses.map NameUse.id) frames scope := ready
    exact ready.seq (records_resolveUse ready.left) later (ready.left.stay later) ih
      (Resolver.later_resolveUses scope uses _)

/-- Every name in an expression is found where it is declared. -/
theorem records_resolveExpr {e : Expr} (ready : Ready r e.preorder frames scope) :
    Records e.preorder (Event.uses frames e) r (r.resolveExpr scope e) := by
  have sub : e.nameUses.map NameUse.id ⊆ e.preorder := by
    intro id mem
    obtain ⟨u, used, rfl⟩ := List.mem_map.1 mem
    exact e.mem_preorder_of_mem_nameUses used
  exact (records_resolveUses e.nameUses
    (ready.mono sub (e.nodup_nameUses ready.distinct))).widen sub

/-! ### Declarations -/

/-- Declares what a node of the program declares. -/
def declareIn (scope : ScopeId) (r : Resolver) (d : Declaration) : Resolver :=
  match d.node with
  | some node => r.declare scope node d.name d.kind d.type d.span
  | none => r

/-- A declaration is known if it is the first of its name, and an error if it is not. -/
theorem records_declareIn {node : NodeId} (isNode : d.node = some node)
    (ready : Ready r [node] (f :: frames) scope) :
    Records [node] [.declaration d f] r (declareIn scope r d) ∧
      Around (declareIn scope r d).resolution (f.declare [d] :: frames) scope := by
  have same : declareIn scope r d = r.declare scope node d.name d.kind d.type d.span := by
    rw [declareIn, isNode]
  have symbol : (⟨d.name, d.kind, d.type, scope, d.span, some node⟩ : Symbol) = d.symbol scope := by
    rw [← isNode]
    rfl
  have nodes : (Event.declaration d f).nodes ⊆ [node] := by
    rw [Event.nodes, isNode]
    exact List.Subset.refl _
  have keeps : Keeps r.resolution (declareIn scope r d).resolution := by
    rw [same]
    exact keeps_of_later (Resolver.later_declare ..) ready.fresh
  obtain ⟨S, here, holds, place⟩ := ready.around.head
  cases before : f.find? d.name with
  | none =>
    rw [same, Resolver.declare_of_new here (holds.absent before), symbol] at keeps ⊢
    have declared : ∀ other ∈ d.node,
        (r.resolution.declarations.insert node ⟨scope, S.symbols.length⟩).get? other =
          some ⟨scope, S.symbols.length⟩ := by
      intro other mem
      rw [← Option.some.inj (isNode.symm.trans mem)]
      exact Table.get?_insert_self ..
    have around := ready.around.declare keeps here rfl before declared
    refine ⟨.single ?_ ?_ nodes, around⟩
    · simp only [Event.diagnostic?, before]
      exact (Session.recordAll_nil _).symm
    · have found : (f.declare [d]).find? d.name = some d := by
        rw [Frame.find?_declare, before, if_pos rfl]
        rfl
      obtain ⟨S', here', holds', place'⟩ := around.head
      obtain ⟨_, -, denotes⟩ := holds'.denotes here' place' found
      simp only [Event.Settled, before]
      exact ⟨_, denotes.scope, denotes.symbol, denotes.declared⟩
  | some d' =>
    obtain ⟨index, declared, -⟩ := holds.denotes here place before
    rw [same, Resolver.declare_of_declared here declared] at keeps ⊢
    refine ⟨.single ?_ ?_ nodes, ?_⟩
    · simp only [Event.diagnostic?, before]
      rfl
    · simp only [Event.Settled, before]
      intro other mem
      rw [← Option.some.inj (isNode.symm.trans mem)]
      exact ready.fresh.declarations _ (List.mem_singleton_self _)
    · exact ready.around.replace keeps here here (fun _ _ => rfl) rfl rfl (holds.redeclare before)

/-- The nodes of declarations. -/
def nodesOf (ds : List Declaration) : List NodeId := ds.filterMap Declaration.node

theorem later_declareIn (scope : ScopeId) (r : Resolver) (d : Declaration) :
    Resolver.Later (some scope) d.node.toList r (declareIn scope r d) := by
  unfold declareIn
  cases d.node with
  | none => exact .refl _ r
  | some node => exact Resolver.later_declare ..

theorem later_declareAll (scope : ScopeId) (ds : List Declaration) :
    ∀ r : Resolver, Resolver.Later (some scope) (nodesOf ds) r (ds.foldl (declareIn scope) r) := by
  induction ds with
  | nil => exact fun r => .refl _ r
  | cons d ds ih =>
    intro r
    have whole := (later_declareIn scope r d).trans (ih _)
    refine whole.widen (.inr rfl) ?_
    cases node : d.node <;> simp [nodesOf, node]

/-- Declarations one after the other. -/
theorem records_declareAll {ds : List Declaration} (hasNodes : ∀ d ∈ ds, d.node.isSome = true) :
    ∀ {r : Resolver} {f : Frame}, Ready r (nodesOf ds) (f :: frames) scope →
      Records (nodesOf ds) (Event.declarations f ds) r (ds.foldl (declareIn scope) r) ∧
        Around (ds.foldl (declareIn scope) r).resolution (f.declare ds :: frames) scope := by
  induction ds with
  | nil =>
    intro r f ready
    refine ⟨.nil _ rfl, ?_⟩
    rw [Frame.declare_nil]
    exact ready.around
  | cons d ds ih =>
    intro r f ready
    obtain ⟨hasNode, others⟩ := List.forall_mem_cons.1 hasNodes
    obtain ⟨node, isNode⟩ := Option.isSome_iff_exists.1 hasNode
    have nodes : nodesOf (d :: ds) = [node] ++ nodesOf ds := by simp [nodesOf, isNode]
    rw [nodes] at ready ⊢
    obtain ⟨first, around⟩ := records_declareIn isNode ready.left
    have later := later_declareIn scope r d
    rw [isNode] at later
    have rest := ih others (ready.next first later around)
    refine ⟨ready.seq first later around (fun _ => rest.1) (later_declareAll scope ds _), ?_⟩
    have moved : f.declare (d :: ds) = (f.declare [d]).declare ds := by simp [Frame.declare]
    rw [moved]
    exact rest.2

/-! ### Scopes -/

/-- Opening a scope adds a frame. -/
theorem around_enter {block : NodeId} (kind : ScopeKind) (ready : Ready r [block] frames scope) :
    Around (r.enter kind scope block).2.resolution ({ block := block } :: frames) r.tree.size := by
  obtain ⟨S, here⟩ := ready.around.scope?
  have new := r.tree.scope?_push kind scope r.tree.size
  rw [if_pos rfl] at new
  refine .inside rfl (Table.get?_insert_self ..) new rfl (ScopeTree.lt_size here) ?_
    (ready.stay (Resolver.later_enter r kind scope block))
  intro name
  simp [Frame.find?, Scope.get?]

theorem checkpoint_eq {r : Resolver} (h : r.session.Uncancelled) (span : Span) :
    r.checkpoint span = (true, r) := by
  unfold Resolver.checkpoint
  rw [h.checkpoint]

/-! ## Statements -/

/-- A `return` in no function. -/
theorem records_stray (inFunction : Bool) (span : Span) (r : Resolver) :
    Records [] (if inFunction then [] else [.strayReturn span]) r
      (if inFunction then r
        else { r with session := r.session.report .returnOutsideFunction span }) := by
  cases inFunction with
  | true => exact .nil _ rfl
  | false => exact .single rfl trivial (List.nil_subset _)

theorem later_stray (inFunction : Bool) (span : Span) (r : Resolver) :
    Resolver.Later none [] r (if inFunction then r
      else { r with session := r.session.report .returnOutsideFunction span }) := by
  cases inFunction with
  | true => exact .refl none r
  | false => exact .session (.report ..)

/-- A variable is declared behind its value. -/
theorem records_letVar {id : NodeId} {value : Expr} (isNode : d.node = some id)
    (ready : Ready r (id :: value.preorder) (f :: frames) scope) :
    Records (id :: value.preorder) (Event.uses (f :: frames) value ++ [.declaration d f]) r
        (declareIn scope (r.resolveExpr scope value) d) ∧
      Around (declareIn scope (r.resolveExpr scope value) d).resolution
        (f.declare [d] :: frames) scope := by
  have turned := List.perm_append_singleton id value.preorder
  have ready := ready.perm turned
  have first := records_resolveExpr ready.left
  have test := Resolver.later_resolveExpr r scope value
  have moved := ready.left.stay test
  obtain ⟨second, around⟩ := records_declareIn isNode (ready.next first test moved)
  have later := later_declareIn scope (r.resolveExpr scope value) d
  rw [isNode] at later
  exact ⟨(ready.seq first test moved (fun _ => second) later).widen turned.subset, around⟩

/-- A statement in a list, with the variable that it may declare. -/
theorem records_inList (inFunction : Bool) {s : Stmt} (placed : s.WellPlaced)
    (ready : Ready r s.ids (f :: frames) scope)
    (plain : s.declares = false → Records s.ids (Event.inStmt inFunction (f :: frames) s) r
      (Resolver.resolveStmt scope inFunction s r)) :
    Records s.ids (Event.inStmt inFunction (f :: frames) s ++
        Event.declarations f (Declaration.ofStmt? s).toList) r
        (Resolver.resolveStmt scope inFunction s r) ∧
      Around (Resolver.resolveStmt scope inFunction s r).resolution
        (f.declare (Declaration.ofStmt? s).toList :: frames) scope := by
  cases declares : s.declares with
  | false =>
    have none : Declaration.ofStmt? s = .none := by cases s <;> first | rfl | cases declares
    have moved := ready.stay (Resolver.later_resolveStmt s scope inFunction r placed declares)
    rw [none, Option.toList_none, Frame.declare_nil, Event.declarations, List.append_nil]
    exact ⟨plain declares, moved⟩
  | true =>
    cases s with
    | letVar => exact records_letVar rfl ready
    | function => exact placed.elim
    | _ => cases declares

mutual

/-- A statement, apart from the variable that it may declare. -/
theorem records_resolveStmt (inFunction : Bool) :
    ∀ (s : Stmt) {r : Resolver} {frames : List Frame} {scope : ScopeId}, s.WellPlaced →
      s.declares = false → Ready r s.ids frames scope →
      Records s.ids (Event.inStmt inFunction frames s) r (Resolver.resolveStmt scope inFunction s r)
  | .ifThen _ condition thenBlock, r, frames, scope, placed, _, ready => by
    have test := Resolver.later_resolveExpr r scope condition
    exact ready.seq (records_resolveExpr ready.left) test (ready.left.stay test)
      (records_resolveBlock inFunction thenBlock placed)
      (Resolver.later_resolveBlock thenBlock _ _ _ placed)
  | .ifThenElse _ condition thenBlock elseBranch, r, _, scope, ⟨yes, no, noName⟩, _, ready => by
    have test := Resolver.later_resolveExpr r scope condition
    have body := Resolver.later_resolveBlock thenBlock scope inFunction
      (r.resolveExpr scope condition) yes
    have first := ready.left.seq (records_resolveExpr ready.left.left) test
      (ready.left.left.stay test) (records_resolveBlock inFunction thenBlock yes) body
    exact ready.seq first (test.trans body) (ready.left.stay (test.trans body))
      (records_resolveStmt inFunction elseBranch no noName)
      (Resolver.later_resolveStmt elseBranch _ _ _ no noName)
  | .whileLoop _ condition body, r, frames, scope, placed, _, ready => by
    have test := Resolver.later_resolveExpr r scope condition
    have first := records_resolveExpr ready.left
    have going := (ready.next first test (ready.left.stay test)).uncancelled
    rw [Resolver.resolveStmt, checkpoint_eq going]
    exact ready.seq first test (ready.left.stay test)
      (records_resolveBlock inFunction body placed)
      (Resolver.later_resolveBlock body _ _ _ placed)
  | .block b, r, frames, scope, placed, _, ready => records_resolveBlock inFunction b placed ready
  | .expression _ value, r, frames, scope, _, _, ready => records_resolveExpr ready
  | .ret span none, r, frames, scope, _, _, ready => by
    rw [Event.inStmt, Option.map_none, Option.getD_none, List.append_nil]
    exact records_stray inFunction span r
  | .ret span (some e), r, frames, scope, _, _, ready => by
    have stray := later_stray inFunction span r
    have ready : Ready r ([] ++ e.preorder) frames scope := ready
    exact ready.seq (records_stray inFunction span r) stray (ready.left.stay stray)
      records_resolveExpr (Resolver.later_resolveExpr _ scope e)
  | .error _, r, _, _, _, _, _ => .nil _ rfl
  | .letVar .., _, _, _, _, declares, _ => by cases declares
  | .function .., _, _, _, placed, _, _ => placed.elim

theorem records_resolveBlock (inFunction : Bool) :
    ∀ (b : Block) {r : Resolver} {frames : List Frame} {scope : ScopeId},
      Stmt.BlockWellPlaced b → Ready r (Stmt.blockIds b) frames scope →
      Records (Stmt.blockIds b) (Event.inBlock inFunction frames b) r
        (Resolver.resolveBlock scope inFunction b r)
  | .mk id _ body, r, frames, scope, placed, ready => by
    have entered := Resolver.later_enter r .block scope id
    have inside := Resolver.later_resolveAll body r.tree.size inFunction
      (r.enter .block scope id).2 placed
    rw [Resolver.resolveBlock]
    simp only [Resolver.hoist_eq_self placed]
    have ready : Ready r ([id] ++ Stmt.idsAll body) frames scope := ready
    have opened : Records [id] [] r (r.enter .block scope id).2 := .nil _ rfl
    exact ready.seq opened entered (around_enter .block ready.left)
      (records_resolveAll inFunction body placed) inside

theorem records_resolveAll (inFunction : Bool) :
    ∀ (ss : List Stmt) {r : Resolver} {f : Frame} {outer : List Frame} {scope : ScopeId},
      Stmt.AllWellPlaced ss → Ready r (Stmt.idsAll ss) (f :: outer) scope →
      Records (Stmt.idsAll ss) (Event.inAll inFunction f outer ss) r
        (Resolver.resolveAll scope inFunction ss r)
  | [], r, _, _, _, _, _ => .nil _ rfl
  | s :: ss, r, f, outer, scope, ⟨placed, others⟩, ready => by
    have first := records_inList inFunction placed ready.left fun declares =>
      records_resolveStmt inFunction s placed declares ready.left
    exact ready.seq first.1 (Resolver.later_resolveInner scope inFunction r placed) first.2
      (records_resolveAll inFunction ss others) (Resolver.later_resolveAll ss _ _ _ others)

end

/-! ## Programs -/

theorem foldl_declareParam (scope : ScopeId) (params : List Param) (r : Resolver) :
    params.foldl (Resolver.declareParam scope) r =
      (params.map Declaration.ofParam).foldl (declareIn scope) r := by
  rw [List.foldl_map]
  rfl

theorem nodesOf_params (params : List Param) :
    nodesOf (params.map .ofParam) = params.map Param.id := by
  rw [nodesOf, List.filterMap_map, ← List.filterMap_eq_map]
  rfl

/-- A function behind its name: its parameters and then its body. -/
theorem records_resolveFunction {header : FunctionHeader} {b : Block}
    (placed : Stmt.BlockWellPlaced b)
    (ready : Ready r (header.params.map Param.id ++ Stmt.blockIds b) frames scope) :
    Records (header.params.map Param.id ++ Stmt.blockIds b)
      (Event.inFunctionBody frames (header.params.map .ofParam) b) r
      (Resolver.resolveFunction scope header b r) := by
  cases b with
  | mk id span body =>
    have turned : ([id] ++ (nodesOf (header.params.map .ofParam) ++ Stmt.idsAll body)).Perm
        (header.params.map Param.id ++ Stmt.blockIds (.mk id span body)) := by
      have middle : (id :: (header.params.map Param.id ++ Stmt.idsAll body)).Perm
          (header.params.map Param.id ++ id :: Stmt.idsAll body) := List.perm_middle.symm
      rw [nodesOf_params]
      exact middle
    have ready := ready.perm turned
    have entered := Resolver.later_enter r .function scope id
    have opened : Records [id] [] r (r.enter .function scope id).2 := .nil _ rfl
    have inside := ready.next opened entered (around_enter .function ready.left)
    have hasNodes : ∀ d ∈ header.params.map Declaration.ofParam, d.node.isSome = true := by
      intro d mem
      obtain ⟨p, -, rfl⟩ := List.mem_map.1 mem
      rfl
    have params := records_declareAll hasNodes inside.left
    have declared := later_declareAll r.tree.size (header.params.map .ofParam)
      (r.enter .function scope id).2
    have rest := Resolver.later_resolveAll body r.tree.size true
      ((header.params.map Declaration.ofParam).foldl (declareIn r.tree.size)
        (r.enter .function scope id).2) placed
    rw [Resolver.resolveFunction]
    simp only [Resolver.hoist_eq_self placed, foldl_declareParam]
    have whole := ready.seq opened entered (around_enter .function ready.left)
      (fun _ => inside.seq params.1 declared params.2 (records_resolveAll true body placed) rest)
      (declared.trans rest)
    exact whole.widen turned.subset

/-- A statement of the top level. -/
theorem records_resolveTop {s : Stmt} (placed : s.TopWellPlaced)
    (ready : Ready r s.innerIds (f :: frames) scope) :
    Records s.innerIds (Event.inStmt false (f :: frames) s ++
        Event.declarations f (Declaration.ofStmt? s).toList) r
        (Resolver.resolveStmt scope false s r) ∧
      Around (Resolver.resolveStmt scope false s r).resolution
        (f.declare (Declaration.ofStmt? s).toList :: frames) scope := by
  cases placed with
  | inner placed =>
    rw [placed.innerIds_eq] at ready ⊢
    exact records_inList false placed ready fun declares =>
      records_resolveStmt false s placed declares ready
  | @function span header body placed =>
    have none : Declaration.ofStmt? (.function span header body) = .none := rfl
    rw [none, Option.toList_none, Frame.declare_nil, Event.declarations, List.append_nil]
    exact ⟨records_resolveFunction placed ready,
      ready.stay (Resolver.later_resolveFunction scope header r placed)⟩

theorem records_resolveTopLevel :
    ∀ (ss : List Stmt) {r : Resolver} {f : Frame}, (∀ s ∈ ss, s.TopWellPlaced) →
      Ready r (ss.flatMap Stmt.innerIds) [f] globalScope →
      Records (ss.flatMap Stmt.innerIds) (Event.inAll false f [] ss) r
        (Resolver.resolveTopLevel ss r)
  | [], _, _, _, _ => .nil _ rfl
  | s :: ss, r, f, placed, ready => by
    obtain ⟨first, others⟩ := List.forall_mem_cons.1 placed
    obtain ⟨recorded, around⟩ := records_resolveTop first ready.left
    rw [Resolver.resolveTopLevel, checkpoint_eq ready.uncancelled]
    exact ready.seq recorded (Resolver.later_resolveTop r first) around
      (records_resolveTopLevel ss others) (Resolver.later_resolveTopInner ss _ others)

/-! ### The beginning of a program -/

theorem hoist_eq (scope : ScopeId) (body : List Stmt) :
    ∀ r : Resolver, r.hoist scope body =
      ((body.filterMap Stmt.function?).map fun f => Declaration.ofFunction f.1).foldl
        (declareIn scope) r := by
  induction body with
  | nil => exact fun _ => rfl
  | cons s ss ih =>
    intro r
    have step : r.hoist scope (s :: ss) = (Resolver.hoistFunction scope r s).hoist scope ss := rfl
    rw [step, Resolver.hoistFunction]
    cases declared : s.function? with
    | none => rw [List.filterMap_cons_none declared, ih]
    | some f =>
      rw [List.filterMap_cons_some declared, List.map_cons, List.foldl_cons, ih]
      rfl

/-- The nodes of functions, and all others, are those of the statements. -/
theorem perm_innerIds (ss : List Stmt) :
    (nodesOf ((ss.filterMap Stmt.function?).map fun f => .ofFunction f.1) ++
      ss.flatMap Stmt.innerIds).Perm (Stmt.idsAll ss) := by
  induction ss with
  | nil => exact .refl _
  | cons s ss ih =>
    cases s with
    | function span header body =>
      exact ((List.perm_append_comm_assoc ..).trans (ih.append_left _)).cons header.id
    | _ => exact (List.perm_append_comm_assoc ..).trans (ih.append_left _)

/-- Before anything of a program is resolved, only what every program can use is declared. -/
theorem around_start (s : Session) :
    Around (Resolver.start s).resolution [.builtins] globalScope := by
  have here : (Resolver.start s).tree.scope? globalScope = some
      { id := globalScope, parent := none, kind := .global,
        symbols := MiniLang.builtins.map fun b => (Declaration.ofBuiltin b).symbol globalScope } :=
    rfl
  refine .program rfl here rfl fun name => ?_
  by_cases same : "print" = name
  · subst same
    exact ⟨0, rfl, rfl, nofun⟩
  · have absent : Frame.builtins.find? name = none := List.find?_eq_none.2 (by
      simp [Frame.builtins, builtins, Declaration.ofBuiltin, same])
    rw [absent]
    exact List.findIdx?_eq_none_iff.2 (by
      simp [builtins, Declaration.ofBuiltin, Declaration.symbol, same])

/-- Resolving a program settles its events and records their errors, in order. -/
theorem resolve_records {p : Program} {s : Session} (placed : ∀ st ∈ p.body, st.TopWellPlaced)
    (distinct : (Stmt.idsAll p.body).Nodup) (uncancelled : s.Uncancelled) :
    (resolve p s).2 = s.recordAll (p.events.filterMap Event.diagnostic?) ∧
      ∀ e ∈ p.events, e.Settled (resolve p s).1 := by
  have turned := perm_innerIds p.body
  have ready : Ready (Resolver.start s) (nodesOf (hoisted p) ++ p.body.flatMap Stmt.innerIds)
      [.builtins] globalScope :=
    ⟨uncancelled, ⟨fun _ _ => rfl, fun _ _ => rfl, fun _ _ => rfl⟩,
      turned.nodup_iff.2 distinct, around_start s⟩
  have hasNodes : ∀ d ∈ hoisted p, d.node.isSome = true := by
    intro d mem
    obtain ⟨f, -, rfl⟩ := List.mem_map.1 mem
    rfl
  have first := records_declareAll hasNodes ready.left
  have declared := later_declareAll globalScope (hoisted p) (Resolver.start s)
  have whole := ready.seq first.1 declared first.2 (records_resolveTopLevel p.body placed)
    (Resolver.later_resolveTopInner p.body _ placed)
  rw [hoisted, Program.functions, ← hoist_eq] at whole
  exact ⟨whole.session, whole.settled⟩

/-- Name resolution is lexical scoping. Each name that a program uses or declares, and each `return`
that stands in no function, is one event; it is settled by the frames around it, and what is an
error there is recorded once, and nothing else is. -/
theorem resolve_lexical {tokens : List Delivery} {before s : Session} {p : Program}
    (isParsed : (parse tokens before).program = p) (uncancelled : s.Uncancelled) :
    p.events.map Event.occurrence = occurrences p ∧
      (∀ e ∈ p.events, e.Settled (resolve p s).1) ∧
      (resolve p s).2 = s.recordAll (p.events.filterMap Event.diagnostic?) := by
  subst isParsed
  have placed := parse_wellPlaced tokens before
  obtain ⟨recorded, settled⟩ := resolve_records placed (nodup_ids_parse tokens before) uncancelled
  exact ⟨occurrence_events placed, settled, recorded⟩

/-- A parameter that hides a name that every program can use and is declared again, a variable that
its own value does not see, one that hides it in a block, and a stray `return`. -/
def hiddenNames : String :=
  "fn f(print: int) { let print = print; } let x = x; { let x = x; print(x); } return f(y);"

/-- Its names are settled, and it has four errors. -/
theorem resolve_lexical_hiddenNames :
    ∃ p, (parseSource hiddenNames.toList .fresh).program = p ∧ Session.fresh.Uncancelled ∧
      (∀ e ∈ p.events, e.Settled (resolve p .fresh).1) ∧
      (resolve p .fresh).2.diagnostics.map Diagnostic.problem =
        [.redeclaration "print", .undeclaredIdentifier "x", .returnOutsideFunction,
          .undeclaredIdentifier "y"] := by
  obtain ⟨-, settled, recorded⟩ :=
    resolve_lexical (s := .fresh) (p := (parseSource hiddenNames.toList .fresh).program) rfl
      ⟨rfl, rfl⟩
  refine ⟨_, rfl, ⟨rfl, rfl⟩, settled, ?_⟩
  rw [recorded]
  decide +kernel

end MiniLang.Scoping
