import MiniLang.Proofs.Diagnostic.Blame
import MiniLang.Proofs.Scope.LexicalResolution
import MiniLang.Proofs.Syntax.Spans

/-!
# What resolution finds is found once

What is wrong with a name is said at the name, and what is wrong with a `return` at the statement.
In a program whose parts stand in order no two names share a place, so that nothing is said twice
(`resolve_found`), although the names of functions are declared before everything else.
-/

set_option autoImplicit false

namespace MiniLang

namespace Scoping

/-- What is said of something in a program if it is wrong. -/
def Occurrence.blame : Occurrence → Blame
  | use u => (.undeclaredIdentifier u.name, u.span)
  | declaration d => (.redeclaration d.name, d.span)
  | strayReturn span => (.returnOutsideFunction, span)

theorem Event.blame_of_diagnostic? {e : Event} {d : Diagnostic} (found : e.diagnostic? = some d) :
    d.blame = e.occurrence.blame ∧ d.problem.category = .resolution := by
  cases e with
  | use | declaration =>
    simp only [diagnostic?] at found
    split at found
    all_goals cases found
    exact ⟨rfl, rfl⟩
  | strayReturn =>
    cases found
    exact ⟨rfl, rfl⟩

/-- What is found is some of what could be said. -/
theorem blame_events_sublist (events : List Event) :
    ((events.filterMap Event.diagnostic?).map Diagnostic.blame).Sublist
      ((events.map Event.occurrence).map Occurrence.blame) := by
  induction events with
  | nil => exact .slnil
  | cons e events ih =>
    cases found : e.diagnostic? with
    | none =>
      rw [List.filterMap_cons_none found]
      exact ih.cons _
    | some d =>
      rw [List.filterMap_cons_some found, List.map_cons, (Event.blame_of_diagnostic? found).1]
      exact ih.cons_cons _

/-! ## Names in expressions -/

/-- What is said of the names in an expression. -/
def blameUses (uses : List NameUse) : List Blame := (uses.map .use).map Occurrence.blame

mutual

theorem spread_nameUses : ∀ {e : Expr}, e.LaidOut →
    Spread e.span.start e.span.stop (blameUses e.nameUses)
  | .literal .., _ => .nil ..
  | .var .., h => .single (Nat.le_refl _) (Span.Holds.nonempty h) (Nat.le_refl _)
  | .binary _ _ _ left right, ⟨holds, inLeft, inRight⟩ => by
    have parts := Spread.flatten
      (.cons (spread_nameUses inLeft) (.cons (spread_nameUses inRight) .nil)) holds.inOrder
    exact parts.perm (.of_eq (by simp [Expr.nameUses, blameUses]))
  | .unary _ _ _ operand, ⟨holds, inside⟩ => by
    obtain ⟨start, -, stop⟩ := holds.inOrder
    exact (spread_nameUses inside).widen start stop
  | .call id _ callee calleeSpan arguments, ⟨holds, inside⟩ => by
    have name : Spread calleeSpan.start calleeSpan.stop (blameUses [⟨id, callee, calleeSpan⟩]) :=
      .single (Nat.le_refl _) holds.inOrder.2.1 (Nat.le_refl _)
    have parts := Spread.flatten (.cons name (spread_nameUsesAll inside)) holds.inOrder
    exact parts.perm (.of_eq (by simp [Expr.nameUses, Expr.nameUsesAll_eq_flatMap, blameUses,
      List.flatMap_def, Function.comp_def]))
  | .assignment id _ target targetSpan value, ⟨holds, inside⟩ => by
    have name : Spread targetSpan.start targetSpan.stop (blameUses [⟨id, target, targetSpan⟩]) :=
      .single (Nat.le_refl _) holds.inOrder.2.1 (Nat.le_refl _)
    have parts := Spread.flatten (.cons name (.cons (spread_nameUses inside) .nil)) holds.inOrder
    refine parts.perm ?_
    simpa [Expr.nameUses, blameUses] using
      (List.perm_append_singleton _ (blameUses value.nameUses)).symm

theorem spread_nameUsesAll : ∀ {es : List Expr}, Expr.AllLaidOut es →
    List.Forall₂ (fun s bs => Spread s.start s.stop bs) (es.map Expr.span)
      (es.map fun e => blameUses e.nameUses)
  | [], _ => .nil
  | _ :: _, ⟨first, others⟩ => .cons (spread_nameUses first) (spread_nameUsesAll others)

end

/-! ## Statements -/

/-- What is said of what is in statements. -/
def blameStmts (inFunction : Bool) (ss : List Stmt) : List Blame :=
  (ss.flatMap (Occurrence.ofStmt inFunction)).map Occurrence.blame

@[simp] theorem blameStmts_append (inFunction : Bool) (ss ss' : List Stmt) :
    blameStmts inFunction (ss ++ ss') = blameStmts inFunction ss ++ blameStmts inFunction ss' := by
  simp [blameStmts]

theorem blameStmts_preorderAll (inFunction : Bool) (ss : List Stmt) :
    blameStmts inFunction (Stmt.preorderAll ss) =
      (ss.map fun s => blameStmts inFunction s.preorder).flatten := by
  induction ss with
  | nil => rfl
  | cons s ss ih => rw [Stmt.preorderAll, blameStmts_append, ih, List.map_cons, List.flatten_cons]

/-- A statement that holds a condition, and statements below it. -/
theorem blameStmts_condition (inFunction : Bool) {s : Stmt} {condition : Expr} (below : List Stmt)
    (noReturn : s.isReturn = false) (none : Declaration.inStmt s = [])
    (own : s.ownExprs = [condition]) : blameStmts inFunction (s :: below) =
      blameUses condition.nameUses ++ blameStmts inFunction below := by
  rw [blameStmts, List.flatMap_cons, Occurrence.ofStmt_eq_uses inFunction noReturn none, own]
  simp [blameStmts, blameUses]

/-- What is said of parameters. -/
theorem spread_params : ∀ {params : List Param}, (∀ p ∈ params, p.span.Holds [p.type.span]) →
    List.Forall₂ (fun s bs => Spread s.start s.stop bs) (params.map Param.span)
      (params.map fun p => [(Occurrence.declaration (.ofParam p)).blame])
  | [], _ => .nil
  | _ :: _, each => by
    obtain ⟨first, others⟩ := List.forall_mem_cons.1 each
    exact .cons (.single (Nat.le_refl _) first.nonempty (Nat.le_refl _)) (spread_params others)

/-- What is said of a function stands behind its name. -/
theorem spread_function (inFunction : Bool) {span : Span} {header : FunctionHeader} {body : Block}
    (laidOut : (Stmt.function span header body).LaidOut)
    (inside : Spread body.span.start body.span.stop (blameStmts inFunction (Stmt.inBlock body))) :
    Spread header.nameSpan.stop span.stop
      (blameStmts inFunction (Stmt.preorder (.function span header body))) := by
  obtain ⟨holds, params, -⟩ := laidOut
  have inOrder : Span.InOrder header.nameSpan.stop span.stop
      (header.params.map Param.span ++ [body.span]) :=
    Span.InOrder.sublist ((List.sublist_append_left ..).append_right [body.span])
      holds.inOrder.2.2
  have parts := Spread.flatten
    (List.rel_append (spread_params params) (.cons inside .nil)) inOrder
  refine parts.perm (.of_eq ?_)
  have flat : ∀ params : List Param,
      (params.map fun p => [(Occurrence.declaration (.ofParam p)).blame]).flatten =
        params.map fun p => (Occurrence.declaration (.ofParam p)).blame := fun params => by
    induction params <;> simp [*]
  simp [blameStmts, Stmt.preorder, Occurrence.ofStmt, Stmt.isReturn, Stmt.ownExprs,
    Declaration.inStmt, flat, Function.comp_def]

mutual

theorem spread_stmt (inFunction : Bool) : ∀ {s : Stmt}, s.LaidOut →
    Spread s.span.start s.span.stop (blameStmts inFunction s.preorder)
  | .letVar id span name nameSpan declared value, ⟨holds, inside⟩ => by
    have inOrder : Span.InOrder span.start span.stop [nameSpan, value.span] :=
      holds.inOrder.sublist ((List.sublist_append_right ..).cons_cons nameSpan)
    have own : Spread nameSpan.start nameSpan.stop [Occurrence.blame (.declaration
        ⟨some id, name, .variable, declared.map fun type => .ofName type.name, nameSpan⟩)] :=
      .single (Nat.le_refl _) inOrder.2.1 (Nat.le_refl _)
    have parts := Spread.flatten (.cons own (.cons (spread_nameUses inside) .nil)) inOrder
    refine parts.perm ?_
    simpa [blameStmts, Stmt.preorder, blameUses, Occurrence.ofStmt, Stmt.isReturn, Stmt.ownExprs,
      Declaration.inStmt, Declaration.ofStmt?] using
      (List.perm_append_singleton _ (blameUses value.nameUses)).symm
  | .ifThen _ condition thenBlock, ⟨holds, test, yes⟩ => by
    have parts := Spread.flatten
      (.cons (spread_nameUses test) (.cons (spread_inBlock inFunction yes) .nil)) holds.inOrder
    refine parts.perm (.of_eq ?_)
    rw [Stmt.preorder, blameStmts_condition inFunction _ rfl rfl rfl]
    simp
  | .ifThenElse _ condition thenBlock elseBranch, ⟨holds, test, yes, no⟩ => by
    have parts := Spread.flatten (.cons (spread_nameUses test) (.cons (spread_inBlock inFunction yes)
      (.cons (spread_stmt inFunction no) .nil))) holds.inOrder
    refine parts.perm (.of_eq ?_)
    rw [Stmt.preorder, blameStmts_condition inFunction _ rfl rfl rfl]
    simp
  | .whileLoop _ condition body, ⟨holds, test, inside⟩ => by
    have parts := Spread.flatten
      (.cons (spread_nameUses test) (.cons (spread_inBlock inFunction inside) .nil)) holds.inOrder
    refine parts.perm (.of_eq ?_)
    rw [Stmt.preorder, blameStmts_condition inFunction _ rfl rfl rfl]
    simp
  | .block b, h => spread_inBlock inFunction (b := b) h
  | .expression _ value, ⟨holds, inside⟩ => by
    have parts := Spread.flatten (.cons (spread_nameUses inside) .nil) holds.inOrder
    refine parts.perm (.of_eq ?_)
    rw [Stmt.preorder, blameStmts_condition inFunction _ rfl rfl rfl]
    simp [blameStmts]
  | .function span header body, h => by
    obtain ⟨start, nonempty, -⟩ := h.1.inOrder
    have behind := spread_function inFunction h (spread_inBlock inFunction h.2.2)
    exact behind.widen (start.trans (Nat.le_of_lt nonempty)) (Nat.le_refl _)
  | .ret span value, ⟨holds, inside⟩ => by
    have values : Spread span.start span.stop (blameUses (value.toList.flatMap Expr.nameUses)) := by
      cases value with
      | none => exact .nil ..
      | some e =>
        have parts := Spread.flatten (.cons (spread_nameUses (inside e rfl)) .nil) holds.inOrder
        exact parts.perm (.of_eq (by simp))
    have stray : Spread span.start span.stop [Occurrence.blame (.strayReturn span)] :=
      .single (Nat.le_refl _) holds.nonempty (Nat.le_refl _)
    have whole := stray.union values fun b mem mem' => by
      obtain rfl := List.mem_singleton.1 mem
      simp [blameUses, Occurrence.blame] at mem'
    refine whole.sublist ?_
    cases inFunction <;> cases value <;>
      simp [blameStmts, Stmt.preorder, Occurrence.ofStmt, Stmt.isReturn, Stmt.ownExprs,
        Declaration.inStmt, Declaration.ofStmt?, Stmt.span, blameUses]
  | .error _, _ => .nil ..

theorem spread_inBlock (inFunction : Bool) : ∀ {b : Block}, Stmt.BlockLaidOut b →
    Spread b.span.start b.span.stop (blameStmts inFunction (Stmt.inBlock b))
  | .mk _ span body, ⟨holds, inside⟩ => by
    have parts := Spread.flatten (spread_inAll inFunction inside) holds.inOrder
    refine parts.perm (.of_eq ?_)
    rw [Stmt.inBlock, blameStmts_preorderAll]

theorem spread_inAll (inFunction : Bool) : ∀ {ss : List Stmt}, Stmt.AllLaidOut ss →
    List.Forall₂ (fun s bs => Spread s.start s.stop bs) (ss.map Stmt.span)
      (ss.map fun s => blameStmts inFunction s.preorder)
  | [], _ => .nil
  | _ :: _, ⟨first, others⟩ => .cons (spread_stmt inFunction first) (spread_inAll inFunction others)

end

/-! ## Programs -/

/-- What is in a statement of the top level, with the name of the function that it may declare. -/
def topOccurrences (s : Stmt) : List Occurrence :=
  (s.function?.map fun f => Occurrence.declaration (.ofFunction f.1)).toList ++
    s.preorder.flatMap (Occurrence.ofStmt s.function?.isSome)

/-- The names of functions are declared before everything else. -/
theorem perm_occurrences (p : Program) : (p.body.flatMap topOccurrences).Perm (occurrences p) := by
  unfold occurrences hoisted Program.functions
  induction p.body with
  | nil => exact .refl _
  | cons s ss ih =>
    rw [List.flatMap_cons, List.flatMap_cons, topOccurrences]
    cases declared : s.function? with
    | none =>
      rw [List.filterMap_cons_none declared]
      refine (ih.append_left _).trans ?_
      simpa using List.perm_append_comm_assoc _ _ _
    | some f =>
      rw [List.filterMap_cons_some declared]
      refine (ih.append_left _).trans ?_
      simpa using List.perm_append_comm_assoc _ _ _

theorem spread_top {s : Stmt} (h : s.LaidOut) : Spread s.span.start s.span.stop
    ((topOccurrences s).map Occurrence.blame) := by
  cases s with
  | function span header body =>
    obtain ⟨start, nonempty, rest⟩ := h.1.inOrder
    have name : Spread span.start header.nameSpan.stop
        [Occurrence.blame (.declaration (.ofFunction header))] :=
      .single start nonempty (Nat.le_refl _)
    have behind := spread_function true h (spread_inBlock true h.2.2)
    exact name.append behind (by omega) rest.le
  | _ => exact spread_stmt false h

theorem spread_topAll : ∀ {ss : List Stmt}, Stmt.AllLaidOut ss →
    List.Forall₂ (fun s bs => Spread s.start s.stop bs) (ss.map Stmt.span)
      (ss.map fun s => (topOccurrences s).map Occurrence.blame)
  | [], _ => .nil
  | _ :: _, ⟨first, others⟩ => .cons (spread_top first) (spread_topAll others)

/-- In a program whose parts stand in order nothing is found twice about its names. -/
theorem nodup_blame_events {p : Program} (placed : ∀ s ∈ p.body, s.TopWellPlaced) {lo hi : Nat}
    (inOrder : Span.InOrder lo hi (p.body.map Stmt.span)) (laidOut : Stmt.AllLaidOut p.body) :
    ((p.events.filterMap Event.diagnostic?).map Diagnostic.blame).Nodup := by
  have whole := (Spread.flatten (spread_topAll laidOut) inOrder).nodup
  refine List.Nodup.sublist (blame_events_sublist p.events) ?_
  rw [occurrence_events placed, ← ((perm_occurrences p).map Occurrence.blame).nodup_iff,
    List.map_flatMap, List.flatMap_def]
  exact whole

/-- What is found about the names of a program that was parsed is found once. -/
theorem resolve_found {tokens : List Delivery} {before s : Session} {p : Program}
    (isParsed : (parse tokens before).program = p) (uncancelled : s.Uncancelled) {lo hi : Nat}
    (inOrder : Span.InOrder lo hi (p.body.map Stmt.span)) (laidOut : Stmt.AllLaidOut p.body) :
    ∃ ds, (resolve p s).2 = s.recordAll ds ∧ (ds.map Diagnostic.blame).Nodup ∧
      ∀ d ∈ ds, d.problem.category = .resolution := by
  subst isParsed
  have placed := parse_wellPlaced tokens before
  obtain ⟨recorded, -⟩ := resolve_records placed (nodup_ids_parse tokens before) uncancelled
  refine ⟨_, recorded, nodup_blame_events placed inOrder laidOut, fun d mem => ?_⟩
  obtain ⟨e, -, found⟩ := List.mem_filterMap.1 mem
  exact (Event.blame_of_diagnostic? found).2

end Scoping

end MiniLang
