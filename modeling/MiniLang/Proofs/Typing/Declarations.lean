import MiniLang.Proofs.Typing.Expressions
import MiniLang.Proofs.Typing.Progress

/-!
# Typing declarations

The checker runs after all names are resolved, and looks at symbols that later declarations were
added to. What is known at a place in between (`InStep`), where the resolver has got as far as the
checker has, and how a declaration that succeeds keeps it: of a variable (`InStep.declareVariable`)
and of the parameters of a function (`InStep.declareParams`).
-/

set_option autoImplicit false

namespace MiniLang.Semantics

open Typing hiding Context

/-- Everything about the given nodes is settled: nothing is found out about them any more until the
resolution `R` in the end, which has no errors. -/
structure Settled (R : Resolution) (ids : List NodeId) (r : Resolver) : Prop where
  clean : r.session.hasErrors = false
  grows : r.tree.Grows R.tree
  references : ∀ id ∈ ids, R.references.get? id = r.resolution.references.get? id
  declarations : ∀ id ∈ ids, R.declarations.get? id = r.resolution.declarations.get? id
  blockScopes : ∀ id ∈ ids, R.blockScopes.get? id = r.resolution.blockScopes.get? id

namespace Settled

variable {R : Resolution} {ids ids' : List NodeId} {r r' : Resolver} {own : Option ScopeId}

theorem mono (h : Settled R ids' r) (sub : ids ⊆ ids') : Settled R ids r :=
  ⟨h.clean, h.grows, fun id mem => h.references id (sub mem),
    fun id mem => h.declarations id (sub mem), fun id mem => h.blockScopes id (sub mem)⟩

/-- Nodes that nothing is found out about in between were settled before. -/
theorem before {touched : List NodeId} (h : Settled R ids r')
    (later : Resolver.Later own touched r r') (apart : ids.Disjoint touched) : Settled R ids r := by
  refine ⟨later.leads.clean h.clean, later.grows.trans h.grows, fun id mem => ?_, fun id mem => ?_,
    fun id mem => ?_⟩
  · rw [h.references id mem, later.references id fun mem' => apart mem mem']
  · rw [h.declarations id mem, later.declarations id fun mem' => apart mem mem']
  · rw [h.blockScopes id mem, later.blockScopes id fun mem' => apart mem mem']

/-- Of distinct nodes, the first ones were settled before the others were looked at. -/
theorem split (h : Settled R (ids ++ ids') r') (distinct : (ids ++ ids').Nodup)
    (later : Resolver.Later own ids' r r') :
    (ids.Nodup ∧ Settled R ids r) ∧ ids'.Nodup ∧ Settled R ids' r' := by
  obtain ⟨first, second, apart⟩ := List.nodup_append'.1 distinct
  exact ⟨⟨first, (h.mono (List.subset_append_left ..)).before later apart⟩, second,
    h.mono (List.subset_append_right ..)⟩

end Settled

/-- The resolver and the checker have got to one place in a program, whose context is `Γ` and whose
scope is the given one; the checker sees the resolution `R`. -/
structure InStep (R : Resolution) (Γ : Context) (scope : ScopeId) (r : Resolver) (k : Checker) :
    Prop where
  fits : Γ.Fits scope r.tree k.context
  resolution : k.context.resolution = R
  resolverSound : r.session.Sound
  checkerSound : k.session.Sound

namespace InStep

variable {R : Resolution} {Γ : Context} {scope : ScopeId} {r r' : Resolver} {k k' : Checker}

/-- After something that left no trace in the scopes. -/
theorem after {ids : List NodeId} (h : InStep R Γ scope r k) (later : Resolver.Later none ids r r')
    (leads : k.Leads k') (same : SameSymbols r.tree k.context k'.context) :
    InStep R Γ scope r' k' :=
  ⟨h.fits.mono same fun id S here => later.frame id S here nofun,
    leads.resolution.trans h.resolution, later.leads.sound h.resolverSound,
    leads.session.sound h.checkerSound⟩

/-- The checker knows what the names in an expression refer to. -/
theorem resolved {e : Expr} (h : InStep R Γ scope r k) (distinct : e.preorder.Nodup)
    (settled : Settled R e.preorder (r.resolveExpr scope e)) :
    Resolved k.context.resolution r.tree scope e.nameUses := by
  intro u mem
  obtain ⟨ref, lookup, known⟩ := Resolver.references_resolveUses scope e.nameUses r
    (e.nodup_nameUses distinct) settled.clean u mem
  refine ⟨ref, lookup, ?_⟩
  rw [h.resolution, settled.references u.id (e.mem_preorder_of_mem_nameUses mem)]
  exact known

/-- An expression has the typed form that the checker gives. -/
theorem expr {e : Expr} (h : InStep R Γ scope r k) (distinct : e.preorder.Nodup)
    (settled : Settled R e.preorder (r.resolveExpr scope e))
    (clean : (k.expr e).2.session.hasErrors = false) : ExprTyped Γ e (k.expr e).1 := by
  change (k.session.recordAll _).hasErrors = false at clean
  rw [Session.hasErrors_recordAll, Bool.or_eq_false_iff] at clean
  exact typeExpr_typed h.fits e (h.resolved distinct settled) clean.2

/-- At the beginning of a block. -/
theorem push (h : InStep R Γ scope r k) (id : NodeId) :
    InStep R (Γ.push r.tree.size) r.tree.size (r.enter .block scope id).2 k :=
  ⟨h.fits.push .block, h.resolution, h.resolverSound, h.checkerSound⟩

end InStep

/-! ## Symbols -/

/-- A symbol that is declared is there, and was not there before. -/
theorem symbol?_of_declare {tree grown : ScopeTree} {symbol : Symbol} {ref : SymbolRef}
    (h : tree.declare symbol = .ok (ref, grown)) :
    tree.symbol? ref = none ∧ grown.symbol? ref = some symbol := by
  obtain ⟨S, here, -, rfl, rfl⟩ := ScopeTree.declare_ok_iff.1 h
  constructor
  · simp [ScopeTree.symbol?, here]
  · simp [ScopeTree.symbol?, ScopeTree.scope?_set here]

/-- What the checker knows about the symbol of a variable or parameter, whose type is written or
inferred. -/
theorem known_of_symbol {c : Typing.Context} {ref : SymbolRef} {symbol : Symbol} {type : Ty}
    (there : c.resolution.tree.symbol? ref = some symbol) (kind : symbol.kind ≠ .function)
    (typed : symbol.type = some type ∨ symbol.type = none ∧ c.inferred.get? ref = some type)
    (isValue : type.isValue = true) : (Meaning.value type).Known c ref := by
  refine ⟨?_, ?_, isValue⟩
  · rw [Typing.Context.isFunction, there]
    exact beq_false_of_ne kind
  · obtain ⟨name, kind', written, scope, span, node⟩ := symbol
    rw [Typing.Context.symbolType, there]
    rcases typed with rfl | ⟨rfl, inferred⟩
    · rfl
    · change (c.inferred.get? ref).getD .unknown = type
      rw [inferred]
      rfl

/-- A declaration that leaves no error behind has succeeded. -/
theorem declare_of_clean {r : Resolver} {scope : ScopeId} {node : NodeId} {name : String}
    {kind : SymbolKind} {type : Option Ty} {span : Span}
    (clean : (r.declare scope node name kind type span).session.hasErrors = false) :
    ∃ ref, r.tree.declare ⟨name, kind, type, scope, span, some node⟩ =
        .ok (ref, (r.declare scope node name kind type span).tree) ∧
      (r.declare scope node name kind type span).resolution.declarations.get? node = some ref := by
  unfold Resolver.declare at clean ⊢
  cases declared : r.resolution.tree.declare ⟨name, kind, type, scope, span, some node⟩ with
  | ok result =>
    obtain ⟨ref, grown⟩ := result
    exact ⟨ref, rfl, Table.get?_insert_self ..⟩
  | error ref =>
    rw [declared] at clean
    have errors : (r.session.report (.redeclaration name) span).hasErrors = true := by
      rw [Session.hasErrors_report]
      exact Bool.or_true _
    cases errors.symm.trans clean

/-- The type of a variable is that of its first value, which is a number or truth value. -/
theorem type_of_declarationRule {name : String} {declared : Option WrittenType} {value : Ty}
    {span : Span} (sane : value.isError = false)
    (clean : Diagnostics.hasErrors
      (reported (declarationRule name declared value).2 span) = false) :
    (declarationRule name declared value).1 = value ∧ value ≠ .unit ∧
      ((declared.map fun type => Ty.ofName type.name) = some value ∨ declared = none) := by
  cases declared with
  | some type =>
    have fits := eq_of_mismatch sane clean
    refine ⟨fits.symm, ?_, .inl (congrArg some fits.symm)⟩
    rw [fits]
    cases type.name <;> exact nofun
  | none =>
    unfold declarationRule at clean ⊢
    by_cases unit : value = .unit
    · rw [if_pos unit] at clean
      have errors : Diagnostics.hasErrors (reported [.unitValue name] span) = true :=
        errors_reported rfl span
      cases errors.symm.trans clean
    · rw [if_neg unit]
      exact ⟨rfl, unit, .inr rfl⟩

namespace InStep

variable {R : Resolution} {Γ : Context} {scope : ScopeId} {r : Resolver} {k : Checker}

/-- The declaration of a variable: its typed form, and what holds after it. -/
theorem declareVariable {id : NodeId} {span nameSpan : Span} {name : String}
    {declared : Option WrittenType} {value : Expr} {expected : Option Ty} {inFunction : Bool}
    {s : Stmt} (form : s = .letVar id span name nameSpan declared value)
    (h : InStep R Γ scope r k) (distinct : s.ids.Nodup)
    (settled : Settled R s.ids (Resolver.resolveStmt scope inFunction s r))
    (clean : (typeStmt expected s k).2.session.hasErrors = false) :
    ∃ v ref, (typeStmt expected s k).1 = .letVar span name (some ref) v.type v ∧
      ExprTyped Γ value v ∧ v.type.isValue = true ∧ ref.scope = Γ.scope ∧ Γ.own? name = none ∧
      InStep R (Γ.declare name v.type) scope (Resolver.resolveStmt scope inFunction s r)
        (typeStmt expected s k).2 ∧
      SameSymbols r.tree k.context (typeStmt expected s k).2.context := by
  subst form
  obtain ⟨isNew, below⟩ := List.nodup_cons.1 distinct
  have inValue : Settled R value.preorder (r.resolveExpr scope value) :=
    (settled.mono (List.subset_cons_self ..)).before (Resolver.later_declare ..)
      (List.disjoint_singleton.2 isNew)
  have cleanRule : ((k.expr value).2.session.recordAll (reported
      (declarationRule name declared (k.expr value).1.type).2
      (k.expr value).1.span)).hasErrors = false := by
    simp only [typeStmt, Checker.session_infer] at clean
    exact clean
  rw [Session.hasErrors_recordAll, Bool.or_eq_false_iff] at cleanRule
  have typed := h.expr below inValue cleanRule.1
  obtain ⟨type, notUnit, written⟩ := type_of_declarationRule typed.noError cleanRule.2
  have isValue := typed.isValue h.fits notUnit
  obtain ⟨ref, isDeclared, known⟩ := declare_of_clean settled.clean
  rw [Resolver.tree_resolveExpr] at isDeclared
  have symbol : k.context.resolution.declarations.get? id = some ref := by
    rw [h.resolution, settled.declarations id List.mem_cons_self]
    exact known
  have result : typeStmt expected (.letVar id span name nameSpan declared value) k =
      (.letVar span name (some ref) (k.expr value).1.type (k.expr value).1,
        ((k.expr value).2.recordAll (reported
          (declarationRule name declared (k.expr value).1.type).2
          (k.expr value).1.span)).infer (some ref) (k.expr value).1.type) := by
    have symbol' : (k.expr value).2.context.resolution.declarations.get? id = some ref := symbol
    simp only [typeStmt]
    rw [symbol', type]
  have leads := leads_typeStmt expected (.letVar id span name nameSpan declared value) k
  obtain ⟨fresh, there⟩ := symbol?_of_declare isDeclared
  have same : SameSymbols r.tree k.context
      { k.context with inferred := k.context.inferred.insert ref (k.expr value).1.type } := by
    refine ⟨rfl, fun other symbol known => Table.get?_insert_of_ne _ _ fun same => ?_⟩
    rw [← same, fresh] at known
    cases known
  have isKnown : (Meaning.value (k.expr value).1.type).Known
      { k.context with inferred := k.context.inferred.insert ref (k.expr value).1.type } ref := by
    have inTree := settled.grows.symbol? there
    rw [← h.resolution] at inTree
    refine known_of_symbol inTree nofun ?_ isValue
    rcases written with written | rfl
    · exact .inl written
    · exact .inr ⟨rfl, Table.get?_insert_self ..⟩
  obtain ⟨fits, own, place⟩ := h.fits.declare rfl isDeclared same isKnown
  rw [result] at leads ⊢
  have later := (r.later_resolveExpr scope value).leads.trans
    (Resolver.later_declare (r.resolveExpr scope value) scope id name .variable
      (declared.map fun type => .ofName type.name) nameSpan).leads
  exact ⟨_, ref, rfl, typed, isValue, place.trans h.fits.scope_eq.symm, own,
    ⟨fits, h.resolution, later.sound h.resolverSound, leads.session.sound h.checkerSound⟩, same⟩

/-- The declaration of a parameter: its symbol, and what holds after it. -/
theorem declareParam {p : Param} (h : InStep R Γ scope r k)
    (settled : Settled R [p.id] (Resolver.declareParam scope r p)) :
    (∃ ref, R.declarations.get? p.id = some ref ∧ ref.scope = scope) ∧ Γ.own? p.name = none ∧
      InStep R (Γ.declare p.name (.ofName p.type.name)) scope (Resolver.declareParam scope r p)
        k := by
  obtain ⟨ref, isDeclared, known⟩ := declare_of_clean settled.clean
  obtain ⟨-, there⟩ := symbol?_of_declare isDeclared
  have isKnown : (Meaning.value (.ofName p.type.name)).Known k.context ref := by
    have inTree := settled.grows.symbol? there
    rw [← h.resolution] at inTree
    refine known_of_symbol inTree nofun (.inl rfl) ?_
    cases p.type.name <;> rfl
  obtain ⟨fits, own, place⟩ := h.fits.declare rfl isDeclared (.refl ..) isKnown
  have later := Resolver.later_declare r scope p.id p.name .parameter
    (some (.ofName p.type.name)) p.span
  refine ⟨⟨ref, ?_, place⟩, own, fits, h.resolution, later.leads.sound h.resolverSound,
    h.checkerSound⟩
  rw [settled.declarations p.id List.mem_cons_self]
  exact known

/-- The declarations of the parameters of a function: their symbols, and what holds after them. -/
theorem declareParams :
    ∀ (params : List Param) {Γ : Context} {r : Resolver}, (params.map Param.id).Nodup →
      InStep R Γ scope r k →
      Settled R (params.map Param.id) (params.foldl (Resolver.declareParam scope) r) →
      (∀ p ∈ params, (∃ ref, R.declarations.get? p.id = some ref ∧ ref.scope = scope) ∧
        Γ.own? p.name = none) ∧ (params.map Param.name).Nodup ∧
      InStep R (params.foldl (fun Γ p => Γ.declare p.name (.ofName p.type.name)) Γ) scope
        (params.foldl (Resolver.declareParam scope) r) k
  | [], Γ, r, _, h, _ => ⟨(fun _ mem => by cases mem), List.nodup_nil, h⟩
  | p :: params, Γ, r, distinct, h, settled => by
    obtain ⟨isNew, distinct⟩ := List.nodup_cons.1 distinct
    have later := Resolver.later_declareParams scope params (Resolver.declareParam scope r p)
    have first : Settled R [p.id] (Resolver.declareParam scope r p) :=
      (settled.mono (List.cons_subset_cons _ (List.nil_subset _))).before later
        (List.singleton_disjoint.2 isNew)
    obtain ⟨symbol, own, ready⟩ := h.declareParam first
    obtain ⟨symbols, names, ready⟩ := declareParams params distinct ready
      (settled.mono (List.subset_cons_self ..))
    have others : ∀ q ∈ params, p.name ≠ q.name ∧ Γ.own? q.name = none := by
      intro q mem
      have own := (symbols q mem).2
      rw [Context.own?_declare] at own
      by_cases same : p.name = q.name
      · rw [if_pos same] at own
        cases own
      · rw [if_neg same] at own
        exact ⟨same, own⟩
    refine ⟨fun q mem => ?_, List.nodup_cons.2 ⟨fun mem => ?_, names⟩, ready⟩
    · rcases List.mem_cons.1 mem with rfl | mem
      · exact ⟨symbol, own⟩
      · exact ⟨(symbols q mem).1, (others q mem).2⟩
    · obtain ⟨q, mem, same⟩ := List.mem_map.1 mem
      exact (others q mem).1 same.symm

end InStep

end MiniLang.Semantics
