import MiniLang.Proofs.Typing.Statements

/-!
# Typing programs gives typed forms

A program that was read without errors, and in which the resolver and the checker find none, has a
typed form: the one that the checker gives (`typeCheck_typed`). Its functions are declared before
anything else is looked at, so that they are known everywhere (`Hoisted`).
-/

set_option autoImplicit false

namespace MiniLang.Semantics

open Typing hiding Context

/-! ## Functions -/

/-- The scope of a function's body after the parameters were declared one by one. -/
theorem Context.enter_eq (Γ : Context) (params : List Param) :
    ∀ l : Level, params.foldl (fun Γ p => Γ.declare p.name (.ofName p.type.name))
      { Γ with locals := [l] } = { Γ with locals := [params.foldl Level.declareParam l] } := by
  induction params with
  | nil => exact fun _ => rfl
  | cons p params ih => exact fun l => ih (l.declareParam p)

/-- A function that has to give back a value does so, unless there is a complaint. -/
theorem returns_of_functionRule {header : FunctionHeader} {body : Typed.Block}
    (clean : Diagnostics.hasErrors (functionRule header body) = false)
    (needed : Ty.ofReturn header.returnType ≠ .unit) : body.returns = true := by
  by_contra none
  have errors : Diagnostics.hasErrors
      (reported [.missingReturn header.name] header.nameSpan) = true := errors_reported rfl _
  rw [functionRule, if_pos (by simp [needed, none]), errors] at clean
  cases clean

/-- The body of a function, behind the declarations of its parameters. -/
theorem InStep.enterFunction {R : Resolution} {Γ : Context} {scope : ScopeId} {r : Resolver}
    {k : Checker} {span bodySpan : Span} {header : FunctionHeader} {id : NodeId} {body : List Stmt}
    (h : InStep R Γ scope r k) (outside : Γ.locals = [])
    (wf : Stmt.BlockWellFormed (.mk id bodySpan body))
    (distinct : (Stmt.ids (.function span header (.mk id bodySpan body))).Nodup)
    (settled : Settled R (Stmt.ids (.function span header (.mk id bodySpan body)))
      (Resolver.resolveFunction scope header (.mk id bodySpan body) r)) :
    ∃ r', InStep R (Γ.enter r.tree.size header.params) r.tree.size r' k ∧
      Settled R (Stmt.idsAll body) (Resolver.resolveAll r.tree.size
        (some (Ty.ofReturn header.returnType)).isSome body r') ∧
      r.tree.Grows r'.tree ∧ R.blockScopes.get? id = some r.tree.size ∧
      (header.params.map Param.name).Nodup ∧
      ∀ p ∈ header.params, ∃ ref, R.declarations.get? p.id = some ref ∧
        ref.scope = r.tree.size := by
  obtain ⟨inParams, inBlock, apart⟩ := List.nodup_append'.1 (List.nodup_cons.1 distinct).2
  rw [Resolver.resolveFunction] at settled
  simp only [Resolver.hoist_eq_self wf.2.wellPlaced] at settled
  replace settled := settled.mono (List.subset_cons_self ..)
  have entered := Resolver.later_enter r .function scope id
  have declared := Resolver.later_declareParams r.tree.size header.params
    (r.enter .function scope id).2
  have resolved := Resolver.later_resolveAll body r.tree.size true
    (header.params.foldl (Resolver.declareParam r.tree.size) (r.enter .function scope id).2)
    wf.2.wellPlaced
  have ready : InStep R (Γ.enter r.tree.size []) r.tree.size (r.enter .function scope id).2 k :=
    ⟨h.fits.enter outside, h.resolution, h.resolverSound, h.checkerSound⟩
  have settledParams := (settled.mono (List.subset_append_left ..)).before resolved
    fun other mem mem' => apart mem (List.mem_cons_of_mem _ mem')
  obtain ⟨symbols, names, ready⟩ := ready.declareParams header.params inParams settledParams
  have own : R.blockScopes.get? id = some r.tree.size := by
    have inside := (declared.trans resolved).blockScopes id fun mem => by
      rcases List.mem_append.1 mem with mem | mem
      · exact apart mem List.mem_cons_self
      · exact (List.nodup_cons.1 inBlock).1 mem
    rw [settled.blockScopes id (List.mem_append_right _ List.mem_cons_self)]
    exact inside.trans (Table.get?_insert_self ..)
  have same := Γ.enter_eq header.params { scope := r.tree.size }
  replace ready : InStep R (Γ.enter r.tree.size header.params) r.tree.size _ k := same ▸ ready
  exact ⟨_, ready,
    settled.mono fun other mem => List.mem_append_right _ (List.mem_cons_of_mem id mem),
    entered.grows.trans declared.grows, own, names, fun p mem => (symbols p mem).1⟩

/-- The typed form of a function. -/
theorem InStep.function {R : Resolution} {Γ : Context} {scope : ScopeId} {r : Resolver}
    {k : Checker} {span bodySpan : Span} {header : FunctionHeader} {id : NodeId} {body : List Stmt}
    (h : InStep R Γ scope r k) (outside : Γ.locals = []) (isName : IsName header.name)
    (areNames : ∀ p ∈ header.params, IsName p.name)
    (wf : Stmt.BlockWellFormed (.mk id bodySpan body))
    (distinct : (Stmt.ids (.function span header (.mk id bodySpan body))).Nodup)
    (settled : Settled R (Stmt.ids (.function span header (.mk id bodySpan body)))
      (Resolver.resolveFunction scope header (.mk id bodySpan body) r))
    (clean : (typeStmt none (.function span header (.mk id bodySpan body))
      k).2.session.hasErrors = false) :
    ∃ inner typed bs Γ',
      (typeStmt none (.function span header (.mk id bodySpan body)) k).1 =
        .function span typed (.mk (some inner) bodySpan bs) ∧
      HeaderTyped inner header typed ∧
      AllTyped (Γ.enter inner header.params) (some (.ofReturn header.returnType)) body bs Γ' ∧
      (Ty.ofReturn header.returnType ≠ .unit → Typed.Stmt.anyReturns bs = true) ∧
      SameSymbols r.tree k.context
        (typeStmt none (.function span header (.mk id bodySpan body)) k).2.context := by
  obtain ⟨r', ready, settledBody, grows, own, names, symbols⟩ :=
    h.enterFunction outside wf distinct settled
  have inBody := (List.nodup_cons.1
    (List.nodup_append'.1 (List.nodup_cons.1 distinct).2).2.1).2
  have rule := (Session.hasErrors_recordAll ..).symm.trans clean
  rw [Bool.or_eq_false_iff] at rule
  have cleanBody : (typeAll (some (.ofReturn header.returnType)) false body
    k).2.session.hasErrors = false := rule.1
  obtain ⟨⟨Γ', typed⟩, sameBody⟩ := ready.all false body wf.2 inBody settledBody cleanBody
  have final : (typeBlock (some (.ofReturn header.returnType)) (.mk id bodySpan body)
      k).2.context.resolution = R :=
    (leads_typeBlock _ (.mk id bodySpan body) k).resolution.trans h.resolution
  refine ⟨r.tree.size, typeHeader R header, _, Γ', ?_, ?_, typed, ?_,
    (SameSymbols.refl ..).trans grows sameBody⟩
  · simp only [typeStmt]
    rw [final]
    simp only [typeBlock, h.resolution, own]
  · refine ⟨rfl, isName, ?_, names, areNames, h.fits.isNew.2⟩
    change List.Forall₂ _ header.params (header.params.map _)
    rw [List.forall₂_map_right_iff, List.forall₂_same]
    exact fun p mem => ⟨rfl, symbols p mem⟩
  · exact returns_of_functionRule rule.2

/-! ## Top-level statements -/

/-- Resolution that leaves no error behind was not cut off by a cancellation. -/
theorem resolveTopLevel_cons {r : Resolver} {s : Stmt} {ss : List Stmt} (sound : r.session.Sound)
    (clean : (Resolver.resolveTopLevel (s :: ss) r).session.hasErrors = false) :
    Resolver.resolveTopLevel (s :: ss) r = Resolver.resolveTopLevel ss
      (Resolver.resolveStmt globalScope false s (r.checkpoint s.span).2) := by
  have asked := Session.Leads.checkpoint r.session s.span
  simp only [Resolver.resolveTopLevel] at clean ⊢
  split at clean
  next passed => rw [if_pos passed]
  next failed => exact absurd (asked.2 sound clean) failed

/-- Typing that leaves no error behind was not cut off by a cancellation. -/
theorem typeTopLevel_cons {k : Checker} {s : Stmt} {ss : List Stmt} {afterReturn : Bool}
    (sound : k.session.Sound)
    (clean : (typeTopLevel afterReturn (s :: ss) k).2.session.hasErrors = false) :
    ∃ k₁, k₁ = (if afterReturn then
        (k.checkpoint s.span).2.recordAll (reported [.unreachableCode] s.span)
        else (k.checkpoint s.span).2) ∧
      typeTopLevel afterReturn (s :: ss) k =
        ((typeStmt none s k₁).1 :: (typeTopLevel s.isReturn ss (typeStmt none s k₁).2).1,
          (typeTopLevel s.isReturn ss (typeStmt none s k₁).2).2) := by
  have asked := Session.Leads.checkpoint k.session s.span
  refine ⟨_, rfl, ?_⟩
  simp only [typeTopLevel] at clean ⊢
  split at clean
  next passed => rw [if_pos passed]
  next failed => exact absurd (asked.2 sound clean) failed

/-- The typed forms of the statements of the top level; no scope is open after them. -/
theorem InStep.topLevel {R : Resolution} :
    ∀ (afterReturn : Bool) (ss : List Stmt) {Γ : Context} {r : Resolver} {k : Checker},
      InStep R Γ globalScope r k → Γ.locals = [] → (∀ s ∈ ss, s.TopWellFormed) →
      (Stmt.idsAll ss).Nodup → Settled R (Stmt.idsAll ss) (Resolver.resolveTopLevel ss r) →
      (typeTopLevel afterReturn ss k).2.session.hasErrors = false →
      ∃ globals, AllTyped Γ none ss (typeTopLevel afterReturn ss k).1
        { functions := Γ.functions, globals := globals }
  | _, [], ⟨functions, globals, locals⟩, r, k, _, outside, _, _, _, _ => by
    obtain rfl : locals = [] := outside
    exact ⟨globals, .nil⟩
  | afterReturn, s :: ss, Γ, r, k, h, outside, wf, distinct, settled, clean => by
    have first := wf s List.mem_cons_self
    have others := fun s mem => wf s (List.mem_cons_of_mem _ mem)
    rw [resolveTopLevel_cons h.resolverSound settled.clean] at settled
    obtain ⟨k₁, warned, result⟩ := typeTopLevel_cons h.checkerSound clean
    rw [result] at clean ⊢
    have asked := h.after (Resolver.later_checkpoint none r s.span)
      (Checker.leads_checkpoint k s.span) (.refl ..)
    have ready := (asked.warned afterReturn (reported [.unreachableCode] s.span)).1
    rw [← warned] at ready
    have later := Resolver.later_resolveTopLevel ss
      (Resolver.resolveStmt globalScope false s (r.checkpoint s.span).2)
      fun s mem => (others s mem).wellPlaced
    obtain ⟨⟨inFirst, settledFirst⟩, inRest, settledRest⟩ := settled.split distinct later
    replace settledFirst : Settled R s.ids (Resolver.resolveStmt globalScope
      (none : Option Ty).isSome s (r.checkpoint s.span).2) := settledFirst
    have cleanFirst := (leads_typeTopLevel s.isReturn ss _).session.clean clean
    cases first with
    | inner wfFirst =>
      obtain ⟨Γ₁, kept, ready₁, -, cons⟩ := ready.head wfFirst inFirst settledFirst cleanFirst
        fun quiet => ready.stmt s wfFirst quiet inFirst settledFirst cleanFirst
      have same : Γ₁.locals = [] ∧ Γ₁.functions = Γ.functions := by
        rcases kept with rfl | ⟨name, type, rfl⟩
        · exact ⟨outside, rfl⟩
        · exact ⟨Context.locals_declare_of_nil outside name type, Γ.functions_declare name type⟩
      obtain ⟨globals, rest⟩ := ready₁.topLevel s.isReturn ss same.1 others inRest settledRest clean
      rw [same.2] at rest
      exact ⟨globals, cons _ _ _ rest⟩
    | @function span header body here isName areNames hb =>
      obtain ⟨id, bodySpan, body⟩ := body
      obtain ⟨inner, typed, bs, Γ', form, hh, typedBody, returns, same⟩ :=
        ready.function outside isName areNames hb inFirst settledFirst cleanFirst
      have traceless := Resolver.later_resolveFunction globalScope header (r.checkpoint span).2
        hb.wellPlaced
      obtain ⟨globals, rest⟩ := (ready.after traceless (leads_typeStmt none _ k₁) same).topLevel
        false ss outside others inRest settledRest clean
      rw [form]
      exact ⟨globals, .function here outside hh typedBody returns rest⟩

/-! ## Functions known in advance -/

/-- The symbol of the function that prints. -/
def printSymbol : Symbol :=
  ⟨"print", .function, some (.function [.int] .unit), globalScope, .nowhere, none⟩

/-- The symbol of a function that a program declares. -/
def functionSymbol (f : FunctionHeader × Block) : Symbol :=
  ⟨f.1.name, .function, some (.ofHeader f.1), globalScope, f.1.nameSpan, some f.1.id⟩

/-- The function that prints and the given functions are declared, and nothing else. -/
structure Hoisted (fs : List (FunctionHeader × Block)) (tree : ScopeTree) : Prop where
  tree_eq : tree = ⟨[{
    id := globalScope
    parent := none
    kind := .global
    symbols := printSymbol :: fs.map functionSymbol }]⟩
  distinct : ("print" :: fs.map (·.1.name)).Nodup

theorem leads_hoist (scope : ScopeId) (ss : List Stmt) :
    ∀ r : Resolver, r.session.Leads (r.hoist scope ss).session := by
  induction ss with
  | nil => exact fun r => .refl _
  | cons s ss ih =>
    intro r
    have first : r.session.Leads (Resolver.hoistFunction scope r s).session := by
      unfold Resolver.hoistFunction
      split
      · exact (Resolver.later_declare ..).leads
      · exact .refl _
    exact first.trans (ih _)

/-- One more function is declared. -/
theorem Hoisted.declare {fs : List (FunctionHeader × Block)} {r : Resolver}
    (h : Hoisted fs r.tree) (f : FunctionHeader × Block)
    (clean : (r.declare globalScope f.1.id f.1.name .function (some (.ofHeader f.1))
      f.1.nameSpan).session.hasErrors = false) :
    Hoisted (fs ++ [f]) (r.declare globalScope f.1.id f.1.name .function (some (.ofHeader f.1))
      f.1.nameSpan).tree := by
  obtain ⟨ref, declared, -⟩ := declare_of_clean clean
  obtain ⟨S, here, isNew, -, grown⟩ := ScopeTree.declare_ok_iff.1 declared
  rw [grown]
  rw [h.tree_eq] at here ⊢
  obtain rfl := Option.some.inj here
  constructor
  · rw [List.map_append]
    rfl
  · have others := List.findIdx?_eq_none_iff.1 isNew
    rw [List.map_append, ← List.cons_append, List.map_singleton]
    refine List.nodup_append'.2 ⟨h.distinct, List.nodup_singleton _, fun name mem last => ?_⟩
    obtain rfl := List.mem_singleton.1 last
    rcases List.mem_cons.1 mem with same | mem
    · have := others printSymbol List.mem_cons_self
      rw [same] at this
      cases this
    · obtain ⟨g, mem, same⟩ := List.mem_map.1 mem
      have := others (functionSymbol g) (List.mem_cons_of_mem _ (List.mem_map_of_mem mem))
      exact (beq_eq_false_iff_ne.1 this) same

theorem Hoisted.hoist (ss : List Stmt) :
    ∀ {fs : List (FunctionHeader × Block)} {r : Resolver}, Hoisted fs r.tree →
      (r.hoist globalScope ss).session.hasErrors = false →
      Hoisted (fs ++ ss.filterMap Stmt.function?) (r.hoist globalScope ss).tree := by
  induction ss with
  | nil =>
    intro fs r h _
    rw [List.filterMap_nil, List.append_nil]
    exact h
  | cons s ss ih =>
    intro fs r h clean
    have rest := leads_hoist globalScope ss (Resolver.hoistFunction globalScope r s)
    have cleanFirst := rest.clean clean
    change Hoisted _ ((Resolver.hoistFunction globalScope r s).hoist globalScope ss).tree
    cases isFunction : s.function? with
    | none =>
      have first : Hoisted fs (Resolver.hoistFunction globalScope r s).tree := by
        rw [Resolver.hoistFunction, isFunction]
        exact h
      rw [List.filterMap_cons_none isFunction]
      exact ih first clean
    | some f =>
      have first : Hoisted (fs ++ [f]) (Resolver.hoistFunction globalScope r s).tree := by
        rw [Resolver.hoistFunction, isFunction] at cleanFirst ⊢
        exact h.declare f cleanFirst
      rw [List.filterMap_cons_some isFunction, List.append_cons]
      exact ih first clean

/-! ## Programs -/

/-- A symbol stands for a function with the given name and signature. -/
structure FunctionSymbol (symbol : Symbol) (e : String × Signature) : Prop where
  name : symbol.name = e.1
  kind : symbol.kind = .function
  type : symbol.type = some (.function e.2.params e.2.result)
  result : e.2.result = .unit ∨ e.2.result.isValue = true

theorem functionSymbols (fs : List (FunctionHeader × Block)) :
    List.Forall₂ FunctionSymbol (printSymbol :: fs.map functionSymbol)
      (("print", ⟨[.int], .unit⟩) :: fs.map fun f => (f.1.name, .of f.1)) := by
  refine .cons ⟨rfl, rfl, rfl, .inl rfl⟩ ?_
  rw [List.forall₂_map_left_iff, List.forall₂_map_right_iff, List.forall₂_same]
  refine fun f _ => ⟨rfl, rfl, rfl, ?_⟩
  change Ty.ofReturn f.1.returnType = .unit ∨ (Ty.ofReturn f.1.returnType).isValue = true
  rcases f.1.returnType with - | ⟨name, span⟩
  · exact .inl rfl
  · cases name <;> exact .inr rfl

/-- Symbols are found under the names of their functions. -/
theorem findIdx?_of_lookup {symbols : List Symbol} {sigs : List (String × Signature)}
    (h : List.Forall₂ FunctionSymbol symbols sigs) (name : String) :
    (sigs.lookup name = none → symbols.findIdx? (·.name == name) = none) ∧
    ∀ f, sigs.lookup name = some f → ∃ index symbol,
      symbols.findIdx? (·.name == name) = some index ∧ symbols[index]? = some symbol ∧
        FunctionSymbol symbol (name, f) := by
  induction h with
  | nil => exact ⟨fun _ => rfl, fun f found => by cases found⟩
  | @cons symbol e symbols sigs first rest ih =>
    rw [List.lookup_cons, List.findIdx?_cons, first.name]
    by_cases same : name = e.1
    · subst same
      simp only [beq_self_eq_true, if_true]
      refine ⟨fun none => (by cases none), fun f found => ?_⟩
      obtain rfl := Option.some.inj found
      exact ⟨0, symbol, rfl, rfl, first⟩
    · rw [beq_eq_false_iff_ne.2 same, beq_eq_false_iff_ne.2 (Ne.symm same)]
      simp only [if_neg Bool.false_ne_true]
      refine ⟨fun none => ?_, fun f found => ?_⟩
      · rw [ih.1 none]
        rfl
      · obtain ⟨index, symbol, place, there, isSymbol⟩ := ih.2 f found
        exact ⟨index + 1, symbol, by rw [place]; rfl, there, isSymbol⟩

/-- The functions that are declared in advance are known under the names of the context. -/
theorem Hoisted.fits {p : Program} {tree : ScopeTree} {c : Typing.Context}
    (h : Hoisted p.functions tree) (grows : tree.Grows c.resolution.tree) :
    ({ functions := signatures p } : Context).Fits globalScope tree c := by
  have here : tree.scope? globalScope = some {
      id := globalScope
      parent := none
      kind := .global
      symbols := printSymbol :: p.functions.map functionSymbol } := by
    rw [h.tree_eq]
    rfl
  have found := findIdx?_of_lookup (functionSymbols p.functions)
  refine .outside here rfl (.of (fun name none => ?_) fun name m isFunction => ?_)
  · exact (found name).1 (Option.map_eq_none_iff.1 none)
  · obtain ⟨f, declared, rfl⟩ := Option.map_eq_some_iff.1 isFunction
    obtain ⟨index, symbol, place, there, isSymbol⟩ := (found name).2 f declared
    have inTree : c.resolution.tree.symbol? ⟨globalScope, index⟩ = some symbol := by
      refine grows.symbol? ?_
      rw [ScopeTree.symbol?, here]
      exact there
    refine ⟨index, place, ?_, ?_, isSymbol.result⟩
    · rw [Typing.Context.isFunction, inTree]
      exact beq_iff_eq.2 isSymbol.kind
    · have type := isSymbol.type
      rw [Typing.Context.symbolType, inTree]
      obtain ⟨name', kind', written, scope, span, node⟩ := symbol
      obtain rfl : written = _ := type
      rfl

/-- Before anything is resolved only the function that prints is declared. -/
theorem hoisted_start (s : Session) : Hoisted [] (Resolver.start s).tree :=
  ⟨rfl, List.nodup_singleton _⟩

/-- Resolving names leads on. -/
theorem leads_resolve {p : Program} (wf : ∀ s ∈ p.body, s.TopWellFormed) (s : Session) :
    s.Leads (resolve p s).2 :=
  (leads_hoist globalScope p.body (Resolver.start s)).trans
    (Resolver.later_resolveTopLevel p.body _ fun s mem => (wf s mem).wellPlaced).leads

/-- Checking types leads on. -/
theorem leads_typeCheck (p : Program) (R : Resolution) (s : Session) :
    s.Leads (typeCheck p R s).2 :=
  (leads_typeTopLevel false p.body (.start R s)).session

/-- A program without errors has the typed form that the checker gives. -/
theorem typeCheck_typed {p : Program} {s : Session} (wf : ∀ s ∈ p.body, s.TopWellFormed)
    (distinct : (Stmt.idsAll p.body).Nodup) (sound : s.Sound)
    (clean : (typeCheck p (resolve p s).1 (resolve p s).2).2.hasErrors = false) :
    ∃ globals, ProgramTyped p (typeCheck p (resolve p s).1 (resolve p s).2).1 globals := by
  have resolved : (resolve p s).2.hasErrors = false := (leads_typeCheck ..).clean clean
  have later := Resolver.later_resolveTopLevel p.body
    ((Resolver.start s).hoist globalScope p.body) fun s mem => (wf s mem).wellPlaced
  have hoisted := (hoisted_start s).hoist p.body (later.leads.clean resolved)
  rw [List.nil_append] at hoisted
  have ready : InStep (resolve p s).1 { functions := signatures p } globalScope
      ((Resolver.start s).hoist globalScope p.body)
      (.start (resolve p s).1 (resolve p s).2) :=
    ⟨hoisted.fits later.grows, rfl, (leads_hoist ..).sound sound,
      (leads_resolve wf s).sound sound⟩
  have settled : Settled (resolve p s).1 (Stmt.idsAll p.body)
      (Resolver.resolveTopLevel p.body ((Resolver.start s).hoist globalScope p.body)) :=
    ⟨resolved, .refl _, fun _ _ => rfl, fun _ _ => rfl, fun _ _ => rfl⟩
  obtain ⟨globals, typed⟩ := ready.topLevel false p.body rfl wf distinct settled clean
  refine ⟨globals, typed, ?_, nodup_scopes_typeCheck distinct s _⟩
  rw [signatures, List.map_cons, List.map_map]
  exact hoisted.distinct

end MiniLang.Semantics
