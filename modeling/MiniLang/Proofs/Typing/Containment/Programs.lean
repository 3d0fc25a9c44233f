import MiniLang.Proofs.Scope.LexicalResolution
import MiniLang.Proofs.Typing.Containment.Statements
import MiniLang.Proofs.Typing.Invariant

/-!
# Errors in types are contained

Wherever the checker gives something an error as its type, or meets a name without a symbol, an
error was recorded before, by the resolver or by the checker itself, and nothing shows such a type
(`typeCheck_contained`). No type is left unknown. This is so at the end, and also after each
statement of the top level, when the checker has found a beginning of what it finds.
-/

set_option autoImplicit false

namespace MiniLang

/-- Errors in a typed program are contained by diagnostics: no type is unknown, an error in place of
a type or of a symbol means that an error was recorded, and the types that are shown are types of
results. -/
structure Typed.Program.ContainedBy (t : Typed.Program) (ds : List Diagnostic) : Prop where
  knownExprs : ∀ e ∈ t.exprs, e.type ≠ .unknown
  knownVariables : ∀ s ∈ t.statements, s.variableType? ≠ some .unknown
  excusedExprs : ∀ e ∈ t.exprs, e.type = .error ∨ e.unresolved = true →
    Diagnostics.hasErrors ds = true
  excusedStatements : ∀ s ∈ t.statements,
    s.variableType? = some .error ∨ s.undeclared = true ∨ s.undeclaredFunction = true →
      Diagnostics.hasErrors ds = true
  shown : ∀ d ∈ ds, d.problem.shownTypes ⊆ Ty.resultTexts

theorem Typed.Program.ContainedBy.of_statements {t : Typed.Program} {ds : List Diagnostic}
    (contained : ∀ s ∈ t.statements, s.Contained (Diagnostics.hasErrors ds = true))
    (clear : Diagnostics.Clear ds) : t.ContainedBy ds := by
  have exprs : ∀ e ∈ t.exprs, e.Contained (Diagnostics.hasErrors ds = true) := by
    intro e mem
    obtain ⟨s, here, inside⟩ := List.mem_flatMap.1 mem
    obtain ⟨root, own, below⟩ := List.mem_flatMap.1 inside
    exact (contained s here).exprs root own e below
  refine ⟨fun e mem => (exprs e mem).type.ne_unknown, ?_, ?_, ?_, clear⟩
  · intro s mem unknown
    exact ((contained s mem).variableType _ unknown).ne_unknown rfl
  · rintro e mem (error | unresolved)
    · exact (exprs e mem).type.of_isError (by rw [error]; rfl)
    · exact (exprs e mem).resolved unresolved
  · rintro s mem (error | undeclared | undeclared)
    · exact ((contained s mem).variableType _ error).of_isError rfl
    · exact (contained s mem).declared undeclared
    · exact (contained s mem).declaredFunction undeclared

namespace Typing

open Scoping
open Semantics (typeTopLevel_cons_of_uncancelled)

variable {R : Resolution} {names excuse : Prop} {frames : List Frame} {k : Checker}

/-! ## Functions and the top level -/

/-- The symbols of a function and its parameters, wherever the checker looks at it. -/
theorem declared_typeHeader {header : FunctionHeader}
    (params : ∀ p ∈ header.params, R.declarations.get? p.id = none → names)
    (undeclared : (typeHeader R header).params.any (·.symbol.isNone) = true) : names := by
  obtain ⟨typed, mem, isNone⟩ := List.any_eq_true.1 undeclared
  obtain ⟨p, there, rfl⟩ := List.mem_map.1 mem
  exact params p there (Option.isNone_iff_eq_none.1 isNone)

/-- What a function adds behind its name. -/
theorem contains_function {expected : Option Ty} (h : Informed R names excuse frames k)
    {span : Span} {header : FunctionHeader} {body : Block} (placed : Stmt.BlockWellPlaced body)
    (symbol : R.declarations.get? header.id = none → names)
    (events : AllAccounted R names (Event.inStmt false frames (.function span header body))) :
    Contains R names excuse frames k (typeStmt expected (.function span header body) k).2
      (typeStmt expected (.function span header body) k).1.preorder := by
  cases body with
  | mk id bodySpan ss =>
    obtain ⟨params, inBody⟩ := List.forall_mem_append.1 events
    have kind : SymbolKind.parameter ≠ .function := by decide
    have entered := h.enter (f := ⟨some id, header.params.map .ofParam⟩)
      (List.forall_mem_map.2 fun p _ => .stated kind rfl (Ty.isResult_ofName p.type.name))
    have needed : ∀ type ∈ some (Ty.ofReturn header.returnType), type.isResult = true :=
      fun _ mem => Option.mem_some_iff.1 mem ▸ Ty.isResult_ofReturn header.returnType
    have inside := contains_typeAll needed true false ss entered placed inBody
    have declared : ∀ p ∈ header.params, R.declarations.get? p.id = none → names := fun p mem =>
      declared_of_accounted params _ (List.mem_map_of_mem mem) p.id rfl
    have last : ∀ {excuse' : Prop}, Informed R names excuse' frames
          (typeAll (some (.ofReturn header.returnType)) false ss k).2 →
        Contains R names excuse' frames (typeAll (some (.ofReturn header.returnType)) false ss k).2
          (typeStmt expected (.function span header (.mk id bodySpan ss)) k).2
          [(typeStmt expected (.function span header (.mk id bodySpan ss)) k).1] := by
      intro excuse' informed
      refine informed.adds rfl rfl (clear_functionRule header _) (List.forall_mem_singleton.2 ?_)
      have resolution : (typeBlock (some (.ofReturn header.returnType))
          (.mk id bodySpan ss) k).2.context.resolution = R := informed.resolution
      simp only [typeStmt, resolution]
      refine ⟨List.forall_mem_nil _, (by rintro _ ⟨⟩), fun undeclared => ?_, fun undeclared => ?_⟩
      · exact .inl (informed.names (declared_typeHeader declared undeclared))
      · exact .inl (informed.names (symbol (Option.isNone_iff_eq_none.1 undeclared)))
    exact (inside.seq last).subset (List.cons_subset.2
      ⟨List.mem_append_right _ (List.mem_singleton_self _), List.subset_append_left ..⟩)

/-- A statement of the top level, with the variable that it may declare. -/
theorem contains_top {f : Frame} (h : Informed R names excuse [f] k) {s : Stmt}
    (placed : s.TopWellPlaced)
    (symbols : ∀ g ∈ s.function?, R.declarations.get? g.1.id = none → names)
    (events : AllAccounted R names (Event.inStmt false [f] s ++
      Event.declarations f (Declaration.ofStmt? s).toList)) :
    Contains R names excuse [f.declare (Declaration.ofStmt? s).toList] k (typeStmt none s k).2
      (typeStmt none s k).1.preorder := by
  cases placed with
  | inner placed =>
    exact contains_inList h placed events fun declares =>
      contains_typeStmt (by rintro _ ⟨⟩) false s h placed declares
        (List.forall_mem_append.1 events).1
  | function placed =>
    rw [Declaration.ofStmt?, Option.toList_none, Frame.declare_nil]
    · exact contains_function h placed (symbols _ rfl) (List.forall_mem_append.1 events).1
    · rintro _ _ _ _ _ _ ⟨⟩

theorem contains_typeTopLevel : ∀ (afterReturn : Bool) (ss : List Stmt) {excuse : Prop} {f : Frame}
    {k : Checker}, Informed R names excuse [f] k → (∀ s ∈ ss, s.TopWellPlaced) →
    (∀ s ∈ ss, ∀ g ∈ s.function?, R.declarations.get? g.1.id = none → names) →
    AllAccounted R names (Event.inAll false f [] ss) →
    Contains R names excuse [] k (typeTopLevel afterReturn ss k).2
      (Typed.Stmt.preorderAll (typeTopLevel afterReturn ss k).1)
  | _, [], _, _, _, h, _, _, _ =>
    h.leave.adds (Session.recordAll_nil _).symm rfl .nil (List.forall_mem_nil _)
  | afterReturn, s :: ss, _, _, k, h, placed, symbols, events => by
    obtain ⟨first, others⟩ := List.forall_mem_cons.1 placed
    obtain ⟨symbol, symbols⟩ := List.forall_mem_cons.1 symbols
    obtain ⟨inFirst, inRest⟩ := List.forall_mem_append.1 events
    obtain ⟨k₁, rfl, result⟩ := typeTopLevel_cons_of_uncancelled h.uncancelled afterReturn s ss
    rw [result]
    have here := (h.warned afterReturn s.span).seq fun informed =>
      contains_top informed first symbol inFirst
    exact here.seq fun informed =>
      contains_typeTopLevel s.isReturn ss informed others symbols inRest

/-! ## The beginning of a program -/

/-- The events of some first statements are among those of all. -/
theorem inAll_take_subset (inFunction : Bool) (outer : List Frame) : ∀ (ss : List Stmt) (n : Nat)
    (f : Frame), Event.inAll inFunction f outer (ss.take n) ⊆ Event.inAll inFunction f outer ss
  | [], n, _ => by simp
  | _ :: _, 0, _ => List.nil_subset _
  | _ :: ss, n + 1, _ => by
    rw [List.take_succ_cons, Event.inAll, Event.inAll]
    exact List.append_subset.2 ⟨List.subset_append_left ..,
      List.Subset.trans (inAll_take_subset inFunction outer ss n _) (List.subset_append_right ..)⟩

/-- The first statements are typed first: what is typed behind them changes nothing about them, and
what is found with them is found before. -/
theorem typeTopLevel_take : ∀ (afterReturn : Bool) (ss : List Stmt) (n : Nat) {k : Checker},
    k.session.Uncancelled →
    (typeTopLevel afterReturn (ss.take n) k).1 = (typeTopLevel afterReturn ss k).1.take n ∧
      (typeTopLevel afterReturn (ss.take n) k).2.session.diagnostics <+:
        (typeTopLevel afterReturn ss k).2.session.diagnostics
  | _, [], n, _, _ => by
    rw [List.take_nil]
    exact ⟨List.take_nil.symm, List.prefix_rfl⟩
  | afterReturn, s :: ss, 0, k, _ =>
    ⟨rfl, keeps_typeTopLevel (Invariant.lawful_begins k.session.diagnostics) afterReturn (s :: ss)
      (fun _ _ => trivial) List.prefix_rfl⟩
  | afterReturn, s :: ss, n + 1, k, uncancelled => by
    obtain ⟨k₁, rfl, result⟩ := typeTopLevel_cons_of_uncancelled uncancelled afterReturn s ss
    obtain ⟨_, rfl, first⟩ := typeTopLevel_cons_of_uncancelled uncancelled afterReturn s (ss.take n)
    have goesOn := ((Checker.leads_warning afterReturn k (reported [.unreachableCode] s.span)).trans
      (leads_typeStmt none s _)).uncancelled uncancelled
    obtain ⟨same, begins⟩ := typeTopLevel_take s.isReturn ss n goesOn
    rw [List.take_succ_cons, first, result, same, List.take_succ_cons]
    exact ⟨rfl, begins⟩

/-- Before anything is typed, the names that every program can use and the functions are known. -/
theorem informed_start {p : Program} {s : Session} (uncancelled : s.Uncancelled) :
    Informed R names names [Frame.builtins.declare (hoisted p)] (.start R s) where
  resolution := rfl
  uncancelled := uncancelled
  names := id
  inferred := by rintro _ _ ⟨⟩
  known := by
    have builtin : Known (Checker.start R s).context
        (.ofBuiltin ("print", .function [.int] .unit)) :=
      .function rfl rfl (List.forall_mem_singleton.2 rfl) rfl
    have function : ∀ d ∈ hoisted p, Known (Checker.start R s).context d :=
      List.forall_mem_map.2 fun f _ => .function rfl rfl
        (List.forall_mem_map.2 fun q _ => Ty.isResult_ofName q.type.name)
        (Ty.isResult_ofReturn f.1.returnType)
    exact List.forall_mem_singleton.2
      (List.forall_mem_append.2 ⟨List.forall_mem_singleton.2 builtin, function⟩)

end Typing

open Typing Scoping

/-- What a resolution complains about are errors, and shows no types. -/
theorem Scoping.Event.isError_of_diagnostic? {event : Event} {d : Diagnostic}
    (h : event.diagnostic? = some d) : d.isError = true ∧ d.problem.Clear := by
  cases event with
  | strayReturn =>
    cases h
    exact ⟨rfl, List.nil_subset _⟩
  | use | declaration =>
    simp only [diagnostic?] at h
    split at h <;> cases h
    exact ⟨rfl, List.nil_subset _⟩

/-- The errors that a resolution records are the excuses for what it leaves without a symbol. -/
theorem accounted_events {p : Program} {s : Session} (placed : ∀ st ∈ p.body, st.TopWellPlaced)
    (distinct : (Stmt.idsAll p.body).Nodup) (uncancelled : s.Uncancelled) :
    AllAccounted (resolve p s).1
      (Diagnostics.hasErrors (p.events.filterMap Event.diagnostic?) = true) p.events := by
  intro event mem
  refine ⟨(resolve_records placed distinct uncancelled).2 event mem, fun isSome => ?_⟩
  obtain ⟨d, found⟩ := Option.isSome_iff_exists.1 isSome
  exact List.any_eq_true.2 ⟨d, List.mem_filterMap.2 ⟨event, mem, found⟩,
    (Event.isError_of_diagnostic? found).1⟩

/-- The program that some first statements make up. -/
def Program.first (p : Program) (n : Nat) : Program := { p with body := p.body.take n }

/-- Errors in some first statements of a program are contained by what the resolver found and by
what the checker finds in these statements. -/
theorem typeCheck_first {p : Program} {s : Session} (placed : ∀ st ∈ p.body, st.TopWellPlaced)
    (distinct : (Stmt.idsAll p.body).Nodup) (uncancelled : s.Uncancelled) (n : Nat) :
    ∃ types, (typeCheck (p.first n) (resolve p s).1 (resolve p s).2).2 =
        (resolve p s).2.recordAll types ∧
      (typeCheck (p.first n) (resolve p s).1 (resolve p s).2).1.ContainedBy
        (p.events.filterMap Event.diagnostic? ++ types) := by
  have events := accounted_events placed distinct uncancelled
  obtain ⟨hoistedEvents, inBody⟩ := List.forall_mem_append.1 events
  have goesOn : (resolve p s).2.Uncancelled := by
    rw [(resolve_records placed distinct uncancelled).1]
    exact uncancelled.recordAll _
  have symbols : ∀ st ∈ p.body, ∀ g ∈ st.function?,
      (resolve p s).1.declarations.get? g.1.id = none → _ := fun st mem g isFunction =>
    declared_of_accounted hoistedEvents (.ofFunction g.1)
      (List.mem_map_of_mem (List.mem_filterMap.2 ⟨st, mem, isFunction⟩)) g.1.id rfl
  obtain ⟨types, session, clear, contained, -⟩ := contains_typeTopLevel false (p.body.take n)
    (informed_start (R := (resolve p s).1) (p := p) goesOn)
    (fun st mem => placed st (List.mem_of_mem_take mem))
    (fun st mem => symbols st (List.mem_of_mem_take mem))
    (fun event mem => inBody event (inAll_take_subset false [] p.body n _ mem))
  refine ⟨types, session, .of_statements ?_ (.append ?_ clear)⟩
  · simp only [ExcuseAfter, ← Bool.or_eq_true, ← Diagnostics.hasErrors_append] at contained
    exact contained
  · intro d mem
    obtain ⟨event, -, found⟩ := List.mem_filterMap.1 mem
    exact (Event.isError_of_diagnostic? found).2

/-- Errors in types are contained. Where the names of a parsed program are resolved and the program
is typed, in a session that nobody cancels, no expression and no variable has an unknown type;
where an expression or a variable has an error as its type, or a name has no symbol, an error was
recorded; and nothing that is recorded shows such a type. All of this is also so after some first
statements of the program, with what was recorded by then. -/
theorem typeCheck_contained {tokens : List Delivery} {before s s' : Session} {p : Program}
    {r : Resolution} (isParsed : (parse tokens before).program = p)
    (resolved : resolve p s = (r, s')) (uncancelled : s.Uncancelled) :
    ∃ names types, s' = s.recordAll names ∧ (typeCheck p r s').2 = s'.recordAll types ∧
      (typeCheck p r s').1.ContainedBy (names ++ types) ∧
      ∀ n, ∃ soFar, soFar <+: types ∧
        typeCheck (p.first n) r s' =
          (⟨p.span, (typeCheck p r s').1.body.take n, r.tree⟩, s'.recordAll soFar) ∧
        (typeCheck (p.first n) r s').1.ContainedBy (names ++ soFar) := by
  subst isParsed
  have placed := parse_wellPlaced tokens before
  have distinct := nodup_ids_parse tokens before
  have recorded := (resolve_records placed distinct uncancelled).1
  have first := typeCheck_first placed distinct uncancelled
  rw [resolved] at recorded first
  dsimp only at recorded first
  generalize (parse tokens before).program = p at *
  have goesOn : s'.Uncancelled := by
    rw [recorded]
    exact uncancelled.recordAll _
  obtain ⟨types, session, contained⟩ := first p.body.length
  have whole : p.first p.body.length = p := by rw [Program.first, List.take_length]
  rw [whole] at session contained
  refine ⟨_, types, recorded, session, contained, fun n => ?_⟩
  obtain ⟨soFar, session', contained'⟩ := first n
  obtain ⟨body, begins⟩ := typeTopLevel_take false p.body n (k := .start r s') goesOn
  refine ⟨soFar, ?_, Prod.ext ?_ session', contained'⟩
  · change (typeCheck (p.first n) r s').2.diagnostics <+: (typeCheck p r s').2.diagnostics at begins
    rw [session', session] at begins
    exact (List.prefix_append_right_inj _).1 begins
  · change (⟨p.span, (typeTopLevel false (p.body.take n) (.start r s')).1, r.tree⟩ :
      Typed.Program) = _
    rw [body]
    rfl

/-- A variable without a value that is used, and a name that means nothing. -/
def unitValue : List Char := "let x = print(1); x + z;".toList

/-- Both are complained about once, and the sum has an error as its type. -/
theorem typeCheck_contained_unitValue :
    ∃ p r s', (parse (deliveries unitValue) .fresh).program = p ∧ resolve p .fresh = (r, s') ∧
      Session.fresh.Uncancelled ∧ (typeCheck p r s').1.exprs.map (·.type) =
        [.unit, .int, .error, .error, .error] ∧
      ∃ names types, names.map Diagnostic.problem = [.undeclaredIdentifier "z"] ∧
        types.map Diagnostic.problem = [.unitValue "x"] ∧
        (typeCheck p r s').1.ContainedBy (names ++ types) := by
  obtain ⟨p, isParsed⟩ : ∃ p, (parse (deliveries unitValue) .fresh).program = p := ⟨_, rfl⟩
  obtain ⟨r, s', resolved⟩ : ∃ r s', resolve p .fresh = (r, s') := ⟨_, _, rfl⟩
  have uncancelled : Session.fresh.Uncancelled := ⟨rfl, rfl⟩
  obtain ⟨names, types, recorded, found, contained, -⟩ :=
    typeCheck_contained isParsed resolved uncancelled
  have resolving : s'.diagnostics.map Diagnostic.problem = [.undeclaredIdentifier "z"] := by
    obtain rfl : s' = (resolve p .fresh).2 := by rw [resolved]
    rw [← isParsed]
    decide +kernel
  have typing : (typeCheck p r s').1.exprs.map (·.type) = [.unit, .int, .error, .error, .error] ∧
      (typeCheck p r s').2.diagnostics.map Diagnostic.problem =
        [.undeclaredIdentifier "z", .unitValue "x"] := by
    obtain ⟨rfl, rfl⟩ : r = (resolve p .fresh).1 ∧ s' = (resolve p .fresh).2 := by simp [resolved]
    rw [← isParsed]
    decide +kernel
  refine ⟨p, r, s', isParsed, resolved, uncancelled, typing.1, names, types, ?_, ?_, contained⟩
  · rwa [recorded] at resolving
  · have all := typing.2
    rw [found, Session.diagnostics_recordAll, List.map_append, resolving] at all
    exact List.append_cancel_left all

end MiniLang
