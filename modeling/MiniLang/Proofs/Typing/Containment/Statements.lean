import MiniLang.Proofs.Scope.Around
import MiniLang.Proofs.Scope.Lexical
import MiniLang.Proofs.Typing.Agreement.Programs
import MiniLang.Proofs.Typing.Containment.Expressions

/-!
# Errors in the types of statements are contained

Going through a program in order, the checker knows the type of a variable before any name can mean
it: the frames around a statement hold declarations that state their type or whose variable was
typed (`Known`). So with the names of a program settled by lexical scoping (`Accounted`), every
name in an expression means something with a type (`Informed.means`), and what a part of a program
adds is contained by what was recorded before and by what is found in the part (`Contains`).
-/

set_option autoImplicit false

namespace MiniLang

/-- Everything that a statement holds itself is contained: its expressions, the type of the variable
that it declares, and the symbols of what it declares. -/
structure Typed.Stmt.Contained (excuse : Prop) (s : Typed.Stmt) : Prop where
  exprs : ∀ e ∈ s.ownExprs, ∀ n ∈ e.nodes, n.Contained excuse
  variableType : ∀ type ∈ s.variableType?, type.Excused excuse
  declared : s.undeclared = true → excuse
  declaredFunction : s.undeclaredFunction = true → excuse

theorem Typed.Stmt.Contained.mono {excuse excuse' : Prop} {s : Typed.Stmt} (h : s.Contained excuse)
    (imp : excuse → excuse') : s.Contained excuse' :=
  ⟨fun e own n below => (h.exprs e own n below).mono imp,
    fun type mem => (h.variableType type mem).mono imp, imp ∘ h.declared, imp ∘ h.declaredFunction⟩

/-- A statement declares nothing, neither a variable nor a function. -/
structure Typed.Stmt.DeclaresNothing (s : Typed.Stmt) : Prop where
  variableType : s.variableType? = none
  declared : s.undeclared = false
  declaredFunction : s.undeclaredFunction = false

theorem Typed.Stmt.DeclaresNothing.contained {excuse : Prop} {s : Typed.Stmt}
    (h : s.DeclaresNothing) (exprs : ∀ e ∈ s.ownExprs, ∀ n ∈ e.nodes, n.Contained excuse) :
    s.Contained excuse := by
  refine ⟨exprs, ?_, ?_, ?_⟩
  · rw [h.variableType]
    rintro _ ⟨⟩
  · rw [h.declared]
    rintro ⟨⟩
  · rw [h.declaredFunction]
    rintro ⟨⟩

namespace Typing

open Diagnostics (Clear)
open Scoping

variable {R : Resolution} {names excuse : Prop} {frames : List Frame} {k k' k'' : Checker}

/-! ## What is known about names -/

/-- A resolution deals with an event, and where the event is an error, that is an excuse. -/
structure Accounted (R : Resolution) (names : Prop) (event : Event) : Prop where
  settled : event.Settled R
  excuse : event.diagnostic?.isSome = true → names

/-- All events are accounted for. -/
abbrev AllAccounted (R : Resolution) (names : Prop) (events : List Event) : Prop :=
  ∀ event ∈ events, Accounted R names event

/-- What is declared has a symbol, unless there is an excuse. -/
theorem Accounted.declared {d : Declaration} {f : Frame}
    (h : Accounted R names (.declaration d f)) :
    ∀ node ∈ d.node, R.declarations.get? node = none → names := by
  intro node isNode undeclared
  have settled := h.settled
  simp only [Event.Settled] at settled
  split at settled
  next again => exact h.excuse (by rw [Event.diagnostic?, again]; rfl)
  next =>
    obtain ⟨ref, denotes⟩ := settled
    cases undeclared.symm.trans (denotes.declared node isNode)

theorem declared_of_accounted : ∀ {ds : List Declaration} {f : Frame},
    AllAccounted R names (Event.declarations f ds) →
      ∀ d ∈ ds, ∀ node ∈ d.node, R.declarations.get? node = none → names
  | [], _, _ => List.forall_mem_nil _
  | _ :: _, _, events => by
    obtain ⟨first, others⟩ := List.forall_mem_cons.1 events
    exact List.forall_mem_cons.2 ⟨first.declared, declared_of_accounted others⟩

/-- What a name means is declared in one of the frames. -/
theorem mem_of_meaning? {name : String} {f : Frame} {d : Declaration} :
    ∀ {frames : List Frame}, meaning? name frames = some (f, d) → f ∈ frames ∧ d ∈ f.declarations
  | [], found => by cases found
  | g :: frames, found => by
    rw [meaning?] at found
    split at found
    next here =>
      cases found
      exact ⟨List.mem_cons_self, List.mem_of_find?_eq_some here⟩
    next =>
      obtain ⟨mem, declared⟩ := mem_of_meaning? found
      exact ⟨List.mem_cons_of_mem _ mem, declared⟩

/-- The checker knows the type of a declaration: a function is one between results, and anything
else states its type or was typed before. -/
inductive Known (c : Context) (d : Declaration) : Prop
  | function {params : List Ty} {result : Ty} (kind : d.kind = .function)
      (type : d.type = some (.function params result)) (takes : ∀ p ∈ params, p.isResult = true)
      (gives : result.isResult = true)
  | stated {type : Ty} (kind : d.kind ≠ .function) (stated : d.type = some type)
      (isResult : type.isResult = true)
  | inferred {node : NodeId} (kind : d.kind ≠ .function) (unstated : d.type = none)
      (isNode : d.node = some node)
      (typed : ∀ ref, c.resolution.declarations.get? node = some ref →
        (c.inferred.get? ref).isSome = true)

/-- What the checker knows inside of the given frames, when what was recorded makes an excuse, in
particular what was recorded about names. -/
structure Informed (R : Resolution) (names excuse : Prop) (frames : List Frame) (k : Checker) :
    Prop where
  resolution : k.context.resolution = R
  uncancelled : k.session.Uncancelled
  names : names → excuse
  inferred : ∀ ref type, k.context.inferred.get? ref = some type → type.Excused excuse
  known : ∀ f ∈ frames, ∀ d ∈ f.declarations, Known k.context d

namespace Informed

/-- A name that means a declaration of a frame. -/
theorem means_of_denotes (h : Informed R names excuse frames k) {f : Frame} {d : Declaration}
    (mem : f ∈ frames) (declared : d ∈ f.declarations) {ref : SymbolRef}
    (denotes : Denotes R ref f d) : k.context.Means excuse (some ref) := by
  have symbol : k.context.resolution.tree.symbol? ref = some (d.symbol ref.scope) := by
    rw [h.resolution]
    exact denotes.symbol
  have isFunction : k.context.isFunction ref = (d.kind == .function) := by
    rw [Context.isFunction, symbol]
    rfl
  cases h.known f mem d declared with
  | function kind type takes gives =>
    refine .function ?_ ?_ takes gives
    · rw [isFunction, kind]
      rfl
    · simp [Context.symbolType, symbol, Declaration.symbol, type]
  | stated kind stated isResult =>
    refine .value (by simp [isFunction, kind]) (.result ?_)
    simpa [Context.symbolType, symbol, Declaration.symbol, stated] using isResult
  | inferred kind unstated isNode typed =>
    refine .value (by simp [isFunction, kind]) ?_
    rw [h.resolution] at typed
    obtain ⟨type, found⟩ := Option.isSome_iff_exists.1 (typed ref (denotes.declared _ isNode))
    have same : k.context.symbolType ref = type := by
      simp [Context.symbolType, symbol, Declaration.symbol, unstated, found]
    rw [same]
    exact h.inferred ref type found

/-- What a name in an expression means. -/
theorem means (h : Informed R names excuse frames k) {u : NameUse}
    (event : Accounted R names (.use u frames)) :
    k.context.Means excuse (k.context.resolution.references.get? u.id) := by
  rw [h.resolution]
  have settled := event.settled
  simp only [Event.Settled] at settled
  cases found : meaning? u.name frames with
  | none =>
    rw [found] at settled
    rw [settled]
    exact .nothing (h.names (event.excuse (by simp [Event.diagnostic?, found])))
  | some place =>
    rw [found] at settled
    obtain ⟨ref, refers, denotes⟩ := settled
    obtain ⟨mem, declared⟩ := mem_of_meaning? found
    rw [refers]
    exact h.means_of_denotes mem declared denotes

theorem meaningful (h : Informed R names excuse frames k) {e : Expr}
    (events : AllAccounted R names (Event.uses frames e)) :
    Meaningful k.context excuse e.nameUses := fun _ mem =>
  h.means (events _ (List.mem_map_of_mem mem))

/-- Inside of a frame in which everything is known. -/
theorem enter (h : Informed R names excuse frames k) {f : Frame}
    (known : ∀ d ∈ f.declarations, Known k.context d) :
    Informed R names excuse (f :: frames) k :=
  ⟨h.resolution, h.uncancelled, h.names, h.inferred, List.forall_mem_cons.2 ⟨known, h.known⟩⟩

/-- Outside of a frame again. -/
theorem leave {f : Frame} (h : Informed R names excuse (f :: frames) k) :
    Informed R names excuse frames k :=
  ⟨h.resolution, h.uncancelled, h.names, h.inferred, (List.forall_mem_cons.1 h.known).2⟩

theorem declare {f : Frame} (h : Informed R names excuse (f :: frames) k) {ds : List Declaration}
    (known : ∀ d ∈ ds, Known k.context d) : Informed R names excuse (f.declare ds :: frames) k :=
  h.leave.enter (List.forall_mem_append.2 ⟨(List.forall_mem_cons.1 h.known).1, known⟩)

/-- After something was recorded. -/
theorem record (h : Informed R names excuse frames k) {ds : List Diagnostic}
    (session : k'.session = k.session.recordAll ds) (context : k'.context = k.context) :
    Informed R names (ExcuseAfter excuse ds) frames k' where
  resolution := by rw [context, h.resolution]
  uncancelled := by
    rw [session]
    exact h.uncancelled.recordAll ds
  names := .inl ∘ h.names
  inferred := by
    rw [context]
    exact fun ref type found => (h.inferred ref type found).mono .inl
  known := by
    rw [context]
    exact h.known

end Informed

/-! ## Steps -/

theorem Checker.recordAll_nil (k : Checker) : k.recordAll [] = k := by
  rw [Checker.recordAll, Session.recordAll_nil]

/-- From one state of the checker to a later one: what is found shows types of results only, the
given statements are contained by it and by what was recorded before, and the checker is informed
again. -/
structure Adds (R : Resolution) (names excuse : Prop) (frames : List Frame) (k k' : Checker)
    (ts : List Typed.Stmt) (ds : List Diagnostic) : Prop where
  session : k'.session = k.session.recordAll ds
  clear : Clear ds
  contained : ∀ t ∈ ts, t.Contained (ExcuseAfter excuse ds)
  informed : Informed R names (ExcuseAfter excuse ds) frames k'

/-- The same without saying what is found. -/
def Contains (R : Resolution) (names excuse : Prop) (frames : List Frame) (k k' : Checker)
    (ts : List Typed.Stmt) : Prop := ∃ ds, Adds R names excuse frames k k' ts ds

/-- One part after the other. -/
theorem Contains.seq {frames' : List Frame} {ts ts' : List Typed.Stmt}
    (first : Contains R names excuse frames k k' ts)
    (second : ∀ {excuse' : Prop}, Informed R names excuse' frames k' →
      Contains R names excuse' frames' k' k'' ts') :
    Contains R names excuse frames' k k'' (ts ++ ts') := by
  obtain ⟨ds, session, clear, contained, informed⟩ := first
  obtain ⟨ds', session', clear', contained', informed'⟩ := second informed
  rw [excuseAfter_append] at contained' informed'
  refine ⟨ds ++ ds', ?_, clear.append clear', List.forall_mem_append.2
    ⟨fun t mem => (contained t mem).mono ExcuseAfter.left, contained'⟩, informed'⟩
  rw [session', session]
  simp [Session.recordAll]

theorem Contains.subset {ts ts' : List Typed.Stmt} (h : Contains R names excuse frames k k' ts)
    (sub : ts' ⊆ ts) : Contains R names excuse frames k k' ts' := by
  obtain ⟨ds, session, clear, contained, informed⟩ := h
  exact ⟨ds, session, clear, fun t mem => contained t (sub mem), informed⟩

namespace Informed

/-- What is recorded without anything else. -/
theorem adds (h : Informed R names excuse frames k) {ds : List Diagnostic} {ts : List Typed.Stmt}
    (session : k'.session = k.session.recordAll ds) (context : k'.context = k.context)
    (clear : Clear ds) (contained : ∀ t ∈ ts, t.Contained (ExcuseAfter excuse ds)) :
    Contains R names excuse frames k k' ts :=
  ⟨ds, session, clear, contained, h.record session context⟩

/-- A statement that holds no expression and declares nothing. -/
theorem silent (h : Informed R names excuse frames k) {t : Typed.Stmt} (own : t.ownExprs = [])
    (nothing : t.DeclaresNothing) : Contains R names excuse frames k k [t] := by
  refine h.adds (Session.recordAll_nil _).symm rfl .nil
    (List.forall_mem_singleton.2 (nothing.contained ?_))
  rw [own]
  exact List.forall_mem_nil _

/-- A statement that holds one expression and declares nothing, and what is complained about with
the type of the expression known. -/
theorem checked (h : Informed R names excuse frames k) {e : Expr} {t : Typed.Stmt}
    (events : AllAccounted R names (Event.uses frames e)) {ds : List Diagnostic}
    (clear : ∀ {excuse' : Prop}, (typeExpr k.context e).1.type.Excused excuse' → Clear ds)
    (own : t.ownExprs = [(typeExpr k.context e).1]) (nothing : t.DeclaresNothing) :
    Contains R names excuse frames k ((k.expr e).2.recordAll ds) [t] := by
  have outcome := outcome_typeExpr e (h.meaningful events)
  have contained : t.Contained (ExcuseAfter excuse ((typeExpr k.context e).2 ++ ds)) := by
    refine nothing.contained ?_
    rw [own]
    exact List.forall_mem_singleton.2 fun n mem => (outcome.nodes n mem).mono ExcuseAfter.left
  refine h.adds ?_ rfl (outcome.clear.append (clear outcome.type))
    (List.forall_mem_singleton.2 contained)
  change (k.session.recordAll _).recordAll ds = _
  simp [Session.recordAll]

/-- A statement with a condition. -/
theorem condition (h : Informed R names excuse frames k) {e : Expr} {t : Typed.Stmt}
    (events : AllAccounted R names (Event.uses frames e))
    (own : t.ownExprs = [(k.condition e).1]) (nothing : t.DeclaresNothing) :
    Contains R names excuse frames k (k.condition e).2 [t] :=
  h.checked events (fun given => .reported (clear_mismatch rfl given) _) own nothing

/-- A warning about a statement behind a `return`. -/
theorem warned (h : Informed R names excuse frames k) (afterReturn : Bool) (span : Span) :
    Contains R names excuse frames k
      (if afterReturn then k.recordAll (reported [.unreachableCode] span) else k) [] := by
  cases afterReturn with
  | true => exact h.adds rfl rfl (.single rfl span) (List.forall_mem_nil _)
  | false => exact h.adds (Session.recordAll_nil _).symm rfl .nil (List.forall_mem_nil _)

end Informed

/-! ## Variables -/

/-- What is known stays known when a type is inferred. -/
theorem Known.infer {d : Declaration} (h : Known k.context d) (symbol : Option SymbolRef)
    (type : Ty) : Known (k.infer symbol type).context d := by
  cases symbol with
  | none => exact h
  | some ref =>
    cases h with
    | function kind type takes gives => exact .function kind type takes gives
    | stated kind stated isResult => exact .stated kind stated isResult
    | inferred kind unstated isNode typed =>
      refine .inferred kind unstated isNode fun other declared => ?_
      change ((k.context.inferred.insert ref type).get? other).isSome = true
      rw [Table.get?_insert]
      split
      · rfl
      · exact typed other declared

theorem Informed.infer (h : Informed R names excuse frames k) (symbol : Option SymbolRef)
    {type : Ty} (excused : type.Excused excuse) :
    Informed R names excuse frames (k.infer symbol type) := by
  cases symbol with
  | none => exact h
  | some ref =>
    refine ⟨h.resolution, h.uncancelled, h.names, fun other found typed => ?_,
      fun f mem d declared => (h.known f mem d declared).infer (some ref) type⟩
    change (k.context.inferred.insert ref type).get? other = some found at typed
    rw [Table.get?_insert] at typed
    split at typed
    · cases typed
      exact excused
    · exact h.inferred other found typed

/-- A variable is known once its type is kept. -/
theorem known_letVar (k : Checker) (id : NodeId) (name : String) (nameSpan : Span)
    (declared : Option WrittenType) (type : Ty) :
    Known (k.infer (k.context.resolution.declarations.get? id) type).context
      ⟨some id, name, .variable, declared.map fun written => .ofName written.name, nameSpan⟩ := by
  have kind : SymbolKind.variable ≠ .function := by decide
  cases declared with
  | some written => exact .stated kind rfl (Ty.isResult_ofName written.name)
  | none =>
    refine .inferred kind rfl rfl fun ref found => ?_
    cases symbol : k.context.resolution.declarations.get? id with
    | none =>
      rw [symbol] at found
      cases symbol.symm.trans found
    | some own =>
      rw [symbol] at found
      cases symbol.symm.trans found
      change ((k.context.inferred.insert ref type).get? ref).isSome = true
      rw [Table.get?_insert_self]
      rfl

variable {f : Frame} {outer : List Frame} {expected : Option Ty}

/-- A variable is visible behind the statement that declares it. -/
theorem contains_letVar (h : Informed R names excuse (f :: outer) k) {id : NodeId} {span : Span}
    {name : String} {nameSpan : Span} {stated : Option WrittenType} {value : Expr} {d : Declaration}
    (declares : d = ⟨some id, name, .variable, stated.map fun type => .ofName type.name, nameSpan⟩)
    (inValue : AllAccounted R names (Event.uses (f :: outer) value))
    (declaration : Accounted R names (.declaration d f)) :
    Contains R names excuse (f.declare [d] :: outer) k
      (typeStmt expected (.letVar id span name nameSpan stated value) k).2
      [(typeStmt expected (.letVar id span name nameSpan stated value) k).1] := by
  subst declares
  have outcome := outcome_typeExpr value (h.meaningful inValue)
  have rule := outcome_declarationRule name stated outcome.type (typeExpr k.context value).1.span
  have excused := rule.type
  rw [excuseAfter_append] at excused
  have session : ((k.expr value).2.recordAll (reported
        (declarationRule name stated (typeExpr k.context value).1.type).2
        (typeExpr k.context value).1.span)).session =
      k.session.recordAll ((typeExpr k.context value).2 ++ reported
        (declarationRule name stated (typeExpr k.context value).1.type).2
        (typeExpr k.context value).1.span) := by
    change (k.session.recordAll _).recordAll _ = _
    simp [Session.recordAll]
  have informed := (h.record session rfl).infer (k.context.resolution.declarations.get? id) excused
  have hasSymbol : (k.context.resolution.declarations.get? id).isNone = true → names := by
    rw [h.resolution, Option.isNone_iff_eq_none]
    exact declaration.declared id rfl
  refine ⟨_, (Checker.session_infer ..).trans session, outcome.clear.append rule.clear,
    List.forall_mem_singleton.2 ⟨?_, ?_, .inl ∘ h.names ∘ hasSymbol, by rintro ⟨⟩⟩,
    informed.declare (List.forall_mem_singleton.2 (known_letVar ..))⟩
  · exact List.forall_mem_singleton.2 fun n mem => (outcome.nodes n mem).mono ExcuseAfter.left
  · rintro _ ⟨⟩
    exact excused

/-! ## Statements and blocks -/

open Semantics (typeStmt_whileLoop_of_uncancelled typeTopLevel_cons_of_uncancelled)

/-- A statement in a list, with the variable that it may declare. -/
theorem contains_inList (h : Informed R names excuse (f :: outer) k) {inFunction : Bool} {s : Stmt}
    (placed : s.WellPlaced)
    (events : AllAccounted R names (Event.inStmt inFunction (f :: outer) s ++
      Event.declarations f (Declaration.ofStmt? s).toList))
    (plain : s.declares = false → Contains R names excuse (f :: outer) k (typeStmt expected s k).2
      (typeStmt expected s k).1.preorder) :
    Contains R names excuse (f.declare (Declaration.ofStmt? s).toList :: outer) k
      (typeStmt expected s k).2 (typeStmt expected s k).1.preorder := by
  cases declares : s.declares with
  | false =>
    have none : Declaration.ofStmt? s = none := by cases s <;> first | rfl | cases declares
    rw [none, Option.toList_none, Frame.declare_nil]
    exact plain declares
  | true =>
    cases s with
    | letVar =>
      obtain ⟨inValue, declaration⟩ := List.forall_mem_append.1 events
      exact contains_letVar h rfl inValue (List.forall_mem_singleton.1 declaration)
    | function => exact placed.elim
    | _ => cases declares

mutual

/-- What a statement adds, apart from the variable that it may declare. -/
theorem contains_typeStmt (needed : ∀ type ∈ expected, type.isResult = true) (inFunction : Bool) :
    ∀ (s : Stmt) {excuse : Prop} {frames : List Frame} {k : Checker},
      Informed R names excuse frames k → s.WellPlaced → s.declares = false →
      AllAccounted R names (Event.inStmt inFunction frames s) →
      Contains R names excuse frames k (typeStmt expected s k).2 (typeStmt expected s k).1.preorder
  | .ifThen span test thenBlock, _, _, k, h, placed, _, events => by
    obtain ⟨inTest, inThen⟩ := List.forall_mem_append.1 events
    have here := h.condition (t := (typeStmt expected (.ifThen span test thenBlock) k).1) inTest
      rfl ⟨rfl, rfl, rfl⟩
    exact here.seq fun informed =>
      contains_typeBlock needed inFunction thenBlock informed placed inThen
  | .ifThenElse span test thenBlock elseBranch, _, _, k, h, placed, _, events => by
    obtain ⟨others, inElse⟩ := List.forall_mem_append.1 events
    obtain ⟨inTest, inThen⟩ := List.forall_mem_append.1 others
    have here := h.condition
      (t := (typeStmt expected (.ifThenElse span test thenBlock elseBranch) k).1) inTest
      rfl ⟨rfl, rfl, rfl⟩
    have both := here.seq fun informed =>
      contains_typeBlock needed inFunction thenBlock informed placed.1 inThen
    exact both.seq fun informed =>
      contains_typeStmt needed inFunction elseBranch informed placed.2.1 placed.2.2 inElse
  | .whileLoop span test body, _, _, k, h, placed, _, events => by
    obtain ⟨inTest, inBody⟩ := List.forall_mem_append.1 events
    rw [typeStmt_whileLoop_of_uncancelled h.uncancelled]
    have here := h.condition (t := .whileLoop span (k.condition test).1
      (typeBlock expected body (k.condition test).2).1) inTest rfl ⟨rfl, rfl, rfl⟩
    exact here.seq fun informed =>
      contains_typeBlock needed inFunction body informed placed inBody
  | .block b, _, _, k, h, placed, _, events =>
    (h.silent (t := .block (typeBlock expected b k).1) rfl ⟨rfl, rfl, rfl⟩).seq fun informed =>
      contains_typeBlock needed inFunction b informed placed events
  | .expression span e, _, _, k, h, _, _, events => by
    have checked := h.checked (t := (typeStmt expected (.expression span e) k).1) events
      (fun _ => Clear.nil) rfl ⟨rfl, rfl, rfl⟩
    rwa [Checker.recordAll_nil] at checked
  | .ret span (some e), _, _, k, h, _, _, events => by
    obtain ⟨-, inValue⟩ := List.forall_mem_append.1 events
    exact h.checked (t := (typeStmt expected (.ret span (some e)) k).1) inValue
      (fun given => clear_returnRule needed (fun _ mem => Option.mem_some_iff.1 mem ▸ given) span)
      rfl ⟨rfl, rfl, rfl⟩
  | .ret span none, excuse, _, _, h, _, _, _ => by
    have nothing : ∀ e ∈ (none : Option Typed.Expr), e.type.Excused excuse := by rintro _ ⟨⟩
    exact h.adds rfl rfl (clear_returnRule needed nothing span)
      (List.forall_mem_singleton.2
        (Typed.Stmt.DeclaresNothing.contained ⟨rfl, rfl, rfl⟩ (List.forall_mem_nil _)))
  | .error span, _, _, _, h, _, _, _ => h.silent (t := .error span) rfl ⟨rfl, rfl, rfl⟩
  | .letVar .., _, _, _, _, _, declares, _ => by cases declares
  | .function .., _, _, _, _, placed, _, _ => placed.elim

theorem contains_typeBlock (needed : ∀ type ∈ expected, type.isResult = true) (inFunction : Bool) :
    ∀ (b : Block) {excuse : Prop} {frames : List Frame} {k : Checker},
      Informed R names excuse frames k → Stmt.BlockWellPlaced b →
      AllAccounted R names (Event.inBlock inFunction frames b) →
      Contains R names excuse frames k (typeBlock expected b k).2
        (Typed.Stmt.inBlock (typeBlock expected b k).1)
  | .mk _ _ body, _, _, _, h, placed, events =>
    contains_typeAll needed inFunction false body (h.enter (List.forall_mem_nil _)) placed events

/-- What statements of one frame add, with the frame left again. -/
theorem contains_typeAll (needed : ∀ type ∈ expected, type.isResult = true) (inFunction : Bool) :
    ∀ (afterReturn : Bool) (ss : List Stmt) {excuse : Prop} {f : Frame} {outer : List Frame}
      {k : Checker}, Informed R names excuse (f :: outer) k → Stmt.AllWellPlaced ss →
      AllAccounted R names (Event.inAll inFunction f outer ss) →
      Contains R names excuse outer k (typeAll expected afterReturn ss k).2
        (Typed.Stmt.preorderAll (typeAll expected afterReturn ss k).1)
  | _, [], _, _, _, _, h, _, _ =>
    h.leave.adds (Session.recordAll_nil _).symm rfl .nil (List.forall_mem_nil _)
  | afterReturn, s :: ss, _, _, _, _, h, placed, events => by
    obtain ⟨inFirst, inRest⟩ := List.forall_mem_append.1 events
    have first := (h.warned afterReturn s.span).seq fun informed =>
      contains_inList informed placed.1 inFirst fun declares =>
        contains_typeStmt needed inFunction s informed placed.1 declares
          (List.forall_mem_append.1 inFirst).1
    exact first.seq fun informed =>
      contains_typeAll needed inFunction s.isReturn ss informed placed.2 inRest

end

end Typing

end MiniLang
