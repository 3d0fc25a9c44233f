import Mathlib.Tactic
import MiniLang.Proofs.Syntax.Trees
import MiniLang.Scope.Resolution

/-!
# Lexical scoping

What the names of a program mean, said without scopes and tables: by the declarations that are
visible where a name stands. These are kept in frames, the innermost first, one for every block and
function around the place and one for the whole program. A name means its first declaration in the
innermost frame that declares it (`meaning?`).

Going through a program in order, there are names that are used, names that are declared, and
statements that return from no function (`Program.events`). Each has its frames, says whether it is
an error (`Event.diagnostic?`), and says what has to be found out about it (`Event.Settled`). The
events of a program are about all that it holds, and about nothing twice (`occurrence_events`).
-/

set_option autoImplicit false

namespace MiniLang

namespace Scoping

/-- A declared name, and the node that declares it unless no program does. -/
structure Declaration where
  node : Option NodeId
  name : String
  kind : SymbolKind
  /-- The type that the source text states. -/
  type : Option Ty
  span : Span
  deriving DecidableEq, Repr

namespace Declaration

/-- The symbol of a declared name in a scope. -/
def symbol (d : Declaration) (scope : ScopeId) : Symbol :=
  ⟨d.name, d.kind, d.type, scope, d.span, d.node⟩

/-- A name that every program can use. -/
def ofBuiltin (builtin : String × Ty) : Declaration :=
  ⟨none, builtin.1, .function, some builtin.2, .nowhere⟩

/-- The name of a function. -/
def ofFunction (f : FunctionHeader) : Declaration :=
  ⟨some f.id, f.name, .function, some (.ofHeader f), f.nameSpan⟩

/-- A parameter. -/
def ofParam (p : Param) : Declaration :=
  ⟨some p.id, p.name, .parameter, some (.ofName p.type.name), p.span⟩

/-- The variable that a statement declares, if it does. -/
def ofStmt? : Stmt → Option Declaration
  | .letVar id _ name nameSpan declared _ =>
    some ⟨some id, name, .variable, declared.map fun type => .ofName type.name, nameSpan⟩
  | _ => none

end Declaration

/-- The visible declarations of one scope in order: those of a block, with the parameters before
them if it is the body of a function, or those of the program. -/
structure Frame where
  /-- The block, or nothing for the whole program. -/
  block : Option NodeId
  declarations : List Declaration := []
  deriving DecidableEq, Repr

namespace Frame

/-- The first declaration of a name. -/
def find? (f : Frame) (name : String) : Option Declaration :=
  f.declarations.find? (·.name == name)

/-- The frame in which more is declared. -/
def declare (f : Frame) (ds : List Declaration) : Frame :=
  { f with declarations := f.declarations ++ ds }

end Frame

/-- What a name means: its first declaration in the innermost frame that declares it. -/
def meaning? (name : String) : List Frame → Option (Frame × Declaration)
  | [] => none
  | f :: fs =>
    match f.find? name with
    | some d => some (f, d)
    | none => meaning? name fs

/-- What a resolution has to deal with. -/
inductive Event where
  /-- A name is used inside of the given frames. -/
  | use (name : NameUse) (frames : List Frame)
  /-- A name is declared in the given frame, which has the declarations before it. -/
  | declaration (d : Declaration) (frame : Frame)
  /-- A `return` stands in no function. -/
  | strayReturn (span : Span)

namespace Event

/-- The names that an expression uses. -/
def uses (frames : List Frame) (e : Expr) : List Event := e.nameUses.map (use · frames)

/-- Declarations one after the other. -/
def declarations (f : Frame) : List Declaration → List Event
  | [] => []
  | d :: ds => declaration d f :: declarations (f.declare [d]) ds

mutual

/-- What there is in a statement, apart from the variable that it may declare. -/
def inStmt (inFunction : Bool) (frames : List Frame) : Stmt → List Event
  | .letVar _ _ _ _ _ value => uses frames value
  | .ifThen _ condition thenBlock =>
    uses frames condition ++ inBlock inFunction frames thenBlock
  | .ifThenElse _ condition thenBlock elseBranch =>
    uses frames condition ++ inBlock inFunction frames thenBlock ++
      inStmt inFunction frames elseBranch
  | .whileLoop _ condition body => uses frames condition ++ inBlock inFunction frames body
  | .block b => inBlock inFunction frames b
  | .expression _ value => uses frames value
  | .function _ header body => inFunctionBody frames (header.params.map .ofParam) body
  | .ret span value =>
    (if inFunction then [] else [strayReturn span]) ++ (value.map (uses frames)).getD []
  | .error _ => []

/-- What there is in a block: a frame of its own. -/
def inBlock (inFunction : Bool) (frames : List Frame) : Block → List Event
  | .mk id _ body => inAll inFunction { block := id } frames body

/-- What there is in a function behind its name: the parameters share a frame with the body. -/
def inFunctionBody (frames : List Frame) (params : List Declaration) : Block → List Event
  | .mk id _ body =>
    declarations { block := id } params ++
      inAll true { block := id, declarations := params } frames body

/-- What there is in statements of one frame. A variable is visible behind the whole statement that
declares it. -/
def inAll (inFunction : Bool) (f : Frame) (outer : List Frame) : List Stmt → List Event
  | [] => []
  | s :: ss =>
    let declared := (Declaration.ofStmt? s).toList
    inStmt inFunction (f :: outer) s ++ declarations f declared ++
      inAll inFunction (f.declare declared) outer ss

end

end Event

/-- The names that every program can use. -/
def Frame.builtins : Frame := { block := none, declarations := MiniLang.builtins.map .ofBuiltin }

/-- The functions of a program. -/
def hoisted (p : Program) : List Declaration := p.functions.map fun f => .ofFunction f.1

end Scoping

open Scoping

/-- What there is in a program: first the names of its functions are declared, which are then
visible everywhere. -/
def Program.events (p : Program) : List Event :=
  Event.declarations .builtins (hoisted p) ++
    Event.inAll false (Frame.builtins.declare (hoisted p)) [] p.body

namespace Scoping

/-- A reference refers to a declaration of a frame: it names the scope of the frame, and the symbol
there is that of the declaration. -/
structure Denotes (r : Resolution) (ref : SymbolRef) (f : Frame) (d : Declaration) : Prop where
  scope : match f.block with
    | none => ref.scope = globalScope
    | some block => r.blockScopes.get? block = some ref.scope
  symbol : r.tree.symbol? ref = some (d.symbol ref.scope)
  declared : ∀ node ∈ d.node, r.declarations.get? node = some ref

namespace Event

/-- The error that there is: a name that means nothing, a name that is declared a second time, or a
`return` in no function. -/
def diagnostic? : Event → Option Diagnostic
  | use u frames =>
    if (meaning? u.name frames).isSome then none
    else some (.of (.undeclaredIdentifier u.name) u.span)
  | declaration d f =>
    if (f.find? d.name).isSome then some (.of (.redeclaration d.name) d.span) else none
  | strayReturn span => some (.of .returnOutsideFunction span)

/-- What has to be found out: a name refers to what it means, if anything, and a declaration is
known by the first of its name. -/
def Settled (r : Resolution) : Event → Prop
  | use u frames =>
    match meaning? u.name frames with
    | some (f, d) => ∃ ref, r.references.get? u.id = some ref ∧ Denotes r ref f d
    | none => r.references.get? u.id = none
  | declaration d f =>
    match f.find? d.name with
    | some _ => ∀ node ∈ d.node, r.declarations.get? node = none
    | none => ∃ ref, Denotes r ref f d
  | strayReturn _ => True

end Event

/-! ## Everything has its event -/

/-- What stands in a program for resolution to deal with. -/
inductive Occurrence where
  | use (name : NameUse)
  | declaration (d : Declaration)
  | strayReturn (span : Span)

/-- What an event is about. -/
def Event.occurrence : Event → Occurrence
  | use u _ => .use u
  | declaration d _ => .declaration d
  | strayReturn span => .strayReturn span

/-- The names that a statement declares, except for that of a function. -/
def Declaration.inStmt : Stmt → List Declaration
  | .function _ header _ => header.params.map .ofParam
  | s => (ofStmt? s).toList

/-- What a statement holds itself, not inside of the statements below it. -/
def Occurrence.ofStmt (inFunction : Bool) (s : Stmt) : List Occurrence :=
  (if s.isReturn && !inFunction then [strayReturn s.span] else []) ++
    s.ownExprs.flatMap (fun e => e.nameUses.map use) ++ (Declaration.inStmt s).map declaration

/-- What a program holds, in order: the names of its functions, and then what is in its statements,
where a `return` is stray unless it stands in a function. -/
def occurrences (p : Program) : List Occurrence :=
  (hoisted p).map .declaration ++
    p.body.flatMap fun s => s.preorder.flatMap (Occurrence.ofStmt s.function?.isSome)

theorem Occurrence.ofStmt_eq_uses {s : Stmt} (inFunction : Bool) (noReturn : s.isReturn = false)
    (none : Declaration.inStmt s = []) :
    ofStmt inFunction s = s.ownExprs.flatMap fun e => e.nameUses.map use := by
  simp [ofStmt, noReturn, none]

namespace Event

theorem occurrence_uses (frames : List Frame) (e : Expr) :
    (uses frames e).map occurrence = e.nameUses.map .use := List.map_map

theorem occurrence_declarations (ds : List Declaration) (f : Frame) :
    (declarations f ds).map occurrence = ds.map .declaration := by
  induction ds generalizing f with
  | nil => rfl
  | cons d ds ih => exact congrArg _ (ih _)

/-- A statement in a list, with the variable that it may declare. -/
theorem occurrence_inList {inFunction : Bool} (f : Frame) (outer : List Frame) {s : Stmt}
    (placed : s.WellPlaced)
    (plain : s.declares = false → (inStmt inFunction (f :: outer) s).map occurrence =
      s.preorder.flatMap (Occurrence.ofStmt inFunction)) :
    (inStmt inFunction (f :: outer) s ++
        declarations f (Declaration.ofStmt? s).toList).map occurrence =
      s.preorder.flatMap (Occurrence.ofStmt inFunction) := by
  rw [List.map_append, occurrence_declarations]
  cases s with
  | letVar =>
    simp [inStmt, occurrence_uses, Stmt.preorder, Occurrence.ofStmt, Declaration.inStmt,
      Stmt.isReturn, Stmt.ownExprs]
  | function => exact placed.elim
  | _ => exact (List.append_nil _).trans (plain rfl)

mutual

theorem occurrence_inStmt (inFunction : Bool) (frames : List Frame) :
    ∀ s : Stmt, s.WellPlaced → s.declares = false →
      (inStmt inFunction frames s).map occurrence =
        s.preorder.flatMap (Occurrence.ofStmt inFunction)
  | .ifThen _ condition thenBlock, placed, _ => by
    rw [inStmt, Stmt.preorder, List.flatMap_cons, Occurrence.ofStmt_eq_uses inFunction rfl rfl,
      List.map_append, occurrence_uses, occurrence_inBlock inFunction frames thenBlock placed]
    simp [Stmt.ownExprs]
  | .ifThenElse _ condition thenBlock elseBranch, ⟨yes, no, noName⟩, _ => by
    rw [inStmt, Stmt.preorder, List.flatMap_cons, Occurrence.ofStmt_eq_uses inFunction rfl rfl,
      List.map_append, List.map_append, occurrence_uses,
      occurrence_inBlock inFunction frames thenBlock yes,
      occurrence_inStmt inFunction frames elseBranch no noName]
    simp [Stmt.ownExprs]
  | .whileLoop _ condition body, placed, _ => by
    rw [inStmt, Stmt.preorder, List.flatMap_cons, Occurrence.ofStmt_eq_uses inFunction rfl rfl,
      List.map_append, occurrence_uses, occurrence_inBlock inFunction frames body placed]
    simp [Stmt.ownExprs]
  | .block b, placed, _ => by
    rw [inStmt, Stmt.preorder, List.flatMap_cons, Occurrence.ofStmt_eq_uses inFunction rfl rfl,
      occurrence_inBlock inFunction frames b placed]
    rfl
  | .expression _ value, _, _ => by
    rw [inStmt, Stmt.preorder, List.flatMap_cons, Occurrence.ofStmt_eq_uses inFunction rfl rfl,
      occurrence_uses]
    simp [Stmt.ownExprs]
  | .ret span value, _, _ => by
    rw [inStmt, Stmt.preorder, List.flatMap_singleton, Occurrence.ofStmt, List.map_append]
    cases inFunction <;> cases value <;>
      simp [occurrence_uses, occurrence, Declaration.inStmt, Declaration.ofStmt?, Stmt.isReturn,
        Stmt.ownExprs, Stmt.span]
  | .error _, _, _ => rfl
  | .letVar .., _, declares => by cases declares
  | .function .., placed, _ => placed.elim

theorem occurrence_inBlock (inFunction : Bool) (frames : List Frame) :
    ∀ b : Block, Stmt.BlockWellPlaced b → (inBlock inFunction frames b).map occurrence =
      (Stmt.inBlock b).flatMap (Occurrence.ofStmt inFunction)
  | .mk _ _ body, placed => occurrence_inAll inFunction _ frames body placed

theorem occurrence_inAll (inFunction : Bool) (f : Frame) (outer : List Frame) :
    ∀ ss : List Stmt, Stmt.AllWellPlaced ss → (inAll inFunction f outer ss).map occurrence =
      (Stmt.preorderAll ss).flatMap (Occurrence.ofStmt inFunction)
  | [], _ => rfl
  | s :: ss, ⟨placed, others⟩ => by
    have first := occurrence_inList f outer placed fun declares =>
      occurrence_inStmt inFunction (f :: outer) s placed declares
    rw [inAll, List.map_append, first, occurrence_inAll inFunction _ outer ss others,
      Stmt.preorderAll, List.flatMap_append]

end

theorem occurrence_inTop {s : Stmt} (placed : s.TopWellPlaced) (f : Frame) (outer : List Frame) :
    (inStmt false (f :: outer) s ++ declarations f (Declaration.ofStmt? s).toList).map occurrence =
      s.preorder.flatMap (Occurrence.ofStmt s.function?.isSome) := by
  cases placed with
  | inner placed =>
    rw [placed.function?_eq_none]
    exact occurrence_inList f outer placed fun declares =>
      occurrence_inStmt false (f :: outer) s placed declares
  | @function span header body placed =>
    obtain ⟨id, _, ss⟩ := body
    have inside := occurrence_inAll true
      { block := id, declarations := header.params.map .ofParam } (f :: outer) ss placed
    rw [inStmt, inFunctionBody, List.map_append, List.map_append, inside, occurrence_declarations,
      Stmt.preorder, List.flatMap_cons]
    simp [Occurrence.ofStmt, Declaration.inStmt, Declaration.ofStmt?, Stmt.isReturn, Stmt.ownExprs,
      Stmt.inBlock, Stmt.function?, declarations]

end Event

/-- The events of a program are about all that it holds, in order. -/
theorem occurrence_events {p : Program} (placed : ∀ s ∈ p.body, s.TopWellPlaced) :
    p.events.map Event.occurrence = occurrences p := by
  have inside : ∀ (ss : List Stmt) (f : Frame), (∀ s ∈ ss, s.TopWellPlaced) →
      (Event.inAll false f [] ss).map Event.occurrence =
        ss.flatMap fun s => s.preorder.flatMap (Occurrence.ofStmt s.function?.isSome) := by
    intro ss
    induction ss with
    | nil => exact fun _ _ => rfl
    | cons s ss ih =>
      intro f placed
      obtain ⟨first, others⟩ := List.forall_mem_cons.1 placed
      rw [Event.inAll, List.map_append, Event.occurrence_inTop first, ih _ others,
        List.flatMap_cons]
  rw [Program.events, List.map_append, Event.occurrence_declarations, inside _ _ placed]
  rfl

end Scoping

end MiniLang
