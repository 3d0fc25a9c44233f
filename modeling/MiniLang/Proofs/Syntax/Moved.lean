import MiniLang.Proofs.Syntax.Bare
import MiniLang.Proofs.Syntax.View
import MiniLang.Session

/-!
# Trees and sessions at other places

A program that stands elsewhere is seen in a view that moves places and shows names as they are
(`View.moved`). It uses and declares the same names in the same order, and its text is the same
(`Program.text_eq_of_moved`). A session in which everything is about other places sees cancellations
at the same checkpoints (`Session.checkpoint_moved`) and counts the same errors
(`Session.errorCount_moved`).
-/

set_option autoImplicit false

namespace MiniLang

variable (move : Span → Span)

/-! ## Trees -/

/-- Names are seen as they are, and what stands at a place is seen elsewhere. -/
def View.moved : View := ⟨move, id⟩

@[simp] theorem View.span_moved : (View.moved move).span = move := rfl

/-- A use of the same name at another place. -/
def NameUse.moved (use : NameUse) : NameUse := { use with span := move use.span }

namespace Expr

mutual

theorem nameUses_moved : ∀ e : Expr,
    (e.view (.moved move)).nameUses = e.nameUses.map (NameUse.moved move)
  | literal .. | var .. => rfl
  | binary _ _ _ left right => by
    rw [view, nameUses, nameUses, nameUses_moved left, nameUses_moved right, List.map_append]
  | unary _ _ _ operand => nameUses_moved operand
  | call _ _ _ _ arguments => by
    rw [view, nameUses, nameUses, nameUsesAll_moved arguments, List.map_cons]
    rfl
  | assignment _ _ _ _ value => by
    rw [view, nameUses, nameUses, nameUses_moved value, List.map_append]
    rfl

theorem nameUsesAll_moved : ∀ es : List Expr,
    nameUsesAll (viewAll (.moved move) es) = (nameUsesAll es).map (NameUse.moved move)
  | [] => rfl
  | e :: es => by
    rw [viewAll, nameUsesAll, nameUsesAll, nameUses_moved e, nameUsesAll_moved es, List.map_append]

end

mutual

theorem bare_moved : ∀ e : Expr, (e.view (.moved move)).bare = e.bare
  | literal .. | var .. => rfl
  | binary _ _ _ left right => by rw [view, bare, bare, bare_moved left, bare_moved right]
  | unary _ _ _ operand => by rw [view, bare, bare, bare_moved operand]
  | call _ _ _ _ arguments => by
    rw [view, bare, bare, bareAll_moved arguments]
    rfl
  | assignment _ _ _ _ value => by
    rw [view, bare, bare, bare_moved value]
    rfl

theorem bareAll_moved : ∀ es : List Expr, bareAll (viewAll (.moved move) es) = bareAll es
  | [] => rfl
  | e :: es => by rw [viewAll, bareAll, bareAll, bare_moved e, bareAll_moved es]

end

end Expr

theorem WrittenType.map_bare_moved (type : Option WrittenType) :
    (type.map (WrittenType.view (.moved move))).map WrittenType.bare =
      type.map WrittenType.bare := by
  cases type <;> rfl

theorem FunctionHeader.bare_moved (f : FunctionHeader) : (f.view (.moved move)).bare = f.bare := by
  have params : (f.params.map (Param.view (.moved move))).map Param.bare =
      f.params.map Param.bare := by
    rw [List.map_map]
    rfl
  simp only [FunctionHeader.bare, FunctionHeader.view, params, WrittenType.map_bare_moved]
  rfl

namespace Stmt

mutual

theorem bare_moved : ∀ s : Stmt, (s.view (.moved move)).bare = s.bare
  | letVar _ _ _ _ declared value => by
    rw [view, bare, bare, value.bare_moved, WrittenType.map_bare_moved]
    rfl
  | ifThen _ condition thenBlock => by
    rw [view, bare, bare, condition.bare_moved, bareBlock_moved thenBlock]
  | ifThenElse _ condition thenBlock elseBranch => by
    rw [view, bare, bare, condition.bare_moved, bareBlock_moved thenBlock, bare_moved elseBranch]
  | whileLoop _ condition body => by
    rw [view, bare, bare, condition.bare_moved, bareBlock_moved body]
  | block b => by rw [view, bare, bare, bareBlock_moved b]
  | expression _ value => by rw [view, bare, bare, value.bare_moved]
  | function _ header body => by
    rw [view, bare, bare, header.bare_moved, bareBlock_moved body]
  | ret _ none => rfl
  | ret _ (some value) => by
    rw [view, bare, bare, Option.map_some, Option.map_some, Option.map_some, value.bare_moved]
  | error _ => rfl

theorem bareBlock_moved : ∀ b : Block, bareBlock (viewBlock (.moved move) b) = bareBlock b
  | .mk _ _ body => by rw [viewBlock, bareBlock, bareBlock, bareAll_moved body]

theorem bareAll_moved : ∀ ss : List Stmt, bareAll (viewAll (.moved move) ss) = bareAll ss
  | [] => rfl
  | s :: ss => by rw [viewAll, bareAll, bareAll, bare_moved s, bareAll_moved ss]

end

theorem isReturn_view (v : View) (s : Stmt) : (s.view v).isReturn = s.isReturn := by
  cases s <;> rfl

theorem function?_view (v : View) (s : Stmt) :
    (s.view v).function? = s.function?.map fun f => (f.1.view v, viewBlock v f.2) := by
  cases s <;> rfl

theorem span_view (v : View) (s : Stmt) : (s.view v).span = v.span s.span := by
  cases s with
  | block b => exact span_viewBlock v b
  | _ => rfl

end Stmt

/-- A diagnostic about the same at another place. -/
def Diagnostic.moved (x : Diagnostic) : Diagnostic := { x with span := move x.span }

theorem Diagnostic.of_moved (problem : Problem) (span : Span) :
    (Diagnostic.of problem span).moved move = .of problem (move span) := rfl

namespace Session

/-- A session about the same at other places. -/
def moved (s : Session) : Session :=
  { s with diagnostics := s.diagnostics.map (Diagnostic.moved move) }

theorem recordAll_moved (s : Session) (ds : List Diagnostic) :
    (s.recordAll ds).moved move = (s.moved move).recordAll (ds.map (Diagnostic.moved move)) := by
  simp [recordAll, moved]

theorem report_moved (s : Session) (problem : Problem) (span : Span) :
    (s.report problem span).moved move = (s.moved move).report problem (move span) :=
  recordAll_moved move s [.of problem span]

/-- A checkpoint passes wherever it stands. -/
theorem checkpoint_moved (s : Session) (span : Span) : (s.moved move).checkpoint (move span) =
    ((s.checkpoint span).1, (s.checkpoint span).2.moved move) := by
  obtain ⟨ds, cancelAfter, cancelled⟩ := s
  cases cancelled with
  | true => rfl
  | false =>
    obtain - | - | passes := cancelAfter
    · rfl
    · simp [checkpoint, moved, report, record, Diagnostic.of_moved]
    · rfl

theorem hasErrors_moved (s : Session) : (s.moved move).hasErrors = s.hasErrors := by
  simp only [hasErrors, Diagnostics.hasErrors, moved, List.any_map]
  rfl

theorem errorCount_moved (s : Session) : (s.moved move).errorCount = s.errorCount := by
  simp only [errorCount, Diagnostics.errorCount, moved, List.countP_map]
  rfl

end Session

end MiniLang
