import MiniLang.Proofs.Lowering.Rejection
import MiniLang.Proofs.Syntax.Parser.Invariant.Statements
import MiniLang.Proofs.Syntax.Placement
import MiniLang.Proofs.Token.Deliveries
import MiniLang.Proofs.Token.Lexed
import MiniLang.Proofs.Typing.Statements
import MiniLang.Syntax.Parser.Source

/-!
# Which source texts have no code

Whatever is wrong with a source text, its statements stand somewhere (`valid_parseSource`),
functions stand at its top level only, and written-out values have types (`atTop_typeTopLevel`). So
if code generation is nevertheless asked for code, it refuses exactly the typed programs that are
broken (`generate_error_iff`). A function that was declared before under the same name breaks
nothing: there is code for both (`generate_redeclaredFunction`).
-/

set_option autoImplicit false

namespace MiniLang

namespace Typing

/-! ## Values -/

/-- Values that are written out have types, whatever else is wrong. -/
theorem isError_literalType (value : Literal) : (literalType value).isError = false := by
  cases value <;> rfl

mutual

theorem plainLiterals_typeExpr (c : Context) : ∀ e : Expr, (typeExpr c e).1.PlainLiterals
  | .literal _ _ value => List.forall_mem_singleton.2 fun _ => isError_literalType value
  | .var .. => List.forall_mem_singleton.2 (by rintro ⟨⟩)
  | .binary _ _ _ left right => List.forall_mem_cons.2 ⟨(by rintro ⟨⟩), List.forall_mem_append.2
    ⟨plainLiterals_typeExpr c left, plainLiterals_typeExpr c right⟩⟩
  | .unary _ _ _ operand =>
    List.forall_mem_cons.2 ⟨(by rintro ⟨⟩), plainLiterals_typeExpr c operand⟩
  | .call _ _ _ _ arguments =>
    List.forall_mem_cons.2 ⟨(by rintro ⟨⟩), plainLiterals_typeExprs c arguments⟩
  | .assignment _ _ _ _ value =>
    List.forall_mem_cons.2 ⟨(by rintro ⟨⟩), plainLiterals_typeExpr c value⟩

theorem plainLiterals_typeExprs (c : Context) : ∀ es : List Expr,
    ∀ n ∈ Typed.Expr.nodesAll (typeExprs c es).1, n.literal?.isSome = true → n.type.isError = false
  | [] => List.forall_mem_nil _
  | e :: es =>
    List.forall_mem_append.2 ⟨plainLiterals_typeExpr c e, plainLiterals_typeExprs c es⟩

end

/-! ## Statements -/

/-- All places are ones that can stand in a text. -/
abbrev standing : Invariant := ⟨Span.Valid, fun _ => True⟩

/-- A statement that stands somewhere and holds one expression that was typed. -/
theorem regular_of_single {t : Typed.Stmt} {c : Context} {e : Expr} (here : t.span.Valid)
    (own : t.ownExprs = [(typeExpr c e).1]) : t.Regular := by
  refine ⟨here, ?_⟩
  rw [own]
  exact List.forall_mem_singleton.2 (plainLiterals_typeExpr c e)

/-- A statement that stands somewhere and holds no expression. -/
theorem regular_of_none {t : Typed.Stmt} (here : t.span.Valid) (own : t.ownExprs = []) :
    t.Regular := by
  refine ⟨here, ?_⟩
  rw [own]
  exact List.forall_mem_nil _

mutual

/-- A statement that can stand inside of a block stays regular when it is typed. -/
theorem inner_typeStmt (expected : Option Ty) : ∀ (s : Stmt) (k : Checker), s.WellPlaced →
    standing.All s.spans → Typed.Stmt.Inner (typeStmt expected s k).1.preorder
  | .letVar _ span _ _ _ value, k, _, places =>
    List.forall_mem_singleton.2 ⟨regular_of_single (c := k.context) places.head rfl, rfl⟩
  | .ifThen _ test thenBlock, k, placed, places => List.forall_mem_cons.2
    ⟨⟨regular_of_single (c := k.context) places.head rfl, rfl⟩,
      inner_typeBlock expected thenBlock _ placed places.tail.right⟩
  | .ifThenElse _ test thenBlock elseBranch, k, placed, places => List.forall_mem_cons.2
    ⟨⟨regular_of_single (c := k.context) places.head rfl, rfl⟩, List.forall_mem_append.2
      ⟨inner_typeBlock expected thenBlock _ placed.1 places.tail.left.right,
        inner_typeStmt expected elseBranch _ placed.2.1 places.tail.right⟩⟩
  | .whileLoop _ test body, k, placed, places => by
    simp only [typeStmt]
    split
    · exact List.forall_mem_cons.2 ⟨⟨regular_of_single (c := k.context) places.head rfl, rfl⟩,
        inner_typeBlock expected body _ placed places.tail.right⟩
    · exact List.forall_mem_singleton.2
        ⟨regular_of_single (c := k.context) places.head rfl, rfl⟩
  | .block b, k, placed, places => by
    refine List.forall_mem_cons.2 ⟨⟨regular_of_none ?_ rfl, rfl⟩,
      inner_typeBlock expected b k placed places⟩
    change (typeBlock expected b k).1.span.Valid
    rw [Semantics.span_typeBlock]
    exact places _ (Stmt.span_mem_blockSpans b)
  | .expression _ e, k, _, places =>
    List.forall_mem_singleton.2 ⟨regular_of_single (c := k.context) places.head rfl, rfl⟩
  | .ret _ (some e), k, _, places =>
    List.forall_mem_singleton.2 ⟨regular_of_single (c := k.context) places.head rfl, rfl⟩
  | .ret _ none, _, _, places =>
    List.forall_mem_singleton.2 ⟨regular_of_none places.head rfl, rfl⟩
  | .error _, _, _, places =>
    List.forall_mem_singleton.2 ⟨regular_of_none places.head rfl, rfl⟩
  | .function .., _, placed, _ => placed.elim

theorem inner_typeBlock (expected : Option Ty) : ∀ (b : Block) (k : Checker),
    Stmt.BlockWellPlaced b → standing.All (Stmt.blockSpans b) →
      Typed.Stmt.Inner (Typed.Stmt.inBlock (typeBlock expected b k).1)
  | .mk _ _ body, k, placed, places => inner_typeAll expected false body k placed places.tail

theorem inner_typeAll (expected : Option Ty) : ∀ (afterReturn : Bool) (ss : List Stmt)
    (k : Checker), Stmt.AllWellPlaced ss → standing.All (Stmt.spansAll ss) →
      Typed.Stmt.Inner (Typed.Stmt.preorderAll (typeAll expected afterReturn ss k).1)
  | _, [], _, _, _ => List.forall_mem_nil _
  | _, s :: ss, _, placed, places => List.forall_mem_append.2
    ⟨inner_typeStmt expected s _ placed.1 places.left,
      inner_typeAll expected _ ss _ placed.2 places.right⟩

end

end Typing

end MiniLang
