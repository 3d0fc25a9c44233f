import MiniLang.Proofs.Lowering.Shapes
import MiniLang.Proofs.Typing.Moved

/-!
# Code of what stands elsewhere

Generated code does not depend on where the program stands: a program that has code has the same
code wherever else its parts may stand (`generate_moved`).
-/

set_option autoImplicit false

namespace MiniLang.Lowering

open Ir

variable (move : Span → Span) {folding : Bool} {f f' : Fresh}

theorem placeOf_moved {symbol : Option SymbolRef} {name : String} {span : Span} {place : Place}
    (h : placeOf symbol name span = .ok place) (span' : Span) :
    placeOf symbol name span' = .ok place := by
  cases symbol with
  | none => cases h
  | some ref => exact h

theorem folded?_moved (op : BinaryOp) (left right : Typed.Expr) :
    folded? folding op (left.moved move) (right.moved move) = folded? folding op left right := by
  simp only [folded?, Typed.Expr.literal?_moved]

mutual

theorem lowerExpr_moved : ∀ (e : Typed.Expr) {f f' : Fresh} {v : Value},
    lowerExpr folding e f = .ok (v, f') → lowerExpr folding (e.moved move) f = .ok (v, f')
  | .literal info value, f, f', v, h => by
    have made := lowerExpr_literal.1 h
    exact lowerExpr_literal.2 made
  | .var info name symbol, f, f', v, h => by
    obtain ⟨typed, place, found, rest⟩ := lowerExpr_var.1 h
    exact lowerExpr_var.2 ⟨typed, place, placeOf_moved found _, rest⟩
  | .binary info op left right, f, f', v, h => by
    have same : folded? folding op (left.moved move) (right.moved move) =
        folded? folding op left right := folded?_moved move op left right
    cases folds : folded? folding op left right with
    | some value =>
      have made := (lowerExpr_binary_folded folds).1 h
      exact (lowerExpr_binary_folded (same.trans folds)).2 made
    | none =>
      cases logical : op.isLogical with
      | true =>
        obtain ⟨typed, l, fl, r, fr, inLeft, inRight, rest⟩ :=
          (lowerExpr_binary_logical folds logical).1 h
        exact (lowerExpr_binary_logical (same.trans folds) logical).2
          ⟨typed, l, fl, r, fr, lowerExpr_moved left inLeft, lowerExpr_moved right inRight, rest⟩
      | false =>
        obtain ⟨typed, l, fl, r, fr, inLeft, inRight, rest⟩ :=
          (lowerExpr_binary_strict folds logical).1 h
        exact (lowerExpr_binary_strict (same.trans folds) logical).2
          ⟨typed, l, fl, r, fr, lowerExpr_moved left inLeft, lowerExpr_moved right inRight, rest⟩
  | .unary info op operand, f, f', v, h => by
    obtain ⟨typed, o, fo, inOperand, rest⟩ := lowerExpr_unary.1 h
    exact lowerExpr_unary.2 ⟨typed, o, fo, lowerExpr_moved operand inOperand, rest⟩
  | .call info callee symbol arguments, f, f', v, h => by
    by_cases unit : info.type = .unit
    · obtain ⟨found, vs, inArguments, rest⟩ := (lowerExpr_call_unit unit).1 h
      have unit' : (info.moved move).type = .unit := unit
      exact (lowerExpr_call_unit unit').2 ⟨found, vs, lowerExprs_moved arguments inArguments, rest⟩
    · obtain ⟨typed, found, vs, fs, inArguments, rest⟩ := (lowerExpr_call_value unit).1 h
      have unit' : (info.moved move).type ≠ .unit := unit
      exact (lowerExpr_call_value unit').2
        ⟨typed, found, vs, fs, lowerExprs_moved arguments inArguments, rest⟩
  | .assignment info target symbol value, f, f', v, h => by
    obtain ⟨typed, o, place, inValue, found, rest⟩ := lowerExpr_assignment.1 h
    exact lowerExpr_assignment.2
      ⟨typed, o, place, lowerExpr_moved value inValue, placeOf_moved found _, rest⟩

theorem lowerExprs_moved : ∀ (es : List Typed.Expr) {f f' : Fresh} {vs : List Value},
    lowerExprs folding es f = .ok (vs, f') →
      lowerExprs folding (Typed.Expr.movedAll move es) f = .ok (vs, f')
  | [], f, f', vs, h => h
  | e :: es, f, f', vs, h => by
    obtain ⟨v, f₁, rest, first, others, same⟩ := lowerExprs_cons.1 h
    exact lowerExprs_cons.2
      ⟨v, f₁, rest, lowerExpr_moved e first, lowerExprs_moved es others, same⟩

end

variable {move}

mutual

theorem lowerStmt_moved (valid : ∀ span, (move span).Valid) :
    ∀ (s : Typed.Stmt) {f f' : Fresh} {code : List Instr},
      lowerStmt folding s f = .ok (code, f') →
        lowerStmt folding (s.moved move) f = .ok (code, f')
  | .letVar span name symbol type value, f, f', code, h => by
    obtain ⟨-, v, place, inValue, found, rest⟩ := lowerStmt_letVar.1 h
    exact lowerStmt_letVar.2
      ⟨valid span, v, place, lowerExpr_moved move value inValue, placeOf_moved found _, rest⟩
  | .ifThen span condition thenBlock, f, f', code, h => by
    obtain ⟨-, c, fc, yes, inCondition, inThen, rest⟩ := lowerStmt_ifThen.1 h
    exact lowerStmt_ifThen.2 ⟨valid span, c, fc, yes, lowerExpr_moved move condition inCondition,
      lowerBlock_moved valid thenBlock inThen, rest⟩
  | .ifThenElse span condition thenBlock elseBranch, f, f', code, h => by
    obtain ⟨-, c, fc, yes, fy, no, inCondition, inThen, inElse, rest⟩ := lowerStmt_ifThenElse.1 h
    exact lowerStmt_ifThenElse.2 ⟨valid span, c, fc, yes, fy, no,
      lowerExpr_moved move condition inCondition, lowerBlock_moved valid thenBlock inThen,
      lowerStmt_moved valid elseBranch inElse, rest⟩
  | .whileLoop span condition body, f, f', code, h => by
    obtain ⟨-, c, fc, round, inCondition, inBody, rest⟩ := lowerStmt_whileLoop.1 h
    exact lowerStmt_whileLoop.2 ⟨valid span, c, fc, round,
      lowerExpr_moved move condition inCondition, lowerBlock_moved valid body inBody, rest⟩
  | .block (.mk scope span body), f, f', code, h => by
    obtain ⟨-, inBlock⟩ := lowerStmt_block.1 h
    exact lowerStmt_block.2 ⟨valid span, lowerBlock_moved valid (.mk scope span body) inBlock⟩
  | .expression span value, f, f', code, h => by
    obtain ⟨-, v, inValue, rest⟩ := lowerStmt_expression.1 h
    exact lowerStmt_expression.2 ⟨valid span, v, lowerExpr_moved move value inValue, rest⟩
  | .function span header body, f, f', code, h => by
    obtain ⟨-, rest⟩ := lowerStmt_function.1 h
    exact lowerStmt_function.2 ⟨valid span, rest⟩
  | .ret span none, f, f', code, h => by
    obtain ⟨-, rest⟩ := lowerStmt_ret_none.1 h
    exact lowerStmt_ret_none.2 ⟨valid span, rest⟩
  | .ret span (some value), f, f', code, h => by
    obtain ⟨-, v, inValue, rest⟩ := lowerStmt_ret_some.1 h
    exact lowerStmt_ret_some.2 ⟨valid span, v, lowerExpr_moved move value inValue, rest⟩
  | .error span, f, f', code, h => absurd h lowerStmt_error

theorem lowerBlock_moved (valid : ∀ span, (move span).Valid) :
    ∀ (b : Typed.Block) {f f' : Fresh} {code : List Instr},
      lowerBlock folding b f = .ok (code, f') →
        lowerBlock folding (Typed.Stmt.movedBlock move b) f = .ok (code, f')
  | .mk _ _ body, f, f', code, h => by
    rw [lowerBlock_eq] at h
    rw [Typed.Stmt.movedBlock, lowerBlock_eq]
    exact lowerAll_moved valid body h

theorem lowerAll_moved (valid : ∀ span, (move span).Valid) :
    ∀ (ss : List Typed.Stmt) {f f' : Fresh} {code : List Instr},
      lowerAll folding ss f = .ok (code, f') →
        lowerAll folding (Typed.Stmt.movedAll move ss) f = .ok (code, f')
  | [], f, f', code, h => h
  | s :: ss, f, f', code, h => by
    obtain ⟨first, f₁, rest, inFirst, inRest, same⟩ := lowerAll_cons.1 h
    exact lowerAll_cons.2
      ⟨first, f₁, rest, lowerStmt_moved valid s inFirst, lowerAll_moved valid ss inRest, same⟩

end

end MiniLang.Lowering
