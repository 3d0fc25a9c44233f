import MiniLang.Proofs.Ir.Renaming
import MiniLang.Proofs.Lowering.Emission
import MiniLang.Proofs.Typing.Renaming

/-!
# Code of typed forms with other scopes

The numbers of scopes show in the names of the frame places of variables and nowhere else. So the
code of typed forms that differ in scopes only is the same up to a renaming of frame places
(`lowerAll_renamed`), the one that leaves the places of operators alone and follows the scopes
otherwise (`PlaceNames`). It keeps places apart if the correspondence keeps scopes apart.
-/

set_option autoImplicit false

namespace MiniLang.Lowering

open Ir

variable {σ : Correspondence} {folding : Bool}

/-- The names of frame places of variables in scopes that stand for each other, and of the places of
operators. -/
inductive PlaceNames (σ : Correspondence) : Ir.Renaming
  | ofVariable {name : String} {scope scope' : ScopeId} (isName : IsName name)
      (h : σ scope scope') : PlaceNames σ (numbered name scope) (numbered name scope')
  | ofSlot (text : String) (number : Nat) :
      PlaceNames σ (numbered ("$" ++ text) number) (numbered ("$" ++ text) number)

namespace PlaceNames

/-- What the place of a variable is called. -/
theorem of_variable {name place place' : String} {scope : ScopeId} (h : PlaceNames σ place place')
    (isName : IsName name) :
    (place = numbered name scope → ∃ scope', σ scope scope' ∧ place' = numbered name scope') ∧
      (place' = numbered name scope → ∃ scope', σ scope' scope ∧ place = numbered name scope') := by
  cases h with
  | ofVariable _ h =>
    constructor
    · intro same
      obtain ⟨rfl, rfl⟩ := numbered_inj.1 same
      exact ⟨_, h, rfl⟩
    · intro same
      obtain ⟨rfl, rfl⟩ := numbered_inj.1 same
      exact ⟨_, h, rfl⟩
  | ofSlot text number =>
    have differ : numbered ("$" ++ text) number ≠ numbered name scope := fun same =>
      isName.ne_of_dollar text (numbered_inj.1 same).1.symm
    exact ⟨fun same => absurd same differ, fun same => absurd same differ⟩

/-- The places of operators keep their names. -/
theorem of_slot {text place place' : String} {number : Nat} (h : PlaceNames σ place place') :
    place = numbered ("$" ++ text) number ↔ place' = numbered ("$" ++ text) number := by
  cases h with
  | ofVariable isName h =>
    refine iff_of_false (fun same => ?_) fun same => ?_
    · exact isName.ne_of_dollar text (numbered_inj.1 same).1
    · exact isName.ne_of_dollar text (numbered_inj.1 same).1
  | ofSlot => exact Iff.rfl

/-- Places stay apart if scopes do. -/
theorem biUnique (unique : Relator.BiUnique σ) : Relator.BiUnique (PlaceNames σ) := by
  constructor
  · intro a b c h h'
    cases h with
    | ofVariable isName known =>
      obtain ⟨scope, known', rfl⟩ := (h'.of_variable isName).2 rfl
      rw [unique.1 known known']
    | ofSlot => exact (h'.of_slot.2 rfl).symm
  · intro a b c h h'
    cases h with
    | ofVariable isName known =>
      obtain ⟨scope, known', rfl⟩ := (h'.of_variable isName).1 rfl
      rw [unique.2 known known']
    | ofSlot => exact (h'.of_slot.1 rfl).symm

end PlaceNames

/-- Values whose code is the same up to a renaming, found at the same place after it. -/
structure Value.Renamed (ρ : Ir.Renaming) (v v' : Value) : Prop where
  code : CodeRenamed ρ v.code v'.code
  operand : v'.operand = v.operand

/-! ## Layout -/

section

variable {ρ : Ir.Renaming}

/-- Instructions without places are the same under every renaming. -/
theorem renamed_single {i : Instr} (h : i.place? = none) : CodeRenamed ρ [i] [i] :=
  .cons (.other h) .nil

theorem slot_renamed (op : BinaryOp) (number : Nat) :
    (slot op number).Renamed (PlaceNames σ) (slot op number) :=
  .frame (.ofSlot (shortName op) number)

theorem placeOf_renamed {name : String} {ref ref' : SymbolRef} {span span' : Span}
    {place place' : Place} (same : SameVariable σ name ref.scope ref'.scope)
    (h : placeOf (some ref) name span = .ok place)
    (h' : placeOf (some ref') name span' = .ok place') :
    place.Renamed (PlaceNames σ) place' := by
  rw [placeOf_eq] at h h'
  cases h
  cases h'
  generalize ref.scope = scope, ref'.scope = scope' at same
  cases same with
  | global => exact .global name
  | inner isName known inner inner' =>
    rw [placeFor, placeFor, if_neg inner, if_neg inner']
    exact .frame (.ofVariable isName known)

theorem shortCircuit_renamed {left left' right right' : Value} (op : BinaryOp) (number : Nat)
    (hl : left.Renamed (PlaceNames σ) left') (hr : right.Renamed (PlaceNames σ) right')
    (dest : Temp) : (shortCircuit op number left right dest).Renamed (PlaceNames σ)
      (shortCircuit op number left' right' dest) := by
  have same : (slot op number).Renamed (PlaceNames σ) (slot op number) := slot_renamed op number
  refine ⟨?_, rfl⟩
  simp only [shortCircuit, hl.operand, hr.operand]
  refine List.rel_append (List.rel_append (List.rel_append hl.code ?_) hr.code) ?_
  · refine .cons (.store _ same) (.cons (.other ?_) (renamed_single rfl))
    cases op <;> rfl
  · exact .cons (.store _ same) (.cons (.other rfl) (.cons (.other rfl)
      (.cons (.load dest same) .nil)))

theorem choice_renamed {test test' : Value} {yes yes' : List Instr} (number : Nat)
    (hc : test.Renamed ρ test') (hy : CodeRenamed ρ yes yes') :
    CodeRenamed ρ (choice number test yes) (choice number test' yes') := by
  simp only [choice, hc.operand]
  refine List.rel_append (List.rel_append (List.rel_append (.cons (.other rfl) hc.code) ?_) hy) ?_
  · exact .cons (.other rfl) (renamed_single rfl)
  · exact .cons (.other rfl) (renamed_single rfl)

theorem choiceElse_renamed {test test' : Value} {yes yes' no no' : List Instr} (number : Nat)
    (hc : test.Renamed ρ test') (hy : CodeRenamed ρ yes yes') (hn : CodeRenamed ρ no no') :
    CodeRenamed ρ (choiceElse number test yes no) (choiceElse number test' yes' no') := by
  simp only [choiceElse, hc.operand]
  refine List.rel_append (List.rel_append (List.rel_append (List.rel_append (List.rel_append
    (.cons (.other rfl) hc.code) ?_) hy) ?_) hn) ?_
  · exact .cons (.other rfl) (renamed_single rfl)
  · exact .cons (.other rfl) (renamed_single rfl)
  · exact .cons (.other rfl) (renamed_single rfl)

theorem loop_renamed {test test' : Value} {body body' : List Instr} (number : Nat)
    (hc : test.Renamed ρ test') (hb : CodeRenamed ρ body body') :
    CodeRenamed ρ (loop number test body) (loop number test' body') := by
  simp only [loop, hc.operand]
  refine List.rel_append (List.rel_append (List.rel_append (.cons (.other rfl) hc.code) ?_) hb) ?_
  · exact .cons (.other rfl) (renamed_single rfl)
  · exact .cons (.other rfl) (renamed_single rfl)

theorem Instr.Renamed.isReturn_eq {i i' : Instr} (h : i.Renamed ρ i') :
    i'.isReturn = i.isReturn := by
  cases h <;> rfl

theorem closed_renamed {code code' : List Instr} (h : CodeRenamed ρ code code') :
    CodeRenamed ρ (closed code) (closed code') := by
  have returns : code'.map Instr.isReturn = code.map Instr.isReturn := by
    induction h with
    | nil => rfl
    | cons first _ ih => rw [List.map_cons, List.map_cons, ih, Instr.Renamed.isReturn_eq first]
  have ends : endsInReturn code' = endsInReturn code := by
    rw [endsInReturn, endsInReturn, ← List.getLast?_map, ← List.getLast?_map, returns]
  rw [closed_eq, closed_eq, ends]
  split
  · exact h
  · exact List.rel_append h (renamed_single rfl)

end

/-! ## Code -/

/-- What is folded does not depend on scopes. -/
theorem folded?_renamed {left left' right right' : Typed.Expr} (op : BinaryOp)
    (hl : left.Renamed σ left') (hr : right.Renamed σ right') :
    folded? folding op left' right' = folded? folding op left right := by
  rw [folded?, folded?, hl.literal?_eq, hr.literal?_eq]

mutual

/-- The code of expressions that differ in scopes only. -/
theorem lowerExpr_renamed :
    ∀ (e : Typed.Expr) {e' : Typed.Expr} {f f₁ f₁' : Fresh} {v v' : Value}, e.Renamed σ e' →
      lowerExpr folding e f = .ok (v, f₁) → lowerExpr folding e' f = .ok (v', f₁') →
      v.Renamed (PlaceNames σ) v' ∧ f₁' = f₁
  | .literal .., e', f, f₁, f₁', v, v', same, h, h' => by
    cases same with
    | literal =>
      obtain ⟨-, rfl, rfl⟩ := lowerExpr_literal.1 h
      obtain ⟨-, rfl, rfl⟩ := lowerExpr_literal.1 h'
      exact ⟨⟨.nil, rfl⟩, rfl⟩
  | .var .., e', f, f₁, f₁', v, v', same, h, h' => by
    cases same with
    | var _ known =>
      obtain ⟨-, place, found, rfl, rfl⟩ := lowerExpr_var.1 h
      obtain ⟨-, place', found', rfl, rfl⟩ := lowerExpr_var.1 h'
      exact ⟨⟨.cons (.load _ (placeOf_renamed known found found')) .nil, rfl⟩, rfl⟩
  | .binary _ op left right, e', f, f₁, f₁', v, v', same, h, h' => by
    cases same with
    | @binary _ _ _ _ _ left' _ right' hl hr =>
      have folds' : folded? folding op left' right' = folded? folding op left right :=
        folded?_renamed op hl hr
      cases folds : folded? folding op left right with
      | some value =>
        obtain ⟨-, rfl, rfl⟩ := (lowerExpr_binary_folded folds).1 h
        obtain ⟨-, rfl, rfl⟩ := (lowerExpr_binary_folded (folds'.trans folds)).1 h'
        exact ⟨⟨.nil, rfl⟩, rfl⟩
      | none =>
        cases logical : op.isLogical with
        | true =>
          obtain ⟨-, l, fl, r, fr, inLeft, inRight, rfl, rfl⟩ :=
            (lowerExpr_binary_logical folds logical).1 h
          obtain ⟨-, l', fl', r', fr', inLeft', inRight', rfl, rfl⟩ :=
            (lowerExpr_binary_logical (folds'.trans folds) logical).1 h'
          obtain ⟨first, rfl⟩ := lowerExpr_renamed left hl inLeft inLeft'
          obtain ⟨second, rfl⟩ := lowerExpr_renamed right hr inRight inRight'
          exact ⟨shortCircuit_renamed op f.label first second _, rfl⟩
        | false =>
          obtain ⟨-, l, fl, r, fr, inLeft, inRight, rfl, rfl⟩ :=
            (lowerExpr_binary_strict folds logical).1 h
          obtain ⟨-, l', fl', r', fr', inLeft', inRight', rfl, rfl⟩ :=
            (lowerExpr_binary_strict (folds'.trans folds) logical).1 h'
          obtain ⟨first, rfl⟩ := lowerExpr_renamed left hl inLeft inLeft'
          obtain ⟨second, rfl⟩ := lowerExpr_renamed right hr inRight inRight'
          refine ⟨⟨?_, rfl⟩, rfl⟩
          rw [first.operand, second.operand]
          exact List.rel_append (List.rel_append first.code second.code) (renamed_single rfl)
  | .unary _ op operand, e', f, f₁, f₁', v, v', same, h, h' => by
    cases same with
    | unary _ _ ho =>
      obtain ⟨-, o, fo, inOperand, rfl, rfl⟩ := lowerExpr_unary.1 h
      obtain ⟨-, o', fo', inOperand', rfl, rfl⟩ := lowerExpr_unary.1 h'
      obtain ⟨renamed, rfl⟩ := lowerExpr_renamed operand ho inOperand inOperand'
      refine ⟨⟨?_, rfl⟩, rfl⟩
      rw [renamed.operand]
      exact List.rel_append renamed.code (renamed_single rfl)
  | .call info callee symbol arguments, e', f, f₁, f₁', v, v', same, h, h' => by
    cases same with
    | call type _ hs =>
      by_cases unit : info.type = .unit
      · obtain ⟨-, vs, inArguments, rfl⟩ := (lowerExpr_call_unit unit).1 h
        obtain ⟨-, vs', inArguments', rfl⟩ := (lowerExpr_call_unit (type.trans unit)).1 h'
        obtain ⟨code, operands, rfl⟩ := lowerExprs_renamed arguments hs inArguments inArguments'
        refine ⟨⟨?_, rfl⟩, rfl⟩
        rw [operands]
        exact List.rel_append code (renamed_single rfl)
      · have unit' := unit
        rw [← type] at unit'
        obtain ⟨-, -, vs, fs, inArguments, rfl, rfl⟩ := (lowerExpr_call_value unit).1 h
        obtain ⟨-, -, vs', fs', inArguments', rfl, rfl⟩ := (lowerExpr_call_value unit').1 h'
        obtain ⟨code, operands, rfl⟩ := lowerExprs_renamed arguments hs inArguments inArguments'
        refine ⟨⟨?_, rfl⟩, rfl⟩
        rw [operands]
        exact List.rel_append code (renamed_single rfl)
  | .assignment _ target _ value, e', f, f₁, f₁', v, v', same, h, h' => by
    cases same with
    | assignment _ known hv =>
      obtain ⟨-, o, place, inValue, found, rfl⟩ := lowerExpr_assignment.1 h
      obtain ⟨-, o', place', inValue', found', rfl⟩ := lowerExpr_assignment.1 h'
      obtain ⟨renamed, rfl⟩ := lowerExpr_renamed value hv inValue inValue'
      refine ⟨⟨?_, renamed.operand⟩, rfl⟩
      rw [renamed.operand]
      exact List.rel_append renamed.code
        (.cons (.store _ (placeOf_renamed known found found')) .nil)

theorem lowerExprs_renamed :
    ∀ (es : List Typed.Expr) {es' : List Typed.Expr} {f f₁ f₁' : Fresh} {vs vs' : List Value},
      Typed.Expr.AllRenamed σ es es' → lowerExprs folding es f = .ok (vs, f₁) →
      lowerExprs folding es' f = .ok (vs', f₁') →
      CodeRenamed (PlaceNames σ) (vs.flatMap Value.code) (vs'.flatMap Value.code) ∧
        vs'.map Value.operand = vs.map Value.operand ∧ f₁' = f₁
  | [], es', f, f₁, f₁', vs, vs', same, h, h' => by
    cases same
    obtain ⟨rfl, rfl⟩ := lowerExprs_nil.1 h
    obtain ⟨rfl, rfl⟩ := lowerExprs_nil.1 h'
    exact ⟨.nil, rfl, rfl⟩
  | e :: es, es', f, f₁, f₁', vs, vs', same, h, h' => by
    cases same with
    | cons first rest =>
      obtain ⟨v, f₂, ws, inFirst, inRest, rfl⟩ := lowerExprs_cons.1 h
      obtain ⟨v', f₂', ws', inFirst', inRest', rfl⟩ := lowerExprs_cons.1 h'
      obtain ⟨renamed, rfl⟩ := lowerExpr_renamed e first inFirst inFirst'
      obtain ⟨code, operands, rfl⟩ := lowerExprs_renamed es rest inRest inRest'
      refine ⟨List.rel_append renamed.code code, ?_, rfl⟩
      rw [List.map_cons, List.map_cons, renamed.operand, operands]

end

mutual

/-- The code of statements that differ in scopes only. -/
theorem lowerStmt_renamed :
    ∀ (s : Typed.Stmt) {s' : Typed.Stmt} {f f₁ f₁' : Fresh} {code code' : List Instr},
      s.Renamed σ s' → lowerStmt folding s f = .ok (code, f₁) →
      lowerStmt folding s' f = .ok (code', f₁') →
      CodeRenamed (PlaceNames σ) code code' ∧ f₁' = f₁
  | .letVar _ name _ _ value, s', f, f₁, f₁', code, code', same, h, h' => by
    cases same with
    | letVar known hv =>
      obtain ⟨-, v, place, inValue, found, rfl⟩ := lowerStmt_letVar.1 h
      obtain ⟨-, v', place', inValue', found', rfl⟩ := lowerStmt_letVar.1 h'
      obtain ⟨renamed, rfl⟩ := lowerExpr_renamed value hv inValue inValue'
      rw [renamed.operand]
      exact ⟨List.rel_append renamed.code
        (.cons (.store _ (placeOf_renamed known found found')) .nil), rfl⟩
  | .ifThen _ test body, s', f, f₁, f₁', code, code', same, h, h' => by
    cases same with
    | ifThen hc hb =>
      obtain ⟨-, c, fc, yes, inTest, inBody, rfl⟩ := lowerStmt_ifThen.1 h
      obtain ⟨-, c', fc', yes', inTest', inBody', rfl⟩ := lowerStmt_ifThen.1 h'
      obtain ⟨renamedTest, rfl⟩ := lowerExpr_renamed test hc inTest inTest'
      obtain ⟨renamed, rfl⟩ := lowerBlock_renamed body hb inBody inBody'
      exact ⟨choice_renamed f.label renamedTest renamed, rfl⟩
  | .ifThenElse _ test body elseBranch, s', f, f₁, f₁', code, code', same, h, h' => by
    cases same with
    | ifThenElse hc hb hs =>
      obtain ⟨-, c, fc, yes, fy, no, inTest, inBody, inElse, rfl⟩ := lowerStmt_ifThenElse.1 h
      obtain ⟨-, c', fc', yes', fy', no', inTest', inBody', inElse', rfl⟩ :=
        lowerStmt_ifThenElse.1 h'
      obtain ⟨renamedTest, rfl⟩ := lowerExpr_renamed test hc inTest inTest'
      obtain ⟨renamed, rfl⟩ := lowerBlock_renamed body hb inBody inBody'
      obtain ⟨renamedElse, rfl⟩ := lowerStmt_renamed elseBranch hs inElse inElse'
      exact ⟨choiceElse_renamed f.label renamedTest renamed renamedElse, rfl⟩
  | .whileLoop _ test body, s', f, f₁, f₁', code, code', same, h, h' => by
    cases same with
    | whileLoop hc hb =>
      obtain ⟨-, c, fc, round, inTest, inBody, rfl⟩ := lowerStmt_whileLoop.1 h
      obtain ⟨-, c', fc', round', inTest', inBody', rfl⟩ := lowerStmt_whileLoop.1 h'
      obtain ⟨renamedTest, rfl⟩ := lowerExpr_renamed test hc inTest inTest'
      obtain ⟨renamed, rfl⟩ := lowerBlock_renamed body hb inBody inBody'
      exact ⟨loop_renamed f.label renamedTest renamed, rfl⟩
  | .block b, s', f, f₁, f₁', code, code', same, h, h' => by
    cases same with
    | block hb =>
      obtain ⟨-, inBlock⟩ := lowerStmt_block.1 h
      obtain ⟨-, inBlock'⟩ := lowerStmt_block.1 h'
      exact lowerBlock_renamed b hb inBlock inBlock'
  | .expression _ value, s', f, f₁, f₁', code, code', same, h, h' => by
    cases same with
    | expression hv =>
      obtain ⟨-, v, inValue, rfl⟩ := lowerStmt_expression.1 h
      obtain ⟨-, v', inValue', rfl⟩ := lowerStmt_expression.1 h'
      obtain ⟨renamed, rfl⟩ := lowerExpr_renamed value hv inValue inValue'
      exact ⟨renamed.code, rfl⟩
  | .ret _ none, s', f, f₁, f₁', code, code', same, h, h' => by
    cases same with
    | leave =>
      obtain ⟨-, rfl, rfl⟩ := lowerStmt_ret_none.1 h
      obtain ⟨-, rfl, rfl⟩ := lowerStmt_ret_none.1 h'
      exact ⟨renamed_single rfl, rfl⟩
  | .ret _ (some value), s', f, f₁, f₁', code, code', same, h, h' => by
    cases same with
    | giveBack hv =>
      obtain ⟨-, v, inValue, rfl⟩ := lowerStmt_ret_some.1 h
      obtain ⟨-, v', inValue', rfl⟩ := lowerStmt_ret_some.1 h'
      obtain ⟨renamed, rfl⟩ := lowerExpr_renamed value hv inValue inValue'
      rw [renamed.operand]
      exact ⟨List.rel_append renamed.code (renamed_single rfl), rfl⟩
  | .function .., _, _, _, _, _, _, same, _, _ => by cases same
  | .error .., _, _, _, _, _, _, same, _, _ => by cases same

theorem lowerBlock_renamed :
    ∀ (b : Typed.Block) {b' : Typed.Block} {f f₁ f₁' : Fresh} {code code' : List Instr},
      b.Renamed σ b' → lowerBlock folding b f = .ok (code, f₁) →
      lowerBlock folding b' f = .ok (code', f₁') →
      CodeRenamed (PlaceNames σ) code code' ∧ f₁' = f₁
  | .mk _ _ body, b', f, f₁, f₁', code, code', same, h, h' => by
    cases same with
    | mk renamed =>
      rw [lowerBlock_eq] at h h'
      exact lowerAll_renamed body renamed h h'

theorem lowerAll_renamed :
    ∀ (ss : List Typed.Stmt) {ss' : List Typed.Stmt} {f f₁ f₁' : Fresh} {code code' : List Instr},
      Typed.Stmt.AllRenamed σ ss ss' → lowerAll folding ss f = .ok (code, f₁) →
      lowerAll folding ss' f = .ok (code', f₁') →
      CodeRenamed (PlaceNames σ) code code' ∧ f₁' = f₁
  | [], ss', f, f₁, f₁', code, code', same, h, h' => by
    cases same
    obtain ⟨rfl, rfl⟩ := lowerAll_nil.1 h
    obtain ⟨rfl, rfl⟩ := lowerAll_nil.1 h'
    exact ⟨.nil, rfl⟩
  | s :: ss, ss', f, f₁, f₁', code, code', same, h, h' => by
    cases same with
    | cons first rest =>
      obtain ⟨c, f₂, cs, inFirst, inRest, rfl⟩ := lowerAll_cons.1 h
      obtain ⟨c', f₂', cs', inFirst', inRest', rfl⟩ := lowerAll_cons.1 h'
      obtain ⟨renamed, rfl⟩ := lowerStmt_renamed s first inFirst inFirst'
      obtain ⟨renamedRest, rfl⟩ := lowerAll_renamed ss rest inRest inRest'
      exact ⟨List.rel_append renamed renamedRest, rfl⟩

end

end MiniLang.Lowering
