import MiniLang.Proofs.Ir.WellFormed
import MiniLang.Proofs.Lowering.Naming
import MiniLang.Proofs.Lowering.Shapes
import MiniLang.Proofs.Typing.Judgement

/-!
# Calls in generated code

Code generation makes one call instruction for each call of the program, and takes its operands from
the arguments. So in the code of what has a typed form all calls fit the signatures under which it
was typed (`ExprTyped.calls`, `AllTyped.calls`).
-/

set_option autoImplicit false

namespace MiniLang.Semantics

open Ir (Instr)
open Lowering

/-- A call is one of a declared function with as many arguments as it takes, and expects a value
only if there is one. -/
def Fits (Φ : List (String × Signature)) : Instr → Prop
  | .call dest callee arguments =>
    ∃ f, Φ.lookup callee = some f ∧ arguments.length = f.params.length ∧
      (f.result = .unit → dest = none)
  | _ => True

/-- All calls in a piece of code fit the given signatures. -/
def CallsFit (Φ : List (String × Signature)) (code : List Instr) : Prop := ∀ i ∈ code, Fits Φ i

section

variable {Φ : List (String × Signature)} {i : Instr} {code before after : List Instr}

@[simp] theorem callsFit_nil : CallsFit Φ [] := by simp [CallsFit]

@[simp] theorem callsFit_cons : CallsFit Φ (i :: code) ↔ Fits Φ i ∧ CallsFit Φ code := by
  simp [CallsFit]

@[simp] theorem callsFit_append :
    CallsFit Φ (before ++ after) ↔ CallsFit Φ before ∧ CallsFit Φ after := by
  simp [CallsFit, or_imp, forall_and]

/-- The code of a function calls no more than that of its body. -/
theorem CallsFit.closed (h : CallsFit Φ code) : CallsFit Φ (closed code) := by
  unfold Lowering.closed
  split
  · exact h
  · simpa [Fits] using h

end

variable {folding : Bool}

theorem lowerExprs_length (ts : List Typed.Expr) :
    ∀ {f f' : Fresh} {vs : List Lowering.Value},
      lowerExprs folding ts f = .ok (vs, f') → vs.length = ts.length := by
  induction ts with
  | nil =>
    intro f f' vs h
    obtain ⟨rfl, -⟩ := lowerExprs_nil.1 h
    rfl
  | cons t ts ih =>
    intro f f' vs h
    obtain ⟨v, f₁, rest, -, hrest, rfl⟩ := lowerExprs_cons.1 h
    simp [ih hrest]

mutual

theorem ExprTyped.calls {Γ : Context} :
    ∀ (e : Expr) {t : Typed.Expr} {f f' : Fresh} {v : Lowering.Value}, ExprTyped Γ e t →
      lowerExpr folding t f = .ok (v, f') → CallsFit Γ.functions v.code
  | .literal .., t, f, f', v, typed, h => by
    cases typed
    obtain ⟨-, rfl, -⟩ := lowerExpr_literal.1 h
    exact callsFit_nil
  | .var .., t, f, f', v, typed, h => by
    cases typed
    obtain ⟨-, place, -, -, rfl⟩ := lowerExpr_var.1 h
    simp [Fits]
  | .binary _ _ op left right, t, f, f', v, typed, h => by
    cases typed with
    | @binary _ _ _ _ _ l r _ typedLeft typedRight =>
      cases folded : folded? folding op l r with
      | some value =>
        obtain ⟨-, rfl, -⟩ := (lowerExpr_binary_folded folded).1 h
        exact callsFit_nil
      | none =>
        cases logical : op.isLogical with
        | false =>
          obtain ⟨-, l, fl, r, fr, hl, hr, -, rfl⟩ := (lowerExpr_binary_strict folded logical).1 h
          simpa [Fits] using ⟨typedLeft.calls left hl, typedRight.calls right hr⟩
        | true =>
          obtain ⟨-, l, fl, r, fr, hl, hr, -, rfl⟩ :=
            (lowerExpr_binary_logical folded logical).1 h
          have left := typedLeft.calls left hl
          have right := typedRight.calls right hr
          cases op with
          | and | or => simpa [shortCircuit, Fits] using ⟨left, right⟩
          | _ => cases logical
  | .unary _ _ _ operand, t, f, f', v, typed, h => by
    cases typed with
    | unary typed =>
      obtain ⟨-, o, fo, ho, -, rfl⟩ := lowerExpr_unary.1 h
      simpa [Fits] using typed.calls operand ho
  | .call _ _ callee _ arguments, t, f, f', v, typed, h => by
    cases typed with
    | @call _ _ _ _ _ _ ts g _ known hs fits =>
      have arity : ts.length = g.params.length := by rw [← fits, List.length_map]
      by_cases unit : g.result = .unit
      · obtain ⟨-, vs, lowered, rfl⟩ := (lowerExpr_call_unit unit).1 h
        have length := lowerExprs_length ts lowered
        simpa [Fits, known, length, arity] using hs.calls arguments lowered
      · obtain ⟨-, -, vs, fs, lowered, -, rfl⟩ := (lowerExpr_call_value unit).1 h
        have length := lowerExprs_length ts lowered
        simpa [Fits, known, length, arity, unit] using hs.calls arguments lowered
  | .assignment _ _ _ _ value, t, f, f', v, typed, h => by
    cases typed with
    | assignment typed =>
      obtain ⟨-, o, place, ho, -, rfl⟩ := lowerExpr_assignment.1 h
      simpa [Fits] using typed.calls value ho

theorem ExprsTyped.calls {Γ : Context} :
    ∀ (es : List Expr) {ts : List Typed.Expr} {f f' : Fresh} {vs : List Lowering.Value},
      ExprsTyped Γ es ts → lowerExprs folding ts f = .ok (vs, f') →
        CallsFit Γ.functions (vs.flatMap Lowering.Value.code)
  | [], ts, f, f', vs, typed, h => by
    cases typed
    obtain ⟨rfl, -⟩ := lowerExprs_nil.1 h
    exact callsFit_nil
  | e :: es, ts, f, f', vs, typed, h => by
    cases typed with
    | cons first rest =>
      obtain ⟨v, f₁, vs', hv, hrest, rfl⟩ := lowerExprs_cons.1 h
      simpa using ⟨first.calls e hv, rest.calls es hrest⟩

end

mutual

theorem StmtTyped.calls :
    ∀ (s : Stmt) {t : Typed.Stmt} {Γ : Context} {expected : Option Ty} {f f' : Fresh}
      {code : List Instr}, StmtTyped Γ expected s t → lowerStmt folding t f = .ok (code, f') →
        CallsFit Γ.functions code
  | .ifThen _ condition body, t, Γ, expected, f, f', code, typed, h => by
    cases typed with
    | ifThen _ typedCondition _ typedBody =>
      obtain ⟨-, c, fc, yes, hc, hy, rfl⟩ := lowerStmt_ifThen.1 h
      simpa [choice, Fits] using ⟨typedCondition.calls condition hc, typedBody.calls body hy⟩
  | .ifThenElse _ condition body elseBranch, t, Γ, expected, f, f', code, typed, h => by
    cases typed with
    | ifThenElse _ typedCondition _ typedBody typedElse =>
      obtain ⟨-, c, fc, yes, fy, no, hc, hy, hn, rfl⟩ := lowerStmt_ifThenElse.1 h
      simpa [choiceElse, Fits] using ⟨typedCondition.calls condition hc, typedBody.calls body hy,
        typedElse.calls elseBranch hn⟩
  | .whileLoop _ condition body, t, Γ, expected, f, f', code, typed, h => by
    cases typed with
    | whileLoop _ typedCondition _ typedBody =>
      obtain ⟨-, c, fc, round, hc, hb, rfl⟩ := lowerStmt_whileLoop.1 h
      simpa [loop, Fits] using ⟨typedCondition.calls condition hc, typedBody.calls body hb⟩
  | .block inner, t, Γ, expected, f, f', code, typed, h => by
    cases typed with
    | block _ typed => exact typed.calls inner (lowerStmt_block.1 h).2
  | .expression _ value, t, Γ, expected, f, f', code, typed, h => by
    cases typed with
    | expression _ typed =>
      obtain ⟨-, v, hv, rfl⟩ := lowerStmt_expression.1 h
      exact typed.calls value hv
  | .ret _ none, t, Γ, expected, f, f', code, typed, h => by
    cases typed
    obtain ⟨-, rfl, -⟩ := lowerStmt_ret_none.1 h
    simp [Fits]
  | .ret _ (some value), t, Γ, expected, f, f', code, typed, h => by
    cases typed with
    | giveBack _ typed =>
      obtain ⟨-, v, hv, rfl⟩ := lowerStmt_ret_some.1 h
      simpa [Fits] using typed.calls value hv
  | .letVar .., t, Γ, expected, f, f', code, typed, h => by cases typed
  | .function .., t, Γ, expected, f, f', code, typed, h => by cases typed
  | .error .., t, Γ, expected, f, f', code, typed, h => by cases typed

theorem BlockTyped.calls :
    ∀ (b : Block) {t : Typed.Block} {Γ : Context} {expected : Option Ty} {f f' : Fresh}
      {code : List Instr}, BlockTyped Γ expected b t → lowerBlock folding t f = .ok (code, f') →
        CallsFit Γ.functions code
  | .mk _ _ body, t, Γ, expected, f, f', code, typed, h => by
    cases typed with
    | mk _ _ typed =>
      rw [lowerBlock_eq] at h
      exact typed.calls body h

/-- Functions among the statements have their code elsewhere. -/
theorem AllTyped.calls :
    ∀ (ss : List Stmt) {ts : List Typed.Stmt} {Γ Γ' : Context} {expected : Option Ty} {f f' : Fresh}
      {code : List Instr}, AllTyped Γ expected ss ts Γ' → lowerAll folding ts f = .ok (code, f') →
        CallsFit Γ.functions code
  | [], ts, Γ, Γ', expected, f, f', code, typed, h => by
    cases typed
    obtain ⟨rfl, -⟩ := lowerAll_nil.1 h
    exact callsFit_nil
  | s :: ss, ts, Γ, Γ', expected, f, f', code, typed, h => by
    cases typed with
    | @letVar _ _ _ _ _ _ _ _ value _ _ _ _ _ _ _ typedValue _ _ rest =>
      obtain ⟨first, f₁, others, hfirst, hothers, rfl⟩ := lowerAll_cons.1 h
      obtain ⟨-, v, place, hv, -, rfl⟩ := lowerStmt_letVar.1 hfirst
      have later := rest.calls ss hothers
      rw [Context.functions_declare] at later
      simpa [Fits] using ⟨typedValue.calls value hv, later⟩
    | function _ _ _ _ _ rest =>
      obtain ⟨first, f₁, others, hfirst, hothers, rfl⟩ := lowerAll_cons.1 h
      obtain ⟨-, rfl, -⟩ := lowerStmt_function.1 hfirst
      exact rest.calls ss hothers
    | statement typed rest =>
      obtain ⟨first, f₁, others, hfirst, hothers, rfl⟩ := lowerAll_cons.1 h
      simpa using ⟨typed.calls s hfirst, rest.calls ss hothers⟩

end

end MiniLang.Semantics
