import MiniLang.Proofs.Ir.Reading
import MiniLang.Proofs.Lowering.Naming
import MiniLang.Proofs.Lowering.Shapes
import MiniLang.Proofs.Syntax.Printing
import MiniLang.Proofs.Typing.Judgement

/-!
# Names in generated code

The names in generated code are the names of the program, perhaps with a number, and the labels and
slots that code generation makes up. None of them has a character in it that ends a word
(`ExprTyped.plain`, `AllTyped.plain`).
-/

set_option autoImplicit false

namespace MiniLang

open Ir (Instr Place IsWord Solid isGap)

/-- Names are words. -/
theorem IsName.isWord {name : String} (h : IsName name) : IsWord name := by
  have free {c : Char} (part : LexemeClass.isNamePart c = true) : isGap c = false :=
    Ir.isGap_eq_false (by decide) part
  obtain ⟨c, cs, chars, start, parts, -⟩ := h
  constructor
  · rintro rfl
    cases chars
  · rw [Ir.Free, chars]
    exact List.forall_mem_cons.2
      ⟨free (Bool.or_eq_true_iff.2 (.inl start)), fun d mem => free (parts d mem)⟩

namespace Stmt

/-- Statements that are no functions can stand anywhere. -/
theorem printable_of_top {s : Stmt} (h : s.TopPrintable) (noFunction : s.function? = none) :
    s.Printable := by
  cases s with
  | function => cases noFunction
  | _ => exact h

theorem topPrintable_of_allPrintable {ss : List Stmt} (h : AllPrintable ss) :
    ∀ s ∈ ss, s.TopPrintable := by
  induction ss with
  | nil => exact List.forall_mem_nil _
  | cons s ss ih =>
    refine List.forall_mem_cons.2 ⟨?_, ih h.2⟩
    cases s with
    | function => exact h.1.elim
    | _ => exact h.1

end Stmt

namespace Lowering

/-- A piece of code in which all names are words. -/
def Plain (code : List Instr) : Prop := ∀ i ∈ code, ∀ name ∈ i.names, IsWord name

section

variable {i : Instr} {code before after : List Instr}

@[simp] theorem plain_nil : Plain [] := by simp [Plain]

@[simp] theorem plain_cons : Plain (i :: code) ↔ (∀ name ∈ i.names, IsWord name) ∧ Plain code := by
  simp [Plain]

@[simp] theorem plain_append : Plain (before ++ after) ↔ Plain before ∧ Plain after := by
  simp [Plain, or_imp, forall_and]

theorem Plain.closed (h : Plain code) : Plain (closed code) := by
  unfold Lowering.closed
  split
  · exact h
  · simpa [Instr.names] using h

end

section

variable {text name : String} {n : Nat}

/-- A word with a number is a word. -/
theorem isWord_numbered (h : IsWord text) (n : Nat) : IsWord (numbered text n) := by
  have digits : Ir.Free isGap (toString n) := by
    simpa [Ir.Free] using fun c => Ir.isGap_of_mem_toDigits
  exact (h.append (by decide)).append digits

theorem isWord_label {construct part : String} (h : IsWord (construct ++ "." ++ part)) (n : Nat) :
    IsWord (label construct part n) := isWord_numbered h n

theorem isWord_slot (op : BinaryOp) (n : Nat) : IsWord (slot op n).name := by
  have word : IsWord ("$" ++ shortName op) := by cases op <;> decide
  exact isWord_numbered word n

theorem isWord_placeFor (isName : IsName name) (scope : ScopeId) :
    IsWord (placeFor scope name).name := by
  unfold placeFor
  split
  · exact isName.isWord
  · exact isWord_numbered isName.isWord scope

theorem isWord_placeOf {ref : SymbolRef} {span : Span} {place : Place} (isName : IsName name)
    (h : placeOf (some ref) name span = .ok place) : IsWord place.name := by
  rw [placeOf_eq] at h
  cases h
  exact isWord_placeFor isName ref.scope

end

section

variable {left right condition : Value} {thenCode elseCode body : List Instr}

theorem Plain.shortCircuit (op : BinaryOp) (number : Nat) (hl : Plain left.code)
    (hr : Plain right.code) (dest : Ir.Temp) :
    Plain (shortCircuit op number left right dest).code := by
  have rhs : IsWord (label (shortName op) "rhs" number) := by
    refine isWord_label ?_ number
    cases op <;> decide
  have done : IsWord (label (shortName op) "end" number) := by
    refine isWord_label ?_ number
    cases op <;> decide
  have slot := isWord_slot op number
  cases op <;> simp [Lowering.shortCircuit, Instr.names, hl, hr, rhs, done, slot]

theorem Plain.choice (number : Nat) (hc : Plain condition.code) (ht : Plain thenCode) :
    Plain (choice number condition thenCode) := by
  have test : IsWord (label "if" "cond" number) := isWord_label (by decide) number
  have yes : IsWord (label "if" "then" number) := isWord_label (by decide) number
  have done : IsWord (label "if" "end" number) := isWord_label (by decide) number
  simp [Lowering.choice, Instr.names, hc, ht, test, yes, done]

theorem Plain.choiceElse (number : Nat) (hc : Plain condition.code) (ht : Plain thenCode)
    (he : Plain elseCode) : Plain (choiceElse number condition thenCode elseCode) := by
  have test : IsWord (label "if" "cond" number) := isWord_label (by decide) number
  have yes : IsWord (label "if" "then" number) := isWord_label (by decide) number
  have no : IsWord (label "if" "else" number) := isWord_label (by decide) number
  have done : IsWord (label "if" "end" number) := isWord_label (by decide) number
  simp [Lowering.choiceElse, Instr.names, hc, ht, he, test, yes, no, done]

theorem Plain.loop (number : Nat) (hc : Plain condition.code) (hb : Plain body) :
    Plain (loop number condition body) := by
  have test : IsWord (label "while" "cond" number) := isWord_label (by decide) number
  have round : IsWord (label "while" "body" number) := isWord_label (by decide) number
  have done : IsWord (label "while" "end" number) := isWord_label (by decide) number
  simp [Lowering.loop, Instr.names, hc, hb, test, round, done]

end

end Lowering

namespace Semantics

open Lowering

variable {folding : Bool}

mutual

/-- All names in the code of an expression are words. -/
theorem ExprTyped.plain {Γ : Context} :
    ∀ (e : Expr) {t : Typed.Expr} {f f' : Fresh} {v : Lowering.Value}, ExprTyped Γ e t →
      e.Printable → lowerExpr folding t f = .ok (v, f') → Plain v.code
  | .literal .., t, f, f', v, typed, printable, h => by
    cases typed
    obtain ⟨-, rfl, -⟩ := lowerExpr_literal.1 h
    exact plain_nil
  | .var .., t, f, f', v, typed, printable, h => by
    cases typed
    obtain ⟨-, place, placed, -, rfl⟩ := lowerExpr_var.1 h
    simpa [Instr.names] using isWord_placeOf printable placed
  | .binary _ _ op left right, t, f, f', v, typed, printable, h => by
    cases typed with
    | @binary _ _ _ _ _ l r _ typedLeft typedRight =>
      cases folded : folded? folding op l r with
      | some value =>
        obtain ⟨-, rfl, -⟩ := (lowerExpr_binary_folded folded).1 h
        exact plain_nil
      | none =>
        cases logical : op.isLogical with
        | false =>
          obtain ⟨-, l, fl, r, fr, hl, hr, -, rfl⟩ := (lowerExpr_binary_strict folded logical).1 h
          simpa [Instr.names] using
            ⟨typedLeft.plain left printable.1 hl, typedRight.plain right printable.2 hr⟩
        | true =>
          obtain ⟨-, l, fl, r, fr, hl, hr, -, rfl⟩ :=
            (lowerExpr_binary_logical folded logical).1 h
          exact .shortCircuit op _ (typedLeft.plain left printable.1 hl)
            (typedRight.plain right printable.2 hr) _
  | .unary _ _ _ operand, t, f, f', v, typed, printable, h => by
    cases typed with
    | unary typed =>
      obtain ⟨-, o, fo, ho, -, rfl⟩ := lowerExpr_unary.1 h
      simpa [Instr.names] using typed.plain operand printable ho
  | .call _ _ callee _ arguments, t, f, f', v, typed, printable, h => by
    cases typed with
    | @call _ _ _ _ _ _ ts g _ known hs fits =>
      obtain ⟨isName, printable⟩ := printable
      by_cases unit : g.result = .unit
      · obtain ⟨-, vs, lowered, rfl⟩ := (lowerExpr_call_unit unit).1 h
        simpa [Instr.names] using ⟨hs.plain arguments printable lowered, isName.isWord⟩
      · obtain ⟨-, -, vs, fs, lowered, -, rfl⟩ := (lowerExpr_call_value unit).1 h
        simpa [Instr.names] using ⟨hs.plain arguments printable lowered, isName.isWord⟩
  | .assignment _ _ _ _ value, t, f, f', v, typed, printable, h => by
    cases typed with
    | assignment typed =>
      obtain ⟨-, o, place, ho, placed, rfl⟩ := lowerExpr_assignment.1 h
      simpa [Instr.names] using
        ⟨typed.plain value printable.2 ho, isWord_placeOf printable.1 placed⟩

theorem ExprsTyped.plain {Γ : Context} :
    ∀ (es : List Expr) {ts : List Typed.Expr} {f f' : Fresh} {vs : List Lowering.Value},
      ExprsTyped Γ es ts → Expr.AllPrintable es → lowerExprs folding ts f = .ok (vs, f') →
        Plain (vs.flatMap Lowering.Value.code)
  | [], ts, f, f', vs, typed, printable, h => by
    cases typed
    obtain ⟨rfl, -⟩ := lowerExprs_nil.1 h
    exact plain_nil
  | e :: es, ts, f, f', vs, typed, printable, h => by
    cases typed with
    | cons first rest =>
      obtain ⟨v, f₁, vs', hv, hrest, rfl⟩ := lowerExprs_cons.1 h
      simpa using ⟨first.plain e printable.1 hv, rest.plain es printable.2 hrest⟩

end

mutual

/-- All names in the code of a statement are words. -/
theorem StmtTyped.plain :
    ∀ (s : Stmt) {t : Typed.Stmt} {Γ : Context} {expected : Option Ty} {f f' : Fresh}
      {code : List Instr}, StmtTyped Γ expected s t → s.Printable →
        lowerStmt folding t f = .ok (code, f') → Plain code
  | .ifThen _ condition body, t, Γ, expected, f, f', code, typed, printable, h => by
    cases typed with
    | ifThen _ typedCondition _ typedBody =>
      obtain ⟨-, c, fc, yes, hc, hy, rfl⟩ := lowerStmt_ifThen.1 h
      exact .choice _ (typedCondition.plain condition printable.1 hc)
        (typedBody.plain body printable.2 hy)
  | .ifThenElse _ condition body elseBranch, t, Γ, expected, f, f', code, typed, printable, h => by
    cases typed with
    | ifThenElse _ typedCondition _ typedBody typedElse =>
      obtain ⟨-, c, fc, yes, fy, no, hc, hy, hn, rfl⟩ := lowerStmt_ifThenElse.1 h
      obtain ⟨first, second, -, third⟩ := printable
      exact .choiceElse _ (typedCondition.plain condition first hc)
        (typedBody.plain body second hy) (typedElse.plain elseBranch third hn)
  | .whileLoop _ condition body, t, Γ, expected, f, f', code, typed, printable, h => by
    cases typed with
    | whileLoop _ typedCondition _ typedBody =>
      obtain ⟨-, c, fc, round, hc, hb, rfl⟩ := lowerStmt_whileLoop.1 h
      exact .loop _ (typedCondition.plain condition printable.1 hc)
        (typedBody.plain body printable.2 hb)
  | .block inner, t, Γ, expected, f, f', code, typed, printable, h => by
    cases typed with
    | block _ typed => exact typed.plain inner printable (lowerStmt_block.1 h).2
  | .expression _ value, t, Γ, expected, f, f', code, typed, printable, h => by
    cases typed with
    | expression _ typed =>
      obtain ⟨-, v, hv, rfl⟩ := lowerStmt_expression.1 h
      exact typed.plain value printable hv
  | .ret _ none, t, Γ, expected, f, f', code, typed, printable, h => by
    cases typed
    obtain ⟨-, rfl, -⟩ := lowerStmt_ret_none.1 h
    simp [Instr.names]
  | .ret _ (some value), t, Γ, expected, f, f', code, typed, printable, h => by
    cases typed with
    | giveBack _ typed =>
      obtain ⟨-, v, hv, rfl⟩ := lowerStmt_ret_some.1 h
      simpa [Instr.names] using typed.plain value printable hv
  | .letVar .., t, Γ, expected, f, f', code, typed, printable, h => by cases typed
  | .function .., t, Γ, expected, f, f', code, typed, printable, h => by cases typed
  | .error .., t, Γ, expected, f, f', code, typed, printable, h => by cases typed

theorem BlockTyped.plain :
    ∀ (b : Block) {t : Typed.Block} {Γ : Context} {expected : Option Ty} {f f' : Fresh}
      {code : List Instr}, BlockTyped Γ expected b t → Stmt.BlockPrintable b →
        lowerBlock folding t f = .ok (code, f') → Plain code
  | .mk _ _ body, t, Γ, expected, f, f', code, typed, printable, h => by
    cases typed with
    | mk _ _ typed =>
      rw [lowerBlock_eq] at h
      exact typed.plain body (Stmt.topPrintable_of_allPrintable printable) h

/-- Functions among the statements have their code elsewhere. -/
theorem AllTyped.plain :
    ∀ (ss : List Stmt) {ts : List Typed.Stmt} {Γ Γ' : Context} {expected : Option Ty} {f f' : Fresh}
      {code : List Instr}, AllTyped Γ expected ss ts Γ' → (∀ s ∈ ss, s.TopPrintable) →
        lowerAll folding ts f = .ok (code, f') → Plain code
  | [], ts, Γ, Γ', expected, f, f', code, typed, printable, h => by
    cases typed
    obtain ⟨rfl, -⟩ := lowerAll_nil.1 h
    exact plain_nil
  | s :: ss, ts, Γ, Γ', expected, f, f', code, typed, printable, h => by
    obtain ⟨here, later⟩ := List.forall_mem_cons.1 printable
    cases typed with
    | @letVar _ _ _ _ _ _ _ _ value _ _ _ _ _ isName _ typedValue _ _ rest =>
      obtain ⟨first, f₁, others, hfirst, hothers, rfl⟩ := lowerAll_cons.1 h
      obtain ⟨-, v, place, hv, placed, rfl⟩ := lowerStmt_letVar.1 hfirst
      simpa [Instr.names] using ⟨typedValue.plain value here.2 hv, isWord_placeOf isName placed,
        rest.plain ss later hothers⟩
    | function _ _ _ _ _ rest =>
      obtain ⟨first, f₁, others, hfirst, hothers, rfl⟩ := lowerAll_cons.1 h
      obtain ⟨-, rfl, -⟩ := lowerStmt_function.1 hfirst
      exact rest.plain ss later hothers
    | statement typed rest =>
      obtain ⟨first, f₁, others, hfirst, hothers, rfl⟩ := lowerAll_cons.1 h
      have printable := Stmt.printable_of_top here typed.no_function.1
      simpa using ⟨typed.plain s printable hfirst, rest.plain ss later hothers⟩

end

end Semantics

end MiniLang
