import MiniLang.Proofs.Lowering.Naming
import MiniLang.Proofs.Lowering.Shapes

/-!
# Numbers and labels of generated code

Code generation hands out numbers in ascending order. So the labels of the code of any part of a
program are distinct and carry the numbers that were handed out for it (`lowerExpr_emits`,
`lowerStmt_emits`), and the value of an expression is found in a constant or in a temporary that was
handed out already. The code of an expression never leaves its function; code of a statement that
ends with a `return` belongs to a statement that control does not get past
(`lowerStmt_returns`).
-/

set_option autoImplicit false

namespace MiniLang.Lowering

open Ir

/-- An operand that reads no temporary from `n` on. -/
def Below (n : Nat) : Operand → Prop
  | .const _ => True
  | .temp t => t < n

theorem Below.mono {n m : Nat} {o : Operand} (h : Below n o) (le : n ≤ m) : Below m o := by
  cases o with
  | const value => trivial
  | temp t => exact Nat.lt_of_lt_of_le h le

/-- What numbers and labels a piece of code uses that is generated between two states. -/
structure Emits (f : Fresh) (code : List Instr) (f' : Fresh) : Prop where
  temps : f.temp ≤ f'.temp
  numbers : f.label ≤ f'.label
  labels : LabelsWithin f.label f'.label code

namespace Emits

variable {f f₁ f' : Fresh} {code before after : List Instr}

/-- Code without labels that leaves the label numbers alone. -/
theorem of_noLabels (temps : f.temp ≤ f'.temp) (same : f'.label = f.label)
    (h : labelsOf code = []) : Emits f code f' :=
  ⟨temps, same.ge, .of_nil h⟩

theorem append (h : Emits f before f₁) (h' : Emits f₁ after f') : Emits f (before ++ after) f' :=
  ⟨h.temps.trans h'.temps, h.numbers.trans h'.numbers,
    h.labels.append h'.labels h.numbers h'.numbers⟩

/-- Instructions without labels after the code change nothing. -/
theorem snoc (h : Emits f code f') {more : List Instr} (none : labelsOf more = []) :
    Emits f (code ++ more) f' :=
  h.append (.of_noLabels le_rfl rfl none)

/-- More temporaries may be used up. -/
theorem moreTemps (h : Emits f code f') (n : Nat) :
    Emits f code { f' with temp := f'.temp + n } :=
  ⟨h.temps.trans (Nat.le_add_right ..), h.numbers, h.labels⟩

end Emits

/-- The code of a construct that draws a number of its own before its parts draw theirs: besides the
labels of the parts it has some with its own number, whose texts differ. -/
theorem LabelsWithin.own {n hi : Nat} {code inner : List Instr} {texts : List String}
    (h : LabelsWithin (n + 1) hi inner) (le : n + 1 ≤ hi) (distinct : texts.Nodup)
    (perm : (labelsOf code).Perm (texts.map (numbered · n) ++ labelsOf inner)) :
    LabelsWithin n hi code := by
  constructor
  · rw [perm.nodup_iff, List.nodup_append]
    refine ⟨distinct.map fun a b same => (numbered_inj.1 same).1, h.nodup, ?_⟩
    intro l own l' mem same
    obtain ⟨text, -, rfl⟩ := List.mem_map.1 own
    subst same
    exact h.notMem (.inl (Nat.lt_succ_self n)) mem
  · intro l mem
    rcases List.mem_append.1 (perm.mem_iff.1 mem) with own | mem
    · obtain ⟨text, -, rfl⟩ := List.mem_map.1 own
      exact ⟨text, n, rfl, le_rfl, le⟩
    · exact (h.widen (Nat.le_succ n) le_rfl).numbers l mem

/-- Where control goes after the left operand of an operator that may skip the right one. -/
def skipping (op : BinaryOp) (number : Nat) (left : Operand) : Instr :=
  match op with
  | .and => .branch left (label (shortName op) "rhs" number) (label (shortName op) "end" number)
  | _ => .branch left (label (shortName op) "end" number) (label (shortName op) "rhs" number)

theorem label?_skipping (op : BinaryOp) (number : Nat) (left : Operand) :
    (skipping op number left).label? = none := by
  unfold skipping
  split <;> rfl

theorem isReturn_skipping (op : BinaryOp) (number : Nat) (left : Operand) :
    (skipping op number left).isReturn = false := by
  unfold skipping
  split <;> rfl

theorem shortCircuit_code (op : BinaryOp) (number : Nat) (l r : Value) (dest : Temp) :
    (shortCircuit op number l r dest).code =
      l.code ++ [.store (slot op number) l.operand, skipping op number l.operand,
        .label (label (shortName op) "rhs" number)] ++
      r.code ++ [.store (slot op number) r.operand, .jump (label (shortName op) "end" number),
        .label (label (shortName op) "end" number), .load dest (slot op number)] := rfl

theorem labelsOf_shortCircuit (op : BinaryOp) (number : Nat) (l r : Value) (dest : Temp) :
    labelsOf (shortCircuit op number l r dest).code =
      labelsOf l.code ++ [label (shortName op) "rhs" number] ++ labelsOf r.code ++
        [label (shortName op) "end" number] := by
  have middle : labelsOf [.store (slot op number) l.operand, skipping op number l.operand,
      .label (label (shortName op) "rhs" number)] = [label (shortName op) "rhs" number] := by
    rw [labelsOf_cons, labelsOf_cons, label?_skipping]
    rfl
  rw [shortCircuit_code, labelsOf_append, labelsOf_append, labelsOf_append, middle]
  rfl

section

variable {f fl fr : Fresh}

theorem emits_shortCircuit {op : BinaryOp} {l r : Value} {dest : Temp}
    (hl : Emits { f with label := f.label + 1 } l.code fl) (hr : Emits fl r.code fr) :
    Emits f (shortCircuit op f.label l r dest).code fr := by
  have inner := hl.append hr
  have distinct : [shortName op ++ "." ++ "rhs", shortName op ++ "." ++ "end"].Nodup := by simp
  refine ⟨inner.temps, (Nat.le_succ _).trans inner.numbers,
    inner.labels.own inner.numbers distinct ?_⟩
  rw [List.perm_iff_count, labelsOf_shortCircuit]
  intro l
  simp [label_eq_numbered, List.count_cons]
  omega

theorem emits_choice {c : Value} {yes : List Instr}
    (hc : Emits { f with label := f.label + 1 } c.code fl) (hy : Emits fl yes fr) :
    Emits f (choice f.label c yes) fr := by
  have inner := hc.append hy
  have distinct : ["if.cond", "if.then", "if.end"].Nodup := by decide
  refine ⟨inner.temps, (Nat.le_succ _).trans inner.numbers,
    inner.labels.own inner.numbers distinct ?_⟩
  rw [List.perm_iff_count]
  intro l
  simp [choice, label_eq_numbered, labelsOf_cons, Instr.label?, List.count_cons]
  omega

theorem emits_choiceElse {fy : Fresh} {c : Value} {yes no : List Instr}
    (hc : Emits { f with label := f.label + 1 } c.code fl) (hy : Emits fl yes fy)
    (hn : Emits fy no fr) : Emits f (choiceElse f.label c yes no) fr := by
  have inner := (hc.append hy).append hn
  have distinct : ["if.cond", "if.then", "if.else", "if.end"].Nodup := by decide
  refine ⟨inner.temps, (Nat.le_succ _).trans inner.numbers,
    inner.labels.own inner.numbers distinct ?_⟩
  rw [List.perm_iff_count]
  intro l
  simp [choiceElse, label_eq_numbered, labelsOf_cons, Instr.label?, List.count_cons]
  omega

theorem emits_loop {c : Value} {body : List Instr}
    (hc : Emits { f with label := f.label + 1 } c.code fl) (hb : Emits fl body fr) :
    Emits f (loop f.label c body) fr := by
  have inner := hc.append hb
  have distinct : ["while.cond", "while.body", "while.end"].Nodup := by decide
  refine ⟨inner.temps, (Nat.le_succ _).trans inner.numbers,
    inner.labels.own inner.numbers distinct ?_⟩
  rw [List.perm_iff_count]
  intro l
  simp [loop, label_eq_numbered, labelsOf_cons, Instr.label?, List.count_cons]
  omega

end

/-- What code generation for an expression promises about its result. -/
structure EmitsValue (f : Fresh) (v : Value) (f' : Fresh) : Prop where
  code : Emits f v.code f'
  operand : Below f'.temp v.operand
  noReturn : ∀ i ∈ v.code, i.isReturn = false

/-- Code of operands followed by one instruction that writes a fresh temporary. -/
theorem Emits.value_snoc {f f' : Fresh} {code : List Instr} {i : Instr} (h : Emits f code f')
    (noReturn : ∀ i ∈ code, i.isReturn = false) (label : i.label? = none)
    (plain : i.isReturn = false) :
    EmitsValue f ⟨code ++ [i], .temp f'.temp⟩ { f' with temp := f'.temp + 1 } := by
  refine ⟨(h.snoc (by simp [labelsOf, label])).moreTemps 1, Nat.lt_succ_self _, fun j mem => ?_⟩
  rcases List.mem_append.1 mem with mem | mem
  · exact noReturn j mem
  · obtain rfl := List.mem_singleton.1 mem
    exact plain

mutual

theorem lowerExpr_emits {folding : Bool} :
    ∀ (t : Typed.Expr) {f f' : Fresh} {v : Value}, lowerExpr folding t f = .ok (v, f') →
      EmitsValue f v f'
  | .literal info value, f, f', v, h => by
    obtain ⟨-, rfl, rfl⟩ := lowerExpr_literal.1 h
    exact ⟨.of_noLabels le_rfl rfl rfl, trivial, by simp⟩
  | .var info name symbol, f, f', v, h => by
    obtain ⟨-, place, -, rfl, rfl⟩ := lowerExpr_var.1 h
    have nothing : Emits f [] f := .of_noLabels le_rfl rfl rfl
    exact nothing.value_snoc (by simp) rfl rfl
  | .binary info op left right, f, f', v, h => by
    cases folded : folded? folding op left right with
    | some value =>
      obtain ⟨-, rfl, rfl⟩ := (lowerExpr_binary_folded folded).1 h
      exact ⟨.of_noLabels le_rfl rfl rfl, trivial, by simp⟩
    | none =>
      cases logical : op.isLogical with
      | false =>
        obtain ⟨-, l, fl, r, fr, hl, hr, rfl, rfl⟩ :=
          (lowerExpr_binary_strict folded logical).1 h
        have left := lowerExpr_emits left hl
        have right := lowerExpr_emits right hr
        refine (left.code.append right.code).value_snoc ?_ rfl rfl
        intro i mem
        exact (List.mem_append.1 mem).elim (left.noReturn i) (right.noReturn i)
      | true =>
        obtain ⟨-, l, fl, r, fr, hl, hr, rfl, rfl⟩ :=
          (lowerExpr_binary_logical folded logical).1 h
        have left := lowerExpr_emits left hl
        have right := lowerExpr_emits right hr
        refine ⟨(emits_shortCircuit left.code right.code).moreTemps 1, Nat.lt_succ_self _, ?_⟩
        intro i mem
        simp only [shortCircuit_code, List.mem_append, List.mem_cons, List.not_mem_nil,
          or_false] at mem
        rcases mem with ((mem | rfl | rfl | rfl) | mem) | rfl | rfl | rfl | rfl
        · exact left.noReturn i mem
        · rfl
        · exact isReturn_skipping ..
        · rfl
        · exact right.noReturn i mem
        all_goals rfl
  | .unary info op operand, f, f', v, h => by
    obtain ⟨-, o, fo, ho, rfl, rfl⟩ := lowerExpr_unary.1 h
    have operand := lowerExpr_emits operand ho
    exact operand.code.value_snoc operand.noReturn rfl rfl
  | .call info callee symbol arguments, f, f', v, h => by
    by_cases unit : info.type = .unit
    · obtain ⟨-, vs, hs, rfl⟩ := (lowerExpr_call_unit unit).1 h
      obtain ⟨code, -, noReturn⟩ := lowerExprs_emits arguments hs
      refine ⟨code.snoc rfl, trivial, fun i mem => ?_⟩
      rcases List.mem_append.1 mem with mem | mem
      · exact noReturn i mem
      · obtain rfl := List.mem_singleton.1 mem
        rfl
    · obtain ⟨-, -, vs, fs, hs, rfl, rfl⟩ := (lowerExpr_call_value unit).1 h
      obtain ⟨code, -, noReturn⟩ := lowerExprs_emits arguments hs
      exact code.value_snoc noReturn rfl rfl
  | .assignment info target symbol value, f, f', v, h => by
    obtain ⟨-, o, place, ho, -, rfl⟩ := lowerExpr_assignment.1 h
    have value := lowerExpr_emits value ho
    refine ⟨value.code.snoc rfl, value.operand, fun i mem => ?_⟩
    rcases List.mem_append.1 mem with mem | mem
    · exact value.noReturn i mem
    · obtain rfl := List.mem_singleton.1 mem
      rfl

theorem lowerExprs_emits {folding : Bool} :
    ∀ (ts : List Typed.Expr) {f f' : Fresh} {vs : List Value},
      lowerExprs folding ts f = .ok (vs, f') →
        Emits f (vs.flatMap Value.code) f' ∧ (∀ v ∈ vs, Below f'.temp v.operand) ∧
          ∀ i ∈ vs.flatMap Value.code, i.isReturn = false
  | [], f, f', vs, h => by
    obtain ⟨rfl, rfl⟩ := lowerExprs_nil.1 h
    exact ⟨.of_noLabels le_rfl rfl rfl, by simp, by simp⟩
  | t :: ts, f, f', vs, h => by
    obtain ⟨v, f₁, rest, hv, hrest, rfl⟩ := lowerExprs_cons.1 h
    have first := lowerExpr_emits t hv
    obtain ⟨code, operands, noReturn⟩ := lowerExprs_emits ts hrest
    refine ⟨?_, ?_, ?_⟩
    · rw [List.flatMap_cons]
      exact first.code.append code
    · intro w mem
      rcases List.mem_cons.1 mem with rfl | mem
      · exact first.operand.mono code.temps
      · exact operands w mem
    · intro i mem
      rw [List.flatMap_cons] at mem
      exact (List.mem_append.1 mem).elim (first.noReturn i) (noReturn i)

end

mutual

theorem lowerStmt_emits {folding : Bool} :
    ∀ (t : Typed.Stmt) {f f' : Fresh} {code : List Instr},
      lowerStmt folding t f = .ok (code, f') → Emits f code f'
  | .letVar span name symbol type value, f, f', code, h => by
    obtain ⟨-, v, place, hv, -, rfl⟩ := lowerStmt_letVar.1 h
    exact (lowerExpr_emits value hv).code.snoc rfl
  | .ifThen span condition thenBlock, f, f', code, h => by
    obtain ⟨-, c, fc, yes, hc, hy, rfl⟩ := lowerStmt_ifThen.1 h
    exact emits_choice (lowerExpr_emits condition hc).code (lowerBlock_emits thenBlock hy)
  | .ifThenElse span condition thenBlock elseBranch, f, f', code, h => by
    obtain ⟨-, c, fc, yes, fy, no, hc, hy, hn, rfl⟩ := lowerStmt_ifThenElse.1 h
    exact emits_choiceElse (lowerExpr_emits condition hc).code (lowerBlock_emits thenBlock hy)
      (lowerStmt_emits elseBranch hn)
  | .whileLoop span condition body, f, f', code, h => by
    obtain ⟨-, c, fc, round, hc, hb, rfl⟩ := lowerStmt_whileLoop.1 h
    exact emits_loop (lowerExpr_emits condition hc).code (lowerBlock_emits body hb)
  | .block b, f, f', code, h => lowerBlock_emits b (lowerStmt_block.1 h).2
  | .expression span value, f, f', code, h => by
    obtain ⟨-, v, hv, rfl⟩ := lowerStmt_expression.1 h
    exact (lowerExpr_emits value hv).code
  | .function span header body, f, f', code, h => by
    obtain ⟨-, rfl, rfl⟩ := lowerStmt_function.1 h
    exact .of_noLabels le_rfl rfl rfl
  | .ret span none, f, f', code, h => by
    obtain ⟨-, rfl, rfl⟩ := lowerStmt_ret_none.1 h
    exact .of_noLabels le_rfl rfl rfl
  | .ret span (some value), f, f', code, h => by
    obtain ⟨-, v, hv, rfl⟩ := lowerStmt_ret_some.1 h
    exact (lowerExpr_emits value hv).code.snoc rfl
  | .error span, f, f', code, h => absurd h lowerStmt_error

theorem lowerBlock_emits {folding : Bool} :
    ∀ (t : Typed.Block) {f f' : Fresh} {code : List Instr},
      lowerBlock folding t f = .ok (code, f') → Emits f code f'
  | .mk scope span body, f, f', code, h => by
    rw [lowerBlock_eq] at h
    exact lowerAll_emits body h

theorem lowerAll_emits {folding : Bool} :
    ∀ (ts : List Typed.Stmt) {f f' : Fresh} {code : List Instr},
      lowerAll folding ts f = .ok (code, f') → Emits f code f'
  | [], f, f', code, h => by
    obtain ⟨rfl, rfl⟩ := lowerAll_nil.1 h
    exact .of_noLabels le_rfl rfl rfl
  | t :: ts, f, f', code, h => by
    obtain ⟨first, f₁, rest, hfirst, hrest, rfl⟩ := lowerAll_cons.1 h
    exact (lowerStmt_emits t hfirst).append (lowerAll_emits ts hrest)

end

/-- Whether code ends with a `return`. -/
def endsInReturn (code : List Instr) : Bool := (code.getLast?.map Instr.isReturn).getD false

theorem endsInReturn_snoc (code : List Instr) (i : Instr) :
    endsInReturn (code ++ [i]) = i.isReturn := by
  simp [endsInReturn]

theorem endsInReturn_append (a b : List Instr) :
    endsInReturn (a ++ b) = if b = [] then endsInReturn a else endsInReturn b := by
  split
  next empty => simp [empty]
  next nonempty =>
    obtain ⟨i, last⟩ := Option.ne_none_iff_exists'.1 (mt List.getLast?_eq_none_iff.1 nonempty)
    simp [endsInReturn, last]

theorem endsInReturn_choice (number : Nat) (c : Value) (yes : List Instr) :
    endsInReturn (choice number c yes) = false := by
  rw [choice, endsInReturn_append, if_neg (List.cons_ne_nil _ _)]
  rfl

theorem endsInReturn_choiceElse (number : Nat) (c : Value) (yes no : List Instr) :
    endsInReturn (choiceElse number c yes no) = false := by
  rw [choiceElse, endsInReturn_append, if_neg (List.cons_ne_nil _ _)]
  rfl

theorem endsInReturn_loop (number : Nat) (c : Value) (body : List Instr) :
    endsInReturn (loop number c body) = false := by
  rw [loop, endsInReturn_append, if_neg (List.cons_ne_nil _ _)]
  rfl

theorem endsInReturn_of_forall {code : List Instr} (h : ∀ i ∈ code, i.isReturn = false) :
    endsInReturn code = false := by
  unfold endsInReturn
  cases last : code.getLast? with
  | none => rfl
  | some i => simpa using h i (List.mem_of_getLast? last)

/-- The code of a function is the code of its body, with a `return` behind it unless one is there
already. -/
theorem closed_eq (code : List Instr) :
    closed code = if endsInReturn code then code else code ++ [.ret none] := by
  unfold closed endsInReturn
  cases last : code.getLast? with
  | none => simp
  | some i => cases i <;> simp [Instr.isReturn]

mutual

/-- A statement whose code ends with a `return` is one that control does not get past. -/
theorem lowerStmt_returns {folding : Bool} :
    ∀ (t : Typed.Stmt) {f f' : Fresh} {code : List Instr},
      lowerStmt folding t f = .ok (code, f') → endsInReturn code = true → t.returns = true
  | .letVar span name symbol type value, f, f', code, h, ends => by
    obtain ⟨-, v, place, -, -, rfl⟩ := lowerStmt_letVar.1 h
    simp [endsInReturn_snoc, Instr.isReturn] at ends
  | .ifThen span condition thenBlock, f, f', code, h, ends => by
    obtain ⟨-, c, fc, yes, -, -, rfl⟩ := lowerStmt_ifThen.1 h
    rw [endsInReturn_choice] at ends
    cases ends
  | .ifThenElse span condition thenBlock elseBranch, f, f', code, h, ends => by
    obtain ⟨-, c, fc, yes, fy, no, -, -, -, rfl⟩ := lowerStmt_ifThenElse.1 h
    rw [endsInReturn_choiceElse] at ends
    cases ends
  | .whileLoop span condition body, f, f', code, h, ends => by
    obtain ⟨-, c, fc, round, -, -, rfl⟩ := lowerStmt_whileLoop.1 h
    rw [endsInReturn_loop] at ends
    cases ends
  | .block b, f, f', code, h, ends => by
    rw [Typed.Stmt.returns]
    exact lowerBlock_returns b (lowerStmt_block.1 h).2 ends
  | .expression span value, f, f', code, h, ends => by
    obtain ⟨-, v, hv, rfl⟩ := lowerStmt_expression.1 h
    rw [endsInReturn_of_forall (lowerExpr_emits value hv).noReturn] at ends
    cases ends
  | .function span header body, f, f', code, h, ends => by
    obtain ⟨-, rfl, -⟩ := lowerStmt_function.1 h
    cases ends
  | .ret span value, f, f', code, h, ends => by rw [Typed.Stmt.returns]
  | .error span, f, f', code, h, ends => absurd h lowerStmt_error

theorem lowerBlock_returns {folding : Bool} :
    ∀ (t : Typed.Block) {f f' : Fresh} {code : List Instr},
      lowerBlock folding t f = .ok (code, f') → endsInReturn code = true →
        Typed.Stmt.blockReturns t = true
  | .mk scope span body, f, f', code, h, ends => by
    rw [lowerBlock_eq] at h
    rw [Typed.Stmt.blockReturns]
    exact lowerAll_returns body h ends

theorem lowerAll_returns {folding : Bool} :
    ∀ (ts : List Typed.Stmt) {f f' : Fresh} {code : List Instr},
      lowerAll folding ts f = .ok (code, f') → endsInReturn code = true →
        Typed.Stmt.anyReturns ts = true
  | [], f, f', code, h, ends => by
    obtain ⟨rfl, -⟩ := lowerAll_nil.1 h
    cases ends
  | t :: ts, f, f', code, h, ends => by
    obtain ⟨first, f₁, rest, hfirst, hrest, rfl⟩ := lowerAll_cons.1 h
    rw [endsInReturn_append] at ends
    rw [Typed.Stmt.anyReturns, Bool.or_eq_true]
    split at ends
    · exact .inl (lowerStmt_returns t hfirst ends)
    · exact .inr (lowerAll_returns ts hrest ends)

end

end MiniLang.Lowering
