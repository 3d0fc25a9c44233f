import MiniLang.Proofs.Ir.Control
import MiniLang.Proofs.Lowering.Flow

/-!
# Code behind a return

Control never gets to the code for statements behind a `return` of the same list, although this code
may have labels and jumps of its own (`Dead.unreachable`). A list of statements may stand anywhere
inside of a function (`Holds`); wherever that is, the code around its own jumps to labels around it
only (`Holds.splits`), since each construct names its own labels.
-/

set_option autoImplicit false

namespace MiniLang.Lowering

open Ir

/-! ## Where the code of a list of statements stands -/

/-- A list of statements that stands directly in a statement: from which numbers its code is
generated, and how the code of the statement is laid out around it. -/
inductive Inner (folding : Bool) :
    Typed.Stmt → Fresh → List Typed.Stmt → Fresh → (List Instr → List Instr) → Prop
  | block (b : Typed.Block) (f : Fresh) : Inner folding (.block b) f b.body f id
  | thenOnly {span : Span} {condition : Typed.Expr} {b : Typed.Block} {f fc : Fresh} {c : Value}
      (test : lowerExpr folding condition { f with label := f.label + 1 } = .ok (c, fc)) :
      Inner folding (.ifThen span condition b) f b.body fc (choice f.label c)
  | thenBranch {span : Span} {condition : Typed.Expr} {b : Typed.Block} {e : Typed.Stmt}
      {f fc fy f' : Fresh} {c : Value} {yes no : List Instr}
      (test : lowerExpr folding condition { f with label := f.label + 1 } = .ok (c, fc))
      (first : lowerBlock folding b fc = .ok (yes, fy))
      (second : lowerStmt folding e fy = .ok (no, f')) :
      Inner folding (.ifThenElse span condition b e) f b.body fc fun code =>
        choiceElse f.label c code no
  /-- What stands behind `else` is a list of one statement. -/
  | elseBranch {span : Span} {condition : Typed.Expr} {b : Typed.Block} {e : Typed.Stmt}
      {f fc fy : Fresh} {c : Value} {yes : List Instr}
      (test : lowerExpr folding condition { f with label := f.label + 1 } = .ok (c, fc))
      (first : lowerBlock folding b fc = .ok (yes, fy)) :
      Inner folding (.ifThenElse span condition b e) f [e] fy (choiceElse f.label c yes)
  | round {span : Span} {condition : Typed.Expr} {b : Typed.Block} {f fc : Fresh} {c : Value}
      (test : lowerExpr folding condition { f with label := f.label + 1 } = .ok (c, fc)) :
      Inner folding (.whileLoop span condition b) f b.body fc (loop f.label c)

/-- A list of statements that is the end of another one, or stands somewhere inside of its
statements: from which numbers its code is generated, and how many instructions stand before it. -/
inductive Holds (folding : Bool) :
    List Typed.Stmt → Fresh → List Typed.Stmt → Fresh → Nat → Prop
  | here (ss : List Typed.Stmt) (f : Fresh) : Holds folding ss f ss f 0
  | behind {s : Typed.Stmt} {ss inner : List Typed.Stmt} {f f₁ g : Fresh} {code : List Instr}
      {n : Nat} (first : lowerStmt folding s f = .ok (code, f₁))
      (rest : Holds folding ss f₁ inner g n) :
      Holds folding (s :: ss) f inner g (code.length + n)
  | inside {s : Typed.Stmt} {ss direct inner : List Typed.Stmt} {f f₁ g : Fresh}
      {layout : List Instr → List Instr} {before after : List Instr} {n : Nat}
      (stands : Inner folding s f direct f₁ layout)
      (splits : ∀ code, layout code = before ++ code ++ after)
      (deeper : Holds folding direct f₁ inner g n) :
      Holds folding (s :: ss) f inner g (before.length + n)

/-- The code for statements that stand behind a `return` of the same list is at a position of the
code that is generated for the statements of a function. -/
structure Dead (folding : Bool) (ss : List Typed.Stmt) (n : Nat) : Prop where
  behindReturn : ∃ span value dead f before returning f₁ code f₂,
    Holds folding ss {} (.ret span value :: dead) f before ∧
      lowerStmt folding (.ret span value) f = .ok (returning, f₁) ∧
      lowerAll folding dead f₁ = .ok (code, f₂) ∧
      before + returning.length ≤ n ∧ n < before + returning.length + code.length

variable {folding : Bool} {s : Typed.Stmt} {ss inner : List Typed.Stmt} {f f' g : Fresh}
  {code : List Instr} {n : Nat}

/-- The code of a statement is laid out around the code of a list that stands in it, and apart from
that it jumps to its own labels. -/
theorem Inner.splits {layout : List Instr → List Instr} (h : Inner folding s f inner g layout)
    (lowered : lowerStmt folding s f = .ok (code, f')) :
    (∃ x g', lowerAll folding inner g = .ok (x, g') ∧ code = layout x) ∧
      targetsOf (layout []) ⊆ labelsOf (layout []) := by
  have none : targetsOf [] ⊆ labelsOf [] := List.nil_subset _
  cases h with
  | block b =>
    rw [lowerStmt_block, lowerBlock_eq] at lowered
    exact ⟨⟨code, f', lowered.2, rfl⟩, none⟩
  | thenOnly test =>
    obtain ⟨-, c', fc', yes, test', hy, rfl⟩ := lowerStmt_ifThen.1 lowered
    cases test.symm.trans test'
    rw [lowerBlock_eq] at hy
    exact ⟨⟨yes, f', hy, rfl⟩, targets_choice (lowerExpr_orderly _ test).targets none⟩
  | thenBranch test first second =>
    obtain ⟨-, c', fc', yes', fy', no', test', first', second', rfl⟩ :=
      lowerStmt_ifThenElse.1 lowered
    cases test.symm.trans test'
    cases first.symm.trans first'
    cases second.symm.trans second'
    rw [lowerBlock_eq] at first
    exact ⟨⟨_, _, first, rfl⟩, targets_choiceElse (lowerExpr_orderly _ test).targets none
      (lowerStmt_orderly _ second).targets⟩
  | elseBranch test first =>
    obtain ⟨-, c', fc', yes', fy', no', test', first', second, rfl⟩ :=
      lowerStmt_ifThenElse.1 lowered
    cases test.symm.trans test'
    cases first.symm.trans first'
    have single : lowerAll folding [_] _ = .ok (no', f') :=
      lowerAll_cons.2 ⟨no', f', [], second, lowerAll_nil.2 ⟨rfl, rfl⟩, (List.append_nil _).symm⟩
    exact ⟨⟨no', f', single, rfl⟩, targets_choiceElse (lowerExpr_orderly _ test).targets
      (lowerBlock_orderly _ first).targets none⟩
  | round test =>
    obtain ⟨-, c', fc', body, test', hb, rfl⟩ := lowerStmt_whileLoop.1 lowered
    cases test.symm.trans test'
    rw [lowerBlock_eq] at hb
    exact ⟨⟨body, f', hb, rfl⟩, targets_loop (lowerExpr_orderly _ test).targets none⟩

/-- In whichever part of a statement a list stands, its code is one piece of that of the statement,
so that `Holds.inside` applies. -/
theorem Inner.exists_splits {layout : List Instr → List Instr}
    (h : Inner folding s f inner g layout) :
    ∃ before after, ∀ code, layout code = before ++ code ++ after := by
  cases h with
  | block b => exact ⟨[], [], fun code => (List.append_nil code).symm⟩
  | thenOnly test => exact ⟨_, _, fun code => rfl⟩
  | thenBranch test first second =>
    have regroup (a b no d code : List Instr) :
        a ++ code ++ b ++ no ++ d = a ++ code ++ (b ++ no ++ d) := by
      simp only [List.append_assoc]
    exact ⟨_, _, fun code => regroup _ _ _ _ code⟩
  | elseBranch test first => exact ⟨_, _, fun code => rfl⟩
  | round test => exact ⟨_, _, fun code => rfl⟩

theorem targets_around {before before' after after' : List Instr}
    (outer : targetsOf (before ++ after) ⊆ labelsOf (before ++ after))
    (inner : targetsOf (before' ++ after') ⊆ labelsOf (before' ++ after')) :
    targetsOf (before ++ before' ++ (after' ++ after)) ⊆
      labelsOf (before ++ before' ++ (after' ++ after)) := by
  intro l mem
  have outer := @outer l
  have inner := @inner l
  simp only [targetsOf_append, labelsOf_append, List.mem_append] at outer inner mem ⊢
  tauto

/-- The code of statements is that of a list inside of it between two pieces of code, which jump to
labels of the two pieces. -/
theorem Holds.splits (h : Holds folding ss f inner g n) :
    ∀ {f' : Fresh} {code : List Instr}, lowerAll folding ss f = .ok (code, f') →
      ∃ before x g' after, lowerAll folding inner g = .ok (x, g') ∧
        code = before ++ x ++ after ∧ before.length = n ∧
        targetsOf (before ++ after) ⊆ labelsOf (before ++ after) := by
  induction h with
  | here ss f =>
    intro f' code lowered
    exact ⟨[], code, f', [], lowered, (List.append_nil code).symm, rfl, List.nil_subset _⟩
  | @behind s ss inner f f₁ g first n isFirst _ ih =>
    intro f' code lowered
    obtain ⟨first', f₁', rest, isFirst', isRest, rfl⟩ := lowerAll_cons.1 lowered
    cases isFirst.symm.trans isFirst'
    obtain ⟨before, x, g', after, hx, rfl, rfl, targets⟩ := ih isRest
    have own : targetsOf (first ++ []) ⊆ labelsOf (first ++ []) := by
      rw [List.append_nil]
      exact (lowerStmt_orderly s isFirst).targets
    refine ⟨first ++ before, x, g', after, hx, by simp only [List.append_assoc],
      List.length_append, ?_⟩
    have whole := targets_around own targets
    rwa [List.append_nil] at whole
  | @inside s ss direct inner f f₁ g layout before after n stands splits _ ih =>
    intro f' code lowered
    obtain ⟨first, f₂, rest, isFirst, isRest, rfl⟩ := lowerAll_cons.1 lowered
    obtain ⟨⟨y, g', hy, rfl⟩, outer⟩ := stands.splits isFirst
    obtain ⟨before', x, g'', after', hx, rfl, rfl, targets⟩ := ih hy
    rw [splits, List.append_nil] at outer
    have following : targetsOf ([] ++ rest) ⊆ labelsOf ([] ++ rest) :=
      (lowerAll_orderly ss isRest).targets
    refine ⟨before ++ before', x, g'', after' ++ after ++ rest, hx, ?_, List.length_append, ?_⟩
    · rw [splits]
      simp only [List.append_assoc]
    · have whole := targets_around following (targets_around outer targets)
      rwa [List.nil_append] at whole

/-- A `return` is the last instruction of its code. -/
theorem getLast?_of_lowerStmt_ret {span : Span} {value : Option Typed.Expr}
    (h : lowerStmt folding (.ret span value) f = .ok (code, f')) :
    ∃ o, code.getLast? = some (.ret o) := by
  cases value with
  | none =>
    obtain ⟨-, rfl, -⟩ := lowerStmt_ret_none.1 h
    exact ⟨none, rfl⟩
  | some e =>
    obtain ⟨-, v, -, rfl⟩ := lowerStmt_ret_some.1 h
    exact ⟨some v.operand, List.getLast?_concat⟩

/-- No way through a function leads to code for statements behind a `return`. -/
theorem Dead.unreachable (h : Dead folding ss n) (lowered : lowerAll folding ss {} = .ok (code, f'))
    {path : List Nat} (way : Path (closed code) path) : n ∉ path := by
  obtain ⟨span, value, dead, f, k, returning, f₁, inDead, f₂, holds, returns, isDead, above,
    below⟩ := h.behindReturn
  obtain ⟨before, x, g', after, hx, rfl, rfl, outer⟩ := holds.splits lowered
  obtain ⟨returning', f₁', inDead', returns', isDead', rfl⟩ := lowerAll_cons.1 hx
  cases returns.symm.trans returns'
  cases isDead.symm.trans isDead'
  obtain ⟨more, ends, noMore⟩ : ∃ more, closed (before ++ (returning ++ inDead) ++ after) =
      before ++ returning ++ inDead ++ (after ++ more) ∧ targetsOf more = [] := by
    rw [closed_eq]
    split
    · exact ⟨[], by simp only [List.append_assoc, List.append_nil], rfl⟩
    · exact ⟨[.ret none], by simp only [List.append_assoc], rfl⟩
  have distinct := (lowerAll_orderly ss lowered).closed.labels.nodup
  rw [ends] at way distinct
  obtain ⟨o, isLast⟩ := getLast?_of_lowerStmt_ret returns
  have lastBefore : (before ++ returning).getLast? = some (.ret o) := by
    rw [List.getLast?_append, isLast]
    rfl
  -- a jump from around the dead code goes to a label around it
  have outside : ∀ i ∈ before ++ returning ++ (after ++ more), ∀ target ∈ i.targets,
      target ∈ labelsOf (before ++ returning ++ (after ++ more)) := by
    intro i mem target names
    have mem := List.mem_flatMap.2 ⟨i, mem, names⟩
    have outer := @outer target
    have own := @(lowerStmt_orderly _ returns).targets target
    change target ∈ targetsOf _ at mem
    simp only [targetsOf_append, labelsOf_append, List.mem_append, noMore] at outer mem ⊢
    tauto
  intro mem
  have length : (before ++ returning).length = before.length + returning.length :=
    List.length_append
  rcases Path.avoids ⟨_, lastBefore, rfl⟩ distinct outside way n mem with less | more
  · omega
  · omega

end MiniLang.Lowering
