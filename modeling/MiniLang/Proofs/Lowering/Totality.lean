import MiniLang.Proofs.Lowering.Rejection
import MiniLang.Proofs.Typing.Judgement

/-!
# Typed programs have code

A program with a typed form is sound: all its expressions have types, its names mean something, and
its statements stand somewhere and could be read. So code generation rejects none of it, and it has
code with folding and without (`ProgramTyped.generates`).
-/

set_option autoImplicit false

namespace MiniLang

namespace Typed

/-- A statement that is sound and regular and declares no function, as all statements are that stand
in a block of a program with a typed form. -/
structure Stmt.Standard (s : Stmt) : Prop where
  sound : s.Sound
  regular : s.Regular
  inner : s.isFunction = false

/-- A sound statement is regular, since the values that are written out in it have types. -/
theorem Stmt.Sound.standard {s : Stmt} (sound : s.Sound) (here : s.span.Valid)
    (inner : s.isFunction = false) : s.Standard :=
  ⟨sound, ⟨here, fun e mem n inside _ => (sound.exprs e mem n inside).typed⟩, inner⟩

theorem Stmt.inner_of_standard {ss : List Stmt} (h : ∀ s ∈ ss, s.Standard) : Inner ss :=
  fun s mem => ⟨(h s mem).regular, (h s mem).inner⟩

theorem Stmt.atTop_of_standard {s : Stmt} (h : ∀ t ∈ s.preorder, t.Standard) :
    s.AtTop ∧ ∀ t ∈ s.preorder, t.Sound :=
  ⟨.inner (inner_of_standard h), fun t mem => (h t mem).sound⟩

end Typed

namespace Semantics

open Lowering

mutual

/-- All of an expression that has a typed form is sound. -/
theorem ExprTyped.sound {Γ : Context} :
    ∀ (e : Expr) {t : Typed.Expr}, ExprTyped Γ e t → ∀ n ∈ t.nodes, n.Sound
  | .literal .., t, h => by
    have noError := h.noError
    cases h
    exact List.forall_mem_singleton.2 ⟨noError, rfl⟩
  | .var .., t, h => by
    have noError := h.noError
    cases h
    exact List.forall_mem_singleton.2 ⟨noError, rfl⟩
  | .binary _ _ _ left right, t, h => by
    have noError := h.noError
    cases h with
    | binary hl hr =>
      exact List.forall_mem_cons.2
        ⟨⟨noError, rfl⟩, List.forall_mem_append.2 ⟨hl.sound left, hr.sound right⟩⟩
  | .unary _ _ _ operand, t, h => by
    have noError := h.noError
    cases h with
    | unary ho => exact List.forall_mem_cons.2 ⟨⟨noError, rfl⟩, ho.sound operand⟩
  | .call _ _ _ _ arguments, t, h => by
    have noError := h.noError
    cases h with
    | call _ _ hs => exact List.forall_mem_cons.2 ⟨⟨noError, rfl⟩, hs.sound arguments⟩
  | .assignment _ _ _ _ value, t, h => by
    have noError := h.noError
    cases h with
    | assignment hv => exact List.forall_mem_cons.2 ⟨⟨noError, rfl⟩, hv.sound value⟩

theorem ExprsTyped.sound {Γ : Context} :
    ∀ (es : List Expr) {ts : List Typed.Expr}, ExprsTyped Γ es ts →
      ∀ n ∈ Typed.Expr.nodesAll ts, n.Sound
  | [], ts, h => by
    cases h
    exact List.forall_mem_nil _
  | e :: es, ts, h => by
    cases h with
    | cons first rest => exact List.forall_mem_append.2 ⟨first.sound e, rest.sound es⟩

end

/-- A statement that holds one expression, and this has a typed form. -/
theorem standard_of_single {Γ : Context} {s : Typed.Stmt} {e : Expr} {t : Typed.Expr}
    (here : s.span.Valid) (inner : s.isFunction = false) (readable : s.isError = false)
    (declared : s.undeclared = false) (own : s.ownExprs = [t]) (h : ExprTyped Γ e t) :
    s.Standard :=
  ((sound_iff_of_single readable declared own).2 (h.sound e)).standard here inner

mutual

/-- All of a statement that has a typed form and declares nothing is as code generation wants it. -/
theorem StmtTyped.standard :
    ∀ (s : Stmt) {t : Typed.Stmt} {Γ : Context} {expected : Option Ty},
      StmtTyped Γ expected s t → ∀ u ∈ t.preorder, u.Standard
  | .ifThen _ _ body, t, Γ, expected, h => by
    cases h with
    | ifThen here hc _ hb =>
      exact List.forall_mem_cons.2 ⟨standard_of_single here rfl rfl rfl rfl hc, hb.standard body⟩
  | .ifThenElse _ _ body elseBranch, t, Γ, expected, h => by
    cases h with
    | ifThenElse here hc _ hb ht =>
      exact List.forall_mem_cons.2 ⟨standard_of_single here rfl rfl rfl rfl hc,
        List.forall_mem_append.2 ⟨hb.standard body, ht.standard elseBranch⟩⟩
  | .whileLoop _ _ body, t, Γ, expected, h => by
    cases h with
    | whileLoop here hc _ hb =>
      exact List.forall_mem_cons.2 ⟨standard_of_single here rfl rfl rfl rfl hc, hb.standard body⟩
  | .block inner, t, Γ, expected, h => by
    cases h with
    | block here hb =>
      exact List.forall_mem_cons.2
        ⟨Typed.Stmt.Sound.standard ⟨rfl, rfl, List.forall_mem_nil _⟩ here rfl, hb.standard inner⟩
  | .expression .., t, Γ, expected, h => by
    cases h with
    | expression here hv =>
      exact List.forall_mem_singleton.2 (standard_of_single here rfl rfl rfl rfl hv)
  | .ret _ none, t, Γ, expected, h => by
    cases h with
    | leave here =>
      exact List.forall_mem_singleton.2
        (Typed.Stmt.Sound.standard ⟨rfl, rfl, List.forall_mem_nil _⟩ here rfl)
  | .ret _ (some _), t, Γ, expected, h => by
    cases h with
    | giveBack here hv =>
      exact List.forall_mem_singleton.2 (standard_of_single here rfl rfl rfl rfl hv)
  | .letVar .., t, Γ, expected, h => by cases h
  | .function .., t, Γ, expected, h => by cases h
  | .error .., t, Γ, expected, h => by cases h

theorem BlockTyped.standard :
    ∀ (b : Block) {t : Typed.Block} {Γ : Context} {expected : Option Ty},
      BlockTyped Γ expected b t → ∀ u ∈ Typed.Stmt.inBlock t, u.Standard
  | .mk _ _ body, t, Γ, expected, h => by
    cases h with
    | mk _ _ hs => exact hs.standard body (List.cons_ne_nil _ _)

/-- Functions are declared at the top level only, so none stands in a block. -/
theorem AllTyped.standard :
    ∀ (ss : List Stmt) {ts : List Typed.Stmt} {Γ Γ' : Context} {expected : Option Ty},
      AllTyped Γ expected ss ts Γ' → Γ.locals ≠ [] →
        ∀ u ∈ Typed.Stmt.preorderAll ts, u.Standard
  | [], ts, Γ, Γ', expected, h, inside => by
    cases h
    exact List.forall_mem_nil _
  | s :: ss, ts, Γ, Γ', expected, h, inside => by
    cases h with
    | letVar here _ _ hv _ _ rest =>
      exact List.forall_mem_append.2
        ⟨List.forall_mem_singleton.2 (standard_of_single here rfl rfl rfl rfl hv),
          rest.standard ss (Context.locals_declare_ne_nil inside)⟩
    | function _ outside => exact absurd outside inside
    | statement first rest =>
      exact List.forall_mem_append.2 ⟨first.standard s, rest.standard ss inside⟩

end

/-- The parameters of a function that has a typed form have symbols. -/
theorem HeaderTyped.declared {scope : ScopeId} {header : FunctionHeader}
    {typed : Typed.FunctionHeader} (h : HeaderTyped scope header typed) :
    typed.params.any (fun p => p.symbol.isNone) = false := by
  refine List.any_eq_false.2 fun q mem => ?_
  obtain ⟨p, -, -, ref, declared, -⟩ := forall₂_mem (List.Forall₂.flip h.params) mem
  rw [declared]
  exact Bool.false_ne_true

/-- Statements of the top level that have typed forms are as code generation wants them. -/
theorem AllTyped.atTop :
    ∀ (ss : List Stmt) {ts : List Typed.Stmt} {Γ Γ' : Context} {expected : Option Ty},
      AllTyped Γ expected ss ts Γ' → ∀ t ∈ ts, t.AtTop ∧ ∀ u ∈ t.preorder, u.Sound
  | [], ts, Γ, Γ', expected, h => by
    cases h
    exact List.forall_mem_nil _
  | s :: ss, ts, Γ, Γ', expected, h => by
    cases h with
    | letVar here _ _ hv _ _ rest =>
      refine List.forall_mem_cons.2 ⟨Typed.Stmt.atTop_of_standard ?_, rest.atTop ss⟩
      exact List.forall_mem_singleton.2 (standard_of_single here rfl rfl rfl rfl hv)
    | @function _ _ _ _ _ _ _ _ _ body _ _ _ _ here _ hh hb _ rest =>
      have inside := hb.standard body (List.cons_ne_nil _ _)
      refine List.forall_mem_cons.2
        ⟨⟨.function here (Typed.Stmt.inner_of_standard inside), ?_⟩, rest.atTop ss⟩
      exact List.forall_mem_cons.2
        ⟨⟨rfl, hh.declared, List.forall_mem_nil _⟩, fun u mem => (inside u mem).sound⟩
    | statement first rest =>
      exact List.forall_mem_cons.2 ⟨Typed.Stmt.atTop_of_standard (first.standard s), rest.atTop ss⟩

/-- There is code for every program that has a typed form. -/
theorem ProgramTyped.generates {p : Program} {t : Typed.Program} {globals : List (String × Ty)}
    (h : ProgramTyped p t globals) (folding : Bool) : ∃ code, generate folding t = .ok code := by
  have standard := h.body.atTop p.body
  refine (exists_generate_iff fun s mem => (standard s mem).1).2 ?_
  rw [Typed.Program.statements, Typed.Stmt.preorderAll_eq_flatMap]
  exact List.forall_mem_flatMap.2 fun s mem => (standard s mem).2

end Semantics

end MiniLang
