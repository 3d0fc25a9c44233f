import Mathlib.Tactic
import MiniLang.Lowering.Program

/-!
# What generated code is made of

For each form of expressions and statements: when code generation succeeds, from which code of the
parts the code of the whole is laid out, and which numbers are used up. Everything later about
generated code goes through these equivalences, so that the monad of code generation is opened here
only.
-/

set_option autoImplicit false

namespace MiniLang.Lowering

open Ir

section

variable {α β : Type} {f : Fresh}

theorem bind_ok_iff {x : Lower α} {g : α → Lower β} {r : β × Fresh} :
    (x >>= g) f = .ok r ↔ ∃ a f₁, x f = .ok (a, f₁) ∧ g a f₁ = .ok r := by
  change Except.bind (x f) (fun a => g a.1 a.2) = .ok r ↔ _
  cases x f with
  | error e => simp [Except.bind]
  | ok p => exact ⟨fun h => ⟨p.1, p.2, rfl, h⟩, by rintro ⟨a, f₁, same, h⟩; cases same; exact h⟩

theorem pure_ok_iff {a : α} {r : α × Fresh} : (pure a : Lower α) f = .ok r ↔ r = (a, f) := by
  change Except.ok (a, f) = .ok r ↔ _
  simp [eq_comm]

theorem map_ok_iff {x : Lower α} {g : α → β} {r : β × Fresh} :
    (g <$> x) f = .ok r ↔ ∃ a f₁, x f = .ok (a, f₁) ∧ r = (g a, f₁) := by
  change Except.bind (x f) (fun a => .ok (g a.1, a.2)) = .ok r ↔ _
  cases x f with
  | error e => simp [Except.bind]
  | ok p =>
    constructor
    · intro h
      cases h
      exact ⟨p.1, p.2, rfl, rfl⟩
    · rintro ⟨a, f₁, same, rfl⟩
      cases same
      rfl

theorem lift_ok_iff {x : Except InternalError α} {r : α × Fresh} :
    (liftM x : Lower α) f = .ok r ↔ x = .ok r.1 ∧ r.2 = f := by
  change Except.bind x (fun a => .ok (a, f)) = .ok r ↔ _
  obtain ⟨a, f'⟩ := r
  cases x <;> simp [Except.bind, eq_comm]

theorem throw_ne_ok {e : InternalError} {r : α × Fresh} : (throw e : Lower α) f ≠ .ok r := by
  intro h
  cases h

theorem freshTemp_ok_iff {r : Temp × Fresh} :
    freshTemp f = .ok r ↔ r = (f.temp, { f with temp := f.temp + 1 }) := by
  simp [freshTemp, eq_comm]

theorem freshLabel_ok_iff {r : Nat × Fresh} :
    freshLabel f = .ok r ↔ r = (f.label, { f with label := f.label + 1 }) := by
  simp [freshLabel, eq_comm]

theorem checkType_ok_iff {info : Typed.Info} {u : Unit} :
    checkType info = .ok u ↔ info.type.isError = false := by
  unfold checkType
  split <;> simp_all

theorem checkSpan_ok_iff {span : Span} {u : Unit} : checkSpan span = .ok u ↔ span.Valid := by
  unfold checkSpan
  split <;> simp_all

end

/-! ## Expressions -/

section

variable {folding : Bool} {info : Typed.Info} {f f' : Fresh} {v : Value}

attribute [local simp] lowerExpr lowerExprs

theorem lowerExpr_literal {value : Literal} :
    lowerExpr folding (.literal info value) f = .ok (v, f') ↔
      info.type.isError = false ∧ v = ⟨[], .const value.code⟩ ∧ f' = f := by
  simp [map_ok_iff, lift_ok_iff, checkType_ok_iff]
  grind

theorem lowerExpr_var {name : String} {symbol : Option SymbolRef} :
    lowerExpr folding (.var info name symbol) f = .ok (v, f') ↔
      info.type.isError = false ∧ ∃ place, placeOf symbol name info.span = .ok place ∧
        f' = { f with temp := f.temp + 1 } ∧ v = ⟨[.load f.temp place], .temp f.temp⟩ := by
  simp [bind_ok_iff, map_ok_iff, lift_ok_iff, checkType_ok_iff, freshTemp_ok_iff]

/-- The code of an operator that is folded. -/
theorem lowerExpr_binary_folded {op : BinaryOp} {left right : Typed.Expr} {value : Int}
    (h : folded? folding op left right = some value) :
    lowerExpr folding (.binary info op left right) f = .ok (v, f') ↔
      info.type.isError = false ∧ v = ⟨[], .const value⟩ ∧ f' = f := by
  simp [map_ok_iff, lift_ok_iff, checkType_ok_iff, h]
  grind

/-- The code of an operator that may skip its right operand. -/
theorem lowerExpr_binary_logical {op : BinaryOp} {left right : Typed.Expr}
    (h : folded? folding op left right = none) (logical : op.isLogical = true) :
    lowerExpr folding (.binary info op left right) f = .ok (v, f') ↔
      info.type.isError = false ∧ ∃ l fl r fr,
        lowerExpr folding left { f with label := f.label + 1 } = .ok (l, fl) ∧
        lowerExpr folding right fl = .ok (r, fr) ∧
        f' = { fr with temp := fr.temp + 1 } ∧ v = shortCircuit op f.label l r fr.temp := by
  simp [bind_ok_iff, map_ok_iff, lift_ok_iff, checkType_ok_iff, freshTemp_ok_iff,
    freshLabel_ok_iff, h, logical]

/-- The code of an operator that evaluates both operands. -/
theorem lowerExpr_binary_strict {op : BinaryOp} {left right : Typed.Expr}
    (h : folded? folding op left right = none) (strict : op.isLogical = false) :
    lowerExpr folding (.binary info op left right) f = .ok (v, f') ↔
      info.type.isError = false ∧ ∃ l fl r fr,
        lowerExpr folding left f = .ok (l, fl) ∧ lowerExpr folding right fl = .ok (r, fr) ∧
        f' = { fr with temp := fr.temp + 1 } ∧
        v = ⟨l.code ++ r.code ++ [.binary fr.temp op l.operand r.operand], .temp fr.temp⟩ := by
  simp [bind_ok_iff, map_ok_iff, lift_ok_iff, checkType_ok_iff, freshTemp_ok_iff, h,
    strict]

theorem lowerExpr_unary {op : UnaryOp} {operand : Typed.Expr} :
    lowerExpr folding (.unary info op operand) f = .ok (v, f') ↔
      info.type.isError = false ∧ ∃ o fo, lowerExpr folding operand f = .ok (o, fo) ∧
        f' = { fo with temp := fo.temp + 1 } ∧
        v = ⟨o.code ++ [.unary fo.temp op o.operand], .temp fo.temp⟩ := by
  simp [bind_ok_iff, map_ok_iff, lift_ok_iff, checkType_ok_iff, freshTemp_ok_iff]

/-- The code of a call whose value nobody can use. -/
theorem lowerExpr_call_unit {callee : String} {symbol : Option SymbolRef}
    {arguments : List Typed.Expr} (h : info.type = .unit) :
    lowerExpr folding (.call info callee symbol arguments) f = .ok (v, f') ↔
      symbol.isSome ∧ ∃ vs, lowerExprs folding arguments f = .ok (vs, f') ∧
        v = ⟨vs.flatMap Value.code ++ [.call none callee (vs.map Value.operand)], .const 0⟩ := by
  cases symbol with
  | none => simp [bind_ok_iff, lift_ok_iff, throw_ne_ok]
  | some ref =>
    simp [bind_ok_iff, map_ok_iff, lift_ok_iff, checkType_ok_iff, h, Ty.isError]

/-- The code of a call that gives a value. -/
theorem lowerExpr_call_value {callee : String} {symbol : Option SymbolRef}
    {arguments : List Typed.Expr} (h : info.type ≠ .unit) :
    lowerExpr folding (.call info callee symbol arguments) f = .ok (v, f') ↔
      info.type.isError = false ∧ symbol.isSome ∧ ∃ vs fs,
        lowerExprs folding arguments f = .ok (vs, fs) ∧
        f' = { fs with temp := fs.temp + 1 } ∧
        v = ⟨vs.flatMap Value.code ++ [.call (some fs.temp) callee (vs.map Value.operand)],
          .temp fs.temp⟩ := by
  cases symbol with
  | none => simp [bind_ok_iff, lift_ok_iff, throw_ne_ok]
  | some ref =>
    simp [bind_ok_iff, map_ok_iff, lift_ok_iff, checkType_ok_iff, freshTemp_ok_iff, h]

theorem lowerExpr_assignment {target : String} {symbol : Option SymbolRef} {value : Typed.Expr} :
    lowerExpr folding (.assignment info target symbol value) f = .ok (v, f') ↔
      info.type.isError = false ∧ ∃ o place, lowerExpr folding value f = .ok (o, f') ∧
        placeOf symbol target info.span = .ok place ∧
        v = ⟨o.code ++ [.store place o.operand], o.operand⟩ := by
  simp [bind_ok_iff, map_ok_iff, lift_ok_iff, checkType_ok_iff]

theorem lowerExprs_nil {vs : List Value} :
    lowerExprs folding [] f = .ok (vs, f') ↔ vs = [] ∧ f' = f := by
  simp [pure_ok_iff]

theorem lowerExprs_cons {e : Typed.Expr} {es : List Typed.Expr} {vs : List Value} :
    lowerExprs folding (e :: es) f = .ok (vs, f') ↔ ∃ v f₁ rest,
      lowerExpr folding e f = .ok (v, f₁) ∧ lowerExprs folding es f₁ = .ok (rest, f') ∧
      vs = v :: rest := by
  simp [bind_ok_iff, map_ok_iff]

end

/-! ## Statements -/

section

variable {folding : Bool} {span : Span} {f f' : Fresh} {code : List Instr}

attribute [local simp] lowerStmt lowerAll

theorem lowerStmt_letVar {name : String} {symbol : Option SymbolRef} {type : Ty}
    {value : Typed.Expr} :
    lowerStmt folding (.letVar span name symbol type value) f = .ok (code, f') ↔
      span.Valid ∧ ∃ v place, lowerExpr folding value f = .ok (v, f') ∧
        placeOf symbol name span = .ok place ∧ code = v.code ++ [.store place v.operand] := by
  simp [bind_ok_iff, map_ok_iff, lift_ok_iff, checkSpan_ok_iff]

theorem lowerStmt_ifThen {condition : Typed.Expr} {thenBlock : Typed.Block} :
    lowerStmt folding (.ifThen span condition thenBlock) f = .ok (code, f') ↔
      span.Valid ∧ ∃ c fc yes,
        lowerExpr folding condition { f with label := f.label + 1 } = .ok (c, fc) ∧
        lowerBlock folding thenBlock fc = .ok (yes, f') ∧ code = choice f.label c yes := by
  simp [bind_ok_iff, map_ok_iff, lift_ok_iff, checkSpan_ok_iff, freshLabel_ok_iff]

theorem lowerStmt_ifThenElse {condition : Typed.Expr} {thenBlock : Typed.Block}
    {elseBranch : Typed.Stmt} :
    lowerStmt folding (.ifThenElse span condition thenBlock elseBranch) f = .ok (code, f') ↔
      span.Valid ∧ ∃ c fc yes fy no,
        lowerExpr folding condition { f with label := f.label + 1 } = .ok (c, fc) ∧
        lowerBlock folding thenBlock fc = .ok (yes, fy) ∧
        lowerStmt folding elseBranch fy = .ok (no, f') ∧ code = choiceElse f.label c yes no := by
  simp [bind_ok_iff, map_ok_iff, lift_ok_iff, checkSpan_ok_iff, freshLabel_ok_iff]

theorem lowerStmt_whileLoop {condition : Typed.Expr} {body : Typed.Block} :
    lowerStmt folding (.whileLoop span condition body) f = .ok (code, f') ↔
      span.Valid ∧ ∃ c fc round,
        lowerExpr folding condition { f with label := f.label + 1 } = .ok (c, fc) ∧
        lowerBlock folding body fc = .ok (round, f') ∧ code = loop f.label c round := by
  simp [bind_ok_iff, map_ok_iff, lift_ok_iff, checkSpan_ok_iff, freshLabel_ok_iff]

theorem lowerStmt_block {b : Typed.Block} :
    lowerStmt folding (.block b) f = .ok (code, f') ↔
      b.span.Valid ∧ lowerBlock folding b f = .ok (code, f') := by
  simp [bind_ok_iff, lift_ok_iff, checkSpan_ok_iff]

theorem lowerStmt_expression {value : Typed.Expr} :
    lowerStmt folding (.expression span value) f = .ok (code, f') ↔
      span.Valid ∧ ∃ v, lowerExpr folding value f = .ok (v, f') ∧ code = v.code := by
  simp [bind_ok_iff, map_ok_iff, lift_ok_iff, checkSpan_ok_iff]

theorem lowerStmt_function {header : Typed.FunctionHeader} {body : Typed.Block} :
    lowerStmt folding (.function span header body) f = .ok (code, f') ↔
      span.Valid ∧ code = [] ∧ f' = f := by
  simp [map_ok_iff, lift_ok_iff, checkSpan_ok_iff]
  grind

theorem lowerStmt_ret_none :
    lowerStmt folding (.ret span none) f = .ok (code, f') ↔
      span.Valid ∧ code = [.ret none] ∧ f' = f := by
  simp [map_ok_iff, lift_ok_iff, checkSpan_ok_iff]
  grind

theorem lowerStmt_ret_some {value : Typed.Expr} :
    lowerStmt folding (.ret span (some value)) f = .ok (code, f') ↔
      span.Valid ∧ ∃ v, lowerExpr folding value f = .ok (v, f') ∧
        code = v.code ++ [.ret (some v.operand)] := by
  simp [bind_ok_iff, map_ok_iff, lift_ok_iff, checkSpan_ok_iff]

theorem lowerStmt_error : lowerStmt folding (.error span) f ≠ .ok (code, f') := by
  simp [bind_ok_iff, throw_ne_ok]

theorem lowerBlock_eq (b : Typed.Block) : lowerBlock folding b = lowerAll folding b.body := by
  cases b with
  | mk scope span body => rw [lowerBlock]; rfl

theorem lowerAll_nil : lowerAll folding [] f = .ok (code, f') ↔ code = [] ∧ f' = f := by
  simp [pure_ok_iff]

theorem lowerAll_cons {s : Typed.Stmt} {ss : List Typed.Stmt} :
    lowerAll folding (s :: ss) f = .ok (code, f') ↔ ∃ first f₁ rest,
      lowerStmt folding s f = .ok (first, f₁) ∧ lowerAll folding ss f₁ = .ok (rest, f') ∧
      code = first ++ rest := by
  simp [bind_ok_iff, map_ok_iff]

end

/-! ## Programs -/

/-- A list of results is there if each of them is. -/
theorem mapM_ok_iff {ε α β : Type} {f : α → Except ε β} :
    ∀ {xs : List α} {ys : List β},
      xs.mapM f = .ok ys ↔ List.Forall₂ (fun x y => f x = .ok y) xs ys
  | [], ys => by
    rw [List.mapM_nil]
    constructor
    · intro h
      cases h
      exact .nil
    · intro h
      cases h
      rfl
  | x :: xs, ys => by
    rw [List.mapM_cons]
    constructor
    · intro h
      cases first : f x with
      | error e =>
        rw [first] at h
        cases h
      | ok y =>
        cases rest : xs.mapM f with
        | error e =>
          rw [first, rest] at h
          cases h
        | ok ys' =>
          rw [first, rest] at h
          cases h
          exact .cons first (mapM_ok_iff.1 rest)
    · intro h
      cases h with
      | cons first rest =>
        rw [first, mapM_ok_iff.2 rest]
        rfl

/-- A list of results is there exactly if there is one for each element. -/
theorem exists_mapM_ok_iff {ε α β : Type} {f : α → Except ε β} {xs : List α} :
    (∃ ys, xs.mapM f = .ok ys) ↔ ∀ x ∈ xs, ∃ y, f x = .ok y := by
  constructor
  · rintro ⟨ys, results⟩
    rw [mapM_ok_iff] at results
    induction results with
    | nil => exact List.forall_mem_nil _
    | cons first _ ih => exact List.forall_mem_cons.2 ⟨⟨_, first⟩, ih⟩
  · intro h
    induction xs with
    | nil => exact ⟨[], rfl⟩
    | cons x xs ih =>
      obtain ⟨⟨y, first⟩, others⟩ := List.forall_mem_cons.1 h
      obtain ⟨ys, rest⟩ := ih others
      exact ⟨y :: ys, mapM_ok_iff.2 (.cons first (mapM_ok_iff.1 rest))⟩

theorem function_ok_iff {name : String} {params : List Place} {body : Lower (List Instr)}
    {F : Ir.Function} :
    function name params body = .ok F ↔ ∃ code fresh, body {} = .ok (code, fresh) ∧
      F = ⟨name, params, closed code, fresh.temp⟩ := by
  change Except.bind (body {}) (fun r => .ok ⟨name, params, closed r.1, r.2.temp⟩) = .ok F ↔ _
  cases body {} with
  | error e => simp [Except.bind]
  | ok r =>
    constructor
    · intro h
      cases h
      exact ⟨r.1, r.2, rfl, rfl⟩
    · rintro ⟨code, fresh, same, rfl⟩
      cases same
      rfl

theorem lowerFunction_ok_iff {folding : Bool} {span : Span} {header : Typed.FunctionHeader}
    {body : Typed.Block} {F : Ir.Function} :
    lowerFunction folding (span, header, body) = .ok F ↔ ∃ places code fresh,
      header.params.mapM (fun p => placeOf p.symbol p.name span) = .ok places ∧
      lowerBlock folding body {} = .ok (code, fresh) ∧
      F = ⟨header.name, places, closed code, fresh.temp⟩ := by
  change Except.bind (header.params.mapM fun p => placeOf p.symbol p.name span)
    (fun places => function header.name places (lowerBlock folding body)) = .ok F ↔ _
  cases header.params.mapM fun p => placeOf p.symbol p.name span with
  | error e => simp [Except.bind]
  | ok places =>
    refine Iff.trans function_ok_iff ⟨?_, ?_⟩
    · rintro ⟨code, fresh, lowered, rfl⟩
      exact ⟨places, code, fresh, rfl, lowered, rfl⟩
    · rintro ⟨places', code, fresh, same, lowered, rfl⟩
      cases same
      exact ⟨code, fresh, lowered, rfl⟩

/-- Code of a program is the code of its entry function and of its declared functions in order. -/
theorem generate_ok_iff {folding : Bool} {t : Typed.Program} {p : Ir.Program} :
    generate folding t = .ok p ↔ ∃ entry functions,
      lowerEntry folding t.body = .ok entry ∧
      List.Forall₂ (fun f F => lowerFunction folding f = .ok F) t.functions functions ∧
      p = ⟨entry :: functions⟩ := by
  change Except.bind (lowerEntry folding t.body) (fun entry =>
    Except.bind (t.functions.mapM (lowerFunction folding)) fun functions =>
      .ok ⟨entry :: functions⟩) = .ok p ↔ _
  cases lowerEntry folding t.body with
  | error e => simp [Except.bind]
  | ok entry =>
    cases lowered : t.functions.mapM (lowerFunction folding) with
    | error e =>
      constructor
      · intro h
        cases h
      · rintro ⟨entry', functions, -, all, -⟩
        rw [mapM_ok_iff.2 all] at lowered
        cases lowered
    | ok functions =>
      constructor
      · intro h
        cases h
        exact ⟨entry, functions, rfl, mapM_ok_iff.1 lowered, rfl⟩
      · rintro ⟨entry', functions', same, all, rfl⟩
        cases same
        rw [mapM_ok_iff.2 all] at lowered
        cases lowered
        rfl

/-- Functions among the statements of a program have no code there. -/
theorem lowerAll_filter {folding : Bool} {r : List Instr × Fresh} :
    ∀ {ts : List Typed.Stmt} {f : Fresh},
      (∀ span header body, Typed.Stmt.function span header body ∈ ts → span.Valid) →
      lowerAll folding (ts.filter (!·.isFunction)) f = .ok r → lowerAll folding ts f = .ok r
  | [], f, _, h => h
  | t :: ts, f, valid, h => by
    have others := fun span header body mem => valid span header body (List.mem_cons_of_mem _ mem)
    cases isFunction : t.isFunction with
    | true =>
      rw [List.filter_cons_of_neg (by simp [isFunction])] at h
      cases t with
      | function span header body =>
        have here := valid span header body List.mem_cons_self
        exact lowerAll_cons.2 ⟨[], f, r.1, lowerStmt_function.2 ⟨here, rfl, rfl⟩,
          lowerAll_filter others h, rfl⟩
      | _ => cases isFunction
    | false =>
      rw [List.filter_cons_of_pos (by simp [isFunction])] at h
      obtain ⟨first, f₁, rest, hfirst, hrest, same⟩ := lowerAll_cons.1 h
      exact lowerAll_cons.2 ⟨first, f₁, rest, hfirst, lowerAll_filter others hrest, same⟩

end MiniLang.Lowering
