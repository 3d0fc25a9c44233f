import MiniLang.Proofs.Syntax.Bare
import MiniLang.Proofs.Typing.Judgement

/-!
# Typed forms with other scopes

Typed forms of the same statements differ in the numbers of their scopes only, if names mean
variables of the same types in scopes that stand for each other (`AllTyped.renamed`). Which scopes
these are is read off the typed forms: their blocks correspond in order (`Pairs`).
-/

set_option autoImplicit false

namespace MiniLang

/-- Which scopes of one program stand for which of another one. -/
abbrev Correspondence := ScopeId → ScopeId → Prop

variable {σ : Correspondence}

/-- Variables of the given name mean the same in two scopes: both are global, or the scopes stand
for each other. -/
inductive SameVariable (σ : Correspondence) (name : String) : ScopeId → ScopeId → Prop
  | global : SameVariable σ name globalScope globalScope
  | inner {scope scope' : ScopeId} (isName : IsName name) (h : σ scope scope')
      (inner : scope ≠ globalScope) (inner' : scope' ≠ globalScope) :
      SameVariable σ name scope scope'

/-- The scopes that stand at the same places of two lists stand for each other. -/
def Pairs (σ : Correspondence) (scopes scopes' : List ScopeId) : Prop :=
  ∀ x ∈ scopes.zip scopes', σ x.1 x.2

theorem Pairs.cons {scope scope' : ScopeId} {scopes scopes' : List ScopeId}
    (h : Pairs σ (scope :: scopes) (scope' :: scopes')) :
    σ scope scope' ∧ Pairs σ scopes scopes' :=
  ⟨h (scope, scope') List.mem_cons_self, fun x mem => h x (List.mem_cons_of_mem _ mem)⟩

/-- Scopes that differ stand for scopes that differ. -/
theorem biUnique_zip {scopes scopes' : List ScopeId} (distinct : scopes.Nodup)
    (distinct' : scopes'.Nodup) :
    Relator.BiUnique fun scope scope' => (scope, scope') ∈ scopes.zip scopes' := by
  have places : ∀ {a b : ScopeId}, (a, b) ∈ scopes.zip scopes' →
      ∃ i, scopes[i]? = some a ∧ scopes'[i]? = some b := fun mem => by
    obtain ⟨i, here⟩ := List.mem_iff_getElem?.1 mem
    exact ⟨i, List.getElem?_zip_eq_some.1 here⟩
  have same : ∀ {l : List ScopeId} {i j : Nat} {a : ScopeId}, l.Nodup → l[i]? = some a →
      l[j]? = some a → i = j := fun {l i j a} distinct here there =>
    (List.getElem?_inj (List.getElem?_eq_some_iff.1 here).1 distinct).1 (here.trans there.symm)
  constructor
  · intro a b c mem mem'
    obtain ⟨i, atA, atC⟩ := places mem
    obtain ⟨j, atB, atC'⟩ := places mem'
    obtain rfl := same distinct' atC atC'
    exact Option.some.inj (atA.symm.trans atB)
  · intro a b c mem mem'
    obtain ⟨i, atA, atB⟩ := places mem
    obtain ⟨j, atA', atC⟩ := places mem'
    obtain rfl := same distinct atA atA'
    exact Option.some.inj (atB.symm.trans atC)

/-! ## Typed forms -/

namespace Typed

mutual

/-- Typed expressions that differ in scopes only, numbers of nodes and places apart. -/
inductive Expr.Renamed (σ : Correspondence) : Expr → Expr → Prop
  | literal {info info' : Info} (type : info'.type = info.type) (value : Literal) :
      Expr.Renamed σ (.literal info value) (.literal info' value)
  | var {info info' : Info} (type : info'.type = info.type) {name : String} {ref ref' : SymbolRef}
      (same : SameVariable σ name ref.scope ref'.scope) :
      Expr.Renamed σ (.var info name (some ref)) (.var info' name (some ref'))
  | binary {info info' : Info} (type : info'.type = info.type) (op : BinaryOp)
      {left left' right right' : Expr} (hl : Expr.Renamed σ left left')
      (hr : Expr.Renamed σ right right') :
      Expr.Renamed σ (.binary info op left right) (.binary info' op left' right')
  | unary {info info' : Info} (type : info'.type = info.type) (op : UnaryOp)
      {operand operand' : Expr} (ho : Expr.Renamed σ operand operand') :
      Expr.Renamed σ (.unary info op operand) (.unary info' op operand')
  | call {info info' : Info} (type : info'.type = info.type) (callee : String)
      {symbol symbol' : Option SymbolRef} {es es' : List Expr} (hs : Expr.AllRenamed σ es es') :
      Expr.Renamed σ (.call info callee symbol es) (.call info' callee symbol' es')
  | assignment {info info' : Info} (type : info'.type = info.type) {target : String}
      {ref ref' : SymbolRef} {value value' : Expr}
      (same : SameVariable σ target ref.scope ref'.scope) (hv : Expr.Renamed σ value value') :
      Expr.Renamed σ (.assignment info target (some ref) value)
        (.assignment info' target (some ref') value')

inductive Expr.AllRenamed (σ : Correspondence) : List Expr → List Expr → Prop
  | nil : Expr.AllRenamed σ [] []
  | cons {e e' : Expr} {es es' : List Expr} (first : Expr.Renamed σ e e')
      (rest : Expr.AllRenamed σ es es') : Expr.AllRenamed σ (e :: es) (e' :: es')

end

mutual

/-- Typed statements that differ in scopes only, numbers of nodes and places apart. There is no
function among them. -/
inductive Stmt.Renamed (σ : Correspondence) : Stmt → Stmt → Prop
  | letVar {span span' : Span} {name : String} {ref ref' : SymbolRef} {type type' : Ty}
      {value value' : Expr} (same : SameVariable σ name ref.scope ref'.scope)
      (hv : value.Renamed σ value') : Stmt.Renamed σ (.letVar span name (some ref) type value)
        (.letVar span' name (some ref') type' value')
  | ifThen {span span' : Span} {test test' : Expr} {b b' : Block} (hc : test.Renamed σ test')
      (hb : Block.Renamed σ b b') : Stmt.Renamed σ (.ifThen span test b) (.ifThen span' test' b')
  | ifThenElse {span span' : Span} {test test' : Expr} {b b' : Block} {s s' : Stmt}
      (hc : test.Renamed σ test') (hb : Block.Renamed σ b b') (hs : Stmt.Renamed σ s s') :
      Stmt.Renamed σ (.ifThenElse span test b s) (.ifThenElse span' test' b' s')
  | whileLoop {span span' : Span} {test test' : Expr} {b b' : Block} (hc : test.Renamed σ test')
      (hb : Block.Renamed σ b b') :
      Stmt.Renamed σ (.whileLoop span test b) (.whileLoop span' test' b')
  | block {b b' : Block} (hb : Block.Renamed σ b b') : Stmt.Renamed σ (.block b) (.block b')
  | expression {span span' : Span} {value value' : Expr} (hv : value.Renamed σ value') :
      Stmt.Renamed σ (.expression span value) (.expression span' value')
  | leave (span span' : Span) : Stmt.Renamed σ (.ret span none) (.ret span' none)
  | giveBack {span span' : Span} {value value' : Expr} (hv : value.Renamed σ value') :
      Stmt.Renamed σ (.ret span (some value)) (.ret span' (some value'))

inductive Block.Renamed (σ : Correspondence) : Block → Block → Prop
  | mk {scope scope' : Option ScopeId} {span span' : Span} {ss ss' : List Stmt}
      (h : Stmt.AllRenamed σ ss ss') : Block.Renamed σ (.mk scope span ss) (.mk scope' span' ss')

inductive Stmt.AllRenamed (σ : Correspondence) : List Stmt → List Stmt → Prop
  | nil : Stmt.AllRenamed σ [] []
  | cons {s s' : Stmt} {ss ss' : List Stmt} (first : Stmt.Renamed σ s s')
      (rest : Stmt.AllRenamed σ ss ss') : Stmt.AllRenamed σ (s :: ss) (s' :: ss')

end

namespace Expr.Renamed

variable {e e' : Expr}

theorem type_eq (h : e.Renamed σ e') : e'.type = e.type := by
  cases h <;> assumption

theorem literal?_eq (h : e.Renamed σ e') : e'.literal? = e.literal? := by
  cases h <;> rfl

end Expr.Renamed

end Typed

namespace Semantics

/-! ## Contexts -/

/-- Scopes around two places that declare the same variables and stand for each other. -/
structure Level.Renamed (σ : Correspondence) (l l' : Level) : Prop where
  scope : σ l.scope l'.scope
  inner : l.scope ≠ globalScope
  inner' : l'.scope ≠ globalScope
  vars : l'.vars = l.vars
  areNames : ∀ name type, l.type? name = some type → IsName name

theorem Level.Renamed.type?_eq {l l' : Level} (h : l.Renamed σ l') (name : String) :
    l'.type? name = l.type? name := congrArg (List.lookup name) h.vars

theorem Level.Renamed.declare {l l' : Level} (h : l.Renamed σ l') {name : String}
    (isName : IsName name) (type : Ty) :
    (l.declare name type).Renamed σ (l'.declare name type) := by
  refine ⟨h.scope, h.inner, h.inner', congrArg ((name, type) :: ·) h.vars, ?_⟩
  intro other type' declared
  rw [type?_declare] at declared
  split at declared
  next same => exact same ▸ isName
  next => exact h.areNames other type' declared

/-- A scope without variables. -/
theorem Level.Renamed.empty {scope scope' : ScopeId} (h : σ scope scope')
    (inner : scope ≠ globalScope) (inner' : scope' ≠ globalScope) :
    Level.Renamed σ { scope := scope } { scope := scope' } :=
  ⟨h, inner, inner', rfl, fun _ _ declared => by cases declared⟩

/-- The scopes of functions with the same parameters. -/
theorem Level.Renamed.declareParams {params : List Param} :
    ∀ {params' : List Param} {l l' : Level}, params'.map Param.bare = params.map Param.bare →
      (∀ p ∈ params, IsName p.name) → l.Renamed σ l' →
      (params.foldl declareParam l).Renamed σ (params'.foldl declareParam l') := by
  induction params with
  | nil =>
    intro params' l l' same _ h
    obtain rfl := List.map_eq_nil_iff.1 same
    exact h
  | cons p params ih =>
    intro params' l l' same areNames h
    cases params' with
    | nil => cases same
    | cons p' params' =>
      obtain ⟨first, others⟩ := List.cons.inj same
      obtain ⟨-, -, name, type⟩ := Param.mk.inj first
      have declared := h.declare (areNames p List.mem_cons_self) (.ofName p.type.name)
      rw [List.foldl_cons, List.foldl_cons, declareParam, declareParam, name,
        (WrittenType.mk.inj type).1]
      exact ih others (fun q mem => areNames q (List.mem_cons_of_mem _ mem)) declared

/-- Two places where the same functions can be called, global variables that are known at both have
the same types, and the scopes around stand for each other. -/
structure Context.Renamed (σ : Correspondence) (Γ Γ' : Context) : Prop where
  functions : ∀ name, Γ'.functions.lookup name = Γ.functions.lookup name
  globals : ∀ name type type', Γ.globals.lookup name = some type →
    Γ'.globals.lookup name = some type' → type' = type
  locals : List.Forall₂ (Level.Renamed σ) Γ.locals Γ'.locals

namespace Context.Renamed

variable {Γ Γ' : Context}

/-- The innermost declarations of a name stand in scopes that stand for each other. -/
theorem find? {ls ls' : List Level} (h : List.Forall₂ (Level.Renamed σ) ls ls') (name : String) :
    Context.find? name ls = none ∧ Context.find? name ls' = none ∨
      ∃ n n' type, Context.find? name ls = some (n, type) ∧
        Context.find? name ls' = some (n', type) ∧ SameVariable σ name n n' := by
  induction h with
  | nil => exact .inl ⟨rfl, rfl⟩
  | @cons l l' _ _ first _ ih =>
    rw [Context.find?, Context.find?, first.type?_eq]
    cases declared : l.type? name with
    | none => exact ih
    | some type =>
      exact .inr ⟨_, _, type, rfl, rfl,
        .inner (first.areNames name type declared) first.scope first.inner first.inner'⟩

/-- A name that means a variable at both places means the same. -/
theorem lookup (h : Γ.Renamed σ Γ') {name : String} {n n' : ScopeId} {type type' : Ty}
    (known : Γ.lookup name = some (n, type)) (known' : Γ'.lookup name = some (n', type')) :
    type' = type ∧ SameVariable σ name n n' := by
  unfold Context.lookup at known known'
  rcases find? h.locals name with ⟨none, none'⟩ | ⟨m, m', t, found, found', same⟩
  · rw [none] at known
    rw [none'] at known'
    obtain ⟨t, declared, pair⟩ := Option.map_eq_some_iff.1 known
    obtain ⟨t', declared', pair'⟩ := Option.map_eq_some_iff.1 known'
    cases pair
    cases pair'
    exact ⟨h.globals name _ _ declared declared', .global⟩
  · rw [found] at known
    rw [found'] at known'
    cases known
    cases known'
    exact ⟨rfl, same⟩

theorem declare (h : Γ.Renamed σ Γ') {name : String} (isName : IsName name) (type : Ty) :
    (Γ.declare name type).Renamed σ (Γ'.declare name type) := by
  obtain ⟨functions, globals, locals⟩ := Γ
  obtain ⟨functions', globals', locals'⟩ := Γ'
  have around : List.Forall₂ (Level.Renamed σ) locals locals' := h.locals
  cases around with
  | cons first rest => exact ⟨h.functions, h.globals, .cons (first.declare isName type) rest⟩
  | nil =>
    refine ⟨h.functions, fun other t t' declared declared' => ?_, .nil⟩
    change ((name, type) :: globals).lookup other = some t at declared
    change ((name, type) :: globals').lookup other = some t' at declared'
    rw [List.lookup_cons] at declared declared'
    cases same : other == name with
    | true =>
      rw [same] at declared declared'
      exact (Option.some.inj declared').symm.trans (Option.some.inj declared)
    | false =>
      rw [same] at declared declared'
      exact h.globals other t t' declared declared'

theorem push (h : Γ.Renamed σ Γ') {scope scope' : ScopeId} (scopes : σ scope scope')
    (inner : scope ≠ globalScope) (inner' : scope' ≠ globalScope) :
    (Γ.push scope).Renamed σ (Γ'.push scope') :=
  ⟨h.functions, h.globals, .cons (.empty scopes inner inner') h.locals⟩

end Context.Renamed

/-- Declarations open no scope. -/
theorem Context.locals_of_declare {Γ : Context} {name : String} {type : Ty}
    (outside : (Γ.declare name type).locals = []) : Γ.locals = [] := by
  have scopes := Γ.scopes_declare name type
  rw [Context.scopes, outside] at scopes
  exact List.map_eq_nil_iff.1 scopes.symm

/-- Declarations put the same global variables in front. -/
theorem Context.globals_declare {Γ Γ' : Context} (h : Γ.Renamed σ Γ')
    (same : Γ'.globals = Γ.globals) (name : String) (type : Ty) :
    (Γ'.declare name type).globals = (Γ.declare name type).globals := by
  obtain ⟨functions, globals, locals⟩ := Γ
  obtain ⟨functions', globals', locals'⟩ := Γ'
  have around : List.Forall₂ (Level.Renamed σ) locals locals' := h.locals
  cases around with
  | cons => exact same
  | nil => exact congrArg ((name, type) :: ·) same

/-- A variable is declared in scopes that stand for each other. -/
theorem Context.Renamed.sameVariable {Γ Γ' : Context} (h : Γ.Renamed σ Γ') {name : String}
    (isName : IsName name) : SameVariable σ name Γ.scope Γ'.scope := by
  obtain ⟨functions, globals, locals⟩ := Γ
  obtain ⟨functions', globals', locals'⟩ := Γ'
  have around : List.Forall₂ (Level.Renamed σ) locals locals' := h.locals
  cases around with
  | cons first => exact .inner isName first.scope first.inner first.inner'
  | nil => exact .global

/-! ## Typed forms of the same program parts -/

section

variable {Γ Γ' : Context}

mutual

/-- Typed forms of the same expression differ in scopes only. -/
theorem ExprTyped.renamed (like : Γ.Renamed σ Γ') :
    ∀ (e : Expr) {e' : Expr} {t t' : Typed.Expr}, e'.bare = e.bare → ExprTyped Γ e t →
      ExprTyped Γ' e' t' → t.Renamed σ t'
  | .literal .., e', t, t', same, h, h' => by
    cases e' with
    | literal =>
      cases same
      cases h
      cases h'
      refine .literal ?_ _
      rfl
    | _ => cases same
  | .var .., e', t, t', same, h, h' => by
    cases e' with
    | var =>
      cases same
      cases h with
      | var known =>
        cases h' with
        | var known' =>
          obtain ⟨type, scopes⟩ := like.lookup known known'
          exact .var type scopes
    | _ => cases same
  | .binary _ _ op left right, e', t, t', same, h, h' => by
    cases e' with
    | binary _ _ op' left' right' =>
      obtain ⟨-, -, rfl, inLeft, inRight⟩ := Expr.binary.inj same
      cases h with
      | binary hl hr applies =>
        cases h' with
        | binary hl' hr' applies' =>
          have l := ExprTyped.renamed like left inLeft hl hl'
          have r := ExprTyped.renamed like right inRight hr hr'
          rw [l.type_eq, r.type_eq, applies] at applies'
          exact .binary (Option.some.inj applies').symm op' l r
    | _ => cases same
  | .unary _ _ op operand, e', t, t', same, h, h' => by
    cases e' with
    | unary _ _ op' operand' =>
      obtain ⟨-, -, rfl, inOperand⟩ := Expr.unary.inj same
      cases h with
      | unary ho =>
        cases h' with
        | unary ho' =>
          refine .unary ?_ op' (ExprTyped.renamed like operand inOperand ho ho')
          rfl
    | _ => cases same
  | .call _ _ callee _ arguments, e', t, t', same, h, h' => by
    cases e' with
    | call _ _ callee' _ arguments' =>
      obtain ⟨-, -, rfl, -, inArguments⟩ := Expr.call.inj same
      cases h with
      | call _ known hs =>
        cases h' with
        | call _ known' hs' =>
          rw [like.functions, known] at known'
          cases known'
          refine .call ?_ callee' (ExprsTyped.renamed like arguments inArguments hs hs')
          rfl
    | _ => cases same
  | .assignment _ _ target _ value, e', t, t', same, h, h' => by
    cases e' with
    | assignment _ _ target' _ value' =>
      obtain ⟨-, -, rfl, -, inValue⟩ := Expr.assignment.inj same
      cases h with
      | assignment hv known =>
        cases h' with
        | assignment hv' known' =>
          obtain ⟨type, scopes⟩ := like.lookup known known'
          refine .assignment ?_ scopes (ExprTyped.renamed like value inValue hv hv')
          exact type
    | _ => cases same

theorem ExprsTyped.renamed (like : Γ.Renamed σ Γ') :
    ∀ (es : List Expr) {es' : List Expr} {ts ts' : List Typed.Expr},
      Expr.bareAll es' = Expr.bareAll es → ExprsTyped Γ es ts → ExprsTyped Γ' es' ts' →
      Typed.Expr.AllRenamed σ ts ts'
  | [], es', ts, ts', same, h, h' => by
    cases es' with
    | nil =>
      cases h
      cases h'
      exact .nil
    | cons => cases same
  | e :: es, es', ts, ts', same, h, h' => by
    cases es' with
    | nil => cases same
    | cons e' es' =>
      obtain ⟨inFirst, inRest⟩ := List.cons.inj same
      cases h with
      | cons first rest =>
        cases h' with
        | cons first' rest' =>
          exact .cons (ExprTyped.renamed like e inFirst first first')
            (ExprsTyped.renamed like es inRest rest rest')

end

mutual

/-- Typed forms of the same statement differ in scopes only. The scopes of its blocks stand for each
other; those behind them are left for what follows. -/
theorem StmtTyped.renamed :
    ∀ (s : Stmt) {s' : Stmt} {t t' : Typed.Stmt} {Γ Γ' : Context} {expected expected' : Option Ty}
      {rest rest' : List ScopeId}, s'.bare = s.bare → StmtTyped Γ expected s t →
      StmtTyped Γ' expected' s' t' → Γ.Renamed σ Γ' →
      Pairs σ (t.scopes ++ rest) (t'.scopes ++ rest') → t.Renamed σ t' ∧ Pairs σ rest rest'
  | .ifThen _ condition body, s', t, t', Γ, Γ', _, _, _, _, same, h, h', like, pairs => by
    cases s' with
    | ifThen _ condition' body' =>
      obtain ⟨-, inTest, inBody⟩ := Stmt.ifThen.inj same
      cases h with
      | ifThen _ hc _ hb =>
        cases h' with
        | ifThen _ hc' _ hb' =>
          obtain ⟨renamed, left⟩ := BlockTyped.renamed body inBody hb hb' like pairs
          exact ⟨.ifThen (ExprTyped.renamed like condition inTest hc hc') renamed, left⟩
    | _ => cases same
  | .ifThenElse _ condition body elseBranch, s', t, t', Γ, Γ', _, _, _, _, same, h, h', like,
      pairs => by
    cases s' with
    | ifThenElse _ condition' body' elseBranch' =>
      obtain ⟨-, inTest, inBody, inElse⟩ := Stmt.ifThenElse.inj same
      cases h with
      | ifThenElse _ hc _ hb ht =>
        cases h' with
        | ifThenElse _ hc' _ hb' ht' =>
          rw [Typed.Stmt.scopes, Typed.Stmt.scopes, List.append_assoc, List.append_assoc] at pairs
          obtain ⟨renamed, left⟩ := BlockTyped.renamed body inBody hb hb' like pairs
          obtain ⟨renamedElse, left⟩ := StmtTyped.renamed elseBranch inElse ht ht' like left
          exact ⟨.ifThenElse (ExprTyped.renamed like condition inTest hc hc') renamed renamedElse,
            left⟩
    | _ => cases same
  | .whileLoop _ condition body, s', t, t', Γ, Γ', _, _, _, _, same, h, h', like, pairs => by
    cases s' with
    | whileLoop _ condition' body' =>
      obtain ⟨-, inTest, inBody⟩ := Stmt.whileLoop.inj same
      cases h with
      | whileLoop _ hc _ hb =>
        cases h' with
        | whileLoop _ hc' _ hb' =>
          obtain ⟨renamed, left⟩ := BlockTyped.renamed body inBody hb hb' like pairs
          exact ⟨.whileLoop (ExprTyped.renamed like condition inTest hc hc') renamed, left⟩
    | _ => cases same
  | .block inner, s', t, t', Γ, Γ', _, _, _, _, same, h, h', like, pairs => by
    cases s' with
    | block inner' =>
      cases h with
      | block _ hb =>
        cases h' with
        | block _ hb' =>
          obtain ⟨renamed, left⟩ :=
            BlockTyped.renamed inner (Stmt.block.inj same) hb hb' like pairs
          exact ⟨.block renamed, left⟩
    | _ => cases same
  | .expression _ value, s', t, t', Γ, Γ', _, _, _, _, same, h, h', like, pairs => by
    cases s' with
    | expression _ value' =>
      cases h with
      | expression _ hv =>
        cases h' with
        | expression _ hv' =>
          exact ⟨.expression (ExprTyped.renamed like value (Stmt.expression.inj same).2 hv hv'),
            pairs⟩
    | _ => cases same
  | .ret _ none, s', t, t', Γ, Γ', _, _, _, _, same, h, h', like, pairs => by
    cases h with
    | leave =>
      cases h' with
      | leave => exact ⟨.leave _ _, pairs⟩
      | _ => cases same
  | .ret _ (some value), s', t, t', Γ, Γ', _, _, _, _, same, h, h', like, pairs => by
    cases h with
    | giveBack _ hv =>
      cases h' with
      | @giveBack _ _ value' _ _ hv' =>
        have inValue := Option.some.inj (Stmt.ret.inj same).2
        exact ⟨.giveBack (ExprTyped.renamed like value inValue hv hv'), pairs⟩
      | _ => cases same
  | .letVar .., _, _, _, _, _, _, _, _, _, _, h, _, _, _ => by cases h
  | .function .., _, _, _, _, _, _, _, _, _, _, h, _, _, _ => by cases h
  | .error .., _, _, _, _, _, _, _, _, _, _, h, _, _, _ => by cases h

theorem BlockTyped.renamed :
    ∀ (b : Block) {b' : Block} {t t' : Typed.Block} {Γ Γ' : Context}
      {expected expected' : Option Ty} {rest rest' : List ScopeId},
      Stmt.bareBlock b' = Stmt.bareBlock b → BlockTyped Γ expected b t →
      BlockTyped Γ' expected' b' t' → Γ.Renamed σ Γ' →
      Pairs σ (Typed.Stmt.blockScopes t ++ rest) (Typed.Stmt.blockScopes t' ++ rest') →
      t.Renamed σ t' ∧ Pairs σ rest rest'
  | .mk _ _ body, .mk _ _ body', t, t', Γ, Γ', _, _, _, _, same, h, h', like, pairs => by
    obtain ⟨-, -, inBody⟩ := Block.mk.inj same
    cases h with
    | mk _ inner hs =>
      cases h' with
      | mk _ inner' hs' =>
        obtain ⟨scopes, pairs⟩ := pairs.cons
        obtain ⟨renamed, left, -⟩ := AllTyped.renamed body inBody hs hs'
          (like.push scopes inner inner') (fun outside => by cases outside) pairs
        exact ⟨.mk renamed, left⟩

/-- Typed forms of the same statements differ in scopes only. At the top level there is to be no
function among the statements. The same global variables are declared by both. -/
theorem AllTyped.renamed :
    ∀ (ss : List Stmt) {ss' : List Stmt} {ts ts' : List Typed.Stmt} {Γ Γ' Γ₁ Γ₁' : Context}
      {expected expected' : Option Ty} {rest rest' : List ScopeId},
      Stmt.bareAll ss' = Stmt.bareAll ss → AllTyped Γ expected ss ts Γ₁ →
      AllTyped Γ' expected' ss' ts' Γ₁' → Γ.Renamed σ Γ' →
      (Γ.locals = [] → ∀ s ∈ ss, s.function? = none) →
      Pairs σ (Typed.Stmt.scopesAll ts ++ rest) (Typed.Stmt.scopesAll ts' ++ rest') →
      Typed.Stmt.AllRenamed σ ts ts' ∧ Pairs σ rest rest' ∧
        (Γ'.globals = Γ.globals → Γ₁'.globals = Γ₁.globals)
  | [], [], ts, ts', Γ, Γ', _, _, _, _, _, _, same, h, h', like, _, pairs => by
    cases h
    cases h'
    exact ⟨.nil, pairs, id⟩
  | s :: ss, s' :: ss', ts, ts', Γ, Γ', _, _, _, _, _, _, same, h, h', like, quiet, pairs => by
    obtain ⟨inFirst, inRest⟩ := List.cons.inj same
    have quietRest : Γ.locals = [] → ∀ s ∈ ss, s.function? = none :=
      fun outside s mem => quiet outside s (List.mem_cons_of_mem _ mem)
    cases h with
    | @letVar _ _ _ _ _ _ name _ value v _ _ _ _ isName _ hv _ place rest =>
      cases h' with
      | @letVar _ _ _ _ _ _ name' _ value' v' _ _ _ _ _ _ hv' _ place' rest' =>
        obtain ⟨-, -, rfl, -, -, inValue⟩ := Stmt.letVar.inj inFirst
        have renamedValue := ExprTyped.renamed like value inValue hv hv'
        have sameVariable := like.sameVariable isName
        rw [← place, ← place'] at sameVariable
        rw [renamedValue.type_eq] at rest'
        have declared := like.declare isName v.type
        obtain ⟨renamed, left, globals⟩ := AllTyped.renamed ss inRest rest rest' declared
          (fun outside => quietRest (Context.locals_of_declare outside)) pairs
        exact ⟨.cons (.letVar sameVariable renamedValue) renamed, left,
          fun equal => globals (Context.globals_declare like equal name' v.type)⟩
      | function => cases inFirst
      | statement first' => cases first' <;> cases inFirst
    | function _ outside => cases quiet outside _ List.mem_cons_self
    | statement first rest =>
      cases h' with
      | letVar => cases first <;> cases inFirst
      | function => cases first <;> cases inFirst
      | statement first' rest' =>
        rw [Typed.Stmt.scopesAll, Typed.Stmt.scopesAll, List.append_assoc, List.append_assoc]
          at pairs
        obtain ⟨renamedFirst, left⟩ := StmtTyped.renamed s inFirst first first' like pairs
        obtain ⟨renamed, left, globals⟩ := AllTyped.renamed ss inRest rest rest' like quietRest left
        exact ⟨.cons renamedFirst renamed, left, globals⟩
  | [], _ :: _, _, _, _, _, _, _, _, _, _, _, same, _, _, _, _, _ => by cases same
  | _ :: _, [], _, _, _, _, _, _, _, _, _, _, same, _, _, _, _, _ => by cases same

end

end

end Semantics

end MiniLang
