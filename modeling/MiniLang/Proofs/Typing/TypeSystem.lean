import MiniLang.Proofs.Syntax.Trees
import MiniLang.Proofs.Typing.Judgement

/-!
# The type system

Which programs are well typed, and which types their expressions and variables have
(`ProgramTyped`), as rules about trees. The rules know no scopes, symbols or sessions: what a name
means at a place is given by an environment of nested lists. Which types `==` and `!=` compare is
left open (`compares`). Symbols and scopes that stand in typed trees are not looked at; the types in
them are determined by the rules (`ProgramTyped.unique`).
-/

set_option autoImplicit false

namespace MiniLang

/-! ## Types in typed trees -/

namespace Typed.Expr

mutual

/-- The types of an expression and of all expressions below it, parents first. -/
def types : Expr → List Ty
  | literal info _ => [info.type]
  | var info _ _ => [info.type]
  | binary info _ left right => info.type :: (types left ++ types right)
  | unary info _ operand => info.type :: types operand
  | call info _ _ arguments => info.type :: typesAll arguments
  | assignment info _ _ value => info.type :: types value

def typesAll : List Expr → List Ty
  | [] => []
  | e :: es => types e ++ typesAll es

end

end Typed.Expr

namespace Typed.Stmt

mutual

/-- The types of the variables and expressions of a statement, in order. -/
def types : Stmt → List Ty
  | letVar _ _ _ type value => type :: value.types
  | ifThen _ condition thenBlock => condition.types ++ blockTypes thenBlock
  | ifThenElse _ condition thenBlock elseBranch =>
    condition.types ++ blockTypes thenBlock ++ types elseBranch
  | whileLoop _ condition body => condition.types ++ blockTypes body
  | block inner => blockTypes inner
  | expression _ value => value.types
  | function _ _ body => blockTypes body
  | ret _ none => []
  | ret _ (some value) => value.types
  | error _ => []

def blockTypes : Block → List Ty
  | .mk _ _ body => typesAll body

def typesAll : List Stmt → List Ty
  | [] => []
  | s :: ss => types s ++ typesAll ss

end

end Typed.Stmt

/-- The types of the variables and expressions of a program, in order. -/
def Typed.Program.types (p : Typed.Program) : List Ty := Typed.Stmt.typesAll p.body

namespace TypeSystem

open Semantics (Signature signatures)

/-! ## Environments -/

/-- What names mean at a place: the functions of the program, and the variables of the scopes around
the place, the innermost first and in each the latest first. -/
structure Environment where
  functions : List (String × Signature)
  scopes : List (List (String × Ty))

namespace Environment

/-- The type of the innermost variable with a given name. -/
def typeOf? (Δ : Environment) (name : String) : Option Ty := Δ.scopes.findSome? (·.lookup name)

/-- A function can be called by its name, where no variable hides it. -/
def Calls (Δ : Environment) (name : String) (f : Signature) : Prop :=
  Δ.typeOf? name = none ∧ Δ.functions.lookup name = some f

/-- What names mean after the declaration of a variable. -/
def declare (Δ : Environment) (name : String) (type : Ty) : Environment :=
  match Δ.scopes with
  | [] => { Δ with scopes := [[(name, type)]] }
  | scope :: scopes => { Δ with scopes := ((name, type) :: scope) :: scopes }

/-- What names mean at the beginning of a block. -/
def inner (Δ : Environment) : Environment := { Δ with scopes := [] :: Δ.scopes }

/-- What names mean at the beginning of the body of a function. -/
def enter (Δ : Environment) (params : List Param) : Environment :=
  params.foldl (fun Δ p => Δ.declare p.name (.ofName p.type.name)) Δ.inner

end Environment

/-! ## Operators -/

/-- Numbers, truth values, and nothing: all types but those of functions. -/
def NoFunction (type : Ty) : Prop := type = .int ∨ type = .bool ∨ type = .unit

/-- Numbers and truth values: the types that variables can have. -/
def IsValue (type : Ty) : Prop := type = .int ∨ type = .bool

/-- The type of what an operator gives for operands of given types. -/
inductive BinaryTyped (compares : Ty → Prop) : BinaryOp → Ty → Ty → Ty → Prop
  | arithmetic {op : BinaryOp} (h : op ∈ [.add, .sub, .mul, .div, .rem]) :
      BinaryTyped compares op .int .int .int
  | relational {op : BinaryOp} (h : op ∈ [.lt, .le, .gt, .ge]) :
      BinaryTyped compares op .int .int .bool
  | logical {op : BinaryOp} (h : op ∈ [.and, .or]) : BinaryTyped compares op .bool .bool .bool
  | equality {op : BinaryOp} {type : Ty} (h : op ∈ [.eq, .ne]) (same : compares type) :
      BinaryTyped compares op type type .bool

inductive UnaryTyped : UnaryOp → Ty → Ty → Prop
  | neg : UnaryTyped .neg .int .int
  | not : UnaryTyped .not .bool .bool

/-! ## Expressions -/

mutual

/-- An expression has the types that stand in a typed tree. Functions are no values; their names
stand in calls only. -/
inductive ExprTyped (compares : Ty → Prop) (Δ : Environment) : Expr → Typed.Expr → Prop
  | number {id : NodeId} {span : Span} (value : Int) :
      ExprTyped compares Δ (.literal id span (.int value)) (.literal ⟨id, span, .int⟩ (.int value))
  | truth {id : NodeId} {span : Span} (value : Bool) :
      ExprTyped compares Δ (.literal id span (.bool value))
        (.literal ⟨id, span, .bool⟩ (.bool value))
  | var {id : NodeId} {span : Span} {name : String} {symbol : Option SymbolRef} {type : Ty}
      (known : Δ.typeOf? name = some type) :
      ExprTyped compares Δ (.var id span name) (.var ⟨id, span, type⟩ name symbol)
  | binary {id : NodeId} {span : Span} {op : BinaryOp} {left right : Expr} {l r : Typed.Expr}
      {type : Ty} (hl : ExprTyped compares Δ left l) (hr : ExprTyped compares Δ right r)
      (applies : BinaryTyped compares op l.type r.type type) :
      ExprTyped compares Δ (.binary id span op left right) (.binary ⟨id, span, type⟩ op l r)
  | unary {id : NodeId} {span : Span} {op : UnaryOp} {operand : Expr} {o : Typed.Expr} {type : Ty}
      (ho : ExprTyped compares Δ operand o) (applies : UnaryTyped op o.type type) :
      ExprTyped compares Δ (.unary id span op operand) (.unary ⟨id, span, type⟩ op o)
  | call {id : NodeId} {span calleeSpan : Span} {callee : String} {symbol : Option SymbolRef}
      {arguments : List Expr} {ts : List Typed.Expr} {f : Signature} (known : Δ.Calls callee f)
      (hs : ExprsTyped compares Δ arguments ts) (fits : ts.map Typed.Expr.type = f.params) :
      ExprTyped compares Δ (.call id span callee calleeSpan arguments)
        (.call ⟨id, span, f.result⟩ callee symbol ts)
  | assignment {id : NodeId} {span targetSpan : Span} {target : String}
      {symbol : Option SymbolRef} {value : Expr} {v : Typed.Expr}
      (hv : ExprTyped compares Δ value v) (known : Δ.typeOf? target = some v.type) :
      ExprTyped compares Δ (.assignment id span target targetSpan value)
        (.assignment ⟨id, span, v.type⟩ target symbol v)

inductive ExprsTyped (compares : Ty → Prop) (Δ : Environment) :
    List Expr → List Typed.Expr → Prop
  | nil : ExprsTyped compares Δ [] []
  | cons {e : Expr} {es : List Expr} {t : Typed.Expr} {ts : List Typed.Expr}
      (first : ExprTyped compares Δ e t) (rest : ExprsTyped compares Δ es ts) :
      ExprsTyped compares Δ (e :: es) (t :: ts)

end

/-! ## Statements -/

mutual

/-- A statement always returns: it does, a block of it does, or both ways of a choice do. A loop may
run no round at all. -/
inductive Returns : Stmt → Prop
  | ret (span : Span) (value : Option Expr) : Returns (.ret span value)
  | block {b : Block} (h : BlockReturns b) : Returns (.block b)
  | choice {span : Span} {condition : Expr} {thenBlock : Block} {elseBranch : Stmt}
      (yes : BlockReturns thenBlock) (no : Returns elseBranch) :
      Returns (.ifThenElse span condition thenBlock elseBranch)

inductive BlockReturns : Block → Prop
  | mk {id : NodeId} {span : Span} {body : List Stmt} (h : SomeReturns body) :
      BlockReturns (.mk id span body)

/-- One of the statements always returns. -/
inductive SomeReturns : List Stmt → Prop
  | here {s : Stmt} {ss : List Stmt} (h : Returns s) : SomeReturns (s :: ss)
  | later {s : Stmt} {ss : List Stmt} (h : SomeReturns ss) : SomeReturns (s :: ss)

end

/-- A variable can be declared with a first value of the given type: a type that is written has to
be this one, and otherwise there has to be a value. -/
def Admits (declared : Option WrittenType) (type : Ty) : Prop :=
  match declared with
  | some written => type = .ofName written.name
  | none => type ≠ .unit

mutual

/-- A statement has the types that stand in a typed tree, in a function that gives back `expected`;
after it names mean what the second environment says. -/
inductive StmtTyped (compares : Ty → Prop) :
    Environment → Option Ty → Stmt → Typed.Stmt → Environment → Prop
  | letVar {Δ : Environment} {expected : Option Ty} {id : NodeId} {span nameSpan : Span}
      {name : String} {declared : Option WrittenType} {value : Expr} {v : Typed.Expr}
      {symbol : Option SymbolRef} (hv : ExprTyped compares Δ value v)
      (admits : Admits declared v.type) :
      StmtTyped compares Δ expected (.letVar id span name nameSpan declared value)
        (.letVar span name symbol v.type v) (Δ.declare name v.type)
  | ifThen {Δ : Environment} {expected : Option Ty} {span : Span} {condition : Expr}
      {c : Typed.Expr} {body : Block} {b : Typed.Block} (hc : ExprTyped compares Δ condition c)
      (test : c.type = .bool) (hb : BlockTyped compares Δ expected body b) :
      StmtTyped compares Δ expected (.ifThen span condition body) (.ifThen span c b) Δ
  | ifThenElse {Δ Δ' : Environment} {expected : Option Ty} {span : Span} {condition : Expr}
      {c : Typed.Expr} {body : Block} {b : Typed.Block} {elseBranch : Stmt} {t : Typed.Stmt}
      (hc : ExprTyped compares Δ condition c) (test : c.type = .bool)
      (hb : BlockTyped compares Δ expected body b)
      (ht : StmtTyped compares Δ expected elseBranch t Δ') :
      StmtTyped compares Δ expected (.ifThenElse span condition body elseBranch)
        (.ifThenElse span c b t) Δ
  | whileLoop {Δ : Environment} {expected : Option Ty} {span : Span} {condition : Expr}
      {c : Typed.Expr} {body : Block} {b : Typed.Block} (hc : ExprTyped compares Δ condition c)
      (test : c.type = .bool) (hb : BlockTyped compares Δ expected body b) :
      StmtTyped compares Δ expected (.whileLoop span condition body) (.whileLoop span c b) Δ
  | block {Δ : Environment} {expected : Option Ty} {inner : Block} {b : Typed.Block}
      (hb : BlockTyped compares Δ expected inner b) :
      StmtTyped compares Δ expected (.block inner) (.block b) Δ
  | expression {Δ : Environment} {expected : Option Ty} {span : Span} {value : Expr}
      {v : Typed.Expr} (hv : ExprTyped compares Δ value v) :
      StmtTyped compares Δ expected (.expression span value) (.expression span v) Δ
  /-- The body sees the parameters and the variables declared before the function. -/
  | function {Δ : Environment} {expected : Option Ty} {span bodySpan : Span} {id : NodeId}
      {header : FunctionHeader} {typed : Typed.FunctionHeader} {scope : Option ScopeId}
      {body : List Stmt} {bs : List Typed.Stmt}
      (hb : BodyTyped compares (Δ.enter header.params) (some (.ofReturn header.returnType)) body bs)
      (returns : header.returnType ≠ none → SomeReturns body) :
      StmtTyped compares Δ expected (.function span header (.mk id bodySpan body))
        (.function span typed (.mk scope bodySpan bs)) Δ
  | leave {Δ : Environment} {span : Span} :
      StmtTyped compares Δ (some .unit) (.ret span none) (.ret span none) Δ
  | giveBack {Δ : Environment} {type : Ty} {span : Span} {value : Expr} {v : Typed.Expr}
      (hv : ExprTyped compares Δ value v) (fits : v.type = type) :
      StmtTyped compares Δ (some type) (.ret span (some value)) (.ret span (some v)) Δ

inductive BlockTyped (compares : Ty → Prop) :
    Environment → Option Ty → Block → Typed.Block → Prop
  | mk {Δ : Environment} {expected : Option Ty} {id : NodeId} {scope : Option ScopeId}
      {span : Span} {body : List Stmt} {ts : List Typed.Stmt}
      (hs : BodyTyped compares Δ.inner expected body ts) :
      BlockTyped compares Δ expected (.mk id span body) (.mk scope span ts)

inductive BodyTyped (compares : Ty → Prop) :
    Environment → Option Ty → List Stmt → List Typed.Stmt → Prop
  | nil {Δ : Environment} {expected : Option Ty} : BodyTyped compares Δ expected [] []
  | cons {Δ Δ' : Environment} {expected : Option Ty} {s : Stmt} {t : Typed.Stmt} {ss : List Stmt}
      {ts : List Typed.Stmt} (first : StmtTyped compares Δ expected s t Δ')
      (rest : BodyTyped compares Δ' expected ss ts) :
      BodyTyped compares Δ expected (s :: ss) (t :: ts)

end

/-- A program has the types that stand in a typed tree. -/
def ProgramTyped (compares : Ty → Prop) (p : Program) (t : Typed.Program) : Prop :=
  BodyTyped compares ⟨signatures p, [[]]⟩ none p.body t.body

/-! ## Types are determined -/

variable {compares : Ty → Prop} {Δ : Environment}

theorem BinaryTyped.unique {op : BinaryOp} {left right type type' : Ty}
    (h : BinaryTyped compares op left right type) (h' : BinaryTyped compares op left right type') :
    type = type' := by
  cases h <;> cases h' <;> first | rfl | (cases op <;> simp_all)

theorem UnaryTyped.unique {op : UnaryOp} {operand type type' : Ty}
    (h : UnaryTyped op operand type) (h' : UnaryTyped op operand type') : type = type' := by
  cases h <;> cases h' <;> rfl

mutual

theorem ExprTyped.unique {e : Expr} {t t' : Typed.Expr} (h : ExprTyped compares Δ e t)
    (h' : ExprTyped compares Δ e t') : t.type = t'.type ∧ t.types = t'.types := by
  match h with
  | .number _ | .truth _ =>
    cases h'
    exact ⟨rfl, rfl⟩
  | .var known =>
    cases h' with
    | var known' =>
      obtain rfl := Option.some.inj (known.symm.trans known')
      exact ⟨rfl, rfl⟩
  | .binary hl hr applies =>
    cases h' with
    | binary hl' hr' applies' =>
      obtain ⟨typeLeft, left⟩ := hl.unique hl'
      obtain ⟨typeRight, right⟩ := hr.unique hr'
      rw [← typeLeft, ← typeRight] at applies'
      obtain rfl := applies.unique applies'
      exact ⟨rfl, by simp only [Typed.Expr.types, left, right]⟩
  | .unary ho applies =>
    cases h' with
    | unary ho' applies' =>
      obtain ⟨type, below⟩ := ho.unique ho'
      rw [← type] at applies'
      obtain rfl := applies.unique applies'
      exact ⟨rfl, by simp only [Typed.Expr.types, below]⟩
  | .call known hs _ =>
    cases h' with
    | call known' hs' _ =>
      obtain rfl := Option.some.inj (known.2.symm.trans known'.2)
      exact ⟨rfl, by simp only [Typed.Expr.types, hs.unique hs']⟩
  | .assignment hv _ =>
    cases h' with
    | assignment hv' _ =>
      obtain ⟨type, below⟩ := hv.unique hv'
      exact ⟨type, by simp only [Typed.Expr.types, type, below]⟩

theorem ExprsTyped.unique {es : List Expr} {ts ts' : List Typed.Expr}
    (h : ExprsTyped compares Δ es ts) (h' : ExprsTyped compares Δ es ts') :
    Typed.Expr.typesAll ts = Typed.Expr.typesAll ts' := by
  match h with
  | .nil =>
    cases h'
    rfl
  | .cons first rest =>
    cases h' with
    | cons first' rest' =>
      simp only [Typed.Expr.typesAll, (first.unique first').2, rest.unique rest']

end

mutual

theorem StmtTyped.unique {Δ Δ₁ Δ₂ : Environment} {expected : Option Ty} {s : Stmt}
    {t t' : Typed.Stmt} (h : StmtTyped compares Δ expected s t Δ₁)
    (h' : StmtTyped compares Δ expected s t' Δ₂) : t.types = t'.types ∧ Δ₁ = Δ₂ := by
  match h with
  | .letVar hv _ =>
    cases h' with
    | letVar hv' _ =>
      obtain ⟨type, below⟩ := hv.unique hv'
      exact ⟨by simp only [Typed.Stmt.types, type, below], by rw [type]⟩
  | .ifThen hc _ hb =>
    cases h' with
    | ifThen hc' _ hb' =>
      exact ⟨by simp only [Typed.Stmt.types, (hc.unique hc').2, hb.unique hb'], rfl⟩
  | .ifThenElse hc _ hb ht =>
    cases h' with
    | ifThenElse hc' _ hb' ht' =>
      refine ⟨?_, rfl⟩
      simp only [Typed.Stmt.types, (hc.unique hc').2, hb.unique hb', (ht.unique ht').1]
  | .whileLoop hc _ hb =>
    cases h' with
    | whileLoop hc' _ hb' =>
      exact ⟨by simp only [Typed.Stmt.types, (hc.unique hc').2, hb.unique hb'], rfl⟩
  | .block hb =>
    cases h' with
    | block hb' => exact ⟨by simp only [Typed.Stmt.types, hb.unique hb'], rfl⟩
  | .expression hv =>
    cases h' with
    | expression hv' => exact ⟨(hv.unique hv').2, rfl⟩
  | .function hb _ =>
    cases h' with
    | function hb' _ =>
      exact ⟨by simp only [Typed.Stmt.types, Typed.Stmt.blockTypes, hb.unique hb'], rfl⟩
  | .leave =>
    cases h'
    exact ⟨rfl, rfl⟩
  | .giveBack hv _ =>
    cases h' with
    | giveBack hv' _ => exact ⟨(hv.unique hv').2, rfl⟩

theorem BlockTyped.unique {Δ : Environment} {expected : Option Ty} {b : Block}
    {t t' : Typed.Block} (h : BlockTyped compares Δ expected b t)
    (h' : BlockTyped compares Δ expected b t') :
    Typed.Stmt.blockTypes t = Typed.Stmt.blockTypes t' := by
  match h with
  | .mk hs =>
    cases h' with
    | mk hs' => exact hs.unique hs'

theorem BodyTyped.unique {Δ : Environment} {expected : Option Ty} {ss : List Stmt}
    {ts ts' : List Typed.Stmt} (h : BodyTyped compares Δ expected ss ts)
    (h' : BodyTyped compares Δ expected ss ts') :
    Typed.Stmt.typesAll ts = Typed.Stmt.typesAll ts' := by
  match h with
  | .nil =>
    cases h'
    rfl
  | .cons first rest =>
    cases h' with
    | cons first' rest' =>
      obtain ⟨types, rfl⟩ := first.unique first'
      simp only [Typed.Stmt.typesAll, types, rest.unique rest']

end

/-- A program has its types in one way only. -/
theorem ProgramTyped.unique {p : Program} {t t' : Typed.Program}
    (h : ProgramTyped compares p t) (h' : ProgramTyped compares p t') : t.types = t'.types :=
  BodyTyped.unique h h'

/-- Only declarations change what names mean behind them. -/
theorem StmtTyped.environment_eq {Δ Δ' : Environment} {expected : Option Ty} {s : Stmt}
    {t : Typed.Stmt} (h : StmtTyped compares Δ expected s t Δ') (quiet : s.declares = false) :
    Δ' = Δ := by
  cases h <;> first | rfl | cases quiet

/-! ## Statements that always return -/

mutual

theorem StmtTyped.returns_iff {Δ Δ' : Environment} {expected : Option Ty} {s : Stmt}
    {t : Typed.Stmt} (h : StmtTyped compares Δ expected s t Δ') :
    t.returns = true ↔ Returns s := by
  match h with
  | .block hb =>
    rw [Typed.Stmt.returns, hb.returns_iff]
    exact ⟨.block, fun is => by cases is with | block h => exact h⟩
  | .ifThenElse _ _ hb ht =>
    rw [Typed.Stmt.returns, Bool.and_eq_true, hb.returns_iff, ht.returns_iff]
    exact ⟨fun both => .choice both.1 both.2,
      fun is => by cases is with | choice yes no => exact ⟨yes, no⟩⟩
  | .leave | .giveBack _ _ => exact ⟨fun _ => .ret .., fun _ => rfl⟩
  | .letVar .. | .ifThen .. | .whileLoop .. | .expression .. | .function .. =>
    exact ⟨(fun is => by cases is), fun is => by cases is⟩

theorem BlockTyped.returns_iff {Δ : Environment} {expected : Option Ty} {b : Block}
    {t : Typed.Block} (h : BlockTyped compares Δ expected b t) :
    Typed.Stmt.blockReturns t = true ↔ BlockReturns b := by
  match h with
  | .mk hs =>
    rw [Typed.Stmt.blockReturns, hs.returns_iff]
    exact ⟨.mk, fun is => by cases is with | mk h => exact h⟩

theorem BodyTyped.returns_iff {Δ : Environment} {expected : Option Ty} {ss : List Stmt}
    {ts : List Typed.Stmt} (h : BodyTyped compares Δ expected ss ts) :
    Typed.Stmt.anyReturns ts = true ↔ SomeReturns ss := by
  match h with
  | .nil => exact ⟨(fun is => by cases is), fun is => by cases is⟩
  | .cons first rest =>
    rw [Typed.Stmt.anyReturns, Bool.or_eq_true, first.returns_iff, rest.returns_iff]
    refine ⟨fun is => is.elim .here .later, fun is => ?_⟩
    cases is with
    | here h => exact .inl h
    | later h => exact .inr h

end

end TypeSystem

end MiniLang
