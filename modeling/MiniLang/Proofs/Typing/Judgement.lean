import Mathlib.Tactic
import MiniLang.Proofs.Token.Names
import MiniLang.Proofs.Typing.BlockScopes

/-!
# Programs and their typed forms

When a program means something, and which typed program says so: `ProgramTyped` holds of a program
and a typed form of it in which every expression has its type and every name the scope of its
declaration. A context lists what the names in front of a statement mean. Declarations belong to the
lists they stand in (`AllTyped`), since only the statements after them see them; no other statement
changes what names mean.
-/

set_option autoImplicit false

namespace MiniLang.Semantics

/-- The types of the arguments of a function, and of what it gives back. -/
structure Signature where
  params : List Ty
  result : Ty

/-- The variables of a scope inside of a function or block, the latest first. -/
structure Level where
  scope : ScopeId
  vars : List (String × Ty) := []

namespace Level

/-- The type of the variable of a scope with a given name. -/
def type? (l : Level) (name : String) : Option Ty := l.vars.lookup name

/-- The scope after the declaration of a variable. -/
def declare (l : Level) (name : String) (type : Ty) : Level :=
  { l with vars := (name, type) :: l.vars }

/-- The scope after the declaration of a parameter. -/
def declareParam (l : Level) (p : Param) : Level := l.declare p.name (.ofName p.type.name)

@[simp] theorem scope_declare (l : Level) (name : String) (type : Ty) :
    (l.declare name type).scope = l.scope := rfl

theorem type?_declare (l : Level) (name other : String) (type : Ty) :
    (l.declare name type).type? other = if name = other then some type else l.type? other := by
  unfold declare type?
  rw [List.lookup_cons]
  by_cases same : name = other
  · simp [same]
  · rw [if_neg same, beq_eq_false_iff_ne.2 (Ne.symm same)]

theorem scope_foldl_declareParam (params : List Param) :
    ∀ l : Level, (params.foldl declareParam l).scope = l.scope := by
  induction params with
  | nil => exact fun _ => rfl
  | cons p params ih => exact fun l => ih (l.declareParam p)

/-- The variables of a scope with parameters are these and the ones it had before. -/
theorem type?_foldl_declareParam {name : String} {type : Ty} (params : List Param) :
    ∀ {l : Level}, (params.foldl declareParam l).type? name = some type →
      (∃ p ∈ params, p.name = name) ∨ l.type? name = some type := by
  induction params with
  | nil => exact fun h => .inr h
  | cons p params ih =>
    intro l h
    rcases ih h with ⟨q, mem, same⟩ | before
    · exact .inl ⟨q, List.mem_cons_of_mem _ mem, same⟩
    · rw [declareParam, type?_declare] at before
      by_cases same : p.name = name
      · exact .inl ⟨p, List.mem_cons_self, same⟩
      · rw [if_neg same] at before
        exact .inr before

end Level

/-- What names mean at a place in a program. -/
structure Context where
  functions : List (String × Signature)
  /-- The variables of the global scope that are declared before. -/
  globals : List (String × Ty) := []
  /-- The scopes around the place, the innermost first; at the top level there is none. -/
  locals : List Level := []

namespace Context

/-- The innermost variable with a given name among the given scopes: its scope and type. -/
def find? (name : String) : List Level → Option (ScopeId × Ty)
  | [] => none
  | l :: ls =>
    match l.type? name with
    | some type => some (l.scope, type)
    | none => find? name ls

/-- The variable that a name means: its scope and type. -/
def lookup (Γ : Context) (name : String) : Option (ScopeId × Ty) :=
  match find? name Γ.locals with
  | some found => some found
  | none => (Γ.globals.lookup name).map (globalScope, ·)

/-- The scope in which a declaration puts its name. -/
def scope (Γ : Context) : ScopeId :=
  match Γ.locals with
  | [] => globalScope
  | l :: _ => l.scope

/-- The type of the variable with a given name in the scope of the place itself. -/
def own? (Γ : Context) (name : String) : Option Ty :=
  match Γ.locals with
  | [] => Γ.globals.lookup name
  | l :: _ => l.type? name

/-- What names mean after the declaration of a variable. -/
def declare (Γ : Context) (name : String) (type : Ty) : Context :=
  match Γ.locals with
  | [] => { Γ with globals := (name, type) :: Γ.globals }
  | l :: ls => { Γ with locals := l.declare name type :: ls }

/-- What names mean at the beginning of a block. -/
def push (Γ : Context) (scope : ScopeId) : Context :=
  { Γ with locals := { scope := scope } :: Γ.locals }

/-- What names mean at the beginning of the body of a function. -/
def enter (Γ : Context) (scope : ScopeId) (params : List Param) : Context :=
  { Γ with locals := [params.foldl Level.declareParam { scope := scope }] }

/-- The numbers of the scopes around a place. -/
def scopes (Γ : Context) : List ScopeId := Γ.locals.map Level.scope

@[simp] theorem functions_declare (Γ : Context) (name : String) (type : Ty) :
    (Γ.declare name type).functions = Γ.functions := by
  unfold declare
  split <;> rfl

@[simp] theorem scopes_declare (Γ : Context) (name : String) (type : Ty) :
    (Γ.declare name type).scopes = Γ.scopes := by
  unfold declare scopes
  split
  next none => rfl
  next l ls some => simp [some]

theorem own?_declare (Γ : Context) (name other : String) (type : Ty) :
    (Γ.declare name type).own? other = if name = other then some type else Γ.own? other := by
  obtain ⟨functions, globals, locals⟩ := Γ
  cases locals with
  | nil =>
    change ((name, type) :: globals).lookup other = _
    rw [List.lookup_cons]
    by_cases same : name = other
    · rw [if_pos same, beq_iff_eq.2 same.symm]
    · rw [if_neg same, beq_eq_false_iff_ne.2 (Ne.symm same)]
      rfl
  | cons l ls => exact l.type?_declare name other type

end Context

/-- The type of an operator's operand, and of the result as well. -/
def operandType : UnaryOp → Ty
  | .neg => .int
  | .not => .bool

mutual

/-- An expression has a typed form. -/
inductive ExprTyped (Γ : Context) : Expr → Typed.Expr → Prop
  | literal (id : NodeId) (span : Span) (value : Literal) :
      ExprTyped Γ (.literal id span value) (.literal ⟨id, span, Typing.literalType value⟩ value)
  | var {id : NodeId} {span : Span} {name : String} {ref : SymbolRef} {type : Ty}
      (known : Γ.lookup name = some (ref.scope, type)) (isValue : type.isValue = true) :
      ExprTyped Γ (.var id span name) (.var ⟨id, span, type⟩ name (some ref))
  | binary {id : NodeId} {span : Span} {op : BinaryOp} {left right : Expr} {l r : Typed.Expr}
      {type : Ty} (hl : ExprTyped Γ left l) (hr : ExprTyped Γ right r)
      (applies : Typing.binaryType op l.type r.type = some type) :
      ExprTyped Γ (.binary id span op left right) (.binary ⟨id, span, type⟩ op l r)
  | unary {id : NodeId} {span : Span} {op : UnaryOp} {operand : Expr} {o : Typed.Expr}
      (ho : ExprTyped Γ operand o) (applies : o.type = operandType op) :
      ExprTyped Γ (.unary id span op operand) (.unary ⟨id, span, operandType op⟩ op o)
  /-- A variable hides functions of its name. -/
  | call {id : NodeId} {span calleeSpan : Span} {callee : String} {ref : SymbolRef}
      {arguments : List Expr} {ts : List Typed.Expr} {f : Signature}
      (free : Γ.lookup callee = none) (known : Γ.functions.lookup callee = some f)
      (hs : ExprsTyped Γ arguments ts) (fits : ts.map Typed.Expr.type = f.params)
      (noError : f.result.isError = false) :
      ExprTyped Γ (.call id span callee calleeSpan arguments)
        (.call ⟨id, span, f.result⟩ callee (some ref) ts)
  | assignment {id : NodeId} {span targetSpan : Span} {target : String} {ref : SymbolRef}
      {value : Expr} {v : Typed.Expr} (hv : ExprTyped Γ value v)
      (known : Γ.lookup target = some (ref.scope, v.type)) (isValue : v.type.isValue = true) :
      ExprTyped Γ (.assignment id span target targetSpan value)
        (.assignment ⟨id, span, v.type⟩ target (some ref) v)

/-- Expressions have typed forms. -/
inductive ExprsTyped (Γ : Context) : List Expr → List Typed.Expr → Prop
  | nil : ExprsTyped Γ [] []
  | cons {e : Expr} {es : List Expr} {t : Typed.Expr} {ts : List Typed.Expr}
      (first : ExprTyped Γ e t) (rest : ExprsTyped Γ es ts) : ExprsTyped Γ (e :: es) (t :: ts)

end

/-- Values have no error as their type. -/
theorem isError_of_isValue {type : Ty} (h : type.isValue = true) : type.isError = false := by
  cases type <;> first | rfl | cases h

/-- Operators give values. -/
theorem isValue_of_binaryType {op : BinaryOp} {left right type : Ty}
    (h : Typing.binaryType op left right = some type) : type.isValue = true := by
  unfold Typing.binaryType at h
  split at h
  · split at h
    · cases h
      rfl
    · split at h
      · cases h
        rfl
      · cases h
  · split at h
    · cases h
      rfl
    · cases h
  · cases h

theorem isValue_operandType (op : UnaryOp) : (operandType op).isValue = true := by
  cases op <;> rfl

/-- No expression that has a typed form has an error as its type. -/
theorem ExprTyped.noError {Γ : Context} {e : Expr} {t : Typed.Expr} (h : ExprTyped Γ e t) :
    t.type.isError = false := by
  cases h with
  | literal _ _ value => cases value <;> rfl
  | var _ isValue => exact isError_of_isValue isValue
  | binary _ _ applies => exact isError_of_isValue (isValue_of_binaryType applies)
  | @unary _ _ op => exact isError_of_isValue (isValue_operandType op)
  | call _ _ _ _ noError => exact noError
  | assignment _ _ isValue => exact isError_of_isValue isValue

/-- The header of a function has a typed form, whose parameters belong to the given scope. -/
structure HeaderTyped (scope : ScopeId) (header : FunctionHeader) (typed : Typed.FunctionHeader) :
    Prop where
  name : typed.name = header.name
  isName : IsName header.name
  params : List.Forall₂ (fun p q => q.name = p.name ∧ ∃ ref : SymbolRef, q.symbol = some ref ∧
    ref.scope = scope) header.params typed.params
  distinct : (header.params.map Param.name).Nodup
  areNames : ∀ p ∈ header.params, IsName p.name
  inner : scope ≠ globalScope

mutual

/-- A statement that declares nothing has a typed form, in a function that gives back `expected`. -/
inductive StmtTyped : Context → Option Ty → Stmt → Typed.Stmt → Prop
  | ifThen {Γ : Context} {expected : Option Ty} {span : Span} {condition : Expr} {c : Typed.Expr}
      {body : Block} {b : Typed.Block} (here : span.Valid) (hc : ExprTyped Γ condition c)
      (test : c.type = .bool) (hb : BlockTyped Γ expected body b) :
      StmtTyped Γ expected (.ifThen span condition body) (.ifThen span c b)
  | ifThenElse {Γ : Context} {expected : Option Ty} {span : Span} {condition : Expr}
      {c : Typed.Expr} {body : Block} {b : Typed.Block} {elseBranch : Stmt} {t : Typed.Stmt}
      (here : span.Valid) (hc : ExprTyped Γ condition c) (test : c.type = .bool)
      (hb : BlockTyped Γ expected body b) (ht : StmtTyped Γ expected elseBranch t) :
      StmtTyped Γ expected (.ifThenElse span condition body elseBranch) (.ifThenElse span c b t)
  | whileLoop {Γ : Context} {expected : Option Ty} {span : Span} {condition : Expr}
      {c : Typed.Expr} {body : Block} {b : Typed.Block} (here : span.Valid)
      (hc : ExprTyped Γ condition c) (test : c.type = .bool) (hb : BlockTyped Γ expected body b) :
      StmtTyped Γ expected (.whileLoop span condition body) (.whileLoop span c b)
  | block {Γ : Context} {expected : Option Ty} {inner : Block} {b : Typed.Block}
      (here : b.span.Valid) (hb : BlockTyped Γ expected inner b) :
      StmtTyped Γ expected (.block inner) (.block b)
  | expression {Γ : Context} {expected : Option Ty} {span : Span} {value : Expr} {v : Typed.Expr}
      (here : span.Valid) (hv : ExprTyped Γ value v) :
      StmtTyped Γ expected (.expression span value) (.expression span v)
  | leave {Γ : Context} {span : Span} (here : span.Valid) :
      StmtTyped Γ (some .unit) (.ret span none) (.ret span none)
  | giveBack {Γ : Context} {span : Span} {value : Expr} {v : Typed.Expr} (here : span.Valid)
      (hv : ExprTyped Γ value v) :
      StmtTyped Γ (some v.type) (.ret span (some value)) (.ret span (some v))

/-- A block has a typed form; it has a scope of its own. -/
inductive BlockTyped : Context → Option Ty → Block → Typed.Block → Prop
  | mk {Γ : Context} {expected : Option Ty} {id : NodeId} {scope : ScopeId} {span : Span}
      {body : List Stmt} {ts : List Typed.Stmt} {Γ' : Context} (isNew : scope ∉ Γ.scopes)
      (inner : scope ≠ globalScope) (hs : AllTyped (Γ.push scope) expected body ts Γ') :
      BlockTyped Γ expected (.mk id span body) (.mk (some scope) span ts)

/-- Statements in order have typed forms, and after them names mean what the last context says.
Functions are declared at the top level only, and see the global variables declared before. -/
inductive AllTyped : Context → Option Ty → List Stmt → List Typed.Stmt → Context → Prop
  | nil {Γ : Context} {expected : Option Ty} : AllTyped Γ expected [] [] Γ
  | letVar {Γ Γ' : Context} {expected : Option Ty} {id : NodeId} {span nameSpan : Span}
      {name : String} {declared : Option WrittenType} {value : Expr} {v : Typed.Expr}
      {ref : SymbolRef} {ss : List Stmt} {ts : List Typed.Stmt} (here : span.Valid)
      (isName : IsName name) (isNew : Γ.own? name = none) (hv : ExprTyped Γ value v)
      (isValue : v.type.isValue = true) (place : ref.scope = Γ.scope)
      (rest : AllTyped (Γ.declare name v.type) expected ss ts Γ') :
      AllTyped Γ expected (.letVar id span name nameSpan declared value :: ss)
        (.letVar span name (some ref) v.type v :: ts) Γ'
  | function {Γ Γ' Γ'' : Context} {expected : Option Ty} {id : NodeId} {span bodySpan : Span}
      {header : FunctionHeader} {typed : Typed.FunctionHeader} {body ss : List Stmt}
      {scope : ScopeId} {bs ts : List Typed.Stmt} (here : span.Valid)
      (outside : Γ.locals = []) (hh : HeaderTyped scope header typed)
      (hb : AllTyped (Γ.enter scope header.params) (some (.ofReturn header.returnType)) body bs Γ'')
      (returns : Ty.ofReturn header.returnType ≠ .unit → Typed.Stmt.anyReturns bs = true)
      (rest : AllTyped Γ expected ss ts Γ') :
      AllTyped Γ expected (.function span header (.mk id bodySpan body) :: ss)
        (.function span typed (.mk (some scope) bodySpan bs) :: ts) Γ'
  | statement {Γ Γ' : Context} {expected : Option Ty} {s : Stmt} {t : Typed.Stmt} {ss : List Stmt}
      {ts : List Typed.Stmt} (first : StmtTyped Γ expected s t)
      (rest : AllTyped Γ expected ss ts Γ') : AllTyped Γ expected (s :: ss) (t :: ts) Γ'

end

/-- Declarations of global variables hide none of those declared before. -/
theorem Context.lookup_globals_declare {Γ : Context} {name other : String} {type type' : Ty}
    (isNew : Γ.own? name = none) (h : Γ.globals.lookup other = some type') :
    (Γ.declare name type).globals.lookup other = some type' := by
  unfold declare
  split
  next outside =>
    have differ : other ≠ name := by
      rintro rfl
      rw [own?, outside, h] at isNew
      cases isNew
    rw [List.lookup_cons, beq_eq_false_iff_ne.2 differ]
    exact h
  next => exact h

/-- The global variables declared before statements are declared after them. -/
theorem AllTyped.lookup_globals {name : String} {type : Ty} :
    ∀ (ss : List Stmt) {ts : List Typed.Stmt} {Γ Γ' : Context} {expected : Option Ty},
      AllTyped Γ expected ss ts Γ' → Γ.globals.lookup name = some type →
        Γ'.globals.lookup name = some type
  | [], ts, Γ, Γ', expected, typed, h => by
    cases typed
    exact h
  | s :: ss, ts, Γ, Γ', expected, typed, h => by
    cases typed with
    | letVar _ _ isNew _ _ _ rest =>
      exact rest.lookup_globals ss (Context.lookup_globals_declare isNew h)
    | function _ _ _ _ _ rest => exact rest.lookup_globals ss h
    | statement _ rest => exact rest.lookup_globals ss h

/-- Statements inside of a block declare names in the scope of the block only. -/
theorem AllTyped.inside :
    ∀ (ss : List Stmt) {ts : List Typed.Stmt} {Γ Γ' : Context} {expected : Option Ty} {l : Level}
      {ls : List Level}, AllTyped Γ expected ss ts Γ' → Γ.locals = l :: ls →
        Γ'.globals = Γ.globals ∧ ∃ l', Γ'.locals = l' :: ls
  | [], ts, Γ, Γ', expected, l, ls, typed, h => by
    cases typed
    exact ⟨rfl, l, h⟩
  | s :: ss, ts, Γ, Γ', expected, l, ls, typed, h => by
    cases typed with
    | @letVar _ _ _ _ _ _ name _ _ v _ _ _ _ _ _ _ _ _ rest =>
      have declared : (Γ.declare name v.type).locals = l.declare name v.type :: ls := by
        rw [Context.declare, h]
      have same : (Γ.declare name v.type).globals = Γ.globals := by rw [Context.declare, h]
      rw [← same]
      exact rest.inside ss declared
    | function _ outside =>
      rw [outside] at h
      cases h
    | statement _ rest => exact rest.inside ss h

/-- The signature of a function, as it is written. -/
def Signature.of (header : FunctionHeader) : Signature :=
  ⟨header.params.map fun p => .ofName p.type.name, .ofReturn header.returnType⟩

/-- The functions that can be called in a program: one that prints, and those that it declares. -/
def signatures (p : Program) : List (String × Signature) :=
  ("print", ⟨[.int], .unit⟩) :: p.functions.map fun f => (f.1.name, .of f.1)

/-- A program has a typed form; it declares the given global variables. No two functions have the
same name, and no two blocks the same scope. -/
structure ProgramTyped (p : Program) (t : Typed.Program) (globals : List (String × Ty)) : Prop where
  body : AllTyped { functions := signatures p } none p.body t.body
    { functions := signatures p, globals := globals }
  distinct : ((signatures p).map Prod.fst).Nodup
  apart : (Typed.Stmt.scopesAll t.body).Nodup

/-- A function that a program declares has a typed form; the program has the given functions, and
the global variables that the function sees are among the given ones. -/
inductive FunctionTyped (Φ : List (String × Signature)) (G : List (String × Ty)) :
    FunctionHeader × Block → Typed.Program.Function → Prop
  | mk {Γ Γ' : Context} {id : NodeId} {span bodySpan : Span} {header : FunctionHeader}
      {typed : Typed.FunctionHeader} {body : List Stmt} {scope : ScopeId}
      {bs : List Typed.Stmt} (functions : Γ.functions = Φ)
      (globals : ∀ name type, Γ.globals.lookup name = some type → G.lookup name = some type)
      (hh : HeaderTyped scope header typed)
      (hb : AllTyped (Γ.enter scope header.params) (some (.ofReturn header.returnType)) body bs Γ')
      (returns : Ty.ofReturn header.returnType ≠ .unit → Typed.Stmt.anyReturns bs = true) :
      FunctionTyped Φ G (header, .mk id bodySpan body) (span, typed, .mk (some scope) bodySpan bs)

theorem FunctionTyped.name {Φ : List (String × Signature)} {G : List (String × Ty)}
    {f : FunctionHeader × Block} {t : Typed.Program.Function} (h : FunctionTyped Φ G f t) :
    t.2.1.name = f.1.name := by
  cases h with
  | mk _ _ hh => exact hh.name

/-- Statements other than declarations declare no function. -/
theorem StmtTyped.no_function {Γ : Context} {expected : Option Ty} {s : Stmt} {t : Typed.Stmt}
    (h : StmtTyped Γ expected s t) : s.function? = none ∧ t.isFunction = false := by
  cases h <;> exact ⟨rfl, rfl⟩

theorem Context.locals_declare_of_nil {Γ : Context} (outside : Γ.locals = []) (name : String)
    (type : Ty) : (Γ.declare name type).locals = [] := by
  rw [declare, outside]

theorem Context.locals_declare_ne_nil {Γ : Context} (inside : Γ.locals ≠ []) {name : String}
    {type : Ty} : (Γ.declare name type).locals ≠ [] := by
  unfold declare
  split
  next outside => exact absurd outside inside
  next => exact List.cons_ne_nil _ _

theorem functionsOf_cons_of_not {t : Typed.Stmt} (h : t.isFunction = false)
    (ts : List Typed.Stmt) :
    Typed.Program.functionsOf (t :: ts) = Typed.Program.functionsOf ts := by
  cases t <;> first | rfl | cases h

/-- What belongs to a member of the first list is a member of the second. -/
theorem forall₂_mem {α β : Type} {R : α → β → Prop} {xs : List α} {ys : List β} {x : α}
    (h : List.Forall₂ R xs ys) (mem : x ∈ xs) : ∃ y ∈ ys, R x y := by
  induction h with
  | nil => cases mem
  | cons first _ ih =>
    rcases List.mem_cons.1 mem with rfl | mem
    · exact ⟨_, List.mem_cons_self, first⟩
    · obtain ⟨y, mem', related⟩ := ih mem
      exact ⟨y, List.mem_cons_of_mem _ mem', related⟩

/-- The functions among the statements of a program have typed forms. -/
theorem AllTyped.functions {Φ : List (String × Signature)} {G : List (String × Ty)} :
    ∀ (ss : List Stmt) {ts : List Typed.Stmt} {Γ Γ' : Context} {expected : Option Ty},
      AllTyped Γ expected ss ts Γ' → Γ.locals = [] → Γ.functions = Φ →
      (∀ name type, Γ'.globals.lookup name = some type → G.lookup name = some type) →
      List.Forall₂ (FunctionTyped Φ G) (ss.filterMap Stmt.function?)
        (Typed.Program.functionsOf ts)
  | [], ts, Γ, Γ', expected, typed, outside, known, globals => by
    cases typed
    exact .nil
  | s :: ss, ts, Γ, Γ', expected, typed, outside, known, globals => by
    cases typed with
    | @letVar _ _ _ _ _ _ name _ _ v _ _ _ _ _ _ _ _ _ rest =>
      exact rest.functions ss (Context.locals_declare_of_nil outside name v.type)
        ((Context.functions_declare ..).trans known) globals
    | function here _ hh hb returns rest =>
      refine .cons (.mk known (fun name type declared => ?_) hh hb returns)
        (rest.functions ss outside known globals)
      exact globals name type (rest.lookup_globals ss declared)
    | statement first rest =>
      rw [List.filterMap_cons_none first.no_function.1,
        functionsOf_cons_of_not first.no_function.2]
      exact rest.functions ss outside known globals

/-- A statement declares a variable with the given name. -/
def DeclaresVariable (name : String) (s : Stmt) : Prop :=
  ∃ id span nameSpan declared value, s = .letVar id span name nameSpan declared value

/-- Global variables are declared by statements of the program. -/
theorem AllTyped.declares {name : String} {type : Ty} :
    ∀ (ss : List Stmt) {ts : List Typed.Stmt} {Γ Γ' : Context} {expected : Option Ty},
      AllTyped Γ expected ss ts Γ' → Γ'.globals.lookup name = some type →
        Γ.globals.lookup name = some type ∨ ∃ s ∈ ss, DeclaresVariable name s
  | [], ts, Γ, Γ', expected, typed, h => by
    cases typed
    exact .inl h
  | s :: ss, ts, Γ, Γ', expected, typed, h => by
    cases typed with
    | @letVar _ _ _ id span nameSpan other written value v _ _ _ _ _ _ _ _ _ rest =>
      rcases rest.declares ss h with before | ⟨s, mem, declares⟩
      · by_cases same : name = other
        · subst same
          exact .inr ⟨_, List.mem_cons_self, id, span, nameSpan, written, value, rfl⟩
        · refine .inl ?_
          unfold Context.declare at before
          split at before
          next => rwa [List.lookup_cons, beq_eq_false_iff_ne.2 same] at before
          next => exact before
      · exact .inr ⟨s, List.mem_cons_of_mem _ mem, declares⟩
    | function _ _ _ _ _ rest =>
      rcases rest.declares ss h with before | ⟨s, mem, declares⟩
      · exact .inl before
      · exact .inr ⟨s, List.mem_cons_of_mem _ mem, declares⟩
    | statement _ rest =>
      rcases rest.declares ss h with before | ⟨s, mem, declares⟩
      · exact .inl before
      · exact .inr ⟨s, List.mem_cons_of_mem _ mem, declares⟩

/-- Typed functions stand somewhere. -/
theorem AllTyped.function_valid {span : Span} {header : Typed.FunctionHeader}
    {body : Typed.Block} :
    ∀ (ss : List Stmt) {ts : List Typed.Stmt} {Γ Γ' : Context} {expected : Option Ty},
      AllTyped Γ expected ss ts Γ' → .function span header body ∈ ts → span.Valid
  | [], ts, Γ, Γ', expected, typed, mem => by
    cases typed
    cases mem
  | s :: ss, ts, Γ, Γ', expected, typed, mem => by
    cases typed with
    | letVar _ _ _ _ _ _ rest =>
      rcases List.mem_cons.1 mem with same | mem
      · cases same
      · exact rest.function_valid ss mem
    | function here _ _ _ _ rest =>
      rcases List.mem_cons.1 mem with same | mem
      · cases same
        exact here
      · exact rest.function_valid ss mem
    | statement first rest =>
      rcases List.mem_cons.1 mem with same | mem
      · subst same
        cases first.no_function.2
      · exact rest.function_valid ss mem

end MiniLang.Semantics
