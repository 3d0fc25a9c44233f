import MiniLang.Proofs.Syntax.Grammar

/-!
# From one dialect to another

A derivation is one of every dialect that accepts the same targets of assignments, apart from its
error placeholders. So a program without placeholders is derived in the dialect that has none
(`DerivesProgram.strict`), and then all of its terminals are known ones (`DerivesProgram.known`):
nothing else than a placeholder can stand for a token that is unknown.
-/

set_option autoImplicit false

namespace MiniLang

/-- The dialect without error placeholders. -/
def Dialect.strict (d : Dialect) : Dialect := ⟨d.target, fun _ => False⟩

variable {d d' : Dialect}

/-! ## Derivations without error placeholders -/

mutual

theorem Derives.mono (le : ∀ ts x, d.target ts x → d'.target ts x) {l : Stratum}
    {ts : List Terminal} {e : Expr} (h : Derives d l ts e) : Derives d' l ts e := by
  match h with
  | .assignment target value => exact .assignment (le _ _ target) (value.mono le)
  | .tighter h => exact .tighter (h.mono le)
  | .binary mem left right => exact .binary mem (left.mono le) (right.mono le)
  | .unary mem operand => exact .unary mem (operand.mono le)
  | .integer value => exact .integer value
  | .yes => exact .yes
  | .no => exact .no
  | .name => exact .name
  | .call h => exact .call (h.mono le)
  | .group h => exact .group (h.mono le)

theorem DerivesArguments.mono (le : ∀ ts x, d.target ts x → d'.target ts x) {ts : List Terminal}
    {es : List Expr} (h : DerivesArguments d ts es) : DerivesArguments d' ts es := by
  match h with
  | .none => exact .none
  | .some h => exact .some (h.mono le)

theorem DerivesSeparated.mono (le : ∀ ts x, d.target ts x → d'.target ts x) {ts : List Terminal}
    {es : List Expr} (h : DerivesSeparated d ts es) : DerivesSeparated d' ts es := by
  match h with
  | .last h => exact .last (h.mono le)
  | .cons first rest => exact .cons (first.mono le) (rest.mono le)

end

theorem Derives.strict {l : Stratum} {ts : List Terminal} {e : Expr} (h : Derives d l ts e) :
    Derives d.strict l ts e := by
  have same : ∀ ts x, d.target ts x → d.strict.target ts x := fun _ _ => id
  exact h.mono same

mutual

theorem DerivesStmt.strict {ts : List Terminal} {s : Stmt} (h : DerivesStmt d ts s)
    (clean : s.preorder.any Stmt.isError = false) : DerivesStmt d.strict ts s := by
  match h with
  | .letVar value => exact .letVar value.strict
  | .choice h => exact .choice (h.strict clean)
  | .whileLoop test body =>
    simp only [Stmt.preorder, List.any_cons, Bool.or_eq_false_iff] at clean
    exact .whileLoop test.strict (body.strict clean.2)
  | .block h =>
    simp only [Stmt.preorder, List.any_cons, Bool.or_eq_false_iff] at clean
    exact .block (h.strict clean.2)
  | .leave => exact .leave
  | .giveBack value => exact .giveBack value.strict
  | .expression value => exact .expression value.strict
  | .error _ => cases clean

theorem DerivesChoice.strict {ts : List Terminal} {s : Stmt} (h : DerivesChoice d ts s)
    (clean : s.preorder.any Stmt.isError = false) : DerivesChoice d.strict ts s := by
  match h with
  | .ifThen test yes =>
    simp only [Stmt.preorder, List.any_cons, Bool.or_eq_false_iff] at clean
    exact .ifThen test.strict (yes.strict clean.2)
  | .ifThenElse test yes no =>
    simp only [Stmt.preorder, List.any_cons, List.any_append, Bool.or_eq_false_iff] at clean
    exact .ifThenElse test.strict (yes.strict clean.2.1) (no.strict clean.2.2.2)
  | .elseIf test yes no =>
    simp only [Stmt.preorder, List.any_cons, List.any_append, Bool.or_eq_false_iff] at clean
    exact .elseIf test.strict (yes.strict clean.2.1) (no.strict clean.2.2)

theorem DerivesBlock.strict {ts : List Terminal} {b : Block} (h : DerivesBlock d ts b)
    (clean : (Stmt.inBlock b).any Stmt.isError = false) : DerivesBlock d.strict ts b := by
  match h with
  | .mk body => exact .mk (body.strict clean)

theorem DerivesBody.strict {ts : List Terminal} {ss : List Stmt} (h : DerivesBody d ts ss)
    (clean : (Stmt.preorderAll ss).any Stmt.isError = false) : DerivesBody d.strict ts ss := by
  match h with
  | .nil => exact .nil
  | .cons first rest =>
    simp only [Stmt.preorderAll, List.any_append, Bool.or_eq_false_iff] at clean
    exact .cons (first.strict clean.1) (rest.strict clean.2)

end

/-- A program without error placeholders needs a dialect with none. -/
theorem DerivesProgram.strict {ts : List Terminal} {ss : List Stmt} (h : DerivesProgram d ts ss)
    (clean : (Stmt.preorderAll ss).any Stmt.isError = false) : DerivesProgram d.strict ts ss := by
  induction h with
  | nil => exact .nil
  | cons first _ ih =>
    simp only [Stmt.preorderAll, List.any_append, Bool.or_eq_false_iff] at clean
    refine .cons ?_ (ih clean.2)
    cases first with
    | inner h => exact .inner (h.strict clean.1)
    | function h =>
      simp only [Stmt.preorder, List.any_cons, Bool.or_eq_false_iff] at clean
      exact .function (h.strict clean.1.2)

/-! ## More error placeholders -/

/-- A dialect accepts what another one does. -/
structure Dialect.Within (d d' : Dialect) : Prop where
  target : ∀ ts x, d.target ts x → d'.target ts x
  placeholder : ∀ ts, d.placeholder ts → d'.placeholder ts

mutual

theorem DerivesStmt.mono (le : d.Within d') {ts : List Terminal} {s : Stmt}
    (h : DerivesStmt d ts s) : DerivesStmt d' ts s := by
  match h with
  | .letVar value => exact .letVar (value.mono le.target)
  | .choice h => exact .choice (h.mono le)
  | .whileLoop test body => exact .whileLoop (test.mono le.target) (body.mono le)
  | .block h => exact .block (h.mono le)
  | .leave => exact .leave
  | .giveBack value => exact .giveBack (value.mono le.target)
  | .expression value => exact .expression (value.mono le.target)
  | .error h => exact .error (le.placeholder _ h)

theorem DerivesChoice.mono (le : d.Within d') {ts : List Terminal} {s : Stmt}
    (h : DerivesChoice d ts s) : DerivesChoice d' ts s := by
  match h with
  | .ifThen test yes => exact .ifThen (test.mono le.target) (yes.mono le)
  | .ifThenElse test yes no =>
    exact .ifThenElse (test.mono le.target) (yes.mono le) (no.mono le)
  | .elseIf test yes no => exact .elseIf (test.mono le.target) (yes.mono le) (no.mono le)

theorem DerivesBlock.mono (le : d.Within d') {ts : List Terminal} {b : Block}
    (h : DerivesBlock d ts b) : DerivesBlock d' ts b := by
  match h with
  | .mk body => exact .mk (body.mono le)

theorem DerivesBody.mono (le : d.Within d') {ts : List Terminal} {ss : List Stmt}
    (h : DerivesBody d ts ss) : DerivesBody d' ts ss := by
  match h with
  | .nil => exact .nil
  | .cons first rest => exact .cons (first.mono le) (rest.mono le)

end

theorem DerivesTop.mono (le : d.Within d') {ts : List Terminal} {s : Stmt}
    (h : DerivesTop d ts s) : DerivesTop d' ts s := by
  cases h with
  | inner h => exact .inner (h.mono le)
  | function h => exact .function (h.mono le)

theorem DerivesProgram.mono (le : d.Within d') {ts : List Terminal} {ss : List Stmt}
    (h : DerivesProgram d ts ss) : DerivesProgram d' ts ss := by
  induction h with
  | nil => exact .nil
  | cons first _ ih => exact .cons (first.mono le) ih

/-! ## Terminals that are known -/

/-- Nothing unknown is among the terminals. -/
def Known (ts : List Terminal) : Prop := ∀ t ∈ ts, t.kind ≠ .unknown

@[simp] theorem known_nil : Known [] := fun _ mem => by cases mem

@[simp] theorem known_cons {t : Terminal} {ts : List Terminal} :
    Known (t :: ts) ↔ t.kind ≠ .unknown ∧ Known ts := List.forall_mem_cons

@[simp] theorem known_append {ts us : List Terminal} : Known (ts ++ us) ↔ Known ts ∧ Known us :=
  List.forall_mem_append

@[simp] theorem known_inParens {ts : List Terminal} : Known (Terminal.inParens ts) ↔ Known ts := by
  simp [Terminal.inParens, Terminal.kind]

theorem Enclosed.known {ts : List Terminal} {x : String} (h : Enclosed ts x) : Known ts := by
  induction h with
  | name x => simp [Terminal.kind]
  | parens _ ih => exact known_inParens.2 ih

@[simp] theorem TypeName.kind_ne_unknown (name : TypeName) : name.kind ≠ .unknown := by
  cases name <;> decide

theorem known_typeBehind {sign : TokenKind} (h : sign ≠ .unknown) (declared : Option WrittenType) :
    Known (typeBehind sign declared) := by
  cases declared <;> simp [typeBehind, Terminal.kind, h]

theorem known_paramTerminals : ∀ ps : List Param, Known (paramTerminals ps)
  | [] => known_nil
  | [p] => by simp [paramTerminals, Param.terminals, Terminal.kind]
  | p :: q :: ps => by
    simp [paramTerminals, Param.terminals, Terminal.kind, known_paramTerminals (q :: ps)]

theorem FunctionHeader.known_terminals (f : FunctionHeader) : Known f.terminals := by
  have arrow : TokenKind.arrow ≠ .unknown := by decide
  have result := known_typeBehind arrow f.returnType
  simp [FunctionHeader.terminals, Terminal.kind, known_paramTerminals, result]

/-- What the tokens of operators have in common. -/
theorem UnaryOp.tokens_known {kind : TokenKind} {op : UnaryOp} (mem : (kind, op) ∈ tokens) :
    kind ≠ .unknown := by
  rintro rfl
  simp [tokens] at mem

theorem Stratum.operators_known {l : Stratum} {kind : TokenKind} {op : BinaryOp}
    (mem : (kind, op) ∈ l.operators) : kind ≠ .unknown := by
  rintro rfl
  cases l <;> simp [operators] at mem

/-- The dialect has nothing unknown where names are assigned to, and no error placeholders. -/
structure Dialect.Known (d : Dialect) : Prop where
  target : ∀ ts x, d.target ts x → MiniLang.Known ts
  placeholder : ∀ ts, ¬d.placeholder ts

theorem Dialect.known_lenient : Dialect.lenient.Known := ⟨fun _ _ h => h.known, fun _ => id⟩

mutual

theorem Derives.known (all : d.Known) {l : Stratum} {ts : List Terminal} {e : Expr}
    (h : Derives d l ts e) : Known ts := by
  match h with
  | .assignment target value => simp [all.target _ _ target, value.known all, Terminal.kind]
  | .tighter h => exact h.known all
  | .binary mem left right =>
    simp [left.known all, right.known all, Terminal.kind, Stratum.operators_known mem]
  | .unary mem operand => simp [operand.known all, Terminal.kind, UnaryOp.tokens_known mem]
  | .integer _ | .yes | .no | .name => simp [Terminal.kind]
  | .call h => simp [h.known all, Terminal.kind]
  | .group h => simp [h.known all]

theorem DerivesArguments.known (all : d.Known) {ts : List Terminal} {es : List Expr}
    (h : DerivesArguments d ts es) : Known ts := by
  match h with
  | .none => exact known_nil
  | .some h => exact h.known all

theorem DerivesSeparated.known (all : d.Known) {ts : List Terminal} {es : List Expr}
    (h : DerivesSeparated d ts es) : Known ts := by
  match h with
  | .last h => exact h.known all
  | .cons first rest => simp [first.known all, rest.known all, Terminal.kind]

end

mutual

theorem DerivesStmt.known (all : d.Known) {ts : List Terminal} {s : Stmt}
    (h : DerivesStmt d ts s) : Known ts := by
  match h with
  | @DerivesStmt.letVar _ _ _ _ _ _ _ declared value =>
    have colon : TokenKind.colon ≠ .unknown := by decide
    have type := known_typeBehind colon declared
    simp [type, value.known all, Terminal.kind]
  | .choice h => exact h.known all
  | .whileLoop test body => simp [test.known all, body.known all, Terminal.kind]
  | .block h => exact h.known all
  | .leave => simp [Terminal.kind]
  | .giveBack value => simp [value.known all, Terminal.kind]
  | .expression value => simp [value.known all, Terminal.kind]
  | .error placeholder => exact absurd placeholder (all.placeholder _)

theorem DerivesChoice.known (all : d.Known) {ts : List Terminal} {s : Stmt}
    (h : DerivesChoice d ts s) : Known ts := by
  match h with
  | .ifThen test yes => simp [test.known all, yes.known all, Terminal.kind]
  | .ifThenElse test yes no =>
    simp [test.known all, yes.known all, no.known all, Terminal.kind]
  | .elseIf test yes no => simp [test.known all, yes.known all, no.known all, Terminal.kind]

theorem DerivesBlock.known (all : d.Known) {ts : List Terminal} {b : Block}
    (h : DerivesBlock d ts b) : Known ts := by
  match h with
  | .mk body => simp [body.known all, Terminal.kind]

theorem DerivesBody.known (all : d.Known) {ts : List Terminal} {ss : List Stmt}
    (h : DerivesBody d ts ss) : Known ts := by
  match h with
  | .nil => exact known_nil
  | .cons first rest => simp [first.known all, rest.known all]

end

/-- A program is derived from terminals that are all known, unless it has error placeholders. -/
theorem DerivesProgram.known (all : d.Known) {ts : List Terminal} {ss : List Stmt}
    (h : DerivesProgram d ts ss) : Known ts := by
  induction h with
  | nil => exact known_nil
  | cons first _ ih =>
    refine known_append.2 ⟨?_, ih⟩
    cases first with
    | inner h => exact h.known all
    | function h => simp [FunctionHeader.known_terminals, h.known all]

end MiniLang
