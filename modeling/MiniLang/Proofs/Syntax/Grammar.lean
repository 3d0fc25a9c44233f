import Mathlib.Tactic
import MiniLang.Integer
import MiniLang.Syntax.Grammar
import MiniLang.Syntax.Stmt

/-!
# The grammar of the language

Which sequences of tokens are programs, and of which tree. The grammar is stratified: every stratum
of expressions has its operators, and the operands are expressions of the next stratum, the left one
also of the same. Nothing here knows of tables, binding powers or a parser. Numbers and places of
nodes are left open, and so is what stands for a name on the left of an assignment and for an error
placeholder (`Dialect`).

Derivations do not depend on where tokens stand, so that they speak of terminals, which are tokens
without their places (`terminals`).
-/

set_option autoImplicit false

namespace MiniLang

/-- A token without the place where it stands. -/
inductive Terminal where
  | identifier (name : String)
  | integer (text : String)
  | fixed (kind : TokenKind)
  deriving DecidableEq, Repr

namespace Terminal

def kind : Terminal → TokenKind
  | identifier _ => .identifier
  | integer _ => .integer
  | fixed kind => kind

/-- Terminals between parentheses. -/
def inParens (ts : List Terminal) : List Terminal := fixed .openParen :: (ts ++ [fixed .closeParen])

end Terminal

/-- A token, without its place. -/
def Token.terminal (t : Token) : Terminal :=
  match t.kind with
  | .identifier => .identifier t.text
  | .integer => .integer t.text
  | kind => .fixed kind

@[simp] theorem Token.kind_terminal (t : Token) : t.terminal.kind = t.kind := by
  unfold terminal
  split <;> simp_all [Terminal.kind]

namespace Token

theorem terminal_of_kind {t : Token} {kind : TokenKind} (h : t.kind = kind)
    (ne : kind ≠ .identifier ∧ kind ≠ .integer) : t.terminal = .fixed kind := by
  unfold terminal
  split
  · exact absurd (h.symm.trans ‹_›) ne.1
  · exact absurd (h.symm.trans ‹_›) ne.2
  · rw [h]

theorem terminal_identifier {t : Token} (h : t.kind = .identifier) :
    t.terminal = .identifier t.text := by
  unfold terminal
  rw [h]

theorem terminal_integer {t : Token} (h : t.kind = .integer) : t.terminal = .integer t.text := by
  unfold terminal
  rw [h]

theorem text_of_terminal {t : Token} {x : String} (h : t.terminal = .identifier x) :
    t.text = x := by
  have kind : t.kind = .identifier := by rw [← t.kind_terminal, h]; rfl
  rw [terminal_identifier kind] at h
  exact Terminal.identifier.inj h

theorem text_of_terminal_integer {t : Token} {x : String} (h : t.terminal = .integer x) :
    t.text = x := by
  have kind : t.kind = .integer := by rw [← t.kind_terminal, h]; rfl
  rw [terminal_integer kind] at h
  exact Terminal.integer.inj h

end Token

/-- The tokens before the end of the input, without their places. -/
def terminals (tokens : List Token) : List Terminal :=
  (tokens.takeWhile (·.kind ≠ .endOfInput)).map Token.terminal

theorem terminals_cons {t : Token} (more : t.kind ≠ .endOfInput) (ts : List Token) :
    terminals (t :: ts) = t.terminal :: terminals ts := by
  simp [terminals, more]

/-! ## Strata of expressions -/

/-- The strata of expressions, the loosest first. -/
inductive Stratum where
  | assignment
  | logicalOr
  | logicalAnd
  | equality
  | relational
  | additive
  | multiplicative
  | unary
  | primary
  deriving DecidableEq, Repr

namespace Stratum

/-- The next stratum; after the tightest comes none. -/
def next : Stratum → Stratum
  | assignment => logicalOr
  | logicalOr => logicalAnd
  | logicalAnd => equality
  | equality => relational
  | relational => additive
  | additive => multiplicative
  | multiplicative => unary
  | unary => primary
  | primary => primary

/-- The binary operators of a stratum, and the tokens that stand for them. -/
def operators : Stratum → List (TokenKind × BinaryOp)
  | logicalOr => [(.or, .or)]
  | logicalAnd => [(.and, .and)]
  | equality => [(.equals, .eq), (.notEquals, .ne)]
  | relational => [(.less, .lt), (.lessEquals, .le), (.greater, .gt), (.greaterEquals, .ge)]
  | additive => [(.plus, .add), (.dash, .sub)]
  | multiplicative => [(.star, .mul), (.slash, .div), (.percent, .rem)]
  | _ => []

end Stratum

/-- The operators before one operand, and the tokens that stand for them. -/
def UnaryOp.tokens : List (TokenKind × UnaryOp) := [(.dash, .neg), (.not, .not)]

/-- What readings of the grammar differ in. -/
structure Dialect where
  /-- What may stand before the sign of an assignment for the variable of a given name. -/
  target : List Terminal → String → Prop
  /-- What an error placeholder may stand for. -/
  placeholder : List Terminal → Prop

/-- A name in any number of parentheses. -/
inductive Enclosed : List Terminal → String → Prop
  | name (x : String) : Enclosed [.identifier x] x
  | parens {ts : List Terminal} {x : String} (h : Enclosed ts x) :
      Enclosed (Terminal.inParens ts) x

/-- The mark that an error placeholder is printed as. -/
def errorMark : List Terminal :=
  [.fixed .less, .identifier "error", .fixed .greater, .fixed .semicolon]

namespace Dialect

/-- The language itself: an assignment has a plain name on its left. -/
def standard : Dialect := ⟨fun ts x => ts = [.identifier x], fun _ => False⟩

/-- The language with parentheses around the name on the left of an assignment. -/
def lenient : Dialect := ⟨Enclosed, fun _ => False⟩

/-- The language with marks where error placeholders stand. -/
def printed : Dialect := ⟨fun ts x => ts = [.identifier x], fun ts => ts = errorMark⟩

end Dialect

mutual

/-- Terminals form an expression of a stratum. -/
inductive Derives (d : Dialect) : Stratum → List Terminal → Expr → Prop
  | assignment {ts us : List Terminal} {x : String} {e : Expr} {id : NodeId} {span xSpan : Span}
      (target : d.target ts x) (value : Derives d .assignment us e) :
      Derives d .assignment (ts ++ .fixed .assignment :: us) (.assignment id span x xSpan e)
  | tighter {l : Stratum} {ts : List Terminal} {e : Expr} (h : Derives d l.next ts e) :
      Derives d l ts e
  | binary {l : Stratum} {kind : TokenKind} {op : BinaryOp} {ts us : List Terminal} {a b : Expr}
      {id : NodeId} {span : Span} (mem : (kind, op) ∈ l.operators) (left : Derives d l ts a)
      (right : Derives d l.next us b) :
      Derives d l (ts ++ .fixed kind :: us) (.binary id span op a b)
  | unary {kind : TokenKind} {op : UnaryOp} {ts : List Terminal} {e : Expr} {id : NodeId}
      {span : Span} (mem : (kind, op) ∈ UnaryOp.tokens) (operand : Derives d .unary ts e) :
      Derives d .unary (.fixed kind :: ts) (.unary id span op e)
  | integer {text : String} {value : Int} {id : NodeId} {span : Span}
      (h : Integer.parse? text.toList = some value) :
      Derives d .primary [.integer text] (.literal id span (.int value))
  | yes {id : NodeId} {span : Span} :
      Derives d .primary [.fixed .kwTrue] (.literal id span (.bool true))
  | no {id : NodeId} {span : Span} :
      Derives d .primary [.fixed .kwFalse] (.literal id span (.bool false))
  | name {x : String} {id : NodeId} {span : Span} :
      Derives d .primary [.identifier x] (.var id span x)
  | call {f : String} {ts : List Terminal} {es : List Expr} {id : NodeId} {span fSpan : Span}
      (h : DerivesArguments d ts es) :
      Derives d .primary (.identifier f :: Terminal.inParens ts) (.call id span f fSpan es)
  | group {ts : List Terminal} {e : Expr} (h : Derives d .assignment ts e) :
      Derives d .primary (Terminal.inParens ts) e

/-- Terminals form the arguments of a call: none, or some with commas between them. -/
inductive DerivesArguments (d : Dialect) : List Terminal → List Expr → Prop
  | none : DerivesArguments d [] []
  | some {ts : List Terminal} {es : List Expr} (h : DerivesSeparated d ts es) :
      DerivesArguments d ts es

/-- Terminals form one or more expressions with commas between them. -/
inductive DerivesSeparated (d : Dialect) : List Terminal → List Expr → Prop
  | last {ts : List Terminal} {e : Expr} (h : Derives d .assignment ts e) :
      DerivesSeparated d ts [e]
  | cons {ts us : List Terminal} {e : Expr} {es : List Expr} (first : Derives d .assignment ts e)
      (rest : DerivesSeparated d us es) : DerivesSeparated d (ts ++ .fixed .comma :: us) (e :: es)

end

/-! ## Statements and programs -/

/-- The token that a type is written as. -/
def TypeName.kind : TypeName → TokenKind
  | int => .kwInt
  | bool => .kwBool

/-- A type behind a sign, or nothing. -/
def typeBehind (sign : TokenKind) : Option WrittenType → List Terminal
  | none => []
  | some type => [.fixed sign, .fixed type.name.kind]

/-- A parameter. -/
def Param.terminals (p : Param) : List Terminal :=
  [.identifier p.name, .fixed .colon, .fixed p.type.name.kind]

/-- Parameters with commas between them. -/
def paramTerminals : List Param → List Terminal
  | [] => []
  | [p] => p.terminals
  | p :: ps => p.terminals ++ .fixed .comma :: paramTerminals ps

/-- A function up to its body. -/
def FunctionHeader.terminals (f : FunctionHeader) : List Terminal :=
  .fixed .kwFn :: .identifier f.name ::
    (Terminal.inParens (paramTerminals f.params) ++ typeBehind .arrow f.returnType)

mutual

/-- Terminals form a statement that declares no function. -/
inductive DerivesStmt (d : Dialect) : List Terminal → Stmt → Prop
  | letVar {ts : List Terminal} {value : Expr} {id : NodeId} {span xSpan : Span} {x : String}
      {declared : Option WrittenType} (h : Derives d .assignment ts value) :
      DerivesStmt d
        (.fixed .kwLet :: .identifier x ::
          (typeBehind .colon declared ++ .fixed .assignment :: (ts ++ [.fixed .semicolon])))
        (.letVar id span x xSpan declared value)
  | choice {ts : List Terminal} {s : Stmt} (h : DerivesChoice d ts s) : DerivesStmt d ts s
  | whileLoop {ts us : List Terminal} {e : Expr} {b : Block} {span : Span}
      (test : Derives d .assignment ts e) (body : DerivesBlock d us b) :
      DerivesStmt d (.fixed .kwWhile :: (Terminal.inParens ts ++ us)) (.whileLoop span e b)
  | block {ts : List Terminal} {b : Block} (h : DerivesBlock d ts b) : DerivesStmt d ts (.block b)
  | leave {span : Span} : DerivesStmt d [.fixed .kwReturn, .fixed .semicolon] (.ret span none)
  | giveBack {ts : List Terminal} {e : Expr} {span : Span} (h : Derives d .assignment ts e) :
      DerivesStmt d (.fixed .kwReturn :: (ts ++ [.fixed .semicolon])) (.ret span (some e))
  | expression {ts : List Terminal} {e : Expr} {span : Span} (h : Derives d .assignment ts e) :
      DerivesStmt d (ts ++ [.fixed .semicolon]) (.expression span e)
  | error {ts : List Terminal} {span : Span} (h : d.placeholder ts) :
      DerivesStmt d ts (.error span)

/-- Terminals form a statement with a condition; what follows its `else` is a block or another such
statement. -/
inductive DerivesChoice (d : Dialect) : List Terminal → Stmt → Prop
  | ifThen {ts us : List Terminal} {e : Expr} {b : Block} {span : Span}
      (test : Derives d .assignment ts e) (yes : DerivesBlock d us b) :
      DerivesChoice d (.fixed .kwIf :: (Terminal.inParens ts ++ us)) (.ifThen span e b)
  | ifThenElse {ts us vs : List Terminal} {e : Expr} {b b' : Block} {span : Span}
      (test : Derives d .assignment ts e) (yes : DerivesBlock d us b) (no : DerivesBlock d vs b') :
      DerivesChoice d (.fixed .kwIf :: (Terminal.inParens ts ++ (us ++ .fixed .kwElse :: vs)))
        (.ifThenElse span e b (.block b'))
  | elseIf {ts us vs : List Terminal} {e : Expr} {b : Block} {s : Stmt} {span : Span}
      (test : Derives d .assignment ts e) (yes : DerivesBlock d us b) (no : DerivesChoice d vs s) :
      DerivesChoice d (.fixed .kwIf :: (Terminal.inParens ts ++ (us ++ .fixed .kwElse :: vs)))
        (.ifThenElse span e b s)

/-- Terminals form a block. -/
inductive DerivesBlock (d : Dialect) : List Terminal → Block → Prop
  | mk {ts : List Terminal} {ss : List Stmt} {id : NodeId} {span : Span}
      (h : DerivesBody d ts ss) :
      DerivesBlock d (.fixed .openCurly :: (ts ++ [.fixed .closeCurly])) (.mk id span ss)

/-- Terminals form statements inside of a block. -/
inductive DerivesBody (d : Dialect) : List Terminal → List Stmt → Prop
  | nil : DerivesBody d [] []
  | cons {ts us : List Terminal} {s : Stmt} {ss : List Stmt} (first : DerivesStmt d ts s)
      (rest : DerivesBody d us ss) : DerivesBody d (ts ++ us) (s :: ss)

end

/-- Terminals form a statement of the top level, where functions are declared too. -/
inductive DerivesTop (d : Dialect) : List Terminal → Stmt → Prop
  | inner {ts : List Terminal} {s : Stmt} (h : DerivesStmt d ts s) : DerivesTop d ts s
  | function {ts : List Terminal} {header : FunctionHeader} {body : Block} {span : Span}
      (h : DerivesBlock d ts body) :
      DerivesTop d (header.terminals ++ ts) (.function span header body)

/-- Terminals form the statements of a program. -/
inductive DerivesProgram (d : Dialect) : List Terminal → List Stmt → Prop
  | nil : DerivesProgram d [] []
  | cons {ts us : List Terminal} {s : Stmt} {ss : List Stmt} (first : DerivesTop d ts s)
      (rest : DerivesProgram d us ss) : DerivesProgram d (ts ++ us) (s :: ss)

/-! ## What derivations have in common -/

variable {d d' : Dialect}

namespace Stratum

/-- A stratum's place among all of them. -/
def rank : Stratum → Nat
  | assignment => 1
  | logicalOr => 2
  | logicalAnd => 3
  | equality => 4
  | relational => 5
  | additive => 6
  | multiplicative => 7
  | unary => 9
  | primary => 10

theorem rank_injective {l m : Stratum} (h : l.rank = m.rank) : l = m := by
  cases l <;> cases m <;> first | rfl | exact absurd h (by decide)

theorem rank_next_le {l m : Stratum} (h : l.rank < m.rank) : l.next.rank ≤ m.rank := by
  cases l <;> cases m <;> first | decide | exact absurd h (by decide)

theorem rank_lt_next {l m : Stratum} (h : l.rank < m.rank) : l.rank < l.next.rank := by
  cases l <;> cases m <;> first | decide | exact absurd h (by decide)

end Stratum

/-- What goes from every stratum to the looser one before it goes to all looser ones. -/
theorem Stratum.loosen {P : Stratum → Prop} (step : ∀ l : Stratum, P l.next → P l)
    {l m : Stratum} (h : P m) (le : l.rank ≤ m.rank) : P l := by
  have upTo : ∀ (n : Nat) (l : Stratum), l.rank ≤ m.rank → m.rank ≤ l.rank + n → P l := by
    intro n
    induction n with
    | zero =>
      intro l le ge
      exact Stratum.rank_injective (Nat.le_antisymm le ge) ▸ h
    | succ n ih =>
      intro l le ge
      rcases Nat.eq_or_lt_of_le le with same | less
      · exact Stratum.rank_injective same ▸ h
      · have more := Stratum.rank_lt_next less
        exact step l (ih l.next (Stratum.rank_next_le less) (by omega))
  exact upTo m.rank l le (Nat.le_add_left ..)

/-- What is an expression of a stratum is one of every looser stratum too. -/
theorem Derives.loosen {l m : Stratum} {ts : List Terminal} {e : Expr} (h : Derives d m ts e)
    (le : l.rank ≤ m.rank) : Derives d l ts e :=
  Stratum.loosen (P := (Derives d · ts e)) (fun _ => .tighter) h le

/-- Only a name in parentheses, or without, is read as a variable. -/
theorem Derives.enclosed {l : Stratum} {ts : List Terminal} {e : Expr} {id : NodeId} {span : Span}
    {x : String} (h : Derives d l ts e) (is : e = .var id span x) : Enclosed ts x := by
  match h with
  | .tighter h => exact h.enclosed is
  | .name =>
    cases is
    exact .name x
  | .group h => exact .parens (h.enclosed is)
  | .assignment .. | .binary .. | .unary .. | .integer .. | .yes | .no | .call .. => cases is

/-- A name in parentheses is an expression. -/
theorem Enclosed.derives {ts : List Terminal} {x : String} (h : Enclosed ts x) (id : NodeId)
    (span : Span) : Derives d .primary ts (.var id span x) := by
  induction h with
  | name x => exact .name
  | parens _ ih => exact .group (ih.loosen (by decide))

end MiniLang
