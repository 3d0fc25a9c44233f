import MiniLang.Proofs.Syntax.Grammar

/-!
# Derivations in place

The grammar once more, this time with the places of the tokens. The tokens of a derivation form a
tree that stands where they do: a leaf stands where its token stands, and the place of any other
node is put together from those of its parts (`Sited`, `SitedStmt`, `SitedProgram`). Parentheses
have no part in the place of what they enclose, and a statement that is an expression starts where
the expression does. Without places these are the derivations of the grammar (`Sited.derives`,
`SitedProgram.derives`).
-/

set_option autoImplicit false

namespace MiniLang

namespace Token

/-- Where the last of the tokens stands, or the given place if there is none. -/
def lastSpan (before : Span) (run : List Token) : Span := run.foldl (fun _ t => t.span) before

theorem lastSpan_append (before : Span) (ts us : List Token) :
    lastSpan before (ts ++ us) = lastSpan (lastSpan before ts) us := List.foldl_append

/-- Tokens end where those at their end do. -/
theorem lastSpan_of_suffix {ts us : List Token} {span : Span} (behind : us <:+ ts)
    (last : ∀ before, lastSpan before us = span) (before : Span) : lastSpan before ts = span := by
  obtain ⟨front, rfl⟩ := behind
  rw [lastSpan_append, last]

/-- The place from the first of the tokens to the last. -/
def reach : List Token → Span
  | [] => .origin
  | t :: ts => t.span.join (lastSpan t.span ts)

theorem reach_of_suffix {t : Token} {ts us : List Token} {span : Span} (behind : us <:+ ts)
    (last : ∀ before, lastSpan before us = span) : reach (t :: ts) = t.span.join span := by
  rw [reach, lastSpan_of_suffix behind last]

end Token

/-! ## Expressions -/

mutual

/-- Tokens form an expression of a stratum in their place. -/
inductive Sited (d : Dialect) : Stratum → List Token → Expr → Prop
  | assignment {l : Stratum} {ts us : List Token} {sign : Token} {x : String} {e : Expr}
      {id id' : NodeId} {xSpan : Span} (isSign : sign.kind = .assignment)
      (target : d.target (ts.map Token.terminal) x) (name : Sited d l ts (.var id' xSpan x))
      (value : Sited d .assignment us e) :
      Sited d .assignment (ts ++ sign :: us) (.assignment id (xSpan.join e.span) x xSpan e)
  | tighter {l : Stratum} {ts : List Token} {e : Expr} (h : Sited d l.next ts e) : Sited d l ts e
  | binary {l : Stratum} {op : BinaryOp} {ts us : List Token} {sign : Token} {a b : Expr}
      {id : NodeId} (mem : (sign.kind, op) ∈ l.operators) (left : Sited d l ts a)
      (right : Sited d l.next us b) :
      Sited d l (ts ++ sign :: us) (.binary id (a.span.join b.span) op a b)
  | unary {op : UnaryOp} {ts : List Token} {sign : Token} {e : Expr} {id : NodeId}
      (mem : (sign.kind, op) ∈ UnaryOp.tokens) (operand : Sited d .unary ts e) :
      Sited d .unary (sign :: ts) (.unary id (sign.span.join e.span) op e)
  | integer {t : Token} {value : Int} {id : NodeId} (kind : t.kind = .integer)
      (h : Integer.parse? t.text.toList = some value) :
      Sited d .primary [t] (.literal id t.span (.int value))
  | yes {t : Token} {id : NodeId} (kind : t.kind = .kwTrue) :
      Sited d .primary [t] (.literal id t.span (.bool true))
  | no {t : Token} {id : NodeId} (kind : t.kind = .kwFalse) :
      Sited d .primary [t] (.literal id t.span (.bool false))
  | name {t : Token} {id : NodeId} (kind : t.kind = .identifier) :
      Sited d .primary [t] (.var id t.span t.text)
  | call {f opening closing : Token} {ts : List Token} {es : List Expr} {id : NodeId}
      (kind : f.kind = .identifier) (opens : opening.kind = .openParen)
      (h : SitedArguments d ts es) (closes : closing.kind = .closeParen) :
      Sited d .primary (f :: opening :: (ts ++ [closing]))
        (.call id (f.span.join closing.span) f.text f.span es)
  | group {opening closing : Token} {ts : List Token} {e : Expr}
      (opens : opening.kind = .openParen) (h : Sited d .assignment ts e)
      (closes : closing.kind = .closeParen) : Sited d .primary (opening :: (ts ++ [closing])) e

/-- Tokens form the arguments of a call in their place. -/
inductive SitedArguments (d : Dialect) : List Token → List Expr → Prop
  | none : SitedArguments d [] []
  | some {ts : List Token} {es : List Expr} (h : SitedSeparated d ts es) : SitedArguments d ts es

/-- Tokens form one or more expressions with commas between them in their place. -/
inductive SitedSeparated (d : Dialect) : List Token → List Expr → Prop
  | last {ts : List Token} {e : Expr} (h : Sited d .assignment ts e) : SitedSeparated d ts [e]
  | cons {ts us : List Token} {comma : Token} {e : Expr} {es : List Expr}
      (first : Sited d .assignment ts e) (isComma : comma.kind = .comma)
      (rest : SitedSeparated d us es) : SitedSeparated d (ts ++ comma :: us) (e :: es)

end

/-! ## Statements and programs -/

mutual

/-- Tokens form a statement that declares no function in its place. -/
inductive SitedStmt (d : Dialect) : List Token → Stmt → Prop
  | letVar {start name sign stop : Token} {type ts : List Token} {value : Expr} {id : NodeId}
      {declared : Option WrittenType} (isLet : start.kind = .kwLet)
      (isName : name.kind = .identifier)
      (isType : type.map Token.terminal = typeBehind .colon declared)
      (isSign : sign.kind = .assignment) (h : Sited d .assignment ts value)
      (isStop : stop.kind = .semicolon) :
      SitedStmt d (start :: name :: (type ++ sign :: (ts ++ [stop])))
        (.letVar id (start.span.join stop.span) name.text name.span declared value)
  | choice {ts : List Token} {s : Stmt} (h : SitedChoice d ts s) : SitedStmt d ts s
  | whileLoop {start opening closing : Token} {ts us : List Token} {e : Expr} {b : Block}
      (isWhile : start.kind = .kwWhile) (opens : opening.kind = .openParen)
      (test : Sited d .assignment ts e) (closes : closing.kind = .closeParen)
      (body : SitedBlock d us b) :
      SitedStmt d (start :: opening :: (ts ++ closing :: us))
        (.whileLoop (start.span.join b.span) e b)
  | block {ts : List Token} {b : Block} (h : SitedBlock d ts b) : SitedStmt d ts (.block b)
  | leave {start stop : Token} (isReturn : start.kind = .kwReturn)
      (isStop : stop.kind = .semicolon) :
      SitedStmt d [start, stop] (.ret (start.span.join stop.span) none)
  | giveBack {start stop : Token} {ts : List Token} {e : Expr} (isReturn : start.kind = .kwReturn)
      (h : Sited d .assignment ts e) (isStop : stop.kind = .semicolon) :
      SitedStmt d (start :: (ts ++ [stop])) (.ret (start.span.join stop.span) (some e))
  | expression {stop : Token} {ts : List Token} {e : Expr} (h : Sited d .assignment ts e)
      (isStop : stop.kind = .semicolon) :
      SitedStmt d (ts ++ [stop]) (.expression (e.span.join stop.span) e)
  | error {ts : List Token} {span : Span} (h : d.placeholder (ts.map Token.terminal)) :
      SitedStmt d ts (.error span)

/-- Tokens form a statement with a condition in its place. -/
inductive SitedChoice (d : Dialect) : List Token → Stmt → Prop
  | ifThen {start opening closing : Token} {ts us : List Token} {e : Expr} {b : Block}
      (isIf : start.kind = .kwIf) (opens : opening.kind = .openParen)
      (test : Sited d .assignment ts e) (closes : closing.kind = .closeParen)
      (yes : SitedBlock d us b) :
      SitedChoice d (start :: opening :: (ts ++ closing :: us))
        (.ifThen (Token.reach (start :: opening :: (ts ++ closing :: us))) e b)
  | ifThenElse {start opening closing other : Token} {ts us vs : List Token} {e : Expr}
      {b b' : Block} (isIf : start.kind = .kwIf) (opens : opening.kind = .openParen)
      (test : Sited d .assignment ts e) (closes : closing.kind = .closeParen)
      (yes : SitedBlock d us b) (isElse : other.kind = .kwElse) (no : SitedBlock d vs b') :
      SitedChoice d (start :: opening :: (ts ++ closing :: (us ++ other :: vs)))
        (.ifThenElse (Token.reach (start :: opening :: (ts ++ closing :: (us ++ other :: vs)))) e b
          (.block b'))
  | elseIf {start opening closing other : Token} {ts us vs : List Token} {e : Expr} {b : Block}
      {s : Stmt} (isIf : start.kind = .kwIf) (opens : opening.kind = .openParen)
      (test : Sited d .assignment ts e) (closes : closing.kind = .closeParen)
      (yes : SitedBlock d us b) (isElse : other.kind = .kwElse) (no : SitedChoice d vs s) :
      SitedChoice d (start :: opening :: (ts ++ closing :: (us ++ other :: vs)))
        (.ifThenElse (Token.reach (start :: opening :: (ts ++ closing :: (us ++ other :: vs)))) e b
          s)

/-- Tokens form a block in its place. -/
inductive SitedBlock (d : Dialect) : List Token → Block → Prop
  | mk {opening closing : Token} {ts : List Token} {ss : List Stmt} {id : NodeId}
      (opens : opening.kind = .openCurly) (h : SitedBody d ts ss)
      (closes : closing.kind = .closeCurly) :
      SitedBlock d (opening :: (ts ++ [closing])) (.mk id (opening.span.join closing.span) ss)

/-- Tokens form statements inside of a block in their place. -/
inductive SitedBody (d : Dialect) : List Token → List Stmt → Prop
  | nil : SitedBody d [] []
  | cons {ts us : List Token} {s : Stmt} {ss : List Stmt} (first : SitedStmt d ts s)
      (rest : SitedBody d us ss) : SitedBody d (ts ++ us) (s :: ss)

end

/-- Tokens form a statement of the top level in its place. -/
inductive SitedTop (d : Dialect) : List Token → Stmt → Prop
  | inner {ts : List Token} {s : Stmt} (h : SitedStmt d ts s) : SitedTop d ts s
  | function {start : Token} {front ts : List Token} {header : FunctionHeader} {body : Block}
      (isHeader : (start :: front).map Token.terminal = header.terminals)
      (h : SitedBlock d ts body) :
      SitedTop d (start :: (front ++ ts)) (.function (start.span.join body.span) header body)

/-- Tokens form the statements of a program in their place. -/
inductive SitedProgram (d : Dialect) : List Token → List Stmt → Prop
  | nil : SitedProgram d [] []
  | cons {ts us : List Token} {s : Stmt} {ss : List Stmt} (first : SitedTop d ts s)
      (rest : SitedProgram d us ss) : SitedProgram d (ts ++ us) (s :: ss)

variable {d : Dialect}

/-- A program of one statement. -/
theorem SitedProgram.singleton {ts : List Token} {s : Stmt} (h : SitedProgram d ts [s]) :
    SitedTop d ts s := by
  cases h with
  | cons first rest =>
    cases rest
    rw [List.append_nil]
    exact first

/-! ## Without places -/

theorem Token.terminal_operator {l : Stratum} {op : BinaryOp} {t : Token}
    (mem : (t.kind, op) ∈ l.operators) : t.terminal = .fixed t.kind := by
  have plain : ∀ entry ∈ l.operators, entry.1 ≠ .identifier ∧ entry.1 ≠ .integer := by
    cases l <;> decide
  exact terminal_of_kind rfl (plain _ mem)

theorem Token.terminal_unaryOperator {op : UnaryOp} {t : Token}
    (mem : (t.kind, op) ∈ UnaryOp.tokens) : t.terminal = .fixed t.kind := by
  have plain : ∀ entry ∈ UnaryOp.tokens, entry.1 ≠ .identifier ∧ entry.1 ≠ .integer := by decide
  exact terminal_of_kind rfl (plain _ mem)

/-- Tokens between parentheses. -/
theorem Terminal.map_inParens {opening closing : Token} (opens : opening.kind = .openParen)
    (closes : closing.kind = .closeParen) (ts us : List Token) :
    opening.terminal :: (ts ++ closing :: us).map Token.terminal =
      inParens (ts.map Token.terminal) ++ us.map Token.terminal := by
  rw [Token.terminal_of_kind opens (by decide), List.map_append, List.map_cons,
    Token.terminal_of_kind closes (by decide)]
  simp [inParens]

/-- What is an expression of a stratum is one of every looser stratum too. -/
theorem Sited.loosen {l m : Stratum} {ts : List Token} {e : Expr} (h : Sited d m ts e)
    (le : l.rank ≤ m.rank) : Sited d l ts e :=
  Stratum.loosen (P := (Sited d · ts e)) (fun _ => .tighter) h le

/-- What is an expression of some stratum is one of the loosest. -/
theorem Sited.loosest {l : Stratum} {ts : List Token} {e : Expr} (h : Sited d l ts e) :
    Sited d .assignment ts e := h.loosen (by cases l <;> decide)

mutual

theorem Sited.derives {l : Stratum} {ts : List Token} {e : Expr} (h : Sited d l ts e) :
    Derives d l (ts.map Token.terminal) e := by
  match h with
  | .assignment isSign target _ value =>
    rw [List.map_append, List.map_cons, Token.terminal_of_kind isSign (by decide)]
    exact .assignment target value.derives
  | .tighter h => exact .tighter h.derives
  | .binary mem left right =>
    rw [List.map_append, List.map_cons, Token.terminal_operator mem]
    exact .binary mem left.derives right.derives
  | .unary mem operand =>
    rw [List.map_cons, Token.terminal_unaryOperator mem]
    exact .unary mem operand.derives
  | .integer kind h =>
    rw [List.map_singleton, Token.terminal_integer kind]
    exact .integer h
  | .yes kind =>
    rw [List.map_singleton, Token.terminal_of_kind kind (by decide)]
    exact .yes
  | .no kind =>
    rw [List.map_singleton, Token.terminal_of_kind kind (by decide)]
    exact .no
  | .name kind =>
    rw [List.map_singleton, Token.terminal_identifier kind]
    exact .name
  | .call kind opens h closes =>
    rw [List.map_cons, List.map_cons, Token.terminal_identifier kind,
      Terminal.map_inParens opens closes, List.map_nil, List.append_nil]
    exact .call h.derives
  | .group opens h closes =>
    rw [List.map_cons, Terminal.map_inParens opens closes, List.map_nil, List.append_nil]
    exact .group h.derives

theorem SitedArguments.derives {ts : List Token} {es : List Expr} (h : SitedArguments d ts es) :
    DerivesArguments d (ts.map Token.terminal) es := by
  match h with
  | .none => exact .none
  | .some h => exact .some h.derives

theorem SitedSeparated.derives {ts : List Token} {es : List Expr} (h : SitedSeparated d ts es) :
    DerivesSeparated d (ts.map Token.terminal) es := by
  match h with
  | .last h => exact .last h.derives
  | .cons first isComma rest =>
    rw [List.map_append, List.map_cons, Token.terminal_of_kind isComma (by decide)]
    exact .cons first.derives rest.derives

end

mutual

theorem SitedStmt.derives {ts : List Token} {s : Stmt} (h : SitedStmt d ts s) :
    DerivesStmt d (ts.map Token.terminal) s := by
  match h with
  | .letVar isLet isName isType isSign h isStop =>
    rw [List.map_cons, List.map_cons, List.map_append, List.map_cons, List.map_append,
      List.map_singleton, isType, Token.terminal_of_kind isLet (by decide),
      Token.terminal_identifier isName, Token.terminal_of_kind isSign (by decide),
      Token.terminal_of_kind isStop (by decide)]
    exact .letVar h.derives
  | .choice h => exact .choice h.derives
  | .whileLoop isWhile opens test closes body =>
    rw [List.map_cons, List.map_cons, Token.terminal_of_kind isWhile (by decide),
      Terminal.map_inParens opens closes]
    exact .whileLoop test.derives body.derives
  | .block h => exact .block h.derives
  | .leave isReturn isStop =>
    rw [List.map_cons, List.map_singleton, Token.terminal_of_kind isReturn (by decide),
      Token.terminal_of_kind isStop (by decide)]
    exact .leave
  | .giveBack isReturn h isStop =>
    rw [List.map_cons, List.map_append, List.map_singleton,
      Token.terminal_of_kind isReturn (by decide), Token.terminal_of_kind isStop (by decide)]
    exact .giveBack h.derives
  | .expression h isStop =>
    rw [List.map_append, List.map_singleton, Token.terminal_of_kind isStop (by decide)]
    exact .expression h.derives
  | .error h => exact .error h

theorem SitedChoice.derives {ts : List Token} {s : Stmt} (h : SitedChoice d ts s) :
    DerivesChoice d (ts.map Token.terminal) s := by
  match h with
  | .ifThen isIf opens test closes yes =>
    rw [List.map_cons, List.map_cons, Token.terminal_of_kind isIf (by decide),
      Terminal.map_inParens opens closes]
    exact .ifThen test.derives yes.derives
  | .ifThenElse isIf opens test closes yes isElse no =>
    rw [List.map_cons, List.map_cons, Token.terminal_of_kind isIf (by decide),
      Terminal.map_inParens opens closes, List.map_append, List.map_cons,
      Token.terminal_of_kind isElse (by decide)]
    exact .ifThenElse test.derives yes.derives no.derives
  | .elseIf isIf opens test closes yes isElse no =>
    rw [List.map_cons, List.map_cons, Token.terminal_of_kind isIf (by decide),
      Terminal.map_inParens opens closes, List.map_append, List.map_cons,
      Token.terminal_of_kind isElse (by decide)]
    exact .elseIf test.derives yes.derives no.derives

theorem SitedBlock.derives {ts : List Token} {b : Block} (h : SitedBlock d ts b) :
    DerivesBlock d (ts.map Token.terminal) b := by
  match h with
  | .mk opens h closes =>
    rw [List.map_cons, List.map_append, List.map_singleton,
      Token.terminal_of_kind opens (by decide), Token.terminal_of_kind closes (by decide)]
    exact .mk h.derives

theorem SitedBody.derives {ts : List Token} {ss : List Stmt} (h : SitedBody d ts ss) :
    DerivesBody d (ts.map Token.terminal) ss := by
  match h with
  | .nil => exact .nil
  | .cons first rest =>
    rw [List.map_append]
    exact .cons first.derives rest.derives

end

theorem SitedTop.derives {ts : List Token} {s : Stmt} (h : SitedTop d ts s) :
    DerivesTop d (ts.map Token.terminal) s := by
  cases h with
  | inner h => exact .inner h.derives
  | function isHeader h =>
    rw [← List.cons_append, List.map_append, isHeader]
    exact .function h.derives

theorem SitedProgram.derives {ts : List Token} {ss : List Stmt} (h : SitedProgram d ts ss) :
    DerivesProgram d (ts.map Token.terminal) ss := by
  induction h with
  | nil => exact .nil
  | cons first _ ih =>
    rw [List.map_append]
    exact .cons first.derives ih

end MiniLang
