import MiniLang.Proofs.Syntax.Bare
import MiniLang.Proofs.Token.Scanning

/-!
# Printed programs

The terminals of a printed program are known from its tree (`Program.terminals`). For trees that can
be printed (`Program.Printable`) the printed text is made of just these (`Program.scans`), and the
grammar derives the tree from them, with marks for error placeholders (`Program.derives`). So the
text and the grammar meet in one list of terminals, and neither has to be known for the other.
-/

set_option autoImplicit false

namespace MiniLang

/-! ## Trees that can be printed -/

/-- A value that can be written out. -/
def Literal.Printable : Literal → Prop
  | int value => 0 ≤ value ∧ value < 2 ^ 63
  | bool _ => True

namespace Expr

mutual

/-- An expression whose names are names and whose numbers can be written out. -/
def Printable : Expr → Prop
  | literal _ _ value => value.Printable
  | var _ _ name => IsName name
  | binary _ _ _ left right => Printable left ∧ Printable right
  | unary _ _ _ operand => Printable operand
  | call _ _ callee _ arguments => IsName callee ∧ AllPrintable arguments
  | assignment _ _ target _ value => IsName target ∧ Printable value

def AllPrintable : List Expr → Prop
  | [] => True
  | e :: es => Printable e ∧ AllPrintable es

end

end Expr

/-- A function whose name and parameters are names. -/
def FunctionHeader.Printable (f : FunctionHeader) : Prop :=
  IsName f.name ∧ ∀ p ∈ f.params, IsName p.name

namespace Stmt

/-- Whether a statement may follow an `else`. -/
def isElseBranch : Stmt → Bool
  | ifThen _ _ _ => true
  | ifThenElse _ _ _ _ => true
  | block _ => true
  | _ => false

mutual

/-- A statement that can be printed inside of a block. -/
def Printable : Stmt → Prop
  | letVar _ _ name _ _ value => IsName name ∧ value.Printable
  | ifThen _ condition thenBlock => condition.Printable ∧ BlockPrintable thenBlock
  | ifThenElse _ condition thenBlock elseBranch =>
    condition.Printable ∧ BlockPrintable thenBlock ∧ elseBranch.isElseBranch = true ∧
      Printable elseBranch
  | whileLoop _ condition body => condition.Printable ∧ BlockPrintable body
  | block b => BlockPrintable b
  | expression _ value => value.Printable
  | function _ _ _ => False
  | ret _ none => True
  | ret _ (some value) => value.Printable
  | error _ => True

def BlockPrintable : Block → Prop
  | .mk _ _ body => AllPrintable body

def AllPrintable : List Stmt → Prop
  | [] => True
  | s :: ss => Printable s ∧ AllPrintable ss

end

/-- A statement that can be printed at the top level: there functions can stand too. -/
def TopPrintable : Stmt → Prop
  | function _ header body => header.Printable ∧ BlockPrintable body
  | s => s.Printable

end Stmt

/-- A program that can be printed so that it can be read back. -/
def Program.Printable (p : Program) : Prop := ∀ s ∈ p.body, s.TopPrintable

/-! ## The terminals of printed trees -/

def Literal.terminal : Literal → Terminal
  | int value => .integer (toString value)
  | bool true => .fixed .kwTrue
  | bool false => .fixed .kwFalse

namespace BinaryOp

/-- The token that an operator is written as. -/
def kind : BinaryOp → TokenKind
  | add => .plus
  | sub => .dash
  | mul => .star
  | div => .slash
  | rem => .percent
  | eq => .equals
  | ne => .notEquals
  | lt => .less
  | le => .lessEquals
  | gt => .greater
  | ge => .greaterEquals
  | and => .and
  | or => .or

/-- The stratum that an operator belongs to. -/
def stratum : BinaryOp → Stratum
  | add | sub => .additive
  | mul | div | rem => .multiplicative
  | eq | ne => .equality
  | lt | le | gt | ge => .relational
  | and => .logicalAnd
  | or => .logicalOr

theorem kind_mem (op : BinaryOp) : (op.kind, op) ∈ op.stratum.operators := by
  cases op <;> decide

end BinaryOp

namespace UnaryOp

/-- The token that an operator is written as. -/
def kind : UnaryOp → TokenKind
  | neg => .dash
  | not => .not

theorem kind_mem (op : UnaryOp) : (op.kind, op) ∈ UnaryOp.tokens := by cases op <;> decide

end UnaryOp

namespace Expr

mutual

/-- The terminals of an expression as it is printed. -/
def terminals : Expr → List Terminal
  | literal _ _ value => [value.terminal]
  | var _ _ name => [.identifier name]
  | binary _ _ op left right =>
    Terminal.inParens (terminals left ++ .fixed op.kind :: terminals right)
  | unary _ _ op operand => Terminal.inParens (.fixed op.kind :: terminals operand)
  | call _ _ callee _ arguments =>
    .identifier callee :: Terminal.inParens (separatedTerminals arguments)
  | assignment _ _ target _ value =>
    Terminal.inParens ([.identifier target] ++ .fixed .assignment :: terminals value)

/-- The terminals of expressions with commas between them. -/
def separatedTerminals : List Expr → List Terminal
  | [] => []
  | [e] => terminals e
  | e :: e' :: es => terminals e ++ .fixed .comma :: separatedTerminals (e' :: es)

end

end Expr

namespace Stmt

mutual

/-- The terminals of a statement as it is printed. -/
def terminals : Stmt → List Terminal
  | letVar _ _ name _ declared value =>
    .fixed .kwLet :: .identifier name ::
      (typeBehind .colon declared ++ .fixed .assignment :: (value.terminals ++ [.fixed .semicolon]))
  | ifThen _ condition thenBlock =>
    .fixed .kwIf :: (Terminal.inParens condition.terminals ++ blockTerminals thenBlock)
  | ifThenElse _ condition thenBlock elseBranch =>
    .fixed .kwIf :: (Terminal.inParens condition.terminals ++
      (blockTerminals thenBlock ++ .fixed .kwElse :: terminals elseBranch))
  | whileLoop _ condition body =>
    .fixed .kwWhile :: (Terminal.inParens condition.terminals ++ blockTerminals body)
  | block b => blockTerminals b
  | expression _ value => value.terminals ++ [.fixed .semicolon]
  | function _ header body => header.terminals ++ blockTerminals body
  | ret _ none => [.fixed .kwReturn, .fixed .semicolon]
  | ret _ (some value) => .fixed .kwReturn :: (value.terminals ++ [.fixed .semicolon])
  | error _ => errorMark

def blockTerminals : Block → List Terminal
  | .mk _ _ body => .fixed .openCurly :: (terminalsAll body ++ [.fixed .closeCurly])

def terminalsAll : List Stmt → List Terminal
  | [] => []
  | s :: ss => terminals s ++ terminalsAll ss

end

end Stmt

def Program.terminals (p : Program) : List Terminal := Stmt.terminalsAll p.body

/-! ## Derivations -/

theorem Literal.derives {value : Literal} (h : value.Printable) (id : NodeId) (span : Span) :
    Derives .printed .primary [value.terminal] (.literal id span value) := by
  cases value with
  | int value =>
    have inRange : Integer.InRange value := ⟨by have := h.1; omega, h.2⟩
    exact .integer (Integer.parse?_toString h.1 inRange).2
  | bool value => cases value with
    | true => exact .yes
    | false => exact .no

theorem DerivesArguments.separated {d : Dialect} {ts : List Terminal} {e : Expr} {es : List Expr}
    (h : DerivesArguments d ts (e :: es)) : DerivesSeparated d ts (e :: es) := by
  cases h with
  | some h => exact h

namespace Expr

mutual

theorem derives : ∀ {e : Expr}, e.Printable → Derives .printed .primary e.terminals e
  | literal id span _, h => Literal.derives h id span
  | var _ _ _, _ => .name
  | binary id span op left right, h => by
    have operation : Derives .printed op.stratum
        (left.terminals ++ .fixed op.kind :: right.terminals) (.binary id span op left right) :=
      .binary op.kind_mem ((derives h.1).loosen (by cases op <;> decide))
        ((derives h.2).loosen (by cases op <;> decide))
    exact .group (operation.loosen (by cases op <;> decide))
  | unary id span op operand, h => by
    have inner : Derives .printed .unary operand.terminals operand :=
      (derives (e := operand) h).loosen (by decide)
    have operation : Derives .printed .unary (.fixed op.kind :: operand.terminals)
        (.unary id span op operand) := .unary op.kind_mem inner
    exact .group (operation.loosen (by decide))
  | call _ _ _ _ _, h => .call (derivesArguments h.2)
  | assignment _ _ _ _ _, h =>
    .group (.assignment rfl ((derives h.2).loosen (by decide)))

theorem derivesArguments :
    ∀ {es : List Expr}, AllPrintable es → DerivesArguments .printed (separatedTerminals es) es
  | [], _ => .none
  | [_], h => .some (.last ((derives h.1).loosen (by decide)))
  | _ :: _ :: _, h =>
    .some (.cons ((derives h.1).loosen (by decide)) (derivesArguments h.2).separated)

end

/-- A printed expression can stand wherever an expression can. -/
theorem derives_assignment {e : Expr} (h : e.Printable) :
    Derives .printed .assignment e.terminals e := (derives h).loosen (by decide)

end Expr

namespace Stmt

mutual

theorem derives : ∀ {s : Stmt}, s.Printable → DerivesStmt .printed s.terminals s
  | letVar _ _ _ _ _ _, h => .letVar (Expr.derives_assignment h.2)
  | ifThen _ _ _, h => .choice (.ifThen (Expr.derives_assignment h.1) (derivesBlock h.2))
  | ifThenElse _ _ _ _, h =>
    .choice (derivesElse (Expr.derives_assignment h.1) (derivesBlock h.2.1) h.2.2.1 h.2.2.2)
  | whileLoop _ _ _, h => .whileLoop (Expr.derives_assignment h.1) (derivesBlock h.2)
  | block _, h => .block (derivesBlock h)
  | expression _ _, h => .expression (Expr.derives_assignment h)
  | function _ _ _, h => h.elim
  | ret _ none, _ => .leave
  | ret _ (some _), h => .giveBack (Expr.derives_assignment h)
  | error _, _ => .error rfl

/-- A choice with the given statement behind its `else`. -/
theorem derivesElse {ts us : List Terminal} {e : Expr} {b : Block} {span : Span}
    (test : Derives .printed .assignment ts e) (yes : DerivesBlock .printed us b) :
    ∀ {s : Stmt}, s.isElseBranch = true → s.Printable →
      DerivesChoice .printed
        (.fixed .kwIf :: (Terminal.inParens ts ++ (us ++ .fixed .kwElse :: s.terminals)))
        (.ifThenElse span e b s)
  | ifThen _ _ _, _, h =>
    .elseIf test yes (.ifThen (Expr.derives_assignment h.1) (derivesBlock h.2))
  | ifThenElse _ _ _ _, _, h =>
    .elseIf test yes
      (derivesElse (Expr.derives_assignment h.1) (derivesBlock h.2.1) h.2.2.1 h.2.2.2)
  | block _, _, h => .ifThenElse test yes (derivesBlock h)

theorem derivesBlock :
    ∀ {b : Block}, BlockPrintable b → DerivesBlock .printed (blockTerminals b) b
  | .mk _ _ _, h => .mk (derivesBody h)

theorem derivesBody :
    ∀ {ss : List Stmt}, AllPrintable ss → DerivesBody .printed (terminalsAll ss) ss
  | [], _ => .nil
  | _ :: _, h => .cons (derives h.1) (derivesBody h.2)

end

theorem derivesTop {s : Stmt} (h : s.TopPrintable) : DerivesTop .printed s.terminals s := by
  cases s with
  | function => exact .function (derivesBlock h.2)
  | _ => exact .inner (derives h)

theorem derivesProgram {ss : List Stmt} (h : ∀ s ∈ ss, s.TopPrintable) :
    DerivesProgram .printed (terminalsAll ss) ss := by
  induction ss with
  | nil => exact .nil
  | cons s ss ih =>
    exact .cons (derivesTop (h s List.mem_cons_self)) (ih fun t mem => h t (.tail _ mem))

end Stmt

/-! ## Printed texts -/

namespace Scans

variable {c : Char} {cs rest : List Char} {ts : List Terminal}

theorem space (more : Scans rest ts) : Scans (' ' :: rest) ts := .blank rfl more

theorem newline (more : Scans rest ts) : Scans ('\n' :: rest) ts := .blank rfl more

theorem indentation (depth : Nat) (more : Scans rest ts) :
    Scans ((indentation depth).toList ++ rest) ts := by
  induction depth with
  | zero => exact more
  | succ depth ih =>
    rw [MiniLang.indentation, String.toList_append, List.append_assoc]
    exact ih.space.space.space.space

/-- A text between parentheses. -/
theorem parenthesized {text : String} {us : List Terminal}
    (inner : ∀ {rest : List Char} {ts : List Terminal}, WordEnds rest → Scans rest ts →
      Scans (text.toList ++ rest) (us ++ ts))
    (more : Scans rest ts) :
    Scans ((parenthesized text).toList ++ rest) (Terminal.inParens us ++ ts) := by
  have cut : (MiniLang.parenthesized text).toList ++ rest =
      '(' :: (text.toList ++ ')' :: rest) := by
    simp [MiniLang.parenthesized]
  have cut' : Terminal.inParens us ++ ts =
      .fixed .openParen :: (us ++ .fixed .closeParen :: ts) := by
    simp [Terminal.inParens]
  rw [cut, cut']
  exact .punctuation rfl
    (inner (wordEnds_cons (by decide)) (.punctuation rfl more))

end Scans

theorem wordEnds_parenthesized (text : String) (rest : List Char) :
    WordEnds ((parenthesized text).toList ++ rest) := by
  rw [parenthesized, String.append_assoc, String.toList_append, List.append_assoc]
  exact wordEnds_cons (by decide)

theorem BinaryOp.sign_mem (op : BinaryOp) :
    LexemeClass.sign op.symbol.toList op.kind ∈ LexemeClass.table := by
  cases op <;> decide

theorem UnaryOp.sign_mem (op : UnaryOp) :
    LexemeClass.sign op.symbol.toList op.kind ∈ LexemeClass.table := by
  cases op <;> decide

theorem TypeName.keyword?_text (type : TypeName) : keyword? type.text = some type.kind := by
  cases type <;> decide

theorem Literal.scans {value : Literal} (h : value.Printable) {rest : List Char}
    {ts : List Terminal} (ends : WordEnds rest) (more : Scans rest ts) :
    Scans (value.text.toList ++ rest) (value.terminal :: ts) := by
  cases value with
  | int value =>
    have inRange : Integer.InRange value := ⟨by have := h.1; omega, h.2⟩
    obtain ⟨digits, parsed⟩ := Integer.parse?_toString h.1 inRange
    have scans := Scans.number digits parsed ends more
    rw [String.ofList_toList] at scans
    exact scans
  | bool value => cases value with
    | true => exact .keyword rfl ends more
    | false => exact .keyword rfl ends more

namespace Expr

/-- No sign goes on with an expression. -/
theorem signEnds {e : Expr} (h : e.Printable) (rest : List Char) :
    SignEnds (e.text.toList ++ rest) := by
  have word {c : Char} {cs : List Char} (part : LexemeClass.isNamePart c = true) :
      SignEnds (c :: cs) := by
    refine signEnds_cons fun mem => ?_
    have signs : ['=', '>', '/'].all (!LexemeClass.isNamePart ·) = true := by decide
    have no := List.all_eq_true.1 signs c mem
    rw [part] at no
    cases no
  have name {x : String} (isName : IsName x) (rest : List Char) : SignEnds (x.toList ++ rest) := by
    obtain ⟨c, cs, chars, start, -⟩ := isName
    rw [chars]
    exact word (Bool.or_eq_true_iff.2 (.inl start))
  cases e with
  | literal id span value =>
    cases value with
    | int value =>
      have inRange : Integer.InRange value := ⟨by have := h.1; omega, h.2⟩
      obtain ⟨digits, parsed⟩ := Integer.parse?_toString h.1 inRange
      change SignEnds ((toString value).toList ++ rest)
      cases chars : (toString value).toList with
      | nil =>
        rw [chars] at parsed
        cases parsed
      | cons c cs =>
        have digit := digits c (by rw [chars]; exact List.mem_cons_self)
        exact word (Bool.or_eq_true_iff.2 (.inr digit))
    | bool value =>
      cases value with
      | true =>
        change SignEnds ("true".toList ++ rest)
        exact word (by decide)
      | false =>
        change SignEnds ("false".toList ++ rest)
        exact word (by decide)
  | var id span x => exact name h rest
  | call id span callee calleeSpan arguments =>
    rw [text, String.toList_append, List.append_assoc]
    exact name h.1 _
  | _ =>
    rw [text, parenthesized, String.append_assoc, String.toList_append, List.append_assoc]
    exact signEnds_cons (by decide)

mutual

/-- The text of an expression is made of its terminals. -/
theorem scans : ∀ {e : Expr}, e.Printable → ∀ {rest : List Char} {ts : List Terminal},
    WordEnds rest → Scans rest ts → Scans (e.text.toList ++ rest) (e.terminals ++ ts)
  | literal _ _ _, h, _, _, ends, more => Literal.scans h ends more
  | var _ _ _, h, _, _, ends, more => .name h ends more
  | binary _ _ op left right, h, rest, ts, ends, more => by
    refine .parenthesized (fun {rest ts} ends more => ?_) more
    have cut : (left.text ++ " " ++ op.symbol ++ " " ++ right.text).toList ++ rest =
        left.text.toList ++ ' ' :: (op.symbol.toList ++ ' ' :: (right.text.toList ++ rest)) := by
      simp
    rw [cut, List.append_assoc]
    exact scans h.1 (wordEnds_cons (by decide)) (.space
      (.sign op.sign_mem (signEnds_cons (by decide)) (.space (scans h.2 ends more))))
  | unary _ _ op operand, h, rest, ts, ends, more => by
    refine .parenthesized (fun {rest ts} ends more => ?_) more
    rw [String.toList_append, List.append_assoc]
    exact .sign op.sign_mem (signEnds (e := operand) h rest) (scans (e := operand) h ends more)
  | call _ _ callee _ arguments, h, rest, ts, ends, more => by
    rw [text, String.toList_append, List.append_assoc]
    exact .name h.1 (wordEnds_parenthesized _ _) (.parenthesized (scansSeparated h.2) more)
  | assignment _ _ target _ value, h, rest, ts, ends, more => by
    refine .parenthesized (fun {rest ts} ends more => ?_) more
    have cut : (target ++ " = " ++ value.text).toList ++ rest =
        target.toList ++ ' ' :: (['='] ++ ' ' :: (value.text.toList ++ rest)) := by
      simp
    rw [cut]
    exact .name h.1 (wordEnds_cons (by decide))
      (.space (.sign (by decide) (signEnds_cons (by decide)) (.space (scans h.2 ends more))))

theorem scansSeparated : ∀ {es : List Expr}, AllPrintable es → ∀ {rest : List Char}
    {ts : List Terminal}, WordEnds rest → Scans rest ts →
    Scans ((Text.joinWith ", " (texts es)).toList ++ rest) (separatedTerminals es ++ ts)
  | [], _, _, _, _, more => more
  | [_], h, _, _, ends, more => scans h.1 ends more
  | e :: e' :: es, h, rest, ts, ends, more => by
    have cut : (Text.joinWith ", " (texts (e :: e' :: es))).toList ++ rest =
        e.text.toList ++ ',' :: ' ' ::
          ((Text.joinWith ", " (texts (e' :: es))).toList ++ rest) := by
      simp [texts, Text.joinWith]
    rw [cut, separatedTerminals, List.append_assoc]
    exact scans h.1 (wordEnds_cons (by decide))
      (.punctuation rfl (.space (scansSeparated h.2 ends more)))

end

end Expr

namespace Param

theorem scans {p : Param} (h : IsName p.name) {rest : List Char} {ts : List Terminal}
    (ends : WordEnds rest) (more : Scans rest ts) :
    Scans (p.text.toList ++ rest) (p.terminals ++ ts) := by
  have cut : p.text.toList ++ rest =
      p.name.toList ++ ':' :: ' ' :: (p.type.name.text.toList ++ rest) := by
    simp [text]
  rw [cut]
  exact .name h (wordEnds_cons (by decide))
    (.punctuation rfl (.space (.keyword p.type.name.keyword?_text ends more)))

theorem scansSeparated : ∀ {ps : List Param}, (∀ p ∈ ps, IsName p.name) → ∀ {rest : List Char}
    {ts : List Terminal}, WordEnds rest → Scans rest ts →
    Scans ((Text.joinWith ", " (ps.map Param.text)).toList ++ rest) (paramTerminals ps ++ ts)
  | [], _, _, _, _, more => more
  | [p], h, _, _, ends, more => scans (h p List.mem_cons_self) ends more
  | p :: p' :: ps, h, rest, ts, ends, more => by
    have cut : (Text.joinWith ", " ((p :: p' :: ps).map Param.text)).toList ++ rest =
        p.text.toList ++ ',' :: ' ' ::
          ((Text.joinWith ", " ((p' :: ps).map Param.text)).toList ++ rest) := by
      simp [Text.joinWith]
    have cut' : paramTerminals (p :: p' :: ps) ++ ts =
        p.terminals ++ .fixed .comma :: (paramTerminals (p' :: ps) ++ ts) := by
      simp [paramTerminals]
    rw [cut, cut']
    exact scans (h p List.mem_cons_self) (wordEnds_cons (by decide))
      (.punctuation rfl
        (.space (scansSeparated (fun q mem => h q (.tail _ mem)) ends more)))

end Param

/-- A word before a blank. -/
theorem Scans.keywordBlank {x : String} {kind : TokenKind} (reserved : keyword? x = some kind)
    {rest : List Char} {ts : List Terminal} (more : Scans rest ts) :
    Scans (x.toList ++ ' ' :: rest) (.fixed kind :: ts) :=
  .keyword reserved (wordEnds_cons (by decide)) more.space

theorem WrittenType.scans (type : WrittenType) {rest : List Char} {ts : List Terminal}
    (more : Scans rest ts) :
    Scans (type.name.text.toList ++ ' ' :: rest) (.fixed type.name.kind :: ts) :=
  .keywordBlank type.name.keyword?_text more

theorem FunctionHeader.scans {f : FunctionHeader} (h : f.Printable) {rest : List Char}
    {ts : List Terminal} (more : Scans rest ts) :
    Scans (f.text.toList ++ ' ' :: rest) (f.terminals ++ ts) := by
  obtain ⟨id, name, nameSpan, params, returnType⟩ := f
  obtain ⟨isName, areNames⟩ := h
  have front {rest : List Char} {ts : List Terminal} (more : Scans rest ts) :
      Scans ("fn".toList ++ ' ' :: (name.toList ++
          ((MiniLang.parenthesized (Text.joinWith ", " (params.map Param.text))).toList ++
            ' ' :: rest)))
        (.fixed .kwFn :: .identifier name :: (Terminal.inParens (paramTerminals params) ++ ts)) :=
    .keywordBlank rfl (.name isName (wordEnds_parenthesized _ _)
      (.parenthesized (Param.scansSeparated areNames) more.space))
  cases returnType with
  | none => simpa [text, terminals, typeBehind] using front more
  | some type =>
    have result : Scans (['-', '>'] ++ ' ' :: (type.name.text.toList ++ ' ' :: rest))
        (.fixed .arrow :: .fixed type.name.kind :: ts) :=
      .sign (by decide) (signEnds_cons (by decide)) (type.scans more).space
    simpa [text, terminals, typeBehind] using front result

namespace Expr

variable {e : Expr} {rest : List Char} {ts : List Terminal}

/-- A condition before a block. -/
theorem scansTest (h : e.Printable) (more : Scans rest ts) :
    Scans ((parenthesized e.text).toList ++ ' ' :: rest) (Terminal.inParens e.terminals ++ ts) :=
  .parenthesized (scans h) more.space

/-- An expression at the end of a statement. -/
theorem scansStop (h : e.Printable) (more : Scans rest ts) :
    Scans (e.text.toList ++ ';' :: rest) (e.terminals ++ .fixed .semicolon :: ts) :=
  scans h (wordEnds_cons (by decide)) (.punctuation rfl more)

end Expr

theorem scans_errorMark {rest : List Char} {ts : List Terminal} (more : Scans rest ts) :
    Scans ("<error>;".toList ++ rest) (errorMark ++ ts) := by
  have isName : IsName "error" := ⟨'e', "rror".toList, rfl, rfl, List.all_eq_true.1 rfl, rfl⟩
  have closing : Scans (['>'] ++ ';' :: rest) (.fixed .greater :: .fixed .semicolon :: ts) :=
    .sign (by decide) (signEnds_cons (by decide)) (.punctuation rfl more)
  have word : Scans ("error".toList ++ (['>'] ++ ';' :: rest))
      (.identifier "error" :: .fixed .greater :: .fixed .semicolon :: ts) :=
    .name isName (wordEnds_cons (by decide)) closing
  have opening : Scans (['<'] ++ ("error".toList ++ (['>'] ++ ';' :: rest)))
      (.fixed .less :: .identifier "error" :: .fixed .greater :: .fixed .semicolon :: ts) :=
    .sign (by decide) (signEnds_cons (by decide)) word
  exact opening

namespace Stmt

theorem scansLet {name : String} {value : Expr} (isName : IsName name) (h : value.Printable)
    (id : NodeId) (span nameSpan : Span) (declared : Option WrittenType) (depth : Nat)
    {rest : List Char} {ts : List Terminal} (more : Scans rest ts) :
    Scans (((letVar id span name nameSpan declared value).textAt depth).toList ++ rest)
      ((letVar id span name nameSpan declared value).terminals ++ ts) := by
  have assigned : Scans (['='] ++ ' ' :: (value.text.toList ++ ';' :: rest))
      (.fixed .assignment :: (value.terminals ++ .fixed .semicolon :: ts)) :=
    .sign (by decide) (signEnds_cons (by decide)) (Expr.scansStop h more).space
  cases declared with
  | none =>
    have whole : Scans ("let".toList ++ ' ' :: (name.toList ++ ' ' :: _)) _ :=
      .keywordBlank rfl (.name isName (wordEnds_cons (by decide)) assigned.space)
    simpa [textAt, terminals, typeBehind] using whole
  | some type =>
    have whole : Scans ("let".toList ++ ' ' :: (name.toList ++ ':' :: ' ' :: _)) _ :=
      .keywordBlank rfl (.name isName (wordEnds_cons (by decide))
        (.punctuation rfl (type.scans assigned).space))
    simpa [textAt, terminals, typeBehind] using whole

mutual

/-- The text of a statement is made of its terminals. -/
theorem scans : ∀ {s : Stmt}, s.Printable → ∀ {depth : Nat} {rest : List Char} {ts : List Terminal},
    Scans rest ts → Scans ((s.textAt depth).toList ++ rest) (s.terminals ++ ts)
  | letVar id span name nameSpan declared value, h, depth, rest, ts, more =>
    scansLet h.1 h.2 id span nameSpan declared depth more
  | ifThen _ condition thenBlock, h, depth, rest, ts, more => by
    have whole : Scans ("if".toList ++ ' ' :: ((parenthesized condition.text).toList ++
        ' ' :: ((blockAt depth thenBlock).toList ++ rest))) _ :=
      .keywordBlank rfl (Expr.scansTest h.1 (scansBlock h.2 more))
    simpa [textAt, terminals] using whole
  | ifThenElse _ condition thenBlock elseBranch, h, depth, rest, ts, more => by
    have whole : Scans ("if".toList ++ ' ' :: ((parenthesized condition.text).toList ++
        ' ' :: ((blockAt depth thenBlock).toList ++ ' ' ::
          ("else".toList ++ ' ' :: ((textAt depth elseBranch).toList ++ rest))))) _ :=
      .keywordBlank rfl (Expr.scansTest h.1 (scansBlock h.2.1
        (.space (.keywordBlank rfl (scans h.2.2.2 more)))))
    simpa [textAt, terminals] using whole
  | whileLoop _ condition body, h, depth, rest, ts, more => by
    have whole : Scans ("while".toList ++ ' ' :: ((parenthesized condition.text).toList ++
        ' ' :: ((blockAt depth body).toList ++ rest))) _ :=
      .keywordBlank rfl (Expr.scansTest h.1 (scansBlock h.2 more))
    simpa [textAt, terminals] using whole
  | block b, h, depth, rest, ts, more => scansBlock (b := b) h more
  | expression _ value, h, depth, rest, ts, more => by
    simpa [textAt, terminals] using Expr.scansStop (e := value) h more
  | function _ _ _, h, _, _, _, _ => h.elim
  | ret _ none, _, depth, rest, ts, more => by
    have whole : Scans ("return".toList ++ ';' :: rest) _ :=
      .keyword rfl (wordEnds_cons (by decide)) (.punctuation rfl more)
    simpa [textAt, terminals] using whole
  | ret _ (some value), h, depth, rest, ts, more => by
    have whole : Scans ("return".toList ++ ' ' :: (value.text.toList ++ ';' :: rest)) _ :=
      .keywordBlank rfl (Expr.scansStop (e := value) h more)
    simpa [textAt, terminals] using whole
  | error _, _, _, _, _, more => scans_errorMark more

theorem scansBlock : ∀ {b : Block}, BlockPrintable b → ∀ {depth : Nat} {rest : List Char}
    {ts : List Terminal}, Scans rest ts →
    Scans ((blockAt depth b).toList ++ rest) (blockTerminals b ++ ts)
  | .mk _ _ [], _, depth, rest, ts, more => by
    have whole : Scans ('\x7b' :: '\x7d' :: rest) _ := .punctuation rfl (.punctuation rfl more)
    simpa [blockAt, blockTerminals, terminalsAll] using whole
  | .mk _ _ (s :: ss), h, depth, rest, ts, more => by
    have whole : Scans ('\x7b' :: '\n' :: ((indentation (depth + 1)).toList ++
        ((textAt (depth + 1) s).toList ++ '\n' :: ((linesAt (depth + 1) ss).toList ++
          ((indentation depth).toList ++ '\x7d' :: rest))))) _ :=
      .punctuation rfl (.newline (.indentation (depth + 1) (scans h.1 (.newline
        (scansAll h.2 (.indentation depth (.punctuation rfl more)))))))
    simpa [blockAt, blockTerminals, terminalsAll] using whole

theorem scansAll : ∀ {ss : List Stmt}, AllPrintable ss → ∀ {depth : Nat} {rest : List Char}
    {ts : List Terminal}, Scans rest ts →
    Scans ((linesAt depth ss).toList ++ rest) (terminalsAll ss ++ ts)
  | [], _, _, _, _, more => more
  | s :: ss, h, depth, rest, ts, more => by
    have whole : Scans ((indentation depth).toList ++ ((textAt depth s).toList ++
        '\n' :: ((linesAt depth ss).toList ++ rest))) _ :=
      .indentation depth (scans h.1 (.newline (scansAll h.2 more)))
    simpa [linesAt, terminalsAll] using whole

end

theorem scansTop {s : Stmt} (h : s.TopPrintable) {depth : Nat} {rest : List Char}
    {ts : List Terminal} (more : Scans rest ts) :
    Scans ((s.textAt depth).toList ++ rest) (s.terminals ++ ts) := by
  cases s with
  | function span header body =>
    have whole : Scans (header.text.toList ++ ' ' :: ((blockAt depth body).toList ++ rest)) _ :=
      FunctionHeader.scans h.1 (scansBlock h.2 more)
    simpa [textAt, terminals] using whole
  | _ => exact scans h more

end Stmt

namespace Program

variable {p : Program}

/-- The text of a program is made of its terminals. -/
theorem scans (h : p.Printable) : Scans p.text.toList p.terminals := by
  have lines : ∀ ss : List Stmt, (∀ s ∈ ss, s.TopPrintable) →
      Scans (Stmt.linesAt 0 ss).toList (Stmt.terminalsAll ss) := by
    intro ss
    induction ss with
    | nil => exact fun _ => .nil
    | cons s ss ih =>
      intro all
      have more := ih fun t mem => all t (.tail _ mem)
      have whole : Scans ((s.textAt 0).toList ++ '\n' :: (Stmt.linesAt 0 ss).toList) _ :=
        Stmt.scansTop (all s List.mem_cons_self) more.newline
      simpa [Stmt.linesAt, indentation, Stmt.terminalsAll] using whole
  exact lines p.body h

/-- The grammar derives a program from its terminals. -/
theorem derives (h : p.Printable) : DerivesProgram .printed p.terminals p.body :=
  Stmt.derivesProgram h

end Program

end MiniLang
