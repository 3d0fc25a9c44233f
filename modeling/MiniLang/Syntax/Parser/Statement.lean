import MiniLang.Syntax.Parser.Expression

/-!
# Parsing statements and programs

A statement is selected by its first token. Where one cannot be read, the error is recorded, the
rest of the statement is skipped, and an error placeholder stands for it: `recovering` never fails,
and it always moves on. Only the end of the input inside a block spoils the statements around it.

A program is read statement by statement with a checkpoint before each; it is valid if no error
was recorded on the way.
-/

set_option autoImplicit false

namespace MiniLang

namespace Parse

/-- A type. -/
def typeName : Parse WrittenType := fun p =>
  match p.current.kind with
  | .kwInt => .ok ⟨.int, p.current.span⟩ p.advance
  | .kwBool => .ok ⟨.bool, p.current.span⟩ p.advance
  | _ => .error (.unexpected "type" p.current) p

/-- A type behind a token of the given kind, if there is such a token. -/
def typeAfter (kind : TokenKind) : Parse (Option WrittenType) := do
  if (← currentKind) = kind then
    let _ ← advance
    return some (← typeName)
  else
    return none

/-- Declares a variable. -/
def letStatement (g : Grammar) : Parse Stmt := do
  let start ← advance
  let name ← expect .identifier "identifier"
  let declared ← typeAfter .colon
  let _ ← expect .assignment "`=`"
  let value ← expression g .default
  let stop ← expect .semicolon "`;`"
  return .letVar (← freshId) (start.span.join stop.span) name.text name.span declared value

/-- A condition in parentheses. -/
def condition (g : Grammar) : Parse Expr := do
  let opening ← expect .openParen "`(`"
  let e ← expression g .default
  let _ ← expectClosing .closeParen "`)`" "condition" opening
  return e

/-- Statements up to a closing brace or the end of the input, at most as many as the number says. -/
def statements (inner : Parser → Stmt × Parser) : Nat → Parser → List Stmt × Parser
  | 0, p => ([], p)
  | fuel + 1, p =>
    if p.current.kind = .closeCurly ∨ p.atEnd then
      ([], p)
    else
      let (first, q) := inner p
      let (rest, r) := statements inner fuel q
      (first :: rest, r)

/-- The statements of a block; one more block is open while they are read. -/
def blockBody (inner : Parser → Stmt × Parser) : Parse (List Stmt) := fun p =>
  let (body, q) := statements inner (p.remaining + 1) { p with blockDepth := p.blockDepth + 1 }
  .ok body { q with blockDepth := q.blockDepth - 1 }

/-- Statements between braces. -/
def block (inner : Parser → Stmt × Parser) : Parse Block := do
  let opening ← expect .openCurly "`\x7b`"
  let id ← freshId
  let body ← blockBody inner
  if (← currentKind) = .endOfInput then
    failUnterminated "block" opening
  else
    let closing ← advance
    return .mk id (opening.span.join closing.span) body

/-- Where the token taken last stands. -/
def previousSpan : Parse Span := fun p => .ok p.previousSpan p

/-- A statement with a condition, a block, and perhaps another branch: a block, or a statement of
this form again. The number bounds how many of them follow each other. -/
def ifStatement (g : Grammar) (blockOf : Parse Block) : Nat → Parse Stmt
  | 0 => fun p => .error (.unexpected "`\x7b`" p.current) p
  | fuel + 1 => do
    let start ← advance
    let test ← condition g
    let thenBlock ← blockOf
    if (← currentKind) = .kwElse then
      let _ ← advance
      let elseBranch ←
        if (← currentKind) = .kwIf then ifStatement g blockOf fuel else Stmt.block <$> blockOf
      return .ifThenElse (start.span.join (← previousSpan)) test thenBlock elseBranch
    else
      return .ifThen (start.span.join (← previousSpan)) test thenBlock

/-- A loop. -/
def whileStatement (g : Grammar) (blockOf : Parse Block) : Parse Stmt := do
  let start ← advance
  let test ← condition g
  let body ← blockOf
  return .whileLoop (start.span.join body.span) test body

/-- One or more parameters with commas between them, at most as many as the number says. -/
def commaSeparatedParams : Nat → Parse (List Param)
  | 0 => pure []
  | fuel + 1 => do
    let name ← expect .identifier "parameter name"
    let _ ← expect .colon "`:`"
    let type ← typeName
    let param : Param := ⟨← freshId, name.span.join type.span, name.text, type⟩
    if (← currentKind) = .comma then
      let _ ← advance
      return param :: (← commaSeparatedParams fuel)
    else
      return [param]

/-- The parameters of a function after their opening parenthesis. -/
def params : Parse (List Param) := do
  if (← currentKind) = .closeParen then return [] else bounded commaSeparatedParams

/-- How many blocks are open. -/
def blockDepth : Parse Nat := fun p => .ok p.blockDepth p

/-- Records a problem that spoils no statement. -/
def complain (problem : Problem) (span : Span) : Parse Unit := fun p =>
  .ok () { p with session := p.session.report problem span }

/-- Declares a function. Inside a block this is an error, found after the whole function was
read. -/
def functionStatement (blockOf : Parse Block) : Parse Stmt := do
  let start ← advance
  let name ← expect .identifier "identifier"
  let opening ← expect .openParen "`(`"
  let parameters ← params
  let _ ← expectClosing .closeParen "`)`" "parameter list" opening
  let returnType ← typeAfter .arrow
  let depth ← blockDepth
  let body ← blockOf
  let span := start.span.join body.span
  if 0 < depth then
    complain (.nestedFunction name.text) name.span
    return .error span
  else
    return .function span ⟨← freshId, name.text, name.span, parameters, returnType⟩ body

/-- Leaves the function, with a value unless a semicolon follows at once. -/
def returnStatement (g : Grammar) : Parse Stmt := do
  let start ← advance
  let value ←
    if (← currentKind) = .semicolon then pure none else some <$> expression g .default
  let stop ← expect .semicolon "`;`"
  return .ret (start.span.join stop.span) value

/-- The statement of a given form. -/
def statementForm (g : Grammar) (inner : Parser → Stmt × Parser) : StatementRule → Parse Stmt
  | .letVar => letStatement g
  | .ifElse => bounded (ifStatement g (block inner))
  | .whileLoop => whileStatement g (block inner)
  | .block => Stmt.block <$> block inner
  | .function => functionStatement (block inner)
  | .ret => returnStatement g

/-- An expression and a semicolon. -/
def expressionStatement (g : Grammar) : Parse Stmt := do
  let e ← expression g .default
  let stop ← expect .semicolon "`;`"
  return .expression (e.span.join stop.span) e

/-- A statement, given the parser of the statements inside its blocks. -/
def statementWith (g : Grammar) (inner : Parser → Stmt × Parser) : Parse Stmt := do
  match g.statementRule (← currentKind) with
  | some rule => statementForm g inner rule
  | none => expressionStatement g

/-- What becomes of a statement that could not be read: the error is recorded, the rest of the
statement is skipped, at least one token of it, and an error placeholder covers it. -/
def recover (start : Parser) (e : SyntaxError) (failed : Parser) : Stmt × Parser :=
  let skipped := (failed.report e).synchronize
  let moved := if skipped.consumed = start.consumed then skipped.advance else skipped
  (.error (start.current.span.join moved.previousSpan), moved)

/-- A statement, or an error placeholder in its place. -/
def recovering (action : Parse Stmt) (p : Parser) : Stmt × Parser :=
  match action p with
  | .ok s q => (s, q)
  | .error e q => recover p e q

/-- A statement or error placeholder in which blocks nest at most as deep as the number says. -/
def statementOrErrorFrom (g : Grammar) : Nat → Parser → Stmt × Parser
  | 0, p => (.error p.current.span, p.advance)
  | fuel + 1, p => recovering (statementWith g (statementOrErrorFrom g fuel)) p

/-- A statement, or an error placeholder in its place. -/
def statementOrError (g : Grammar) (p : Parser) : Stmt × Parser :=
  statementOrErrorFrom g (p.remaining + 1) p

/-- A statement. -/
def statement (g : Grammar) : Parse Stmt := statementWith g (statementOrError g)

/-- Statements up to the end of the input, with a checkpoint before each, at most as many as the
number says. -/
def topLevel (g : Grammar) : Nat → Parser → List Stmt × Parser
  | 0, p => ([], p)
  | fuel + 1, p =>
    if p.atEnd then
      ([], p)
    else
      let (passed, session) := p.session.checkpoint p.current.span
      let p := { p with session := session }
      if passed then
        let (first, q) := statementOrError g p
        let (rest, r) := topLevel g fuel q
        (first :: rest, r)
      else
        ([], p)

end Parse

/-- What parsing gives: the program, whether no error was recorded, and the session afterwards. -/
structure Parsed where
  program : Program
  valid : Bool
  session : Session

/-- Parses a program from tokens. -/
def parse (tokens : List Delivery) (s : Session) : Parsed :=
  let start := Parser.start tokens s
  let (body, stop) := Parse.topLevel .standard (start.remaining + 1) start
  { program := ⟨start.current.span.join stop.current.span, body⟩
    valid := stop.session.errorCount == s.errorCount
    session := stop.session }

end MiniLang
