import MiniLang.Proofs.Syntax.Parser.Completeness.Statements
import MiniLang.Proofs.Syntax.Parser.Soundness.Statements
import MiniLang.Proofs.Syntax.Printing
import MiniLang.Syntax.Parser.Source

/-!
# Printing and parsing

Every program that can be printed is parsed back from its text, up to numbers and places, with one
error for each error placeholder in it; and whatever the parser gives can be printed
(`parsesOf_text`). The first half composes what is known of printed texts with what the parser
makes of the terminals of a derivation. The second half goes the other way: whatever is parsed is
derived from the terminals of a text, where names are names and numbers have no sign.
-/

set_option autoImplicit false

namespace MiniLang

/-! ## Terminals of texts -/

/-- An identifier is a name, and a number is written in digits. -/
def Terminal.Proper : Terminal → Prop
  | identifier name => IsName name
  | integer text => ∀ d ∈ text.toList, Integer.isDigit d = true
  | fixed _ => True

theorem Token.proper_terminal {t : Token} (isName : t.kind = .identifier → IsName t.text)
    (digits : t.kind = .integer → ∀ d ∈ t.text.toList, Integer.isDigit d = true) :
    t.terminal.Proper := by
  unfold terminal
  split
  next is => exact isName is
  next is => exact digits is
  next => trivial

/-- All terminals of a text are proper. -/
theorem proper_terminals_deliveries (source : List Char) :
    ∀ t ∈ terminals ((deliveries source).map Delivery.token), t.Proper := by
  intro t mem
  obtain ⟨token, memToken, rfl⟩ := List.mem_map.1 mem
  obtain ⟨x, memDelivery, rfl⟩ := List.mem_map.1 ((List.takeWhile_sublist _).subset memToken)
  exact Token.proper_terminal (deliveries_fit source x memDelivery).token.isName
    (Lexer.digits_of_readAll _ x memDelivery)

/-! ## What is derived can be printed -/

variable {d : Dialect}

theorem Enclosed.mem {ts : List Terminal} {x : String} (h : Enclosed ts x) :
    .identifier x ∈ ts := by
  induction h with
  | name x => exact List.mem_cons_self
  | parens _ ih => exact List.mem_cons_of_mem _ (List.mem_append_left _ ih)

mutual

theorem Derives.printable (names : d.NamesTargets) {l : Stratum} {ts : List Terminal} {e : Expr}
    (h : Derives d l ts e) (proper : ∀ t ∈ ts, t.Proper) : e.Printable := by
  match h with
  | .assignment target value =>
    refine ⟨proper _ (List.mem_append_left _ (names _ _ target).mem), value.printable names ?_⟩
    exact fun t mem => proper t (by simp [mem])
  | .tighter h => exact h.printable names proper
  | .binary _ left right =>
    exact ⟨left.printable names fun t mem => proper t (by simp [mem]),
      right.printable names fun t mem => proper t (by simp [mem])⟩
  | .unary _ operand =>
    exact operand.printable names fun t mem => proper t (List.mem_cons_of_mem _ mem)
  | .integer parsed =>
    have inRange := Integer.inRange_of_parse? parsed
    exact ⟨Integer.nonneg_of_parse? (proper _ List.mem_cons_self) parsed, inRange.2⟩
  | .yes | .no => trivial
  | .name => exact proper _ List.mem_cons_self
  | .call arguments =>
    refine ⟨proper _ List.mem_cons_self, arguments.printable names fun t mem => proper t ?_⟩
    simp [Terminal.inParens, mem]
  | .group h => exact h.printable names fun t mem => proper t (by simp [Terminal.inParens, mem])

theorem DerivesArguments.printable (names : d.NamesTargets) {ts : List Terminal} {es : List Expr}
    (h : DerivesArguments d ts es) (proper : ∀ t ∈ ts, t.Proper) : Expr.AllPrintable es := by
  match h with
  | .none => trivial
  | .some h => exact h.printable names proper

theorem DerivesSeparated.printable (names : d.NamesTargets) {ts : List Terminal} {es : List Expr}
    (h : DerivesSeparated d ts es) (proper : ∀ t ∈ ts, t.Proper) : Expr.AllPrintable es := by
  match h with
  | .last h => exact ⟨h.printable names proper, trivial⟩
  | .cons first rest =>
    exact ⟨first.printable names fun t mem => proper t (by simp [mem]),
      rest.printable names fun t mem => proper t (by simp [mem])⟩

end

theorem DerivesChoice.isElseBranch {ts : List Terminal} {s : Stmt} (h : DerivesChoice d ts s) :
    s.isElseBranch = true := by
  cases h <;> rfl

mutual

theorem DerivesStmt.printable (names : d.NamesTargets) {ts : List Terminal} {s : Stmt}
    (h : DerivesStmt d ts s) (proper : ∀ t ∈ ts, t.Proper) : s.Printable := by
  match h with
  | .letVar value =>
    exact ⟨proper _ (List.mem_cons_of_mem _ List.mem_cons_self),
      value.printable names fun t mem => proper t (by simp [mem])⟩
  | .choice h => exact h.printable names proper
  | .whileLoop test body =>
    exact ⟨test.printable names fun t mem => proper t (by simp [Terminal.inParens, mem]),
      body.printable names fun t mem => proper t (by simp [mem])⟩
  | .block h => exact h.printable names proper
  | .leave => trivial
  | .giveBack value => exact value.printable names fun t mem => proper t (by simp [mem])
  | .expression value => exact value.printable names fun t mem => proper t (by simp [mem])
  | .error _ => trivial

theorem DerivesChoice.printable (names : d.NamesTargets) {ts : List Terminal} {s : Stmt}
    (h : DerivesChoice d ts s) (proper : ∀ t ∈ ts, t.Proper) : s.Printable := by
  match h with
  | .ifThen test yes =>
    exact ⟨test.printable names fun t mem => proper t (by simp [Terminal.inParens, mem]),
      yes.printable names fun t mem => proper t (by simp [mem])⟩
  | .ifThenElse test yes no =>
    exact ⟨test.printable names fun t mem => proper t (by simp [Terminal.inParens, mem]),
      yes.printable names fun t mem => proper t (by simp [mem]), rfl,
      no.printable names fun t mem => proper t (by simp [mem])⟩
  | .elseIf test yes no =>
    exact ⟨test.printable names fun t mem => proper t (by simp [Terminal.inParens, mem]),
      yes.printable names fun t mem => proper t (by simp [mem]), no.isElseBranch,
      no.printable names fun t mem => proper t (by simp [mem])⟩

theorem DerivesBlock.printable (names : d.NamesTargets) {ts : List Terminal} {b : Block}
    (h : DerivesBlock d ts b) (proper : ∀ t ∈ ts, t.Proper) : Stmt.BlockPrintable b := by
  match h with
  | .mk body => exact body.printable names fun t mem => proper t (by simp [mem])

theorem DerivesBody.printable (names : d.NamesTargets) {ts : List Terminal} {ss : List Stmt}
    (h : DerivesBody d ts ss) (proper : ∀ t ∈ ts, t.Proper) : Stmt.AllPrintable ss := by
  match h with
  | .nil => trivial
  | .cons first rest =>
    exact ⟨first.printable names fun t mem => proper t (by simp [mem]),
      rest.printable names fun t mem => proper t (by simp [mem])⟩

end

theorem names_of_paramTerminals : ∀ {ps : List Param}, (∀ t ∈ paramTerminals ps, t.Proper) →
    ∀ p ∈ ps, IsName p.name
  | [p], proper, q, mem => by
    rw [List.mem_singleton.1 mem]
    exact proper (.identifier p.name) (by simp [paramTerminals, Param.terminals])
  | p :: p' :: ps, proper, q, mem => by
    rcases List.mem_cons.1 mem with rfl | mem
    · exact proper (.identifier q.name) (by simp [paramTerminals, Param.terminals])
    · exact names_of_paramTerminals
        (fun t memRest => proper t (by simp [paramTerminals, memRest])) q mem

theorem DerivesTop.printable (names : d.NamesTargets) {ts : List Terminal} {s : Stmt}
    (h : DerivesTop d ts s) (proper : ∀ t ∈ ts, t.Proper) : s.TopPrintable := by
  cases h with
  | inner h =>
    have inside := h.printable names proper
    cases s with
    | function => exact inside.elim
    | _ => exact inside
  | @function ts header body span h =>
    refine ⟨⟨proper (.identifier header.name) ?_, names_of_paramTerminals fun t mem => proper t ?_⟩,
      h.printable names fun t mem => proper t (by simp [mem])⟩
    · simp [FunctionHeader.terminals]
    · simp [FunctionHeader.terminals, Terminal.inParens, mem]

theorem DerivesProgram.printable (names : d.NamesTargets) {ts : List Terminal} {ss : List Stmt}
    (h : DerivesProgram d ts ss) (proper : ∀ t ∈ ts, t.Proper) : ∀ s ∈ ss, s.TopPrintable := by
  induction h with
  | nil => exact fun _ mem => by cases mem
  | cons first _ ih =>
    intro s mem
    rcases List.mem_cons.1 mem with rfl | mem
    · exact first.printable names fun t mem => proper t (List.mem_append_left _ mem)
    · exact ih (fun t mem => proper t (List.mem_append_right _ mem)) s mem

/-! ## The round trip -/

/-- What parsing a source text can give: tokens are read as they are needed, or all beforehand. -/
def parsesOf (source : List Char) (s : Session) : List Parsed :=
  [parseSource source s, parseAfterReading source s]

/-- Both ways of parsing hand the tokens of the text to the parser. -/
theorem eq_parse_of_mem_parsesOf {source : List Char} {s : Session} {parsed : Parsed}
    (mem : parsed ∈ parsesOf source s) :
    ∃ tokens : List Delivery, ∃ s' : Session, parsed = parse tokens s' ∧
      tokens.map Delivery.token = (deliveries source).map Delivery.token ∧
      ((∀ x ∈ deliveries source, x.problem = none ∧ x.cancels = false) →
        Quiet tokens ∧ s' = s) := by
  simp only [parsesOf, List.mem_cons, List.not_mem_nil, or_false] at mem
  rcases mem with rfl | rfl
  · exact ⟨deliveries source, s, rfl, rfl, fun quiet => ⟨quiet, rfl⟩⟩
  · refine ⟨_, _, rfl, ?_, fun quiet => ⟨?_, ?_⟩⟩
    · rw [deliveriesOf, List.map_map]
      exact List.map_id _
    · intro x mem
      obtain ⟨token, -, rfl⟩ := List.mem_map.1 mem
      exact ⟨rfl, rfl⟩
    · have none : (deliveries source).flatMap Delivery.diagnostics = [] := by
        refine List.flatMap_eq_nil_iff.2 fun x mem => ?_
        rw [Delivery.diagnostics, (quiet x mem).1]
        rfl
      rw [none]
      exact Session.recordAll_nil s

theorem printed_namesTargets : Dialect.printed.NamesTargets := by
  rintro ts x rfl
  exact .name x

theorem printed_marksErrors : Dialect.printed.MarksErrors := fun _ => id

variable {p : Program} {s : Session}

/-- A program that can be printed is parsed back, with one error for each placeholder. -/
theorem parse_printed (unasked : s.cancelAfter = none) (uncancelled : s.cancelled = false)
    (h : p.Printable) {parsed : Parsed} (mem : parsed ∈ parsesOf p.text.toList s) :
    parsed.program.bare = p.bare ∧
      (∃ ds : List Diagnostic, parsed.session = s.recordAll ds ∧
        ds.length = p.statements.countP Stmt.isError) ∧
      (parsed.valid = true ↔ p.hasErrorNodes = false) := by
  obtain ⟨quiet, read⟩ := deliveries_of_scans (Program.scans h)
  obtain ⟨tokens, s', rfl, same, calm⟩ := eq_parse_of_mem_parsesOf mem
  obtain ⟨quiet, rfl⟩ := calm quiet
  have derives : DerivesProgram .printed (terminals (tokens.map Delivery.token)) p.body := by
    rw [same, read]
    exact Program.derives h
  obtain ⟨bare, ds, recorded, length, errors⟩ :=
    derives.parses printed_namesTargets printed_marksErrors quiet unasked uncancelled
  refine ⟨congrArg (Program.mk .origin) bare, ⟨ds, recorded, length⟩, ?_⟩
  have count : (parse tokens s').session.errorCount =
      s'.errorCount + p.statements.countP Stmt.isError := by
    have all : Diagnostics.errorCount ds = ds.length := List.countP_eq_length.2 errors
    rw [recorded, Session.errorCount, Session.diagnostics_recordAll, Diagnostics.errorCount,
      List.countP_append]
    exact congrArg (s'.errorCount + ·) (all.trans length)
  have none : p.statements.countP Stmt.isError = 0 ↔ p.hasErrorNodes = false := by
    rw [List.countP_eq_zero, Program.hasErrorNodes, List.any_eq_false]
  change ((parse tokens s').session.errorCount == s'.errorCount) = true ↔ _
  rw [beq_iff_eq, count, ← none]
  omega

/-- Whatever is parsed can be printed. -/
theorem printable_of_mem_parsesOf {source : List Char} {parsed : Parsed}
    (mem : parsed ∈ parsesOf source s) : parsed.program.Printable := by
  obtain ⟨tokens, s', rfl, same, -⟩ := eq_parse_of_mem_parsesOf mem
  obtain ⟨ts, ⟨rest, cut⟩, derives⟩ := parse_derives_any tokens s'
  refine derives.printable (fun _ _ => id) fun t mem => ?_
  refine proper_terminals_deliveries source t ?_
  rw [← same, ← cut]
  exact List.mem_append_left _ mem

/-- Printing and parsing. A program that can be printed is parsed back from its text up to numbers
and places, one error is recorded for each placeholder in it, and the result is valid if there are
none. What is parsed from any text, in any session, can be printed, and is printed the same again
after it is parsed back. -/
theorem parsesOf_text (unasked : s.cancelAfter = none) (uncancelled : s.cancelled = false) :
    (∀ p : Program, p.Printable → ∀ parsed ∈ parsesOf p.text.toList s,
      parsed.program.bare = p.bare ∧
        (∃ ds : List Diagnostic, parsed.session = s.recordAll ds ∧
          ds.length = p.statements.countP Stmt.isError) ∧
        (parsed.valid = true ↔ p.hasErrorNodes = false)) ∧
    ∀ (source : List Char) (s' : Session), ∀ parsed ∈ parsesOf source s',
      parsed.program.Printable ∧ ∀ again ∈ parsesOf parsed.program.text.toList s,
        again.program.text = parsed.program.text := by
  refine ⟨fun p h parsed mem => parse_printed unasked uncancelled h mem,
    fun source s' parsed mem => ⟨printable_of_mem_parsesOf mem, fun again memAgain => ?_⟩⟩
  obtain ⟨bare, -⟩ :=
    parse_printed unasked uncancelled (printable_of_mem_parsesOf mem) memAgain
  rw [← again.program.text_bare, bare, Program.text_bare]

/-- `if (true) {} else if ((x = 1)) { <error>; }`, on lines of its own. -/
def choiceWithError : Program where
  span := .origin
  body := [.ifThenElse .origin (.literal 0 .origin (.bool true)) (.mk 0 .origin [])
    (.ifThen .origin (.assignment 0 .origin "x" .origin (.literal 0 .origin (.int 1)))
      (.mk 0 .origin [.error .origin]))]

theorem choiceWithError_printable : choiceWithError.Printable := by
  have isName : IsName "x" := ⟨'x', [], rfl, rfl, List.all_eq_true.1 rfl, rfl⟩
  have number : (Literal.int 1).Printable := ⟨by decide, by decide⟩
  intro s mem
  rw [List.mem_singleton.1 mem]
  exact ⟨trivial, trivial, rfl, ⟨isName, number⟩, trivial, trivial⟩

/-- An assignment as a condition and a mark inside a block behind an `else` come back. -/
theorem parsesOf_text_choiceWithError :
    Session.fresh.cancelAfter = none ∧ Session.fresh.cancelled = false ∧
      choiceWithError.Printable ∧ ∀ parsed ∈ parsesOf choiceWithError.text.toList .fresh,
        parsed.program.bare = choiceWithError.bare ∧ parsed.valid = false := by
  refine ⟨rfl, rfl, choiceWithError_printable, fun parsed mem => ?_⟩
  obtain ⟨bare, -, valid⟩ :=
    (parsesOf_text (s := .fresh) rfl rfl).1 choiceWithError choiceWithError_printable parsed mem
  refine ⟨bare, Bool.eq_false_iff.2 fun is => ?_⟩
  exact absurd (valid.1 is) (by decide)

end MiniLang
