import MiniLang.Proofs.Syntax.Grammar

/-!
# How the terminals of derivations nest

Expressions are put together from terminals that are no brackets, and from expressions between
parentheses; statements have semicolons, and blocks between braces, besides. What is true of such
terminals and is kept by putting them together is true of all that is derived (`Derives.nested`,
`DerivesProgram.nested`).
-/

set_option autoImplicit false

namespace MiniLang

namespace Terminal

/-- A terminal that neither begins nor ends anything. -/
def Flat (t : Terminal) : Prop :=
  t.kind ∉ [.openParen, .closeParen, .openCurly, .closeCurly, .semicolon, .unknown, .endOfInput]

instance (t : Terminal) : Decidable t.Flat := inferInstanceAs (Decidable (_ ∉ _))

/-- Terminals between braces. -/
def inBraces (ts : List Terminal) : List Terminal := fixed .openCurly :: (ts ++ [fixed .closeCurly])

theorem flat_identifier (x : String) : (identifier x).Flat := by
  change TokenKind.identifier ∉ _
  decide

theorem flat_integer (text : String) : (integer text).Flat := by
  change TokenKind.integer ∉ _
  decide

theorem flat_type (name : TypeName) : (fixed name.kind).Flat := by cases name <;> decide

theorem flat_operator {l : Stratum} {kind : TokenKind} {op : BinaryOp}
    (mem : (kind, op) ∈ l.operators) : (fixed kind).Flat := by
  have all : ∀ entry ∈ l.operators, (fixed entry.1).Flat := by cases l <;> decide
  exact all _ mem

theorem flat_unaryOperator {kind : TokenKind} {op : UnaryOp} (mem : (kind, op) ∈ UnaryOp.tokens) :
    (fixed kind).Flat := by
  have all : ∀ entry ∈ UnaryOp.tokens, (fixed entry.1).Flat := by decide
  exact all _ mem

end Terminal

/-- What is kept by putting terminals together as expressions do. -/
structure Nested (P : List Terminal → Prop) : Prop where
  nil : P []
  append {ts us : List Terminal} : P ts → P us → P (ts ++ us)
  flat {t : Terminal} : t.Flat → P [t]
  parens {ts : List Terminal} : P ts → P (Terminal.inParens ts)

/-- What is kept by putting terminals together as statements do. -/
structure NestedInBlocks (P : List Terminal → Prop) : Prop extends Nested P where
  semicolon : P [.fixed .semicolon]
  braces {ts : List Terminal} : P ts → P (Terminal.inBraces ts)

variable {P : List Terminal → Prop} {d : Dialect}

namespace Nested

variable {ts us : List Terminal}

theorem cons (h : Nested P) {t : Terminal} (flat : t.Flat) (rest : P ts) : P (t :: ts) :=
  h.append (h.flat flat) rest

theorem around (h : Nested P) {t : Terminal} (left : P ts) (flat : t.Flat) (right : P us) :
    P (ts ++ t :: us) := h.append left (h.cons flat right)

theorem enclosed (h : Nested P) {x : String} (enclosed : Enclosed ts x) : P ts := by
  induction enclosed with
  | name x => exact h.flat (Terminal.flat_identifier x)
  | parens _ ih => exact h.parens ih

theorem typeBehind (h : Nested P) {sign : TokenKind} (flat : (Terminal.fixed sign).Flat)
    (declared : Option WrittenType) : P (typeBehind sign declared) := by
  cases declared with
  | none => exact h.nil
  | some type => exact h.cons flat (h.flat (Terminal.flat_type type.name))

theorem param (h : Nested P) (x : Param) : P x.terminals :=
  h.cons (Terminal.flat_identifier x.name)
    (h.cons (by decide) (h.flat (Terminal.flat_type x.type.name)))

theorem paramTerminals (h : Nested P) : ∀ ps : List Param, P (paramTerminals ps)
  | [] => h.nil
  | [x] => h.param x
  | x :: y :: ps => h.around (h.param x) (by decide) (h.paramTerminals (y :: ps))

theorem header (h : Nested P) (f : FunctionHeader) : P f.terminals :=
  h.cons (by decide) (h.cons (Terminal.flat_identifier f.name)
    (h.append (h.parens (h.paramTerminals f.params)) (h.typeBehind (by decide) f.returnType)))

end Nested

/-- The dialect has names in parentheses on the left of an assignment, and no error placeholders. -/
structure Dialect.Plain (d : Dialect) : Prop where
  target : ∀ ts x, d.target ts x → Enclosed ts x
  placeholder : ∀ ts, ¬d.placeholder ts

theorem Dialect.plain_standard : Dialect.standard.Plain :=
  ⟨fun _ x same => same ▸ .name x, fun _ => id⟩

mutual

theorem Derives.nested (h : Nested P) (names : ∀ ts x, d.target ts x → Enclosed ts x) {l : Stratum}
    {ts : List Terminal} {e : Expr} (derives : Derives d l ts e) : P ts := by
  match derives with
  | .assignment target value =>
    exact h.around (h.enclosed (names _ _ target)) (by decide) (value.nested h names)
  | .tighter tight => exact tight.nested h names
  | .binary mem left right =>
    exact h.around (left.nested h names) (Terminal.flat_operator mem) (right.nested h names)
  | .unary mem operand => exact h.cons (Terminal.flat_unaryOperator mem) (operand.nested h names)
  | .integer _ => exact h.flat (Terminal.flat_integer _)
  | .yes | .no => exact h.flat (by decide)
  | .name => exact h.flat (Terminal.flat_identifier _)
  | .call arguments =>
    exact h.cons (Terminal.flat_identifier _) (h.parens (arguments.nested h names))
  | .group inside => exact h.parens (inside.nested h names)

theorem DerivesArguments.nested (h : Nested P) (names : ∀ ts x, d.target ts x → Enclosed ts x)
    {ts : List Terminal} {es : List Expr} (derives : DerivesArguments d ts es) : P ts := by
  match derives with
  | .none => exact h.nil
  | .some separated => exact separated.nested h names

theorem DerivesSeparated.nested (h : Nested P) (names : ∀ ts x, d.target ts x → Enclosed ts x)
    {ts : List Terminal} {es : List Expr} (derives : DerivesSeparated d ts es) : P ts := by
  match derives with
  | .last only => exact only.nested h names
  | .cons first rest => exact h.around (first.nested h names) (by decide) (rest.nested h names)

end

mutual

theorem DerivesStmt.nested (h : NestedInBlocks P) (plain : d.Plain) {ts : List Terminal} {s : Stmt}
    (derives : DerivesStmt d ts s) : P ts := by
  match derives with
  | @DerivesStmt.letVar _ _ _ _ _ _ x declared value =>
    refine h.cons (by decide) (h.cons (Terminal.flat_identifier x) ?_)
    exact h.around (h.typeBehind (by decide) declared) (by decide)
      (h.append (value.nested h.toNested plain.target) h.semicolon)
  | .choice choice => exact choice.nested h plain
  | .whileLoop test body =>
    exact h.cons (by decide)
      (h.append (h.parens (test.nested h.toNested plain.target)) (body.nested h plain))
  | .block block => exact block.nested h plain
  | .leave => exact h.cons (by decide) h.semicolon
  | .giveBack value =>
    exact h.cons (by decide) (h.append (value.nested h.toNested plain.target) h.semicolon)
  | .expression value => exact h.append (value.nested h.toNested plain.target) h.semicolon
  | .error placeholder => exact absurd placeholder (plain.placeholder _)

theorem DerivesChoice.nested (h : NestedInBlocks P) (plain : d.Plain) {ts : List Terminal}
    {s : Stmt} (derives : DerivesChoice d ts s) : P ts := by
  match derives with
  | .ifThen test yes =>
    exact h.cons (by decide)
      (h.append (h.parens (test.nested h.toNested plain.target)) (yes.nested h plain))
  | .ifThenElse test yes no =>
    exact h.cons (by decide) (h.append (h.parens (test.nested h.toNested plain.target))
      (h.around (yes.nested h plain) (by decide) (no.nested h plain)))
  | .elseIf test yes no =>
    exact h.cons (by decide) (h.append (h.parens (test.nested h.toNested plain.target))
      (h.around (yes.nested h plain) (by decide) (no.nested h plain)))

theorem DerivesBlock.nested (h : NestedInBlocks P) (plain : d.Plain) {ts : List Terminal}
    {b : Block} (derives : DerivesBlock d ts b) : P ts := by
  match derives with
  | .mk body => exact h.braces (body.nested h plain)

theorem DerivesBody.nested (h : NestedInBlocks P) (plain : d.Plain) {ts : List Terminal}
    {ss : List Stmt} (derives : DerivesBody d ts ss) : P ts := by
  match derives with
  | .nil => exact h.nil
  | .cons first rest => exact h.append (first.nested h plain) (rest.nested h plain)

end

theorem DerivesTop.nested (h : NestedInBlocks P) (plain : d.Plain) {ts : List Terminal} {s : Stmt}
    (derives : DerivesTop d ts s) : P ts := by
  cases derives with
  | inner stmt => exact stmt.nested h plain
  | @function _ header _ _ body => exact h.append (h.header header) (body.nested h plain)

theorem DerivesProgram.nested (h : NestedInBlocks P) (plain : d.Plain) {ts : List Terminal}
    {ss : List Stmt} (derives : DerivesProgram d ts ss) : P ts := by
  induction derives with
  | nil => exact h.nil
  | cons first _ ih => exact h.append (first.nested h plain) ih

/-! ## The end of the input -/

/-- Before the end of the input, a program that is derived does not end. -/
theorem nestedInBlocks_noEnd :
    NestedInBlocks fun ts : List Terminal => ∀ t ∈ ts, t.kind ≠ .endOfInput where
  nil := List.forall_mem_nil _
  append h h' := List.forall_mem_append.2 ⟨h, h'⟩
  flat := by
    intro t flat
    refine List.forall_mem_singleton.2 fun is => ?_
    simp [Terminal.Flat, is] at flat
  parens h := by
    intro t mem
    simp only [Terminal.inParens, List.mem_cons, List.mem_append, List.not_mem_nil, or_false] at mem
    rcases mem with rfl | mem | rfl
    · decide
    · exact h t mem
    · decide
  semicolon := List.forall_mem_singleton.2 (by decide)
  braces h := by
    intro t mem
    simp only [Terminal.inBraces, List.mem_cons, List.mem_append, List.not_mem_nil, or_false] at mem
    rcases mem with rfl | mem | rfl
    · decide
    · exact h t mem
    · decide

/-- No token of a program that is derived ends the input. -/
theorem DerivesProgram.noEnd {tokens : List Token} {ss : List Stmt}
    (derives : DerivesProgram .standard (tokens.map Token.terminal) ss) :
    ∀ t ∈ tokens, t.kind ≠ .endOfInput := by
  intro t mem
  have kind := derives.nested nestedInBlocks_noEnd Dialect.plain_standard t.terminal
    (List.mem_map_of_mem mem)
  rwa [Token.kind_terminal] at kind

/-- The tokens before the end of the input are those in front of it. -/
theorem takeWhile_append_ending {tokens ending : List Token}
    (going : ∀ t ∈ tokens, t.kind ≠ .endOfInput)
    (ends : ∀ t ∈ ending.head?, t.kind = .endOfInput) :
    (tokens ++ ending).takeWhile (·.kind ≠ .endOfInput) = tokens := by
  have stops : ending.takeWhile (·.kind ≠ .endOfInput) = [] := by
    cases ending with
    | nil => rfl
    | cons t ending => simp [ends t rfl]
  rw [List.takeWhile_append_of_pos (by simpa using going), stops, List.append_nil]

theorem terminals_append_ending {tokens ending : List Token}
    (going : ∀ t ∈ tokens, t.kind ≠ .endOfInput)
    (ends : ∀ t ∈ ending.head?, t.kind = .endOfInput) :
    terminals (tokens ++ ending) = tokens.map Token.terminal :=
  congrArg (List.map Token.terminal) (takeWhile_append_ending going ends)

end MiniLang
