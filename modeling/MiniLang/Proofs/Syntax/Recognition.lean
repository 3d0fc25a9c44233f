import MiniLang.Proofs.Syntax.Parser.Completeness.Statements
import MiniLang.Proofs.Syntax.Parser.Soundness.Statements

/-!
# The language that the parser accepts

The parser and the grammar agree, with one exception. A program that the grammar derives from the
tokens is what the parser gives, up to numbers and places, and nothing is recorded
(`parse_of_derives`). Conversely what a valid parse gives is derived from the tokens, but by a
grammar that lets parentheses stand around the name on the left of an assignment; they leave no
trace in the tree in which the parser looks for a plain name. `parse_valid_iff` says that nothing
else is accepted: the grammar derives exactly the valid programs in which no closing parenthesis
stands right before the sign of an assignment.
-/

set_option autoImplicit false

namespace MiniLang

variable {d : Dialect}

theorem standard_namesTargets : Dialect.standard.NamesTargets := by
  rintro ts x rfl
  exact .name x

theorem lenient_namesTargets : Dialect.lenient.NamesTargets := fun _ _ => id

/-! ## Programs without placeholders -/

mutual

theorem DerivesStmt.noErrors (none : ∀ ts, ¬d.placeholder ts) {ts : List Terminal} {s : Stmt}
    (h : DerivesStmt d ts s) : s.preorder.countP Stmt.isError = 0 := by
  match h with
  | .letVar _ | .leave | .giveBack _ | .expression _ => rfl
  | .choice h => exact h.noErrors none
  | .whileLoop _ body =>
    rw [Stmt.preorder, List.countP_cons_of_neg Bool.false_ne_true]
    exact body.noErrors none
  | .block h =>
    rw [Stmt.preorder, List.countP_cons_of_neg Bool.false_ne_true]
    exact h.noErrors none
  | .error placeholder => exact absurd placeholder (none _)

theorem DerivesChoice.noErrors (none : ∀ ts, ¬d.placeholder ts) {ts : List Terminal} {s : Stmt}
    (h : DerivesChoice d ts s) : s.preorder.countP Stmt.isError = 0 := by
  match h with
  | .ifThen _ yes =>
    rw [Stmt.preorder, List.countP_cons_of_neg Bool.false_ne_true]
    exact yes.noErrors none
  | .ifThenElse _ yes no =>
    rw [Stmt.preorder, List.countP_cons_of_neg Bool.false_ne_true, List.countP_append,
      yes.noErrors none, Stmt.preorder, List.countP_cons_of_neg Bool.false_ne_true,
      no.noErrors none]
  | .elseIf _ yes no =>
    rw [Stmt.preorder, List.countP_cons_of_neg Bool.false_ne_true, List.countP_append,
      yes.noErrors none, no.noErrors none]

theorem DerivesBlock.noErrors (none : ∀ ts, ¬d.placeholder ts) {ts : List Terminal} {b : Block}
    (h : DerivesBlock d ts b) : (Stmt.inBlock b).countP Stmt.isError = 0 := by
  match h with
  | .mk body => exact body.noErrors none

theorem DerivesBody.noErrors (none : ∀ ts, ¬d.placeholder ts) {ts : List Terminal} {ss : List Stmt}
    (h : DerivesBody d ts ss) : (Stmt.preorderAll ss).countP Stmt.isError = 0 := by
  match h with
  | .nil => rfl
  | .cons first rest =>
    rw [Stmt.preorderAll, List.countP_append, first.noErrors none, rest.noErrors none]

end

theorem DerivesProgram.noErrors (none : ∀ ts, ¬d.placeholder ts) {ts : List Terminal}
    {ss : List Stmt} (h : DerivesProgram d ts ss) :
    (Stmt.preorderAll ss).countP Stmt.isError = 0 := by
  induction h with
  | nil => rfl
  | @cons ts us s ss first _ ih =>
    have clean : s.preorder.countP Stmt.isError = 0 := by
      cases first with
      | inner h => exact h.noErrors none
      | function h =>
        rw [Stmt.preorder, List.countP_cons_of_neg Bool.false_ne_true]
        exact h.noErrors none
    rw [Stmt.preorderAll, List.countP_append, clean, ih]

/-! ## What stands before the sign of an assignment -/

/-- No closing parenthesis stands right before the sign of an assignment. -/
def PlainTargets (ts : List Terminal) : Prop :=
  ts.IsChain fun t u => t = .fixed .closeParen → u ≠ .fixed .assignment

instance (ts : List Terminal) : Decidable (PlainTargets ts) := by
  unfold PlainTargets
  infer_instance

/-- Terminals with plain targets that can stand behind any others: the first of them is no sign of
an assignment. -/
structure PlainBehind (ts : List Terminal) : Prop where
  targets : PlainTargets ts
  noSign : ∀ us, ts ≠ .fixed .assignment :: us

namespace PlainBehind

variable {t : Terminal} {ts us : List Terminal}

theorem nil : PlainBehind [] := ⟨List.IsChain.nil, fun _ same => by cases same⟩

theorem cons (h : PlainBehind ts) (ne : t ≠ .fixed .assignment) : PlainBehind (t :: ts) := by
  refine ⟨List.isChain_cons.2 ⟨fun u mem _ => ?_, h.targets⟩, fun us same => ?_⟩
  · rintro rfl
    cases ts with
    | nil => cases mem
    | cons v vs =>
      cases mem
      exact h.noSign vs rfl
  · exact ne (List.cons.inj same).1

theorem append (h : PlainBehind ts) (h' : PlainBehind us) : PlainBehind (ts ++ us) := by
  refine ⟨List.isChain_append.2 ⟨h.targets, h'.targets, fun t _ u mem _ => ?_⟩, fun vs same => ?_⟩
  · rintro rfl
    cases us with
    | nil => cases mem
    | cons v vs =>
      cases mem
      exact h'.noSign vs rfl
  · cases ts with
    | nil => exact h'.noSign vs same
    | cons v ts =>
      obtain ⟨rfl, -⟩ := List.cons.inj same
      exact h.noSign ts rfl

/-- The sign of an assignment may stand behind anything but a closing parenthesis. -/
theorem sign (h : PlainBehind ts) (ne : t ≠ .fixed .assignment) (ne' : t ≠ .fixed .closeParen) :
    PlainBehind (t :: .fixed .assignment :: ts) := by
  have chain : PlainTargets (.fixed .assignment :: ts) :=
    List.isChain_cons.2 ⟨(fun u _ is => by cases is), h.targets⟩
  refine ⟨List.isChain_cons.2 ⟨fun u _ is => absurd is ne', chain⟩, fun us same => ?_⟩
  exact ne (List.cons.inj same).1

theorem inParens (h : PlainBehind ts) : PlainBehind (Terminal.inParens ts) :=
  (h.append (nil.cons (by decide))).cons (by decide)

theorem type (h : PlainBehind ts) (name : TypeName) : PlainBehind (.fixed name.kind :: ts) :=
  h.cons fun same => by cases name <;> cases same

theorem typeBehind (sign : TokenKind) (declared : Option WrittenType) (ne : sign ≠ .assignment) :
    PlainBehind (typeBehind sign declared) := by
  cases declared with
  | none => exact nil
  | some written => exact (nil.type written.name).cons fun same => ne (Terminal.fixed.inj same)

end PlainBehind

theorem operators_ne_assignment {l : Stratum} {kind : TokenKind} {op : BinaryOp}
    (mem : (kind, op) ∈ l.operators) : kind ≠ .assignment := by
  obtain ⟨own, binds, -⟩ := Stratum.mem_operators mem
  rintro rfl
  cases binds

mutual

theorem Derives.plain {l : Stratum} {ts : List Terminal} {e : Expr}
    (h : Derives .standard l ts e) : PlainBehind ts := by
  match h with
  | .assignment target value =>
    have plain := value.plain
    rw [show _ = [_] from target]
    exact plain.sign (fun same => by cases same) fun same => by cases same
  | .tighter h => exact h.plain
  | .binary mem left right =>
    exact left.plain.append (right.plain.cons fun same =>
      operators_ne_assignment mem (Terminal.fixed.inj same))
  | .unary mem operand =>
    refine operand.plain.cons fun same => ?_
    obtain rfl := Terminal.fixed.inj same
    revert mem
    simp [UnaryOp.tokens]
  | .integer _ | .name => exact PlainBehind.nil.cons fun same => by cases same
  | .yes | .no => exact PlainBehind.nil.cons (by decide)
  | .call h => exact h.plain.inParens.cons fun same => by cases same
  | .group h => exact h.plain.inParens

theorem DerivesArguments.plain {ts : List Terminal} {es : List Expr}
    (h : DerivesArguments .standard ts es) : PlainBehind ts := by
  match h with
  | .none => exact .nil
  | .some h => exact h.plain

theorem DerivesSeparated.plain {ts : List Terminal} {es : List Expr}
    (h : DerivesSeparated .standard ts es) : PlainBehind ts := by
  match h with
  | .last h => exact h.plain
  | .cons first rest => exact first.plain.append (rest.plain.cons (by decide))

end

theorem plain_stop {ts : List Terminal} (h : PlainBehind ts) :
    PlainBehind (ts ++ [.fixed .semicolon]) := h.append (PlainBehind.nil.cons (by decide))

mutual

theorem DerivesStmt.plain {ts : List Terminal} {s : Stmt} (h : DerivesStmt .standard ts s) :
    PlainBehind ts := by
  match h with
  | @DerivesStmt.letVar _ ts value id span xSpan x declared derives =>
    have value := plain_stop derives.plain
    cases declared with
    | none =>
      exact (value.sign (fun same => by cases same) fun same => by cases same).cons (by decide)
    | some type =>
      have notSign : ∀ name : TypeName, Terminal.fixed name.kind ≠ .fixed .assignment ∧
          Terminal.fixed name.kind ≠ .fixed .closeParen := by
        intro name
        cases name <;> decide
      refine PlainBehind.cons (PlainBehind.cons ?_ fun same => by cases same) (by decide)
      exact (value.sign (notSign type.name).1 (notSign type.name).2).cons (by decide)
  | .choice h => exact h.plain
  | .whileLoop test body => exact (test.plain.inParens.append body.plain).cons (by decide)
  | .block h => exact h.plain
  | .leave => exact (PlainBehind.nil.cons (by decide)).cons (by decide)
  | .giveBack h => exact (plain_stop h.plain).cons (by decide)
  | .expression h => exact plain_stop h.plain
  | .error placeholder => exact placeholder.elim

theorem DerivesChoice.plain {ts : List Terminal} {s : Stmt} (h : DerivesChoice .standard ts s) :
    PlainBehind ts := by
  match h with
  | .ifThen test yes => exact (test.plain.inParens.append yes.plain).cons (by decide)
  | .ifThenElse test yes no =>
    have both : PlainBehind (_ ++ .fixed .kwElse :: _) :=
      yes.plain.append (no.plain.cons (by decide))
    exact (test.plain.inParens.append both).cons (by decide)
  | .elseIf test yes no =>
    have both : PlainBehind (_ ++ .fixed .kwElse :: _) :=
      yes.plain.append (no.plain.cons (by decide))
    exact (test.plain.inParens.append both).cons (by decide)

theorem DerivesBlock.plain {ts : List Terminal} {b : Block} (h : DerivesBlock .standard ts b) :
    PlainBehind ts := by
  match h with
  | .mk body => exact (body.plain.append (PlainBehind.nil.cons (by decide))).cons (by decide)

theorem DerivesBody.plain {ts : List Terminal} {ss : List Stmt} (h : DerivesBody .standard ts ss) :
    PlainBehind ts := by
  match h with
  | .nil => exact .nil
  | .cons first rest => exact first.plain.append rest.plain

end

theorem Param.plain (x : Param) {ts : List Terminal} (h : PlainBehind ts) :
    PlainBehind (x.terminals ++ ts) :=
  ((h.type x.type.name).cons (by decide)).cons fun same => by cases same

theorem plain_paramTerminals : ∀ ps : List Param, PlainBehind (paramTerminals ps)
  | [] => .nil
  | [x] => x.plain .nil
  | x :: x' :: ps => x.plain ((plain_paramTerminals (x' :: ps)).cons (by decide))

/-- In a program that is derived no closing parenthesis stands right before the sign of an
assignment. -/
theorem DerivesProgram.plain {ts : List Terminal} {ss : List Stmt}
    (h : DerivesProgram .standard ts ss) : PlainBehind ts := by
  induction h with
  | nil => exact .nil
  | cons first _ ih =>
    refine PlainBehind.append ?_ ih
    cases first with
    | inner h => exact h.plain
    | @function ts header body span h =>
      have params := (plain_paramTerminals header.params).inParens
      have result := PlainBehind.typeBehind .arrow header.returnType (by decide)
      have start := ((params.append result).cons (t := .identifier header.name)
        fun same => by cases same).cons (t := .fixed .kwFn) (by decide)
      exact start.append h.plain

/-! ## The parser and the grammar -/

theorem quiet_deliveriesOf (tokens : List Token) : Quiet (deliveriesOf tokens) := by
  intro x mem
  obtain ⟨token, -, rfl⟩ := List.mem_map.1 mem
  exact ⟨rfl, rfl⟩

theorem map_token_deliveriesOf (tokens : List Token) :
    (deliveriesOf tokens).map Delivery.token = tokens := by
  rw [deliveriesOf, List.map_map]
  exact List.map_id tokens

variable {tokens : List Token} {s : Session}

/-- Nothing is recorded about a program without placeholders that is derived from the tokens. -/
theorem parse_clean (names : d.NamesTargets) (noMarks : ∀ ts, ¬d.placeholder ts)
    (unasked : s.cancelAfter = none) (uncancelled : s.cancelled = false) {ss : List Stmt}
    (h : DerivesProgram d (terminals tokens) ss) :
    (parse (deliveriesOf tokens) s).session = s ∧ (parse (deliveriesOf tokens) s).valid = true ∧
      Stmt.bareAll (parse (deliveriesOf tokens) s).program.body = Stmt.bareAll ss := by
  have derives : DerivesProgram d (terminals ((deliveriesOf tokens).map Delivery.token)) ss := by
    rw [map_token_deliveriesOf]
    exact h
  obtain ⟨bare, ds, recorded, length, -⟩ := derives.parses names
    (fun ts mark => absurd mark (noMarks ts)) (quiet_deliveriesOf tokens) unasked uncancelled
  rw [h.noErrors noMarks] at length
  obtain rfl := List.length_eq_zero_iff.1 length
  have same : (parse (deliveriesOf tokens) s).session = s :=
    recorded.trans (Session.recordAll_nil s)
  refine ⟨same, ?_, bare⟩
  change ((parse (deliveriesOf tokens) s).session.errorCount == s.errorCount) = true
  rw [same]
  exact beq_self_eq_true _

/-- What the grammar derives from the tokens is what the parser gives, up to numbers and places, and
nothing is recorded. -/
theorem parse_of_derives {p : Program} (unasked : s.cancelAfter = none)
    (uncancelled : s.cancelled = false) (h : DerivesProgram .standard (terminals tokens) p.body) :
    (parse (deliveriesOf tokens) s).session = s ∧ (parse (deliveriesOf tokens) s).valid = true ∧
      (parse (deliveriesOf tokens) s).program.bare = p.bare := by
  obtain ⟨same, valid, bare⟩ :=
    parse_clean standard_namesTargets (fun _ => id) unasked uncancelled h
  exact ⟨same, valid, congrArg (Program.mk .origin) bare⟩

/-- The tokens of `x = -1 + 2 * f(y);`. -/
def mixedOperators : List Token :=
  [⟨.identifier, "x", .origin⟩, ⟨.assignment, "=", .origin⟩, ⟨.dash, "-", .origin⟩,
    ⟨.integer, "1", .origin⟩, ⟨.plus, "+", .origin⟩, ⟨.integer, "2", .origin⟩,
    ⟨.star, "*", .origin⟩, ⟨.identifier, "f", .origin⟩, ⟨.openParen, "(", .origin⟩,
    ⟨.identifier, "y", .origin⟩, ⟨.closeParen, ")", .origin⟩, ⟨.semicolon, ";", .origin⟩,
    .endAt .origin]

/-- The program that these tokens form. -/
def mixedProgram : Program where
  span := .origin
  body := [.expression .origin (.assignment 0 .origin "x" .origin
    (.binary 0 .origin .add (.unary 0 .origin .neg (.literal 0 .origin (.int 1)))
      (.binary 0 .origin .mul (.literal 0 .origin (.int 2))
        (.call 0 .origin "f" .origin [.var 0 .origin "y"]))))]

theorem derives_mixedProgram :
    DerivesProgram .standard (terminals mixedOperators) mixedProgram.body := by
  have negated : Derives .standard .unary [.fixed .dash, .integer "1"]
      (.unary 0 .origin .neg (.literal 0 .origin (.int 1))) :=
    .unary (by decide) (.tighter (.integer (by decide)))
  have two : Derives .standard .primary [.integer "2"] (.literal 0 .origin (.int 2)) :=
    .integer (by decide)
  have argument : Derives .standard .primary [.identifier "y"] (.var 0 .origin "y") := .name
  have call : Derives .standard .primary (.identifier "f" :: Terminal.inParens [.identifier "y"])
      (.call 0 .origin "f" .origin [.var 0 .origin "y"]) :=
    .call (.some (.last (argument.loosen (by decide))))
  have product : Derives .standard .multiplicative
      ([.integer "2"] ++ .fixed .star :: .identifier "f" :: Terminal.inParens [.identifier "y"])
      (.binary 0 .origin .mul (.literal 0 .origin (.int 2))
        (.call 0 .origin "f" .origin [.var 0 .origin "y"])) :=
    .binary (by decide) (two.loosen (by decide)) (call.loosen (by decide))
  have sum : Derives .standard .additive ([.fixed .dash, .integer "1"] ++ .fixed .plus ::
      ([.integer "2"] ++ .fixed .star :: .identifier "f" :: Terminal.inParens [.identifier "y"]))
      (.binary 0 .origin .add (.unary 0 .origin .neg (.literal 0 .origin (.int 1)))
        (.binary 0 .origin .mul (.literal 0 .origin (.int 2))
          (.call 0 .origin "f" .origin [.var 0 .origin "y"]))) :=
    .binary (by decide) (negated.loosen (by decide)) product
  exact .cons (.inner (.expression (.assignment rfl (sum.loosen (by decide))))) .nil

/-- A minus before an operand binds tightest, then the product, the sum and the assignment. -/
theorem parse_of_derives_mixedOperators :
    DerivesProgram .standard (terminals mixedOperators) mixedProgram.body ∧
      (parse (deliveriesOf mixedOperators) .fresh).session = .fresh ∧
      (parse (deliveriesOf mixedOperators) .fresh).valid = true ∧
      (parse (deliveriesOf mixedOperators) .fresh).program.bare = mixedProgram.bare :=
  ⟨derives_mixedProgram, parse_of_derives rfl rfl derives_mixedProgram⟩

/-- The parser accepts what the grammar derives that lets parentheses stand around the names on the
left of assignments; what the grammar itself derives is the part in which there are none. -/
theorem parse_valid_iff (known : ∀ t ∈ terminals tokens, t.kind ≠ .unknown)
    (unasked : s.cancelAfter = none) (uncancelled : s.cancelled = false) :
    ((parse (deliveriesOf tokens) s).valid = true ↔
      DerivesProgram .lenient (terminals tokens) (parse (deliveriesOf tokens) s).program.body) ∧
    ((parse (deliveriesOf tokens) s).valid = true ∧ PlainTargets (terminals tokens) ↔
      DerivesProgram .standard (terminals tokens)
        (parse (deliveriesOf tokens) s).program.body) := by
  have sound : ∀ d : Dialect, (∀ ts x, Enclosed ts x →
      ts ++ [.fixed .assignment] <:+: terminals tokens → d.target ts x) →
      (parse (deliveriesOf tokens) s).valid = true →
      DerivesProgram d (terminals tokens) (parse (deliveriesOf tokens) s).program.body := by
    intro d accepts valid
    have derives := @parse_derives d (deliveriesOf tokens) s
    rw [map_token_deliveriesOf] at derives
    exact derives known uncancelled accepts valid
  refine ⟨⟨sound .lenient fun _ _ enclosed _ => enclosed, fun derives => ?_⟩,
    ⟨fun ⟨valid, plain⟩ => ?_, fun derives => ⟨?_, derives.plain.targets⟩⟩⟩
  · exact (parse_clean lenient_namesTargets (fun _ => id) unasked uncancelled derives).2.1
  · refine sound .standard (fun ts x enclosed mem => ?_) valid
    cases enclosed with
    | name => rfl
    | @parens us x h =>
      have chain := List.IsChain.infix plain mem
      have last : [.fixed .closeParen, .fixed .assignment] <:+:
          Terminal.inParens us ++ [.fixed .assignment] :=
        ⟨.fixed .openParen :: us, [], by simp [Terminal.inParens]⟩
      have pair := List.IsChain.infix chain last
      simp at pair
  · exact (parse_clean standard_namesTargets (fun _ => id) unasked uncancelled derives).2.1

/-- The tokens of `(a) = 1;`. -/
def enclosedTarget : List Token :=
  [⟨.openParen, "(", .origin⟩, ⟨.identifier, "a", .origin⟩, ⟨.closeParen, ")", .origin⟩,
    ⟨.assignment, "=", .origin⟩, ⟨.integer, "1", .origin⟩, ⟨.semicolon, ";", .origin⟩,
    .endAt .origin]

/-- A name in parentheses is accepted on the left of an assignment, though no derivation has it
there. -/
theorem parse_accepts_enclosedTarget :
    (∀ t ∈ enclosedTarget, t.kind ≠ .unknown) ∧
      (parse (deliveriesOf enclosedTarget) .fresh).valid = true ∧
      ¬∃ ss, DerivesProgram .standard (terminals enclosedTarget) ss := by
  refine ⟨by decide, by decide +kernel, fun ⟨ss, derives⟩ => ?_⟩
  have plain := derives.plain.targets
  revert plain
  decide

/-- The grammar with parentheses around names has a derivation of it. -/
theorem parse_valid_iff_enclosedTarget :
    (∀ t ∈ terminals enclosedTarget, t.kind ≠ .unknown) ∧
      DerivesProgram .lenient (terminals enclosedTarget)
        (parse (deliveriesOf enclosedTarget) .fresh).program.body := by
  have known : ∀ t ∈ terminals enclosedTarget, t.kind ≠ .unknown := by decide
  exact ⟨known, (parse_valid_iff (s := .fresh) known rfl rfl).1.1 (by decide +kernel)⟩

end MiniLang
