import MiniLang.Proofs.Syntax.Dialects
import MiniLang.Proofs.Syntax.Parser.Likeness.ReadAhead
import MiniLang.Proofs.Syntax.Parser.Statements
import MiniLang.Proofs.Syntax.Recognition

/-!
# When a parse is valid

A source text is parsed validly exactly when nothing is recorded, and then exactly when no error
placeholder stands in the tree (`parseSource_valid_iff`). An error leaves a placeholder behind in
whatever way it was found: without placeholders the tree is derived from all tokens of the text, so
that none of them is unknown, and about such a text nothing is recorded.

If all tokens are read before the parser begins, the tree and what is recorded are the same. But
validity is about what is recorded while the parser works, which now leaves out the problems of
tokens (`parseAfterReading_agrees`).
-/

set_option autoImplicit false

namespace MiniLang

/-! ## Well-formed statements have no placeholders -/

namespace Stmt

mutual

theorem WellFormed.noErrors : ∀ {s : Stmt}, s.WellFormed → s.preorder.any isError = false
  | letVar .., _ | expression .., _ | ret .., _ => rfl
  | ifThen _ _ _, h => by
    have thens := BlockWellFormed.noErrors h.2
    simp [preorder, isError, thens]
  | ifThenElse _ _ _ _, h => by
    have thens := BlockWellFormed.noErrors h.2.1
    have elses := WellFormed.noErrors h.2.2.1
    simp [preorder, isError, thens, elses]
  | whileLoop _ _ _, h => by
    have inner := BlockWellFormed.noErrors h.2
    simp [preorder, isError, inner]
  | block b, h => by
    have inner := BlockWellFormed.noErrors (b := b) h
    simp [preorder, isError, inner]
  | function .., h | error _, h => h.elim

theorem BlockWellFormed.noErrors :
    ∀ {b : Block}, BlockWellFormed b → (inBlock b).any isError = false
  | .mk _ _ _, h => AllWellFormed.noErrors h.2

theorem AllWellFormed.noErrors :
    ∀ {ss : List Stmt}, AllWellFormed ss → (preorderAll ss).any isError = false
  | [], _ => rfl
  | s :: ss, h => by
    rw [preorderAll, List.any_append, WellFormed.noErrors h.1, AllWellFormed.noErrors h.2]
    rfl

end

theorem TopWellFormed.noErrors {s : Stmt} (h : s.TopWellFormed) :
    s.preorder.any isError = false := by
  cases h with
  | inner h => exact h.noErrors
  | function _ _ _ hb => simp [preorder, isError, hb.noErrors]

end Stmt

/-! ## Texts whose tokens are all known -/

/-- Every token but that at the end of the input is among the terminals. -/
theorem terminal_mem_terminals {t : Token} (more : t.kind ≠ .endOfInput) :
    ∀ {tokens : List Token}, tokens.IsChain (fun t _ => t.kind ≠ .endOfInput) → t ∈ tokens →
      t.terminal ∈ terminals tokens
  | first :: rest, ends, mem => by
    have goesOn : first.kind ≠ .endOfInput := by
      cases rest with
      | nil =>
        rw [← List.mem_singleton.1 mem]
        exact more
      | cons second rest => exact ends.rel
    rw [terminals_cons goesOn]
    rcases List.mem_cons.1 mem with rfl | mem
    · exact List.mem_cons_self
    · exact List.mem_cons_of_mem _ (terminal_mem_terminals more ends.tail mem)

/-- If all terminals of a text are known, its tokens bring no problems along. -/
theorem deliveriesOf_map_token {source : List Char}
    (known : Known (terminals ((deliveries source).map Delivery.token))) :
    deliveriesOf ((deliveries source).map Delivery.token) = deliveries source := by
  have silent : ∀ d ∈ deliveries source, ({ token := d.token } : Delivery) = d := by
    intro d mem
    have lexed := lexed_deliveries source d mem
    have known : d.token.kind ≠ .unknown := by
      by_cases more : d.token.kind = .endOfInput
      · rw [more]
        decide
      · have ends : ((deliveries source).map Delivery.token).IsChain
            fun t _ => t.kind ≠ .endOfInput := (List.isChain_map _).2 (isChain_deliveries source)
        have here := known _ (terminal_mem_terminals more ends (List.mem_map_of_mem mem))
        rwa [Token.kind_terminal] at here
    have noProblem := lexed.problem_eq_none known
    have uncancelled := lexed.uncancelled
    cases d with
    | mk token problem cancels => simp_all
  unfold deliveriesOf
  rw [List.map_map]
  exact (List.map_congr_left silent).trans (List.map_id _)

variable {s : Session}

/-- Nothing is recorded about a text whose tree has no error placeholders. -/
theorem session_eq_of_noErrorNodes (source : List Char) (uncancelled : s.Uncancelled)
    (clean : (parseSource source s).program.hasErrorNodes = false) :
    (parseSource source s).session = s := by
  have derives : DerivesProgram .lenient (terminals ((deliveries source).map Delivery.token))
      (parseSource source s).program.body :=
    (parseSource_derives source uncancelled).strict clean
  have silent := deliveriesOf_map_token (derives.known Dialect.known_lenient)
  have same := (parse_clean lenient_namesTargets (fun _ => id) uncancelled.unasked
    uncancelled.unseen derives).1
  rw [silent] at same
  exact same

/-- The tree of a text about which no error is recorded has no error placeholders. -/
theorem noErrorNodes_of_noErrors (source : List Char)
    (clean : (parseSource source s).session.hasErrors = false) :
    (parseSource source s).program.hasErrorNodes = false := by
  have wellFormed := (parse_read (deliveries_fit source) s).2.2.2 clean
  unfold Program.hasErrorNodes Program.statements
  rw [Stmt.preorderAll_eq_flatMap, List.any_flatMap, List.any_eq_false]
  intro st mem
  rw [(wellFormed st mem).noErrors]
  exact Bool.false_ne_true

/-! ## Errors are all that is recorded -/

theorem lexical_deliveries {source : List Char} {d : Diagnostic}
    (mem : d ∈ (deliveries source).flatMap Delivery.diagnostics) :
    d.problem.category = .lexical ∧ d.isError = true := by
  obtain ⟨x, there, mem⟩ := List.mem_flatMap.1 mem
  exact (lexed_deliveries source x there).diagnostics_lexical mem

theorem uncancelled_fresh : Session.fresh.Uncancelled := ⟨rfl, rfl⟩

/-- While a text is parsed only errors are recorded. -/
theorem isError_of_parseSource (source : List Char) :
    ∀ d ∈ (parseSource source .fresh).session.diagnostics, d.isError = true := by
  obtain ⟨-, perm, ds, recorded, syntactic⟩ := parseAfterReading_eq source uncancelled_fresh
  intro d mem
  have mem := perm.subset mem
  rw [recorded] at mem
  rcases List.mem_append.1 mem with mem | mem
  · exact (lexical_deliveries mem).2
  · exact (syntactic d mem).2

theorem errorCount_eq_length {ds : List Diagnostic} (h : ∀ d ∈ ds, d.isError = true) :
    Diagnostics.errorCount ds = ds.length := List.countP_eq_length.2 h

/-- Validity is about the errors that are recorded while the parser works. -/
theorem valid_iff_errorCount_eq (tokens : List Delivery) (s : Session) :
    (parse tokens s).valid = true ↔ (parse tokens s).session.errorCount = s.errorCount :=
  beq_iff_eq

/-- Without a diagnostic the parse is valid, and with one it is not. -/
theorem valid_iff_diagnostics_eq_nil (source : List Char) :
    (parseSource source .fresh).valid = true ↔
      (parseSource source .fresh).session.diagnostics = [] := by
  have count : (parseSource source .fresh).session.errorCount =
      (parseSource source .fresh).session.diagnostics.length :=
    errorCount_eq_length (isError_of_parseSource source)
  rw [← List.length_eq_zero_iff, ← count]
  exact valid_iff_errorCount_eq ..

theorem diagnostics_eq_nil_iff_noErrorNodes (source : List Char) :
    (parseSource source .fresh).session.diagnostics = [] ↔
      (parseSource source .fresh).program.hasErrorNodes = false := by
  refine ⟨fun none => noErrorNodes_of_noErrors source ?_, fun clean => ?_⟩
  · rw [Session.hasErrors, none]
    rfl
  · rw [session_eq_of_noErrorNodes source uncancelled_fresh clean]
    rfl

/-- A parse is valid exactly when nothing is recorded, and exactly when no error placeholder stands
in the tree. -/
theorem parseSource_valid_iff (source : List Char) :
    ((parseSource source .fresh).valid = true ↔
      (parseSource source .fresh).session.diagnostics = []) ∧
    ((parseSource source .fresh).session.diagnostics = [] ↔
      (parseSource source .fresh).program.hasErrorNodes = false) :=
  ⟨valid_iff_diagnostics_eq_nil source, diagnostics_eq_nil_iff_noErrorNodes source⟩

/-! ## Reading first -/

/-- After the tokens were read, only errors of syntax make a parse invalid. -/
theorem parseAfterReading_valid_iff (source : List Char) :
    (parseAfterReading source .fresh).valid = true ↔
      ∀ d ∈ (parseAfterReading source .fresh).session.diagnostics,
        d.problem.category = .lexical := by
  obtain ⟨-, -, ds, recorded, syntactic⟩ := parseAfterReading_eq source uncancelled_fresh
  have count : (parseAfterReading source .fresh).session.errorCount =
      (Session.fresh.recordAll ((deliveries source).flatMap Delivery.diagnostics)).errorCount +
        ds.length := by
    rw [Session.errorCount, recorded, ← errorCount_eq_length fun d mem => (syntactic d mem).2]
    exact List.countP_append
  have valid : (parseAfterReading source .fresh).valid = true ↔ ds = [] := by
    rw [← List.length_eq_zero_iff]
    refine (valid_iff_errorCount_eq _ _).trans ⟨fun same => ?_, fun none => ?_⟩
    · exact Nat.add_left_cancel (count.symm.trans same)
    · exact count.trans (congrArg _ none)
  rw [valid, recorded]
  refine ⟨fun none d mem => ?_, fun lexical => ?_⟩
  · rw [none, List.append_nil] at mem
    exact (lexical_deliveries mem).1
  · refine List.eq_nil_iff_forall_not_mem.2 fun d mem => ?_
    have both := (syntactic d mem).1.symm.trans (lexical d (List.mem_append_right _ mem))
    cases both

/-- Whether tokens are taken as they are needed or are all read before, the tree is the same, and so
is what is recorded, up to order. The first way, a parse is valid if nothing is recorded; the second
way, if only problems of tokens are. So the two disagree exactly when something is recorded but no
error of syntax, and this is when the second way gives a valid tree with error placeholders. -/
theorem parseAfterReading_agrees (source : List Char) :
    (parseAfterReading source .fresh).program = (parseSource source .fresh).program ∧
    (parseAfterReading source .fresh).session.diagnostics.Perm
      (parseSource source .fresh).session.diagnostics ∧
    ((parseSource source .fresh).valid = true ↔
      (parseSource source .fresh).session.diagnostics = []) ∧
    ((parseSource source .fresh).valid = true →
      (parseSource source .fresh).program.hasErrorNodes = false) ∧
    ((parseAfterReading source .fresh).valid = true ↔
      ∀ d ∈ (parseAfterReading source .fresh).session.diagnostics,
        d.problem.category = .lexical) ∧
    ((parseAfterReading source .fresh).valid = true ∧
        (parseAfterReading source .fresh).program.hasErrorNodes = true ↔
      (parseAfterReading source .fresh).valid ≠ (parseSource source .fresh).valid) := by
  obtain ⟨tree, perm, -⟩ := parseAfterReading_eq source uncancelled_fresh
  have lazily := valid_iff_diagnostics_eq_nil source
  have clean := diagnostics_eq_nil_iff_noErrorNodes source
  have beforehand := parseAfterReading_valid_iff source
  refine ⟨tree, perm.symm, lazily, fun valid => clean.1 (lazily.1 valid), beforehand, ?_⟩
  -- Reading first only leaves problems out.
  have weaker : (parseSource source .fresh).valid = true →
      (parseAfterReading source .fresh).valid = true := by
    intro valid
    have none := (lazily.1 valid ▸ perm).symm.eq_nil
    rw [beforehand, none]
    exact fun d mem => by cases mem
  have errorNodes : (parseAfterReading source .fresh).program.hasErrorNodes = true ↔
      (parseSource source .fresh).valid = false := by
    rw [tree, ← Bool.not_eq_false, ← clean, ← lazily, Bool.not_eq_true]
  rw [errorNodes]
  cases here : (parseSource source .fresh).valid with
  | true => simp [weaker here]
  | false => simp

/-- About `@` there is one complaint, and it is about the character: the text is valid after it was
read, with an error placeholder as its tree, and invalid if it is read while it is parsed. -/
theorem parseAfterReading_illegalCharacter :
    (parseAfterReading ['@'] .fresh).valid = true ∧ (parseSource ['@'] .fresh).valid = false ∧
      (parseAfterReading ['@'] .fresh).program.hasErrorNodes = true := by
  decide +kernel

end MiniLang
