import MiniLang.Proofs.Compilation.Stages
import MiniLang.Proofs.Scope.Blame
import MiniLang.Proofs.Syntax.Parser.Order.Programs
import MiniLang.Proofs.Typing.Blame.Statements

/-!
# What a compilation finds is found once

A compilation that nobody cancels does not complain twice about the same thing at the same place,
whichever stages it goes through (`compile_count_blame`). The stages after a parse only see programs
that were read without a complaint, so that what they find is all there is; the resolver complains
about names and about `return`s that stand in no function, and the checker about everything else.

There is one exception. Where a statement of the top level cannot be read because of a brace that
closes nothing, the parser stops in front of the brace, and the brace is complained about again as
the next statement (`compile_strayBrace`).
-/

set_option autoImplicit false

namespace MiniLang

/-- The stages after a parse find nothing twice. -/
theorem compileProgram_found {options : CompileOptions} {tokens : List Delivery} {p : Program}
    {before s s' : Session} {code : Option Ir.Program} {lo hi : Nat}
    (isParsed : (parse tokens before).program = p) (uncancelled : s.Uncancelled)
    (inOrder : Span.InOrder lo hi (p.body.map Stmt.span)) (laidOut : Stmt.AllLaidOut p.body)
    (compiled : compileProgram options p s = .ok (code, s')) :
    ∃ ds, s' = s.recordAll ds ∧ (ds.map Diagnostic.blame).Nodup := by
  obtain ⟨names, resolved, nodup, category⟩ :=
    Scoping.resolve_found isParsed uncancelled inOrder laidOut
  obtain ⟨types, typed, nodup', category'⟩ :=
    Typing.typeCheck_found (resolve p s).1 (uncancelled.recordAll names) inOrder laidOut
  unfold compileProgram at compiled
  simp only [resolved] at compiled
  split at compiled
  · cases compiled
    exact ⟨names, rfl, nodup⟩
  · have ends : s' = (s.recordAll names).recordAll types := by
      rw [← typed]
      split at compiled
      · cases compiled
        rfl
      · split at compiled <;> cases compiled
        rfl
    refine ⟨names ++ types, ?_, ?_⟩
    · rw [ends]
      simp [Session.recordAll]
    · rw [List.map_append]
      exact List.nodup_append'.2 ⟨nodup, nodup', Diagnostic.blame_notMem category category'⟩

/-- A parse without complaints leaves the session as it was. -/
theorem session_eq_of_valid {source : List Char}
    (valid : (parseSource source .fresh).valid = true) :
    (parseSource source .fresh).session = .fresh :=
  session_eq_of_noErrorNodes source uncancelled_fresh
    ((diagnostics_eq_nil_iff_noErrorNodes source).1 ((valid_iff_diagnostics_eq_nil source).1 valid))

/-- Either only the parser complains, or only the stages after it. -/
theorem compileIn_found {unit : SourceUnit} {options : CompileOptions} {c : Compilation}
    (compiled : compileIn .fresh unit options = .ok c) :
    let parsed := parseSource unit.text.toList .fresh
    c.program = parsed.program ∧ (c.diagnostics = parsed.session.diagnostics ∨
      (c.diagnostics.map Diagnostic.blame).Nodup) := by
  unfold compileIn at compiled
  dsimp only at compiled
  cases valid : (parseSource unit.text.toList .fresh).valid with
  | false =>
    rw [valid] at compiled
    cases compiled
    exact ⟨rfl, .inl rfl⟩
  | true =>
    obtain ⟨⟨lo, hi, inOrder⟩, laidOut⟩ := laidOut_parseSource unit.text.toList uncancelled_fresh
    rw [valid, session_eq_of_valid valid] at compiled
    cases outcome : compileProgram options (parseSource unit.text.toList .fresh).program .fresh with
    | error e =>
      rw [outcome] at compiled
      cases compiled
    | ok result =>
      rw [outcome] at compiled
      cases compiled
      obtain ⟨ds, session, nodup⟩ :=
        compileProgram_found rfl uncancelled_fresh inOrder laidOut outcome
      have all : result.2.diagnostics = ds := congrArg Session.diagnostics session
      refine ⟨rfl, .inr ?_⟩
      rw [all]
      exact nodup

/-- What a compilation that nobody cancels complains about, it complains about once. Only a brace
that closes nothing may be complained about twice, and an error placeholder stands for it. -/
theorem compile_count_blame (unit : SourceUnit) (options : CompileOptions) :
    ∃ c, compile unit options false = .ok c ∧ ∀ b : Blame,
      (c.diagnostics.map Diagnostic.blame).count b ≤ 1 ∨
        (c.diagnostics.map Diagnostic.blame).count b = 2 ∧ b.1 = .strayBrace ∧
          .error b.2 ∈ c.program.body := by
  obtain ⟨c, compiled⟩ := Semantics.exists_compileIn none unit options
  obtain ⟨program, found⟩ := compileIn_found compiled
  refine ⟨c, compiled, fun b => ?_⟩
  rcases found with same | nodup
  · rw [same, program]
    exact count_blame_parseSource unit.text.toList b
  · exact .inl (List.nodup_iff_count_le_one.1 nodup b)

/-- A declaration without a value, in front of a brace that closes nothing. -/
def strayBrace : SourceUnit := ⟨"main.lang", "let x = \x7d"⟩

/-- The brace is complained about twice, at the same place. -/
theorem compile_strayBrace : ∃ c, compile strayBrace {} false = .ok c ∧
    c.diagnostics.map Diagnostic.blame =
      [(.unexpectedToken "expression" "\x7d", ⟨8, 9, 1, 9⟩),
        (.unexpectedToken "expression" "\x7d", ⟨8, 9, 1, 9⟩)] ∧
    ¬(c.diagnostics.map Diagnostic.blame).Nodup := by
  have found : (compile strayBrace {} false).toOption.map (·.diagnostics.map Diagnostic.blame) =
      some [(.unexpectedToken "expression" "\x7d", ⟨8, 9, 1, 9⟩),
        (.unexpectedToken "expression" "\x7d", ⟨8, 9, 1, 9⟩)] := by
    decide +kernel
  cases compiled : compile strayBrace {} false with
  | error e =>
    rw [compiled] at found
    cases found
  | ok c =>
    rw [compiled] at found
    have both : c.diagnostics.map Diagnostic.blame = _ := Option.some.inj found
    refine ⟨c, rfl, both, fun nodup => ?_⟩
    rw [both] at nodup
    exact (List.nodup_cons.1 nodup).1 List.mem_cons_self

end MiniLang
