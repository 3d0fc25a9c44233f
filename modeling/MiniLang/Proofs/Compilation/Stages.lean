import MiniLang.Compilation
import MiniLang.Proofs.Correctness.Program
import MiniLang.Proofs.Lowering.Totality
import MiniLang.Proofs.Syntax.Parser.Statements
import MiniLang.Proofs.Token.Deliveries
import MiniLang.Proofs.Typing.Programs

/-!
# What comes out of a compilation

A compilation that nobody cancels before the end either finds errors and has no code, or finds none,
and then its code is that of a typed form of the program (`compileIn_outcome`). A cancellation that
is seen counts as an error, whenever it comes, so the same holds for the compilations that somebody
cancels. In particular no compilation fails for a defect of the compiler itself
(`compileIn_total`).
-/

set_option autoImplicit false

namespace MiniLang

/-- No errors are as many as none. -/
theorem Diagnostics.errorCount_eq_zero_iff (ds : List Diagnostic) :
    errorCount ds = 0 ↔ hasErrors ds = false := by
  rw [← Bool.not_eq_true, hasErrors_iff, Nat.pos_iff_ne_zero, not_not]

/-- A parse is valid if no error was found. -/
theorem valid_iff (tokens : List Delivery) {s : Session} (clean : s.hasErrors = false) :
    (parse tokens s).valid = true ↔ (parse tokens s).session.hasErrors = false := by
  have before : s.errorCount = 0 := (Diagnostics.errorCount_eq_zero_iff _).2 clean
  change ((parse tokens s).session.errorCount == s.errorCount) = true ↔ _
  rw [beq_iff_eq, before]
  exact Diagnostics.errorCount_eq_zero_iff _

/-- No error was found before anything is looked at. -/
theorem clean_start (moment : Option Nat) :
    ({ cancelAfter := moment } : Session).hasErrors = false := rfl

namespace Semantics

/-- What the stages after a parse without errors come to. -/
theorem compileProgram_outcome {p : Program} {s : Session} (wf : ∀ st ∈ p.body, st.TopWellFormed)
    (distinct : (Stmt.idsAll p.body).Nodup) (sound : s.Sound) :
    ∃ s' : Session,
      (s'.hasErrors = true ∧ ∀ options, compileProgram options p s = .ok (none, s')) ∨
      (s'.hasErrors = false ∧ ∃ t G P, Compiled p t G P ∧
        ∀ options, compileProgram options p s = .ok (some (P options.folding), s')) := by
  unfold compileProgram
  by_cases cancelled : (resolve p s).2.cancelled = true
  · refine ⟨_, .inl ⟨(leads_resolve wf s).sound sound cancelled, fun options => ?_⟩⟩
    simp only [if_pos cancelled]
  · simp only [if_neg cancelled]
    cases errors : (typeCheck p (resolve p s).1 (resolve p s).2).2.hasErrors with
    | true => exact ⟨_, .inl ⟨errors, fun options => if_pos rfl⟩⟩
    | false =>
      obtain ⟨G, typed⟩ := typeCheck_typed wf distinct sound errors
      choose P generated using typed.generates
      refine ⟨_, .inr ⟨errors, _, G, P, ⟨typed, generated⟩, fun options => ?_⟩⟩
      rw [generated options.folding]
      rfl

/-- What a compilation comes to: the options decide about folding only. -/
theorem compileIn_outcome (moment : Option Nat) (unit : SourceUnit) :
    ∃ (p : Program) (ds : List Diagnostic),
      (Diagnostics.hasErrors ds = true ∧ ∀ options,
        compileIn { cancelAfter := moment } unit options = .ok ⟨unit.name, p, none, ds⟩) ∨
      (Diagnostics.hasErrors ds = false ∧ ∃ t G P, Compiled p t G P ∧ ∀ options,
        compileIn { cancelAfter := moment } unit options =
          .ok ⟨unit.name, p, some (P options.folding), ds⟩) := by
  obtain ⟨leads, distinct, -, wellFormed⟩ :=
    parse_read (deliveries_fit unit.text.toList) { cancelAfter := moment }
  have sound := leads.sound (Session.sound_of_not_cancelled rfl)
  have valid := valid_iff (deliveries unit.text.toList) (clean_start moment)
  unfold compileIn parseSource
  generalize parse (deliveries unit.text.toList) { cancelAfter := moment } = parsed at *
  refine ⟨parsed.program, ?_⟩
  cases errors : parsed.session.hasErrors with
  | true =>
    have invalid : parsed.valid = false := by
      rw [← Bool.not_eq_true, valid, errors]
      exact Bool.noConfusion
    refine ⟨_, .inl ⟨errors, fun options => ?_⟩⟩
    simp only [invalid, Bool.false_and, if_neg Bool.false_ne_true]
  | false =>
    have going : parsed.session.cancelled = false := by
      by_contra cancelled
      cases errors.symm.trans (sound (Bool.eq_true_of_not_eq_false cancelled))
    obtain ⟨s, outcome⟩ := compileProgram_outcome (wellFormed errors) distinct sound
    simp only [valid.2 errors, going, Bool.not_false, Bool.and_self, if_true]
    rcases outcome with ⟨found, none⟩ | ⟨clean, t, G, P, compiled, some⟩
    · refine ⟨s.diagnostics, .inl ⟨found, fun options => ?_⟩⟩
      rw [none options]
    · refine ⟨s.diagnostics, .inr ⟨clean, t, G, P, compiled, fun options => ?_⟩⟩
      rw [some options]

/-- Every compilation comes to an end with a result. -/
theorem exists_compileIn (moment : Option Nat) (unit : SourceUnit) (options : CompileOptions) :
    ∃ c, compileIn { cancelAfter := moment } unit options = .ok c := by
  obtain ⟨p, ds, ⟨-, none⟩ | ⟨-, t, G, P, -, some⟩⟩ := compileIn_outcome moment unit
  · exact ⟨_, none options⟩
  · exact ⟨_, some options⟩

/-- A compilation that gives code gives that of a typed form of its program, with and without
folding. -/
theorem compiled_of_code {moment : Option Nat} {unit : SourceUnit} {options : CompileOptions}
    {c : Compilation} {code : Ir.Program}
    (compiled : compileIn { cancelAfter := moment } unit options = .ok c)
    (generated : c.code = some code) :
    ∃ t G P, Compiled c.program t G P ∧ code = P options.folding ∧ ∀ options' : CompileOptions,
      compileIn { cancelAfter := moment } unit options' =
        .ok { c with code := some (P options'.folding) } := by
  obtain ⟨p, ds, ⟨-, none⟩ | ⟨-, t, G, P, typed, some⟩⟩ := compileIn_outcome moment unit
  · rw [none options] at compiled
    cases compiled
    cases generated
  · rw [some options] at compiled
    cases compiled
    cases generated
    exact ⟨t, G, P, typed, rfl, some⟩

/-- What is compiled is the program that the text is parsed to. -/
theorem program_of_compileIn {s : Session} {unit : SourceUnit} {options : CompileOptions}
    {c : Compilation} (compiled : compileIn s unit options = .ok c) :
    c.program = (parseSource unit.text.toList s).program := by
  unfold compileIn at compiled
  dsimp only at compiled
  split at compiled
  · split at compiled
    · cases compiled
      rfl
    · cases compiled
  · cases compiled
    rfl

end Semantics

end MiniLang
