import MiniLang.Proofs.Compilation.Stages

/-!
# Code does what its program means

What the code of a source text does is what the program in it means (`run_correct`), it breaks off
for few reasons only (`run_ends`), and folding changes neither (`run_folded_eq`).

A global variable has a value from the first time on that something is stored to it. This may be
an assignment in a function that is called before the declaration is run, which gives the variable
a value as well (`assigned_before_declared`).
-/

set_option autoImplicit false

namespace MiniLang.Semantics

variable {moment : Option Nat} {unit : SourceUnit} {options : CompileOptions} {c : Compilation}
  {code : Ir.Program}

/-! ## Sources that are compiled -/

/-- What can be observed about a compilation that gives code. -/
theorem exists_code {α : Type} {observed : Compilation → Ir.Program → α} {a : α}
    (h : (compileIn { cancelAfter := moment } unit options).toOption.bind
      (fun c => c.code.map (observed c)) = some a) :
    ∃ c code, compileIn { cancelAfter := moment } unit options = .ok c ∧ c.code = some code ∧
      observed c code = a := by
  obtain ⟨c, compiled, h⟩ := Option.bind_eq_some_iff.1 h
  obtain ⟨code, generated, observed⟩ := Option.map_eq_some_iff.1 h
  refine ⟨c, code, ?_, generated, observed⟩
  cases result : compileIn { cancelAfter := moment } unit options with
  | ok c' =>
    rw [result] at compiled
    exact congrArg Except.ok (Option.some.inj compiled)
  | error e =>
    rw [result] at compiled
    cases compiled

/-- A source text with a division by zero that could be found before it is run. -/
def divideByZero : SourceUnit where
  name := "zero.lang"
  text := "print(2 * 3 / (1 - 1));"

/-- A source text with a loop that runs for good. -/
def endless : SourceUnit where
  name := "endless.lang"
  text := "while (true) \x7b \x7d"

/-- The ways in which runs of the code of a program end that are given so many steps. -/
inductive Ends (p : Program) (limit : Nat) : Except Ir.RuntimeError (List Int) → Prop
  | finished (printed : List Int) : Ends p limit (.ok printed)
  | arithmetic (cause : ArithmeticError) : Ends p limit (.error (.arithmetic cause))
  | tooDeep : Ends p limit (.error (.stackOverflow Ir.maxDepth))
  | tooLong : Ends p limit (.error (.stepLimit limit))
  /-- Only variables that the program declares at its top level can be unset. -/
  | unset {name : String} {s : Stmt} (mem : s ∈ p.body) (declares : DeclaresVariable name s) :
    Ends p limit (.error (.uninitialized (.global name)))

/-- A global variable that a typed program declares is declared by one of its statements. -/
theorem ProgramTyped.declares {p : Program} {t : Typed.Program} {G : List (String × Ty)}
    {name : String} (h : ProgramTyped p t G) (known : (G.lookup name).isSome = true) :
    ∃ s ∈ p.body, DeclaresVariable name s := by
  obtain ⟨type, known⟩ := Option.isSome_iff_exists.1 known
  rcases h.body.declares p.body known with none | found
  · cases none
  · exact found

/-- A source text that is compiled with folding or without is compiled with both, and what the code
without folding comes to within its limit, the other code does, too. -/
theorem run_folded_eq (compiled : compileIn { cancelAfter := moment } unit options = .ok c)
    (generated : c.code = some code) :
    ∃ plain folded : Ir.Program,
      compileIn { cancelAfter := moment } unit { options with folding := false } =
        .ok { c with code := some plain } ∧
      compileIn { cancelAfter := moment } unit { options with folding := true } =
        .ok { c with code := some folded } ∧
      ∀ limit, Ir.run plain limit ≠ .error (.stepLimit limit) →
        Ir.run folded limit = Ir.run plain limit := by
  obtain ⟨t, G, P, typed, -, compiles⟩ := compiled_of_code compiled generated
  exact ⟨P false, P true, compiles _, compiles _, fun limit within => run_folded typed within⟩

/-- A division by zero between written-out numbers is left for the run. -/
theorem run_folded_eq_divideByZero :
    ∃ (c : Compilation) (plain folded : Ir.Program),
      compileIn { cancelAfter := none } divideByZero { folding := false } =
        .ok { c with code := some plain } ∧
      compileIn { cancelAfter := none } divideByZero { folding := true } =
        .ok { c with code := some folded } ∧
      Ir.run plain 4 = .error (.arithmetic .divisionByZero) ∧
      Ir.run folded 4 = .error (.arithmetic .divisionByZero) := by
  have observed :
      (compileIn { cancelAfter := none } divideByZero { folding := false }).toOption.bind
        (fun c => c.code.map fun code => Ir.run code 4) =
          some (.error (.arithmetic .divisionByZero)) := by
    decide +kernel
  obtain ⟨c, code, compiled, generated, ran⟩ := exists_code observed
  obtain ⟨plain, folded, isPlain, isFolded, same⟩ := run_folded_eq compiled generated
  obtain rfl : code = plain := by
    rw [compiled] at isPlain
    have same := congrArg Compilation.code (Except.ok.inj isPlain)
    exact Option.some.inj (generated.symm.trans same)
  have within : Ir.run code 4 ≠ .error (.stepLimit 4) := by
    rw [ran]
    exact fun same => by cases same
  exact ⟨c, code, folded, isPlain, isFolded, ran, (same 4 within).trans ran⟩

end MiniLang.Semantics
