import MiniLang.Proofs.Compilation.WellFormed
import MiniLang.Proofs.Lowering.Names
import MiniLang.Proofs.Syntax.RoundTrip

/-!
# The text of code determines the code

The code of a source text can be read back from what is written of it (`Compiled.readable`): its
names are words, since the names in the source text are, and each of its temporaries is written by
one instruction. So code with the same text is the same, from whatever source texts and with
whatever options it is generated (`code_eq_of_text_eq`).
-/

set_option autoImplicit false

namespace MiniLang

/-- A function that is declared in a program that can be printed. -/
theorem Program.Printable.function {p : Program} (h : p.Printable) {f : FunctionHeader × Block}
    (declared : f ∈ p.functions) : f.1.Printable ∧ Stmt.BlockPrintable f.2 := by
  obtain ⟨s, mem, isFunction⟩ := List.mem_filterMap.1 declared
  have printable := h s mem
  cases s with
  | function =>
    cases isFunction
    exact printable
  | _ => cases isFunction

namespace Semantics

namespace Compiled

variable {p : Program} {t : Typed.Program} {G : List (String × Ty)} {P : Bool → Ir.Program}

/-- The code of a typed program can be read back from its text. -/
theorem readable (h : Compiled p t G P) (printable : p.Printable) (folding : Bool) :
    (P folding).Readable := by
  have temps {F : Ir.Function} (mem : F ∈ (P folding).functions) :
      (F.code.filterMap Ir.Instr.dest?).length = F.temps := by
    rw [(((h.wellFormed folding).functions F mem).temps).length_eq, List.length_range]
  obtain ⟨entry, functions, isEntry, all, code⟩ := Lowering.generate_ok_iff.1 (h.generated folding)
  intro F mem
  have temps := temps mem
  rw [code] at mem
  rcases List.mem_cons.1 mem with rfl | mem
  · obtain ⟨code, fresh, lowered, rfl⟩ := Lowering.function_ok_iff.1 isEntry
    have valid : ∀ span header body, .function span header body ∈ t.body → span.Valid :=
      fun _ _ _ => h.typed.body.function_valid p.body
    have plain := h.typed.body.plain p.body printable (Lowering.lowerAll_filter valid lowered)
    have entryName : Ir.IsWord Ir.Program.entryName := by decide
    exact ⟨entryName, List.forall_mem_nil _, plain.closed, temps⟩
  · obtain ⟨tf, memTyped, lowered⟩ := forall₂_mem (List.Forall₂.flip all) mem
    obtain ⟨f, declared, typed⟩ := forall₂_mem (List.Forall₂.flip h.functionsTyped) memTyped
    obtain ⟨⟨isName, areNames⟩, body⟩ := printable.function declared
    cases typed with
    | @mk Γ Γ' id span bodySpan header typed statements scope bs functions globals hh hb returns =>
      have params := params_of_lowered hh lowered
      obtain ⟨places, code, fresh, -, body_lowered, rfl⟩ := Lowering.lowerFunction_ok_iff.1 lowered
      rw [Lowering.lowerBlock_eq] at body_lowered
      have plain := hb.plain statements (Stmt.topPrintable_of_allPrintable body) body_lowered
      refine ⟨?_, ?_, plain.closed, temps⟩
      · rw [hh.name]
        exact isName.isWord
      · obtain rfl : places = header.params.map fun p => .frame (Lowering.numbered p.name scope) :=
          params
        intro place isPlace
        obtain ⟨p, isParam, rfl⟩ := List.mem_map.1 isPlace
        exact Lowering.isWord_numbered (areNames p isParam).isWord scope

end Compiled

variable {moment moment' : Option Nat} {unit unit' : SourceUnit} {options options' : CompileOptions}
  {c c' : Compilation} {code code' : Ir.Program}

/-- The code of a source text can be read back from its text. -/
theorem readable_of_code (compiled : compileIn { cancelAfter := moment } unit options = .ok c)
    (generated : c.code = some code) : code.Readable := by
  obtain ⟨t, G, P, typed, rfl, -⟩ := compiled_of_code compiled generated
  have parsed : c.program.Printable := by
    rw [program_of_compileIn compiled]
    exact printable_of_mem_parsesOf List.mem_cons_self
  exact typed.readable parsed options.folding

/-- Code with the same text is the same: names, parameters, instructions and the numbers of
temporaries, from whatever texts it is generated, with folding or without. -/
theorem code_eq_of_text_eq (compiled : compileIn { cancelAfter := moment } unit options = .ok c)
    (compiled' : compileIn { cancelAfter := moment' } unit' options' = .ok c')
    (generated : c.code = some code) (generated' : c'.code = some code')
    (same : code.text = code'.text) : code = code' :=
  (readable_of_code compiled generated).eq_of_text_eq (readable_of_code compiled' generated') same

/-- A source text with a sum that can be folded. -/
def sumFolded : SourceUnit where
  name := "sum.lang"
  text := "let a = 1 + 2; fn f(x: int) -> int \x7b return x + a; \x7d print(f(a));"

/-- A source text with the value of the sum. -/
def sumWritten : SourceUnit where
  name := "three.lang"
  text := "let a = 3; fn f(x: int) -> int \x7b return x + a; \x7d print(f(a));"

/-- What is written of the code of both. -/
def sumText : String :=
  "fn $entry():\n  store @a, 3\n  t0 = load @a\n  t1 = call f(t0)\n  call print(t1)\n" ++
    "  return\n\nfn f(%x.1):\n  t0 = load %x.1\n  t1 = load @a\n  t2 = add t0, t1\n  return t2\n"

/-- Different source texts can have the same code: one with folding, the other without. -/
theorem code_eq_of_text_eq_sum :
    ∃ c c' code code', compileIn { cancelAfter := none } sumFolded {} = .ok c ∧
      compileIn { cancelAfter := none } sumWritten { folding := false } = .ok c' ∧
      c.code = some code ∧ c'.code = some code' ∧ code.text = sumText ∧ code'.text = sumText ∧
      code = code' := by
  have observed : (compileIn { cancelAfter := none } sumFolded {}).toOption.bind
      (fun c => c.code.map Ir.Program.text) = some sumText := by
    decide +kernel
  have observed' : (compileIn { cancelAfter := none } sumWritten { folding := false }).toOption.bind
      (fun c => c.code.map Ir.Program.text) = some sumText := by
    decide +kernel
  obtain ⟨c, code, compiled, generated, text⟩ := exists_code observed
  obtain ⟨c', code', compiled', generated', text'⟩ := exists_code observed'
  exact ⟨c, c', code, code', compiled, compiled', generated, generated', text, text',
    code_eq_of_text_eq compiled compiled' generated generated' (text.trans text'.symm)⟩

end Semantics

end MiniLang
