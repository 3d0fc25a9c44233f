import MiniLang.Proofs.Compilation.Unreachable
import MiniLang.Proofs.Lowering.Storage

/-!
# Names of storage never collide

Every place in generated code belongs to a variable, to a parameter or to an operator that may skip
its right operand, and no two of them share one, whatever names a source text has (`storage_apart`).
Symbols differ in scope or name, which can both be read off their places; operators of one function
have slots with different numbers; and the name of a slot is the name of nothing else.
-/

set_option autoImplicit false

namespace MiniLang.Semantics

open Lowering (StoresApart)

variable {s : Session} {unit : SourceUnit} {options : CompileOptions} {c : Compilation}
  {code : Ir.Program}

/-- The code of a source text, function by function, uses the places of the variables, parameters
and operators that stand in the text, in the order in which the code has them. Operators are told
apart by their numbers as expressions, of which no two are equal. No two variables or parameters of
the text have the same place, none of them has that of an operator, and no two operators of a
function have the same one. -/
theorem storage_apart (compiled : compileIn s unit options = .ok c)
    (generated : c.code = some code) :
    ((typedIn s unit.text.toList).exprs.map (·.info.id)).Nodup ∧
      List.Forall₂
        (fun F owners => ∃ place, StoresApart (typedIn s unit.text.toList).tree owners F place)
        code.functions ((typedIn s unit.text.toList).owners options.folding) := by
  have wellNamed : (typedIn s unit.text.toList).WellNamed := wellNamed_typeCheck ..
  refine ⟨wellNamed.distinct, ?_⟩
  exact Lowering.apart_generate wellNamed (generate_of_code compiled generated)

/-- A function with names like those of operators and labels, three operators, and a variable that
is hidden by another one in a block. -/
def operatorNames : SourceUnit where
  name := "names.lang"
  text := "fn f(and: bool, or1: bool) -> bool \x7b let x1 = and && or1; " ++
    "\x7b let x1 = or1 || and && x1; return x1; \x7d \x7d " ++
    "let or1 = f(true, false) || f(false, true);"

/-- Each of its three variables, two parameters and four operators has a place of its own; the first
operators of both functions have the number zero. -/
theorem storage_apart_operatorNames :
    ∃ c code, compileIn {} operatorNames {} = .ok c ∧ c.code = some code ∧
      code.functions.map (·.places.eraseDups) =
        [[.frame "$or.0", .global "or1"],
          [.frame "and.1", .frame "or1.1", .frame "$and.0", .frame "x1.1", .frame "$or.1",
            .frame "$and.2", .frame "x1.2"]] ∧
      ((typedIn {} operatorNames.text.toList).exprs.map (·.info.id)).Nodup ∧
      List.Forall₂
        (fun F owners => ∃ place,
          StoresApart (typedIn {} operatorNames.text.toList).tree owners F place)
        code.functions ((typedIn {} operatorNames.text.toList).owners true) := by
  have observed : (compileIn { cancelAfter := none } operatorNames {}).toOption.bind
      (fun c => c.code.map fun code => code.functions.map (·.places.eraseDups)) =
        some [[.frame "$or.0", .global "or1"],
          [.frame "and.1", .frame "or1.1", .frame "$and.0", .frame "x1.1", .frame "$or.1",
            .frame "$and.2", .frame "x1.2"]] := by
    decide +kernel
  obtain ⟨c, code, compiled, generated, places⟩ := exists_code observed
  have apart := storage_apart compiled generated
  exact ⟨c, code, compiled, generated, places, apart.1, apart.2⟩

end MiniLang.Semantics
