import Mathlib
import MiniLang.Proofs.Compilation.Correctness
import MiniLang.Proofs.Lowering.Unreachable

/-!
# Unreachable code is never executed

The code of a source text comes function by function from the statements of its typed program
(`Typed.Program.BodyOf`). Whatever a run of this code executes, it is not code for statements behind
a `return` of the same list (`executed_notDead`): a run goes along the ways that control may take
(`Ir.Program.Executes.path`), and none of them leads there (`Lowering.Dead.unreachable`).
-/

set_option autoImplicit false

namespace MiniLang

/-- The typed program of a text that is worked on in a session. -/
def typedIn (s : Session) (source : List Char) : Typed.Program :=
  let parsed := parseSource source s
  let (resolution, s) := resolve parsed.program parsed.session
  (typeCheck parsed.program resolution s).1

/-- The statements from which the code of a function is generated: those of a declared function, or
those that stand in no function. -/
inductive Typed.Program.BodyOf (folding : Bool) (t : Typed.Program) :
    Ir.Function → List Typed.Stmt → Prop
  | entry {F : Ir.Function} (lowered : Lowering.lowerEntry folding t.body = .ok F) :
      BodyOf folding t F (t.body.filter (!·.isFunction))
  | declared {f : Typed.Program.Function} {F : Ir.Function} (mem : f ∈ t.functions)
      (lowered : Lowering.lowerFunction folding f = .ok F) : BodyOf folding t F f.2.2.body

namespace Typed.Program

variable {folding : Bool} {t : Typed.Program} {F : Ir.Function} {ss : List Typed.Stmt}

/-- The code of a function is that of its statements, with a `return` at the end. -/
theorem BodyOf.lowered (h : BodyOf folding t F ss) : ∃ code fresh,
    Lowering.lowerAll folding ss {} = .ok (code, fresh) ∧ F.code = Lowering.closed code := by
  cases h with
  | entry lowered =>
    obtain ⟨code, fresh, body, rfl⟩ := Lowering.function_ok_iff.1 lowered
    exact ⟨code, fresh, body, rfl⟩
  | @declared f F mem lowered =>
    obtain ⟨_, code, fresh, -, body, rfl⟩ := Lowering.lowerFunction_ok_iff.1 lowered
    rw [Lowering.lowerBlock_eq] at body
    exact ⟨code, fresh, body, rfl⟩

/-- If a function begins with a `return`, all that comes next is code for statements behind it, up to
the `return` at the end that may have been added. -/
theorem BodyOf.dead {span : Span} {dead : List Typed.Stmt} {n : Nat}
    (h : BodyOf folding t F (.ret span none :: dead)) (behind : 1 ≤ n)
    (before : n + 1 < F.code.length) : Lowering.Dead folding (.ret span none :: dead) n := by
  obtain ⟨code, fresh, lowered, closed⟩ := h.lowered
  obtain ⟨first, f₁, rest, isFirst, isRest, rfl⟩ := Lowering.lowerAll_cons.1 lowered
  have single : first.length = 1 := by
    rw [(Lowering.lowerStmt_ret_none.1 isFirst).2.1]
    rfl
  have longest : F.code.length ≤ first.length + rest.length + 1 := by
    rw [closed, Lowering.closed_eq]
    split
    · simp
    · simp [Nat.add_assoc]
  exact ⟨span, none, dead, {}, 0, first, f₁, rest, fresh, .here _ _, isFirst, isRest, by omega,
    by omega⟩

/-- Every function of generated code comes from statements of the program. -/
theorem exists_bodyOf {code : Ir.Program} (generated : generate folding t = .ok code)
    (mem : F ∈ code.functions) : ∃ ss, BodyOf folding t F ss := by
  obtain ⟨entry, functions, isEntry, all, rfl⟩ := Lowering.generate_ok_iff.1 generated
  rcases List.mem_cons.1 mem with rfl | mem
  · exact ⟨_, .entry isEntry⟩
  · obtain ⟨f, declared, lowered⟩ := Semantics.forall₂_mem (List.Forall₂.flip all) mem
    exact ⟨_, .declared declared lowered⟩

end Typed.Program

namespace Semantics

variable {s : Session} {unit : SourceUnit} {options : CompileOptions} {c : Compilation}
  {code : Ir.Program}

theorem generate_of_compileProgram {p : Program} {s' : Session}
    (compiled : compileProgram options p s = .ok (some code, s')) :
    generate options.folding (typeCheck p (resolve p s).1 (resolve p s).2).1 = .ok code := by
  unfold compileProgram at compiled
  dsimp only at compiled
  split at compiled
  · cases compiled
  split at compiled
  · cases compiled
  split at compiled
  next generated =>
    cases compiled
    exact generated
  next => cases compiled

/-- Code that comes out of a compilation is generated for the typed program of the text. -/
theorem generate_of_code (compiled : compileIn s unit options = .ok c)
    (generated : c.code = some code) :
    generate options.folding (typedIn s unit.text.toList) = .ok code := by
  unfold compileIn at compiled
  dsimp only at compiled
  split at compiled
  · split at compiled
    next found =>
      cases compiled
      obtain rfl := generated
      exact generate_of_compileProgram found
    next => cases compiled
  · cases compiled
    cases generated

/-- In every run of the code of a source text, what is executed belongs to a function that comes
from statements of the text, and code for statements behind a `return` of the same list is never
executed, in any call of any function. -/
theorem executed_notDead (compiled : compileIn s unit options = .ok c)
    (generated : c.code = some code) :
    (∀ F n, code.Executes F n →
      ∃ ss, (typedIn s unit.text.toList).BodyOf options.folding F ss) ∧
    ∀ F ss n, (typedIn s unit.text.toList).BodyOf options.folding F ss →
      Lowering.Dead options.folding ss n → ¬ code.Executes F n := by
  have fromTyped := generate_of_code compiled generated
  refine ⟨fun F n executed => Typed.Program.exists_bodyOf fromTyped executed.path.1,
    fun F ss n body dead executed => ?_⟩
  obtain ⟨inner, fresh, lowered, same⟩ := body.lowered
  obtain ⟨-, before, way⟩ := executed.path
  rw [same] at way
  exact dead.unreachable lowered way List.mem_cons_self

/-- A function with a loop behind a `return`. -/
def deadLoop : SourceUnit where
  name := "dead.lang"
  text := "fn f() \x7b return; while (true) \x7b print(2); \x7d \x7d f();"

/-- Its code. -/
def deadLoopFunction : Ir.Function where
  name := "f"
  params := []
  code := [.ret none, .label "while.cond.0", .branch (.const 1) "while.body.0" "while.end.0",
    .label "while.body.0", .call none "print" [.const 2], .jump "while.cond.0",
    .label "while.end.0", .ret none]
  temps := 0

/-- The code of all of it. -/
def deadLoopCode : Ir.Program := ⟨[⟨"$entry", [], [.call none "f" [], .ret none], 0⟩,
  deadLoopFunction]⟩

/-- The function is called, but the labels of its loop are there for nothing. -/
theorem executed_notDead_deadLoop :
    ∃ c ss, compileIn {} deadLoop {} = .ok c ∧ c.code = some deadLoopCode ∧
      (typedIn {} deadLoop.text.toList).BodyOf true deadLoopFunction ss ∧
      deadLoopCode.Executes deadLoopFunction 0 ∧ Lowering.Dead true ss 1 ∧
      ¬ deadLoopCode.Executes deadLoopFunction 1 := by
  have observed : (compileIn { cancelAfter := none } deadLoop {}).toOption.bind
      (fun c => c.code.map fun code => code) = some deadLoopCode := by
    decide +kernel
  obtain ⟨c, code, compiled, generated, rfl⟩ := exists_code observed
  -- the second step of a run is the first one in the function
  have executed : deadLoopCode.Executes deadLoopFunction 0 :=
    ⟨_, 1, _, rfl, .more rfl rfl (.none _), _, _, rfl, rfl, rfl⟩
  have bodies : ∃ span dead, (typedIn {} deadLoop.text.toList).functions.map (·.2.2.body) =
      [.ret span none :: dead] := by
    generalize same : (typedIn {} deadLoop.text.toList).functions.map (·.2.2.body) = bodies
    cbv at same
    exact ⟨_, _, same.symm⟩
  obtain ⟨span, dead, bodies⟩ := bodies
  obtain ⟨f, isOnly, isBody⟩ := List.map_eq_singleton_iff.1 bodies
  obtain ⟨entry, functions, -, all, same⟩ :=
    Lowering.generate_ok_iff.1 (generate_of_code compiled generated)
  obtain rfl : [deadLoopFunction] = functions := (List.cons.inj (Ir.Program.mk.inj same)).2
  rw [isOnly] at all
  obtain ⟨lowered, -⟩ := List.forall₂_cons.1 all
  have body : (typedIn {} deadLoop.text.toList).BodyOf true deadLoopFunction f.2.2.body :=
    .declared (by rw [isOnly]; exact List.mem_singleton_self f) lowered
  rw [isBody] at body
  have isDead := body.dead (Nat.le_refl 1) (by decide)
  exact ⟨c, _, compiled, generated, body, executed, isDead,
    (executed_notDead compiled generated).2 _ _ _ body isDead⟩

end Semantics

end MiniLang
