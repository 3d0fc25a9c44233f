import MiniLang.Proofs.Compilation.Correctness
import MiniLang.Proofs.Lowering.Calls
import MiniLang.Proofs.Lowering.Flow

/-!
# Code of source texts is well-formed

Whatever code comes out of a compilation, with folding or without, is as it should be
(`code_wellFormed`): each of its functions is, since the code of its body is orderly and its calls
fit (`wellFormed_of_lowered`), and the names of the functions differ since those of the program do.
-/

set_option autoImplicit false

namespace MiniLang.Semantics

open Ir (Instr Place)
open Lowering (Fresh lowerAll lowerEntry lowerFunction closed numbered)

/-- The function that comes from the code of a body, if its calls and parameters are as they should
be. -/
theorem wellFormed_of_lowered {P : Ir.Program} {folding : Bool} {ts : List Typed.Stmt}
    {body : List Instr} {fresh : Fresh} {name : String} {params : List Place}
    (lowered : lowerAll folding ts {} = .ok (body, fresh)) (calls : ∀ i ∈ closed body, P.Accepts i)
    (distinct : params.Nodup) (own : ∀ place ∈ params, ∃ name, place = .frame name) :
    Ir.Function.WellFormed P ⟨name, params, closed body, fresh.temp⟩ := by
  have orderly := (Lowering.lowerAll_orderly ts lowered).closed
  refine ⟨Lowering.isReturn_getLast?_closed body, orderly.labels.nodup, ?_, calls, distinct, own,
    ?_, ?_⟩
  · intro i mem l target
    exact orderly.targets (List.mem_flatMap.2 ⟨i, mem, target⟩)
  · have dests := orderly.dests
    rw [List.range_zero, List.nil_append] at dests
    exact .of_eq dests
  · obtain ⟨K, flows⟩ := orderly.flows ∅
    exact (flows K fun _ _ _ => rfl).definedBeforeUse

theorem mem_of_callable? {P : Ir.Program} {name : String} {F : Ir.Function}
    (h : P.callable? name = some F) : F ∈ P.functions ∧ F.name = name := by
  have found := List.mem_filter.1 (List.mem_of_getLast? h)
  exact ⟨found.1, beq_iff_eq.1 found.2⟩

/-- Places of different names of one scope differ. -/
theorem nodup_places {params : List Param} (scope : ScopeId)
    (distinct : (params.map Param.name).Nodup) :
    (params.map fun p => Place.frame (numbered p.name scope)).Nodup := by
  have whole := distinct.map (f := fun name => Place.frame (numbered name scope))
    fun a b same => (Lowering.numbered_inj.1 (Place.frame.inj same)).1
  rwa [List.map_map] at whole

/-- Lists that belong together have the same names. -/
theorem map_eq_of_forall₂ {α β : Type} {R : α → β → Prop} {name : α → String} {name' : β → String}
    {xs : List α} {ys : List β} (h : List.Forall₂ R xs ys)
    (names : ∀ x y, R x y → name' y = name x) : ys.map name' = xs.map name := by
  induction h with
  | nil => rfl
  | cons first _ ih => rw [List.map_cons, List.map_cons, ih, names _ _ first]

namespace Compiled

variable {p : Program} {t : Typed.Program} {G : List (String × Ty)} {P : Bool → Ir.Program}

/-- A call that fits the signatures of a program finds its function in the code. -/
theorem accepts (h : Compiled p t G P) (folding : Bool) {i : Instr} (fits : Fits (signatures p) i) :
    (P folding).Accepts i := by
  cases i with
  | call dest callee arguments =>
    obtain ⟨f, known, arity, unit⟩ := fits
    rcases callable_cases known with ⟨rfl, rfl⟩ | ⟨notPrint, header, body, declared, rfl⟩
    · exact .inl ⟨rfl, arity, unit rfl⟩
    · obtain ⟨tf, -, typed, code⟩ := h.function declared
      obtain ⟨F, lowered, callable⟩ := code folding
      obtain ⟨mem, isNamed⟩ := mem_of_callable? callable
      refine .inr ⟨notPrint, F, mem, isNamed, ?_⟩
      cases typed with
      | mk _ _ hh =>
        rw [params_of_lowered hh lowered, arity, Signature.of, List.length_map, List.length_map]
  | _ => trivial

/-- The code of a declared function is as it should be. -/
theorem function_wellFormed (h : Compiled p t G P) (folding : Bool) {f : FunctionHeader × Block}
    {tf : Typed.Program.Function} {F : Ir.Function} (typed : FunctionTyped (signatures p) G f tf)
    (lowered : lowerFunction folding tf = .ok F) : F.WellFormed (P folding) := by
  cases typed with
  | @mk Γ Γ' id span bodySpan header typed body scope bs functions globals hh hb returns =>
    have params := params_of_lowered hh lowered
    obtain ⟨places, code, fresh, -, body_lowered, rfl⟩ := Lowering.lowerFunction_ok_iff.1 lowered
    rw [Lowering.lowerBlock_eq] at body_lowered
    obtain rfl : places = header.params.map fun p => .frame (numbered p.name scope) := params
    refine wellFormed_of_lowered body_lowered ?_ (nodup_places scope hh.distinct) ?_
    · have calls := (hb.calls body body_lowered).closed
      intro i mem
      refine h.accepts folding ?_
      rw [← functions]
      exact calls i mem
    · intro place mem
      obtain ⟨p, -, rfl⟩ := List.mem_map.1 mem
      exact ⟨_, rfl⟩

/-- The code of the statements outside of functions is as it should be. -/
theorem entry_wellFormed (h : Compiled p t G P) (folding : Bool) {entry : Ir.Function}
    (lowered : lowerEntry folding t.body = .ok entry) :
    entry.name = Ir.Program.entryName ∧ entry.params = [] ∧ entry.WellFormed (P folding) := by
  obtain ⟨code, fresh, body_lowered, rfl⟩ := Lowering.function_ok_iff.1 lowered
  refine ⟨rfl, rfl, wellFormed_of_lowered body_lowered ?_ List.nodup_nil (by simp)⟩
  have valid : ∀ span header body, .function span header body ∈ t.body → span.Valid :=
    fun _ _ _ => h.typed.body.function_valid p.body
  have calls := (h.typed.body.calls p.body (Lowering.lowerAll_filter valid body_lowered)).closed
  exact fun i mem => h.accepts folding (calls i mem)

/-- The declared functions have their own names in the code. -/
theorem names (h : Compiled p t G P) {folding : Bool} {functions : List Ir.Function}
    (lowered : List.Forall₂ (fun f F => lowerFunction folding f = .ok F) t.functions functions) :
    functions.map Ir.Function.name = p.functions.map (·.1.name) := by
  calc functions.map Ir.Function.name
      = t.functions.map (·.2.1.name) := map_eq_of_forall₂ lowered fun tf F lowered => by
        obtain ⟨_, _, _, -, -, rfl⟩ := Lowering.lowerFunction_ok_iff.1 lowered
        rfl
    _ = p.functions.map (·.1.name) :=
        map_eq_of_forall₂ h.functionsTyped fun f tf typed => typed.name

/-- The code of a typed program is as it should be. -/
theorem wellFormed (h : Compiled p t G P) (folding : Bool) : (P folding).WellFormed := by
  obtain ⟨entry, functions, isEntry, all, code⟩ := Lowering.generate_ok_iff.1 (h.generated folding)
  obtain ⟨name, params, entryFits⟩ := h.entry_wellFormed folding isEntry
  have same := h.names all
  constructor
  · exact ⟨entry, functions, by rw [code], name, params⟩
  · rw [code, List.map_cons, name, same, List.nodup_cons]
    refine ⟨?_, h.distinct.2⟩
    intro mem
    obtain ⟨f, declared, isEntry⟩ := List.mem_map.1 mem
    exact h.name_ne_entryName declared isEntry
  · intro F mem
    rw [code] at mem
    rcases List.mem_cons.1 mem with rfl | mem
    · exact entryFits
    · obtain ⟨tf, memTyped, lowered⟩ := forall₂_mem (List.Forall₂.flip all) mem
      obtain ⟨f, -, typed⟩ := forall₂_mem (List.Forall₂.flip h.functionsTyped) memTyped
      exact h.function_wellFormed folding typed lowered

end Compiled

variable {moment : Option Nat} {unit : SourceUnit} {options : CompileOptions} {c : Compilation}
  {code : Ir.Program}

/-- The code of a source text is well-formed, with folding or without. -/
theorem code_wellFormed (compiled : compileIn { cancelAfter := moment } unit options = .ok c)
    (generated : c.code = some code) : code.WellFormed := by
  obtain ⟨t, G, P, typed, rfl, -⟩ := compiled_of_code compiled generated
  exact typed.wellFormed options.folding

/-- A source text whose code has labels of all kinds. -/
def branching : SourceUnit where
  name := "branching.lang"
  text := "let n = 0; while (n < 3 && even(n) || n == 1) \x7b " ++
    "n = add(n, 1); if (n > 1) \x7b print(n); \x7d else \x7b print(0 - n); \x7d \x7d " ++
    "fn even(k: int) -> bool \x7b if (k == 1) \x7b return false; \x7d return true; \x7d " ++
    "fn add(a: int, b: int) -> int \x7b return a + b; \x7d"

/-- There is code to which this applies: a program with three functions and many labels. -/
theorem code_wellFormed_branching :
    ∃ c code, compileIn { cancelAfter := none } branching { folding := false } = .ok c ∧
      c.code = some code ∧ code.functions.map (·.labels.length) = [11, 3, 0] ∧
        code.functions.map (·.temps) = [15, 2, 3] ∧ code.WellFormed := by
  have observed : (compileIn { cancelAfter := none } branching { folding := false }).toOption.bind
      (fun c => c.code.map fun code =>
        (code.functions.map (·.labels.length), code.functions.map (·.temps))) =
          some ([11, 3, 0], [15, 2, 3]) := by
    decide +kernel
  obtain ⟨c, code, compiled, generated, observed⟩ := exists_code observed
  obtain ⟨labels, temps⟩ := Prod.mk.inj observed
  exact ⟨c, code, compiled, generated, labels, temps, code_wellFormed compiled generated⟩

end MiniLang.Semantics
