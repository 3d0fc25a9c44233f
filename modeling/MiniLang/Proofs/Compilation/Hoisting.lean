import Mathlib
import MiniLang.Proofs.Compilation.WellFormed
import MiniLang.Proofs.Lowering.Renaming

/-!
# Functions may stand anywhere

Where functions are declared among the statements of the top level does not matter to what a program
does. Moving them changes the numbers of scopes and with them the names of frame places, the order
of the functions in the code and what the checker has seen when it comes to a body, but neither
what names mean nor the order of the other statements. So the code of both programs is the same up
to a renaming of frame places in every function (`Compiled.alike`), and runs give the same, with
folding or without, under every limit (`run_eq_of_functionsMoved`).
-/

set_option autoImplicit false

namespace MiniLang

/-- Two programs have the same statements up to numbers and places, and those that declare no
function in the same order. -/
structure Program.FunctionsMoved (p q : Program) : Prop where
  same : (p.body.map Stmt.bare).Perm (q.body.map Stmt.bare)
  order : (p.body.map Stmt.bare).filter (·.function?.isNone) =
    (q.body.map Stmt.bare).filter (·.function?.isNone)

namespace Stmt

theorem bareAll_eq_map (ss : List Stmt) : bareAll ss = ss.map bare := by
  induction ss with
  | nil => rfl
  | cons s ss ih => rw [bareAll, ih, List.map_cons]

/-- Statements declare functions or not, whatever their numbers and places. -/
theorem bareAll_withoutFunctions (ss : List Stmt) :
    bareAll (ss.filter (·.function?.isNone)) = (ss.map bare).filter (·.function?.isNone) := by
  have same : (fun s : Stmt => s.function?.isNone) ∘ bare = fun s => s.function?.isNone := by
    funext s
    cases s <;> rfl
  rw [List.filter_map, same, bareAll_eq_map]

end Stmt

namespace Semantics

open Ir (Place)
open Lowering (lowerEntry lowerFunction numbered)

/-- Two functions that are the same up to numbers and places. -/
structure SameFunction (f g : FunctionHeader × Block) : Prop where
  header : g.1.bare = f.1.bare
  body : Stmt.bareBlock g.2 = Stmt.bareBlock f.2

namespace SameFunction

variable {f g : FunctionHeader × Block}

theorem name (h : SameFunction f g) : g.1.name = f.1.name :=
  (FunctionHeader.mk.inj h.header).2.1

theorem params (h : SameFunction f g) :
    g.1.params.map Param.bare = f.1.params.map Param.bare :=
  (FunctionHeader.mk.inj h.header).2.2.2.1

/-- The signature of a function does not depend on numbers and places. -/
theorem signature (h : SameFunction f g) : Signature.of g.1 = .of f.1 := by
  have bare : ∀ header : FunctionHeader, Signature.of header.bare = .of header := by
    rintro ⟨id, name, nameSpan, params, returnType⟩
    have types : (params.map Param.bare).map (fun p => Ty.ofName p.type.name) =
        params.map fun p => .ofName p.type.name := by
      rw [List.map_map]
      rfl
    have result : Ty.ofReturn (returnType.map WrittenType.bare) = .ofReturn returnType := by
      cases returnType <;> rfl
    exact congrArg₂ Signature.mk types result
  rw [← bare, h.header, bare]

end SameFunction

/-- A function of one program is a function of every program that has the same statements. -/
theorem exists_sameFunction {p q : Program}
    (same : (p.body.map Stmt.bare).Perm (q.body.map Stmt.bare)) {f : FunctionHeader × Block}
    (mem : f ∈ p.functions) : ∃ g ∈ q.functions, SameFunction f g := by
  obtain ⟨s, inBody, declares⟩ := List.mem_filterMap.1 mem
  obtain ⟨s', inBody', bare⟩ := List.mem_map.1 (same.subset (List.mem_map_of_mem inBody))
  cases s with
  | function span header body =>
    cases s' with
    | function span' header' body' =>
      cases declares
      obtain ⟨-, sameHeader, sameBody⟩ := Stmt.function.inj bare
      exact ⟨(header', body'), List.mem_filterMap.2 ⟨_, inBody', rfl⟩, sameHeader, sameBody⟩
    | _ => cases bare
  | _ => cases declares

variable {p q : Program} {t u : Typed.Program} {G H : List (String × Ty)} {P Q : Bool → Ir.Program}

/-! ## What names mean -/

/-- A name means the only declared function of that name. -/
theorem Compiled.function?_iff (h : Compiled p t G P) {name : String}
    {f : FunctionHeader × Block} :
    function? p name = some f ↔ f ∈ p.functions ∧ f.1.name = name := by
  unfold function?
  constructor
  · exact fun found => ⟨List.mem_of_find?_eq_some found, by simpa using List.find?_some found⟩
  · rintro ⟨mem, rfl⟩
    cases found : p.functions.find? (·.1.name == f.1.name) with
    | none => simpa using List.find?_eq_none.1 found f mem
    | some g =>
      have name : g.1.name = f.1.name := by simpa using List.find?_some found
      rw [List.inj_on_of_nodup_map h.distinct.2 (List.mem_of_find?_eq_some found) mem name]

/-- A name means the same function in both programs, or no function in either. -/
theorem function?_moved (h : Compiled p t G P) (h' : Compiled q u H Q)
    (same : (p.body.map Stmt.bare).Perm (q.body.map Stmt.bare)) (name : String) :
    Option.Rel SameFunction (function? p name) (function? q name) := by
  cases here : function? p name with
  | some f =>
    obtain ⟨mem, rfl⟩ := h.function?_iff.1 here
    obtain ⟨g, mem', same⟩ := exists_sameFunction same mem
    rw [h'.function?_iff.2 ⟨mem', same.name⟩]
    exact .some same
  | none =>
    cases there : function? q name with
    | none => exact .none
    | some g =>
      obtain ⟨mem, rfl⟩ := h'.function?_iff.1 there
      obtain ⟨f, mem', same⟩ := exists_sameFunction same.symm mem
      rw [h.function?_iff.2 ⟨mem', same.name⟩] at here
      cases here

/-- The same functions can be called. -/
theorem signatures_moved (h : Compiled p t G P) (h' : Compiled q u H Q)
    (same : (p.body.map Stmt.bare).Perm (q.body.map Stmt.bare)) (name : String) :
    (signatures q).lookup name = (signatures p).lookup name := by
  rw [signatures, signatures, List.lookup_cons, List.lookup_cons]
  cases name == "print" with
  | true => rfl
  | false =>
    simp only [lookup_signatures]
    change (function? q name).map _ = (function? p name).map _
    rcases Ir.rel_cases (function?_moved h h' same name) with
      ⟨none, none'⟩ | ⟨f, g, found, found', sameFunction⟩
    · rw [none, none']
    · rw [found, found', Option.map_some, Option.map_some, sameFunction.signature]

/-! ## The code of both programs -/

section

variable {Φ Φ' : List (String × Signature)} {folding : Bool} {F F' : Ir.Function}

/-- Parameters of the same names live in places that correspond. -/
theorem places_renamed {σ : Correspondence} {scope scope' : ScopeId} (scopes : σ scope scope') :
    ∀ {params params' : List Param}, params'.map Param.bare = params.map Param.bare →
      (∀ p ∈ params, IsName p.name) →
      List.Forall₂ (Place.Renamed (Lowering.PlaceNames σ))
        (params.map fun p => .frame (numbered p.name scope))
        (params'.map fun p => .frame (numbered p.name scope')) := by
  intro params
  induction params with
  | nil =>
    intro params' same _
    rw [List.map_eq_nil_iff.1 same]
    exact .nil
  | cons p params ih =>
    intro params' same areNames
    cases params' with
    | nil => cases same
    | cons p' params' =>
      obtain ⟨first, others⟩ := List.cons.inj same
      have name : p'.name = p.name := (Param.mk.inj first).2.2.1
      have isName := areNames p List.mem_cons_self
      rw [List.map_cons, List.map_cons, name]
      exact .cons (.frame (.ofVariable isName scopes))
        (ih others fun q mem => areNames q (List.mem_cons_of_mem _ mem))

/-- Typed forms of the same function have the same code up to a renaming, whatever global variables
each of them sees. -/
theorem FunctionTyped.alike {f g : FunctionHeader × Block} {tf tg : Typed.Program.Function}
    (functions : ∀ name, Φ'.lookup name = Φ.lookup name) (same : SameFunction f g)
    (h : FunctionTyped Φ G f tf) (h' : FunctionTyped Φ' G g tg)
    (apart : (Typed.Stmt.blockScopes tf.2.2).Nodup) (apart' : (Typed.Stmt.blockScopes tg.2.2).Nodup)
    (lowered : lowerFunction folding tf = .ok F) (lowered' : lowerFunction folding tg = .ok F') :
    F.Alike F' := by
  cases h with
  | @mk Γ _ _ _ _ header typed body scope bs isΦ globals hh hb =>
    cases h' with
    | @mk Γ' _ _ _ _ header' typed' body' scope' bs' isΦ' globals' hh' hb' =>
      have unique := biUnique_zip apart apart'
      set σ : Correspondence := fun s s' =>
        (s, s') ∈ (scope :: Typed.Stmt.scopesAll bs).zip (scope' :: Typed.Stmt.scopesAll bs')
      have pairs : Pairs σ (scope :: Typed.Stmt.scopesAll bs)
        (scope' :: Typed.Stmt.scopesAll bs') := fun _ mem => mem
      obtain ⟨scopes, inside⟩ := pairs.cons
      have like : (Γ.enter scope header.params).Renamed σ (Γ'.enter scope' header'.params) := by
        refine ⟨fun name => ?_, fun name type type' declared declared' => ?_,
          .cons (.declareParams same.params hh.areNames (.empty scopes hh.inner hh'.inner)) .nil⟩
        · change Γ'.functions.lookup name = Γ.functions.lookup name
          rw [isΦ, isΦ', functions]
        · have known := globals name type declared
          exact Option.some.inj ((globals' name type' declared').symm.trans known)
      rw [← List.append_nil (Typed.Stmt.scopesAll bs),
        ← List.append_nil (Typed.Stmt.scopesAll bs')] at inside
      obtain ⟨renamed, -⟩ := hb.renamed body (Block.mk.inj same.body).2.2 hb' like
        (fun outside => by cases outside) inside
      have params := params_of_lowered hh lowered
      have params' := params_of_lowered hh' lowered'
      obtain ⟨places, code, fresh, -, inBody, rfl⟩ := Lowering.lowerFunction_ok_iff.1 lowered
      obtain ⟨places', code', fresh', -, inBody', rfl⟩ := Lowering.lowerFunction_ok_iff.1 lowered'
      rw [Lowering.lowerBlock_eq] at inBody inBody'
      obtain ⟨sameCode, -⟩ := Lowering.lowerAll_renamed bs renamed inBody inBody'
      refine ⟨Lowering.PlaceNames σ, Lowering.PlaceNames.biUnique unique, ?_, ?_,
        Lowering.closed_renamed sameCode⟩
      · change typed'.name = typed.name
        rw [hh.name, hh'.name, same.name]
      · rw [params, params']
        exact places_renamed scopes same.params hh.areNames

/-- Without the functions among them statements have the typed forms that they had. -/
theorem AllTyped.withoutFunctions :
    ∀ (ss : List Stmt) {ts : List Typed.Stmt} {Γ Γ' : Context} {expected : Option Ty},
      AllTyped Γ expected ss ts Γ' →
        AllTyped Γ expected (ss.filter (·.function?.isNone)) (ts.filter (!·.isFunction)) Γ'
  | [], ts, Γ, Γ', expected, h => by
    cases h
    exact .nil
  | s :: ss, ts, Γ, Γ', expected, h => by
    cases h with
    | letVar here isName isNew hv isValue place rest =>
      exact .letVar here isName isNew hv isValue place (rest.withoutFunctions ss)
    | function _ _ _ _ _ rest => exact rest.withoutFunctions ss
    | statement first rest =>
      obtain ⟨quiet, quietTyped⟩ := first.no_function
      rw [List.filter_cons_of_pos (by simp [quiet]), List.filter_cons_of_pos (by simp [quietTyped])]
      exact .statement first (rest.withoutFunctions ss)

/-- The statements outside of functions have the same code up to a renaming, and declare the same
global variables. -/
theorem Compiled.entry_alike (h : Compiled p t G P) (h' : Compiled q u H Q)
    (moved : p.FunctionsMoved q) (folding : Bool) :
    H = G ∧ ∃ F F', (P folding).callable? Ir.Program.entryName = some F ∧
      (Q folding).callable? Ir.Program.entryName = some F' ∧ F.Alike F' := by
  have apart := h.typed.apart.sublist (Typed.Stmt.scopesAll_filter (!·.isFunction) t.body)
  have apart' := h'.typed.apart.sublist (Typed.Stmt.scopesAll_filter (!·.isFunction) u.body)
  have unique := biUnique_zip apart apart'
  set σ : Correspondence := fun s s' =>
    (s, s') ∈ (Typed.Stmt.scopesAll (t.body.filter (!·.isFunction))).zip
      (Typed.Stmt.scopesAll (u.body.filter (!·.isFunction)))
  have like : Context.Renamed σ { functions := signatures p } { functions := signatures q } :=
    ⟨signatures_moved h h' moved.same, (fun _ _ _ declared => by cases declared), .nil⟩
  have order := moved.order.symm
  rw [← Stmt.bareAll_withoutFunctions, ← Stmt.bareAll_withoutFunctions] at order
  have quiet : ∀ s ∈ p.body.filter (·.function?.isNone), s.function? = none := fun s mem =>
    Option.isNone_iff_eq_none.1 (List.mem_filter.1 mem).2
  have pairs : Pairs σ (Typed.Stmt.scopesAll (t.body.filter (!·.isFunction)) ++ [])
      (Typed.Stmt.scopesAll (u.body.filter (!·.isFunction)) ++ []) := by
    rw [List.append_nil, List.append_nil]
    exact fun _ mem => mem
  obtain ⟨renamed, -, globals⟩ := AllTyped.renamed _ order (h.typed.body.withoutFunctions p.body)
    (h'.typed.body.withoutFunctions q.body) like (fun _ => quiet) pairs
  obtain ⟨F, lowered, callable⟩ := h.entry folding
  obtain ⟨F', lowered', callable'⟩ := h'.entry folding
  obtain ⟨code, fresh, inBody, rfl⟩ := Lowering.function_ok_iff.1 lowered
  obtain ⟨code', fresh', inBody', rfl⟩ := Lowering.function_ok_iff.1 lowered'
  obtain ⟨sameCode, -⟩ := Lowering.lowerAll_renamed _ renamed inBody inBody'
  exact ⟨globals rfl, _, _, callable, callable', Lowering.PlaceNames σ,
    Lowering.PlaceNames.biUnique unique, rfl, .nil, Lowering.closed_renamed sameCode⟩

end

/-- Only the declared functions and the statements outside of them have code. -/
theorem Compiled.callable?_eq_none (h : Compiled p t G P) (folding : Bool) {name : String}
    (notEntry : name ≠ Ir.Program.entryName) (none : function? p name = none) :
    (P folding).callable? name = .none := by
  obtain ⟨entry, functions, isEntry, all, code⟩ := Lowering.generate_ok_iff.1 (h.generated folding)
  have entryName := (h.entry_wellFormed folding isEntry).1
  cases found : (P folding).callable? name with
  | none => rfl
  | some F =>
    obtain ⟨mem, rfl⟩ := mem_of_callable? found
    rw [code] at mem
    rcases List.mem_cons.1 mem with rfl | mem
    · exact absurd entryName notEntry
    · have named := List.mem_map_of_mem (f := Ir.Function.name) mem
      rw [h.names all] at named
      obtain ⟨f, declared, same⟩ := List.mem_map.1 named
      rw [h.function?_iff.2 ⟨declared, same⟩] at none
      cases none

/-- The code of two programs whose functions stand elsewhere is the same up to a renaming of frame
places, function by function. -/
theorem Compiled.alike (h : Compiled p t G P) (h' : Compiled q u H Q) (moved : p.FunctionsMoved q)
    (folding : Bool) : (P folding).Alike (Q folding) := by
  obtain ⟨rfl, F, F', entry, entry', alike⟩ := h.entry_alike h' moved folding
  intro name
  by_cases isEntry : name = Ir.Program.entryName
  · subst isEntry
    rw [entry, entry']
    exact .some alike
  · rcases Ir.rel_cases (function?_moved h h' moved.same name) with
      ⟨none, none'⟩ | ⟨f, g, known, known', same⟩
    · rw [h.callable?_eq_none folding isEntry none, h'.callable?_eq_none folding isEntry none']
      exact .none
    · obtain ⟨tf, mem, typed, code⟩ := h.function known
      obtain ⟨tg, mem', typed', code'⟩ := h'.function known'
      obtain ⟨F, lowered, callable⟩ := code folding
      obtain ⟨F', lowered', callable'⟩ := code' folding
      rw [callable, callable']
      exact .some (typed.alike (signatures_moved h h' moved.same) same typed'
        (h.typed.apart.sublist (Typed.Stmt.blockScopes_function mem))
        (h'.typed.apart.sublist (Typed.Stmt.blockScopes_function mem')) lowered lowered')

/-! ## Runs -/

/-- Every frame place has a value when it is read. -/
theorem Compiled.run_ne_unset (h : Compiled p t G P) (folding : Bool) (limit : Nat)
    (name : String) : Ir.run (P folding) limit ≠ .error (.uninitialized (.frame name)) := by
  rcases run_cases h folding limit with tooLong | ⟨r, same, -⟩
  · rw [tooLong]
    exact fun same => by cases same
  · rw [same]
    intro unset
    cases r with
    | ok printed => cases unset
    | error f => cases f <;> cases unset

variable {moment moment' : Option Nat} {unit unit' : SourceUnit} {options options' : CompileOptions}
  {c c' : Compilation} {code code' : Ir.Program}

/-- Where functions stand does not matter: two source texts that are compiled, with the same
statements at the top level but for the positions of functions, are compiled with folding and
without, and both have runs of the same results under every limit. -/
theorem run_eq_of_functionsMoved
    (compiled : compileIn { cancelAfter := moment } unit options = .ok c)
    (generated : c.code = some code)
    (compiled' : compileIn { cancelAfter := moment' } unit' options' = .ok c')
    (generated' : c'.code = some code') (moved : c.program.FunctionsMoved c'.program)
    (folding : Bool) :
    ∃ first second : Ir.Program,
      compileIn { cancelAfter := moment } unit { options with folding := folding } =
        .ok { c with code := some first } ∧
      compileIn { cancelAfter := moment' } unit' { options' with folding := folding } =
        .ok { c' with code := some second } ∧
      ∀ limit, Ir.run first limit = Ir.run second limit := by
  obtain ⟨t, G, P, typed, -, compiles⟩ := compiled_of_code compiled generated
  obtain ⟨u, H, Q, typed', -, compiles'⟩ := compiled_of_code compiled' generated'
  refine ⟨P folding, Q folding, compiles _, compiles' _, fun limit => ?_⟩
  exact ((typed.alike typed' moved folding).run limit).eq (typed.run_ne_unset folding limit)

/-- A function that divides by its argument, and behind it calls with one and with zero. -/
def functionFirst : SourceUnit where
  name := "first.lang"
  text := "fn f(n: int) \x7b let k = 1 / n; \x7d \x7b let a = 1; f(a); f(0); \x7d"

/-- The same with the function at the end. -/
def functionLast : SourceUnit where
  name := "last.lang"
  text := "\x7b let a = 1; f(a); f(0); \x7d fn f(n: int) \x7b let k = 1 / n; \x7d"

/-- The parameter lives in places of different names, and both runs stop at the second division. -/
theorem run_eq_of_functionsMoved_division :
    ∃ c c' code code', compileIn { cancelAfter := none } functionFirst {} = .ok c ∧
      c.code = some code ∧ compileIn { cancelAfter := none } functionLast {} = .ok c' ∧
      c'.code = some code' ∧ c.program.FunctionsMoved c'.program ∧
      code.functions.map (·.params) = [[], [.frame "n.1"]] ∧
      code'.functions.map (·.params) = [[], [.frame "n.2"]] ∧
      ∃ first second,
        compileIn { cancelAfter := none } functionFirst {} = .ok { c with code := some first } ∧
        compileIn { cancelAfter := none } functionLast {} = .ok { c' with code := some second } ∧
        Ir.run first 20 = .error (.arithmetic .divisionByZero) ∧
        ∀ limit, Ir.run first limit = Ir.run second limit := by
  have observed : (compileIn { cancelAfter := none } functionFirst {}).toOption.bind
      (fun c => c.code.map fun code => (code.functions.map (·.params), Ir.run code 20)) =
        some ([[], [.frame "n.1"]], .error (.arithmetic .divisionByZero)) := by
    decide +kernel
  have observed' : (compileIn { cancelAfter := none } functionLast {}).toOption.bind
      (fun c => c.code.map fun code => code.functions.map (·.params)) =
        some [[], [.frame "n.2"]] := by
    decide +kernel
  obtain ⟨c, code, compiled, generated, seen⟩ := exists_code observed
  obtain ⟨c', code', compiled', generated', params'⟩ := exists_code observed'
  obtain ⟨params, stops⟩ := Prod.mk.inj seen
  have moved : c.program.FunctionsMoved c'.program := by
    rw [program_of_compileIn compiled, program_of_compileIn compiled']
    have turned :
        (parseSource functionFirst.text.toList { cancelAfter := none }).program.body.map Stmt.bare =
          ((parseSource functionLast.text.toList { cancelAfter := none }).program.body.map
            Stmt.bare).reverse ∧
        ((parseSource functionFirst.text.toList { cancelAfter := none }).program.body.map
          Stmt.bare).filter (·.function?.isNone) =
        ((parseSource functionLast.text.toList { cancelAfter := none }).program.body.map
          Stmt.bare).filter (·.function?.isNone) := by
      cbv
    refine ⟨?_, turned.2⟩
    rw [turned.1]
    exact List.reverse_perm _
  obtain ⟨first, second, isFirst, isSecond, same⟩ :=
    run_eq_of_functionsMoved compiled generated compiled' generated' moved true
  refine ⟨c, c', code, code', compiled, generated, compiled', generated', moved, params, params',
    first, second, isFirst, isSecond, ?_, same⟩
  have isCode := congrArg Compilation.code (Except.ok.inj (compiled.symm.trans isFirst))
  rw [generated] at isCode
  rw [← Option.some.inj isCode, stops]

end Semantics

end MiniLang
