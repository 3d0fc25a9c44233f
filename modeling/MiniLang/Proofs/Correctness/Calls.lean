import MiniLang.Proofs.Correctness.Statement

/-!
# Calls are compiled correctly

Every function of a program has code that a call by its name reaches (`Compiled.function`), and the
runs of this code follow the execution of its body. A call then follows from calls that are one
deeper, so that all calls do by induction on how many can still become active (`calls_follow`).
-/

set_option autoImplicit false

namespace MiniLang.Semantics

open Ir (State Faces Keeps Steps Stops Operand Temp Instr Frame)
open Lowering (lowerAll lowerFunction lowerEntry closed endsInReturn numbered placeFor)

/-! ## Finding functions -/

/-- If names are distinct, the only entry with a name is the first. -/
theorem filter_eq_of_find? {α : Type} {name : α → String} {wanted : String} {x : α} :
    ∀ {xs : List α}, (xs.map name).Nodup → xs.find? (name · == wanted) = some x →
      xs.filter (name · == wanted) = [x]
  | [], _, h => by cases h
  | y :: ys, distinct, h => by
    obtain ⟨isNew, distinct⟩ := List.nodup_cons.1 distinct
    simp only [List.find?_cons] at h
    simp only [List.filter_cons]
    cases here : name y == wanted with
    | true =>
      rw [here] at h
      obtain rfl := Option.some.inj h
      have others : ys.filter (name · == wanted) = [] := by
        rw [List.filter_eq_nil_iff]
        intro z mem same
        refine isNew (List.mem_map.2 ⟨z, mem, ?_⟩)
        rw [beq_iff_eq.1 same, beq_iff_eq.1 here]
      rw [others]
      rfl
    | false =>
      rw [here] at h
      exact filter_eq_of_find? distinct h

/-- Lists that belong together stay together if they are filtered by the same names. -/
theorem forall₂_filter {α β : Type} {R : α → β → Prop} {name : α → String} {name' : β → String}
    (wanted : String) (names : ∀ x y, R x y → name' y = name x) {xs : List α} {ys : List β}
    (h : List.Forall₂ R xs ys) :
    List.Forall₂ R (xs.filter (name · == wanted)) (ys.filter (name' · == wanted)) := by
  induction h with
  | nil => exact .nil
  | @cons x y xs ys first _ ih =>
    simp only [List.filter_cons, names x y first]
    cases name x == wanted with
    | true => exact .cons first ih
    | false => exact ih

/-- The code of a program, without and with folding. -/
structure Compiled (p : Program) (t : Typed.Program) (G : List (String × Ty))
    (P : Bool → Ir.Program) : Prop where
  typed : ProgramTyped p t G
  generated : ∀ b, generate b t = .ok (P b)

/-- The signature of a name is that of the function with this name. -/
theorem lookup_signatures (fs : List (FunctionHeader × Block)) (name : String) :
    (fs.map fun f => (f.1.name, Signature.of f.1)).lookup name =
      (fs.find? (·.1.name == name)).map fun f => Signature.of f.1 := by
  induction fs with
  | nil => rfl
  | cons f fs ih =>
    simp only [List.map_cons, List.lookup_cons, List.find?_cons]
    by_cases same : name = f.1.name
    · rw [beq_iff_eq.2 same, beq_iff_eq.2 same.symm]
      rfl
    · rw [beq_eq_false_iff_ne.2 same, beq_eq_false_iff_ne.2 (Ne.symm same)]
      exact ih

namespace Compiled

variable {p : Program} {t : Typed.Program} {G : List (String × Ty)} {P : Bool → Ir.Program}

theorem functionsTyped (h : Compiled p t G P) :
    List.Forall₂ (FunctionTyped (signatures p) G) p.functions t.functions :=
  h.typed.body.functions p.body rfl rfl fun _ _ declared => declared

/-- The name of a declared function is not the one under which the program starts. -/
theorem name_ne_entryName (h : Compiled p t G P) {f : FunctionHeader × Block}
    (mem : f ∈ p.functions) : f.1.name ≠ Ir.Program.entryName := by
  obtain ⟨tf, -, typed⟩ := forall₂_mem h.functionsTyped mem
  cases typed with
  | mk _ _ hh => exact hh.isName.ne_of_dollar "entry"

theorem distinct (h : Compiled p t G P) :
    "print" ∉ p.functions.map (·.1.name) ∧ (p.functions.map (·.1.name)).Nodup := by
  have distinct := h.typed.distinct
  rw [signatures, List.map_cons, List.map_map] at distinct
  exact List.nodup_cons.1 distinct

/-- The function that a program starts with can be called. -/
theorem entry (h : Compiled p t G P) (b : Bool) :
    ∃ F, lowerEntry b t.body = .ok F ∧ (P b).callable? Ir.Program.entryName = some F := by
  obtain ⟨entry, functions, lowered, all, code⟩ := Lowering.generate_ok_iff.1 (h.generated b)
  refine ⟨entry, lowered, ?_⟩
  obtain ⟨_, _, -, shape⟩ := Lowering.function_ok_iff.1 lowered
  have isEntry : entry.name = Ir.Program.entryName := by rw [shape]
  have others : functions.filter (·.name == Ir.Program.entryName) = [] := by
    rw [List.filter_eq_nil_iff]
    intro F mem same
    obtain ⟨tf, memTyped, lowered⟩ := forall₂_mem (List.Forall₂.flip all) mem
    obtain ⟨f, memFunction, typed⟩ := forall₂_mem (List.Forall₂.flip h.functionsTyped) memTyped
    obtain ⟨_, _, _, -, -, shape⟩ := Lowering.lowerFunction_ok_iff.1 lowered
    refine h.name_ne_entryName memFunction ?_
    rw [← typed.name, ← beq_iff_eq.1 same, shape]
  rw [code, Ir.Program.callable?, List.filter_cons_of_pos (by simp [isEntry]), others]
  rfl

/-- A declared function can be called, with the code of its typed form. -/
theorem function (h : Compiled p t G P) {name : String} {f : FunctionHeader × Block}
    (known : function? p name = some f) :
    ∃ tf ∈ t.functions, FunctionTyped (signatures p) G f tf ∧
      ∀ b, ∃ F, lowerFunction b tf = .ok F ∧ (P b).callable? name = some F := by
  have only := filter_eq_of_find? h.distinct.2 known
  have typed := forall₂_filter name (fun f tf typed => FunctionTyped.name typed) h.functionsTyped
  rw [only] at typed
  obtain ⟨tf, _, typed, none, only⟩ := List.forall₂_cons_left_iff.1 typed
  obtain rfl := List.forall₂_nil_left_iff.1 none
  have mem : tf ∈ t.functions := List.mem_of_mem_filter (only ▸ List.mem_singleton_self tf)
  refine ⟨tf, mem, typed, fun b => ?_⟩
  obtain ⟨entry, functions, lowered, all, code⟩ := Lowering.generate_ok_iff.1 (h.generated b)
  have sameName : ∀ tf F, lowerFunction b tf = .ok F → Ir.Function.name F = tf.2.1.name := by
    intro tf F lowered
    obtain ⟨_, _, _, -, -, shape⟩ := Lowering.lowerFunction_ok_iff.1 lowered
    rw [shape]
  have found := forall₂_filter name sameName all
  rw [only] at found
  obtain ⟨F, _, lowered', none, found⟩ := List.forall₂_cons_left_iff.1 found
  obtain rfl := List.forall₂_nil_left_iff.1 none
  refine ⟨F, lowered', ?_⟩
  obtain ⟨_, _, -, shape⟩ := Lowering.function_ok_iff.1 lowered
  have mem : f ∈ p.functions := List.mem_of_find?_eq_some known
  have isNamed : f.1.name = name := by simpa using List.find?_some known
  have notEntry : entry.name ≠ name := by
    rw [shape, ← isNamed]
    exact (h.name_ne_entryName mem).symm
  rw [code, Ir.Program.callable?, List.filter_cons_of_neg (by simp [notEntry]), found]
  rfl

end Compiled

/-- What can be called: the function that prints, and the declared ones. -/
theorem callable_cases {p : Program} {name : String} {f : Signature}
    (declared : (signatures p).lookup name = some f) :
    name = "print" ∧ f = ⟨[.int], .unit⟩ ∨
      name ≠ "print" ∧ ∃ header body, function? p name = some (header, body) ∧
        f = .of header := by
  rw [signatures, List.lookup_cons] at declared
  by_cases isPrint : name = "print"
  · rw [beq_iff_eq.2 isPrint] at declared
    exact .inl ⟨isPrint, (Option.some.inj declared).symm⟩
  · rw [beq_eq_false_iff_ne.2 isPrint] at declared
    have found := (lookup_signatures p.functions name).symm.trans declared
    obtain ⟨⟨header, body⟩, here, rfl⟩ := Option.map_eq_some_iff.1 found
    exact .inr ⟨isPrint, header, body, here, rfl⟩

/-! ## Entering functions -/

/-- Arguments are found where the parameters live. -/
theorem levelMatches_bind {scope : ScopeId} :
    ∀ {params : List Param} {values : List Value} {places : Table String Int} {l : Level}
      {locals : Table String Value}, LevelMatches places l locals → l.scope = scope →
      List.Forall₂ Value.HasType values (params.map fun p => .ofName p.type.name) →
      LevelMatches (Frame.bind places (params.map fun p => .frame (numbered p.name scope))
        (values.map Value.code)) (params.foldl Level.declareParam l)
        (bindParams locals params values)
  | [], values, places, l, locals, h, _, typed => by
    cases typed
    exact h
  | p :: params, values, places, l, locals, h, here, typed => by
    obtain ⟨v, values', first, rest, rfl⟩ := List.forall₂_cons_right_iff.1 typed
    have matched : LevelMatches _ (l.declareParam p) (locals.insert p.name v) := h.set first
    rw [here] at matched
    have others := levelMatches_bind matched here rest
    exact others

/-- Where the parameters of a function live. -/
theorem places_of_params {scope : ScopeId} {span : Span} {params : List Param}
    {typed : List Typed.Param} {places : List Ir.Place} (inner : scope ≠ globalScope)
    (h : List.Forall₂ (fun p q => q.name = p.name ∧ ∃ ref : SymbolRef, q.symbol = some ref ∧
      ref.scope = scope) params typed)
    (placed : List.Forall₂ (fun (q : Typed.Param) place =>
      Lowering.placeOf q.symbol q.name span = .ok place) typed places) :
    places = params.map fun p => .frame (numbered p.name scope) := by
  induction h generalizing places with
  | nil =>
    cases placed
    rfl
  | cons first _ ih =>
    cases placed with
    | cons here rest =>
      obtain ⟨name, ref, symbol, rfl⟩ := first
      rw [symbol, Lowering.placeOf_eq, placeFor, if_neg inner, name] at here
      cases here
      rw [List.map_cons, ih rest]

/-- The context in which the body of a function is typed. -/
theorem Context.Regular.enter {Φ : List (String × Signature)} {G : List (String × Ty)}
    {Γ : Context} {scope : ScopeId} {header : FunctionHeader} {typed : Typed.FunctionHeader}
    (functions : Γ.functions = Φ)
    (globals : ∀ name type, Γ.globals.lookup name = some type → G.lookup name = some type)
    (hh : HeaderTyped scope header typed) : (Γ.enter scope header.params).Regular Φ G := by
  have only : (Γ.enter scope header.params).scopes = [scope] := by
    rw [Context.scopes, Context.enter, List.map_singleton, Level.scope_foldl_declareParam]
  refine ⟨functions, globals, ?_, ?_, ?_⟩
  · rw [only]
    exact List.nodup_singleton _
  · rw [only]
    exact fun mem => hh.inner (List.mem_singleton.1 mem).symm
  · intro l mem name type declared
    obtain rfl := List.mem_singleton.1 mem
    rcases Level.type?_foldl_declareParam _ declared with ⟨p, mem, rfl⟩ | before
    · exact hh.areNames p mem
    · cases before

/-- What is added to code so that it ends with a `return`. -/
def closing (code : List Instr) : List Instr := if endsInReturn code then [] else [.ret none]

theorem closed_eq_append (code : List Instr) : closed code = code ++ closing code := by
  rw [Lowering.closed_eq, closing]
  split
  · rw [List.append_nil]
  · rfl

/-- At the beginning of a function its whole code is faced. -/
theorem faces_closed {s : State} {code : List Instr} {n n' : Nat}
    (here : s.frame.code = closed code) (whole : s.frame.function.code = closed code)
    (labels : Lowering.LabelsWithin n n' code) : Faces s (code ++ closing code) := by
  refine ⟨here.trans (closed_eq_append code), ?_, ?_⟩
  · rw [whole, closed_eq_append]
  · have none : Ir.labelsOf (closing code) = [] := by
      unfold closing
      split <;> rfl
    rw [whole, closed_eq_append, Ir.labelsOf_append, none, List.append_nil]
    exact labels.nodup

/-- After the body of a function a value of the right type is given back. -/
theorem Ended.leaves {G : List (String × Ty)} {free : Nat} {ls : List Level} {code : List Instr}
    {type : Ty} {ts : List Typed.Stmt} {s s' : State} {flow : Flow} {m : Memory}
    (h : Ended G free ls (closing code) (some type) (Typed.Stmt.anyReturns ts) s (flow, m) s')
    (returns : type ≠ .unit → Typed.Stmt.anyReturns ts = true)
    (ends : endsInReturn code = true → Typed.Stmt.anyReturns ts = true) :
    Keeps 0 s s' ∧ Leaves flow.value s' ∧ flow.value.HasType type ∧ WorldMatches G m s' := by
  cases h with
  | next keeps here passed ready =>
    have isUnit : type = .unit := by
      by_contra other
      rw [returns other] at passed
      cases passed
    have notThere : endsInReturn code ≠ true := by
      intro there
      rw [ends there] at passed
      cases passed
    rw [closing, if_neg notThere] at here
    subst isUnit
    exact ⟨keeps, .nothing here rfl, .unit, ready.world⟩
  | returned keeps leaves expects typed world =>
    obtain rfl := Option.some.inj expects
    exact ⟨keeps, leaves, typed, world⟩

/-! ## Calls -/

section

variable {P : Bool → Ir.Program} {rounds free : Nat} {G : List (String × Ty)} {ls : List Level}
  {S : Bool → State} {m : Memory} {rest : Bool → List Instr}

/-- The function that prints. -/
theorem simulates_print {operands : Bool → List Operand} {dest : Bool → Option Temp} {n : Int}
    (faces : ∀ b, Faces (S b) (.call (dest b) "print" (operands b) :: rest b))
    (reads : ∀ b, (S b).frame.readAll (operands b) = .ok [n]) (none : ∀ b, dest b = none)
    (ready : ∀ b, Ready G free ls m (S b)) :
    Simulates P rounds (Permitted G) S
      (fun b => Called G free ls (dest b) (rest b) .unit (S b)) (print [.int n] m) := by
  obtain rfl := funext none
  refine .after (fun b => Ir.steps_print (faces b).here (reads b)) (.here fun b => ?_)
  have keeps : ∀ k, Keeps k (S b) { (S b).facing (rest b) with printed := n :: (S b).printed } :=
    fun _ => ⟨rfl, rfl, fun _ _ => rfl⟩
  refine ⟨fun k _ => keeps k, rfl, (fun _ same => by cases same), .unit, (ready b).depth,
    (ready b).locals, (ready b).world.typed, (ready b).world.values, ?_⟩
  rw [List.reverse_append, ← (ready b).world.printed]
  rfl

/-- A call gets its value back and goes on. -/
theorem simulates_back {type : Ty} {dest : Bool → Option Temp} {callee : String}
    {S₁ : Bool → State} {m₁ : Memory} {v : Value}
    (waits : ∀ b, (S₁ b).waiting = ⟨((S b).facing (rest b)).frame, dest b, callee⟩ ::
      (S b).waiting)
    (leaves : ∀ b, Leaves v (S₁ b)) (typed : v.HasType type)
    (takes : ∀ b, dest b = none ↔ type = .unit) (world : ∀ b, WorldMatches G m₁ (S₁ b))
    (ready : ∀ b, Ready G free ls m (S b)) :
    Simulates P rounds (Permitted G) S₁
      (fun b => Called G free ls (dest b) (rest b) type (S b))
      (.done (v, { m₁ with scopes := m.scopes })) := by
  have resumed : ∀ b, Ready G free ls { m₁ with scopes := m.scopes }
      ((S₁ b).resumed ((S b).facing (rest b)).frame (S b).waiting) := fun b =>
    ⟨(ready b).depth, (ready b).locals, (world b).typed, (world b).values, (world b).printed⟩
  have keeps : ∀ b n, Keeps n (S b)
      ((S₁ b).resumed ((S b).facing (rest b)).frame (S b).waiting) := fun b n =>
    ⟨rfl, rfl, fun _ _ => rfl⟩
  by_cases isUnit : type = .unit
  · have none := fun b => (takes b).2 isUnit
    obtain rfl := funext none
    have back : ∀ b, Steps (P b) 1 (S₁ b)
        ((S₁ b).resumed ((S b).facing (rest b)).frame (S b).waiting) := by
      intro b
      cases leaves b with
      | nothing here _ => exact Ir.steps_ret here (waits b) fun _ same => by cases same
      | value here read =>
        refine Ir.steps_ret here (waits b) fun _ same => ?_
        obtain rfl := Option.some.inj same
        exact ⟨_, read⟩
    refine .after back (.here fun b => ?_)
    exact ⟨fun n _ => keeps b n, rfl, (fun _ same => by cases same), typed, resumed b⟩
  · have some : ∀ b, ∃ t, dest b = some t := fun b =>
      Option.ne_none_iff_exists'.1 (mt (takes b).1 isUnit)
    choose t some using some
    obtain rfl := funext some
    have back : ∀ b, Steps (P b) 1 (S₁ b)
        (((S₁ b).resumed ((S b).facing (rest b)).frame (S b).waiting).write (t b) v.code) := by
      intro b
      cases leaves b with
      | nothing _ unit =>
        subst unit
        cases typed
        exact absurd rfl isUnit
      | value here read => exact Ir.steps_ret_value here (waits b) read
    refine .after back (.here fun b => ?_)
    refine ⟨fun n below => (keeps b n).write (below _ rfl) _, rfl, fun t' same => ?_, typed,
      (resumed b).write _ _⟩
    obtain rfl := Option.some.inj same
    exact State.read_write_self ..

/-- The call of a declared function, given the run of its body if the call can become active. -/
theorem simulates_declared {name : String} {f : FunctionHeader × Block} {vs : List Value}
    {dest : Bool → Option Temp} {p : Program} {runBody : Block → Eval Flow}
    (declared : name ≠ "print") (known : function? p name = some f)
    (arity : f.1.params.length = vs.length)
    (takes : ∀ b, dest b = none ↔ Ty.ofReturn f.1.returnType = .unit)
    (ready : ∀ b, Ready G free ls m (S b))
    (body : Simulates P rounds (Permitted G) S
      (fun b r s' => s'.waiting = ⟨((S b).facing (rest b)).frame, dest b, name⟩ :: (S b).waiting ∧
        Leaves r.1.value s' ∧ r.1.value.HasType (.ofReturn f.1.returnType) ∧
        WorldMatches G r.2 s')
      (runBody f.2 { m with scopes := [bindParams .empty f.1.params vs] })) :
    Simulates P rounds (Permitted G) S
      (fun b => Called G free ls (dest b) (rest b) (.ofReturn f.1.returnType) (S b))
      (callWith p runBody name vs m) := by
  have opened : callWith p runBody name vs m =
      (runBody f.2 { m with scopes := [bindParams .empty f.1.params vs] }).bind fun r =>
        .done (r.1.value, { r.2 with scopes := m.scopes }) := by
    rw [callWith, if_neg declared, known]
    simp only [if_pos arity]
    rw [Eval.map_apply]
    change (Outcome.bind (Outcome.bind _ _) _) = _
    generalize runBody f.2 { m with scopes := [bindParams .empty f.1.params vs] } = o
    cases o <;> rfl
  rw [opened]
  refine body.bind fun ⟨flow, m₁⟩ S₁ after => ?_
  exact simulates_back (fun b => (after b).1) (fun b => (after b).2.1) (after true).2.2.1 takes
    (fun b => (after b).2.2.2) ready

end

section

variable {p : Program} {t : Typed.Program} {G : List (String × Ty)} {P : Bool → Ir.Program}
  {rounds free : Nat}

/-- What a call does once it is known which function it calls. -/
def BodyFollows (p : Program) (P : Bool → Ir.Program) (rounds : Nat) (G : List (String × Ty))
    (free : Nat) (runBody : Block → Eval Flow) : Prop :=
  ∀ {name : String} {f : FunctionHeader × Block} {tf : Typed.Program.Function}
    {F : Bool → Ir.Function} {vs : List Value} {m : Memory} {S : Bool → State} {ls : List Level}
    {operands : Bool → List Operand} {dest : Bool → Option Temp} {rest : Bool → List Instr},
    name ≠ "print" → FunctionTyped (signatures p) G f tf →
    (∀ b, lowerFunction b tf = .ok (F b)) → (∀ b, (P b).callable? name = some (F b)) →
    List.Forall₂ Value.HasType vs (Signature.of f.1).params →
    (∀ b, Faces (S b) (.call (dest b) name (operands b) :: rest b)) →
    (∀ b, (S b).frame.readAll (operands b) = .ok (vs.map Value.code)) →
    (∀ b, Ready G free ls m (S b)) →
    Simulates P rounds (Permitted G) S
      (fun b r s' => s'.waiting = ⟨((S b).facing (rest b)).frame, dest b, name⟩ :: (S b).waiting ∧
        Leaves r.1.value s' ∧ r.1.value.HasType (.ofReturn f.1.returnType) ∧
        WorldMatches G r.2 s')
      (runBody f.2 { m with scopes := [bindParams .empty f.1.params vs] })

/-- The calls of all functions follow if their bodies do. -/
theorem BodyFollows.calls {runBody : Block → Eval Flow} (h : Compiled p t G P)
    (body : BodyFollows p P rounds G free runBody) :
    CallsFollow P rounds (signatures p) G free (callWith p runBody) := by
  intro name f vs m S ls operands dest rest declared typed faces reads takes ready
  rcases callable_cases declared with ⟨rfl, rfl⟩ | ⟨notPrint, header, block, known, rfl⟩
  · obtain ⟨v, _, isInt, none, rfl⟩ := List.forall₂_cons_right_iff.1 typed
    obtain rfl := List.forall₂_nil_right_iff.1 none
    obtain ⟨n, rfl⟩ := isInt.int_inv
    rw [callWith, if_pos rfl]
    exact simulates_print faces reads (fun b => (takes b).2 rfl) ready
  · obtain ⟨tf, -, functionTyped, code⟩ := h.function known
    choose F lowered callable using code
    have arity : header.params.length = vs.length := by
      have same := typed.length_eq
      rw [Signature.of, List.length_map] at same
      exact same.symm
    exact simulates_declared notPrint known arity takes ready
      (body notPrint functionTyped lowered callable typed faces reads ready)

/-- The parameters of the code of a function take as many arguments as the function. -/
theorem params_of_lowered {scope : ScopeId} {span : Span} {header : FunctionHeader}
    {typed : Typed.FunctionHeader} {body : Typed.Block} {folding : Bool} {code : Ir.Function}
    (hh : HeaderTyped scope header typed)
    (lowered : lowerFunction folding (span, typed, body) = .ok code) :
    code.params = header.params.map fun p => .frame (numbered p.name scope) := by
  obtain ⟨places, _, _, placed, -, rfl⟩ := Lowering.lowerFunction_ok_iff.1 lowered
  exact places_of_params hh.inner hh.params (Lowering.mapM_ok_iff.1 placed)

/-- No body is run if no more calls can become active. -/
theorem bodyFollows_zero : BodyFollows p P rounds G 0 fun _ => .of (.failed .stackOverflow) := by
  intro name f tf F vs m S ls operands dest rest notPrint typed lowered callable args faces reads
    ready
  cases typed with
  | @mk _ _ _ span _ header _ _ scope _ _ _ hh _ _ =>
    have arity : ∀ b, (F b).params.length = (vs.map Value.code).length := by
      intro b
      rw [params_of_lowered hh (lowered b), List.length_map, List.length_map, args.length_eq,
        Signature.of, List.length_map]
    exact .stop trivial 1 fun b => Ir.stops_call (faces b).here (reads b) notPrint (callable b)
      (arity b) (by have := (ready b).depth; omega)

/-- A body is run with one call more. -/
theorem bodyFollows_succ {call : Calls}
    (hcall : CallsFollow P rounds (signatures p) G free call) :
    BodyFollows p P rounds G (free + 1) fun body => execAll .store call rounds body.body := by
  intro name f tf F vs m S ls operands dest rest notPrint typed lowered callable args faces reads
    ready
  cases typed with
  | @mk Γ Γ' id span bodySpan header typed body scope bs functions globals hh hb returns =>
    have params := fun b => params_of_lowered hh (lowered b)
    have arity : ∀ b, (F b).params.length = (vs.map Value.code).length := by
      intro b
      rw [params b, List.length_map, List.length_map, args.length_eq, Signature.of,
        List.length_map]
    have code : ∀ b, ∃ code fresh, lowerAll b bs {} = .ok (code, fresh) ∧
        (F b).code = closed code := by
      intro b
      obtain ⟨_, code, fresh, -, lowered, shape⟩ := Lowering.lowerFunction_ok_iff.1 (lowered b)
      rw [Lowering.lowerBlock_eq] at lowered
      exact ⟨code, fresh, lowered, by rw [shape]⟩
    choose code fresh lowered' isClosed using code
    have room : ∀ b, (S b).depth < Ir.maxDepth := fun b => by
      have := (ready b).depth
      omega
    refine .after (fun b => Ir.steps_call (faces b).here (reads b) notPrint (callable b) (arity b)
      (room b)) ?_
    have regular := Context.Regular.enter functions globals hh
    have entered : ∀ b, Ready G free (Γ.enter scope header.params).locals
        { m with scopes := [bindParams .empty header.params vs] }
        ((S b).entered (rest b) (dest b) name (F b) (vs.map Value.code)) := by
      intro b
      refine ⟨?_, .cons ?_ .nil, (ready b).world.typed, (ready b).world.values,
        (ready b).world.printed⟩
      · have := (ready b).depth
        simp only [State.depth, State.entered, List.length_cons] at this ⊢
        omega
      · have matched := levelMatches_bind (LevelMatches.empty .empty scope) rfl args
        rw [← params b] at matched
        exact matched
    have facesBody := fun b => faces_closed (s := (S b).entered (rest b) (dest b) name (F b)
      (vs.map Value.code)) (isClosed b) (isClosed b)
      (Lowering.lowerAll_emits bs (lowered' b)).labels
    have inBody : ∀ name type, Γ'.globals.lookup name = some type → G.lookup name = some type := by
      obtain ⟨same, -⟩ := hb.inside body rfl
      rw [same]
      exact globals
    refine (simulates_all hcall body hb regular inBody lowered' facesBody entered).imp
      fun b ⟨flow, m₁⟩ s' ended => ?_
    obtain ⟨keeps, leaves, typed, world⟩ := ended.leaves returns
      (Lowering.lowerAll_returns bs (lowered' b))
    exact ⟨keeps.waiting, leaves, typed, world⟩

/-- Runs follow the calls of a program, however many more can become active. -/
theorem calls_follow (h : Compiled p t G P) (rounds : Nat) :
    ∀ free, CallsFollow P rounds (signatures p) G free (invoke .store p rounds free)
  | 0 => BodyFollows.calls h bodyFollows_zero
  | free + 1 => BodyFollows.calls h (bodyFollows_succ (calls_follow h rounds free))

end

end MiniLang.Semantics
