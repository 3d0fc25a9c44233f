import MiniLang.Proofs.Correctness.Expression

/-!
# Statements are compiled correctly

The runs of the code of statements follow their execution (`simulates_stmt`, `simulates_all`), given
that those of calls do: they get past the code, or to a `return` with the number of the value that
is given back. Control gets past no statement that is said to return. A loop is followed round by
round, and each round takes at least one step.
-/

set_option autoImplicit false

namespace MiniLang.Semantics

open Ir (State Faces Keeps Steps Stops Operand Temp Instr)
open Lowering (Fresh lowerExpr lowerStmt lowerBlock lowerAll choice choiceElse loop)

/-- The running call is about to give back a value. -/
inductive Leaves (v : Value) (s : State) : Prop
  | nothing {rest : List Instr} (here : s.frame.code = .ret none :: rest) (isUnit : v = .unit)
  | value {o : Operand} {rest : List Instr} (here : s.frame.code = .ret (some o) :: rest)
      (read : s.frame.read o = .ok v.code)

/-- After the code of statements in a function that gives back `expected`; `returns` tells whether
control is said not to get past them. -/
inductive Ended (G : List (String × Ty)) (free : Nat) (ls : List Level) (rest : List Instr)
    (expected : Option Ty) (returns : Bool) (s : State) : Flow × Memory → State → Prop
  | next {m : Memory} {s' : State} (keeps : Keeps 0 s s') (here : s'.frame.code = rest)
      (passed : returns = false) (ready : Ready G free ls m s') :
      Ended G free ls rest expected returns s (.next, m) s'
  | returned {v : Value} {m : Memory} {s' : State} {type : Ty} (keeps : Keeps 0 s s')
      (leaves : Leaves v s') (expects : expected = some type) (typed : v.HasType type)
      (world : WorldMatches G m s') :
      Ended G free ls rest expected returns s (.returned v, m) s'

section

variable {P : Bool → Ir.Program} {rounds free : Nat} {Φ : List (String × Signature)}
  {G : List (String × Ty)} {call : Calls} {expected : Option Ty} {Γ : Context} {ls : List Level}
  {S T : Bool → State} {m : Memory} {rest : Bool → List Instr}

/-- What follows an evaluation may take more steps at its end. -/
theorem Simulates.finish {α : Type} {allowed : Failure → Prop}
    {good good' : Bool → α → State → Prop} {o : Outcome α} (h : Simulates P rounds allowed S good o)
    (exit : ∀ a S', (∀ b, good b a (S' b)) → Simulates P rounds allowed S' good' (.done a)) :
    Simulates P rounds allowed S good' o := by
  have composed := h.bind exit
  cases o <;> exact composed

/-- What holds after statements that control gets past. -/
theorem Ended.of_next {returns : Bool} {rest : List Instr} {s s' : State} {m : Memory}
    (h : Ended G free ls rest expected returns s (.next, m) s') :
    Keeps 0 s s' ∧ s'.frame.code = rest ∧ returns = false ∧ Ready G free ls m s' := by
  cases h with
  | next keeps here passed ready => exact ⟨keeps, here, passed, ready⟩

/-- Where a function is left, it does not matter what would have come. -/
theorem Ended.of_returned {ls' : List Level} {returns : Bool} {rest rest' : List Instr}
    {s s' : State} {v : Value} {m : Memory} (h : Ended G free ls rest expected returns s
      (.returned v, m) s') : Ended G free ls' rest' expected returns s (.returned v, m) s' := by
  cases h with
  | returned keeps leaves expects typed world => exact .returned keeps leaves expects typed world

/-- Less may be said about whether control gets past statements, and runs may start earlier. -/
theorem Ended.weaken {returns returns' : Bool} {rest : List Instr} {s₀ s s' : State}
    {r : Flow × Memory} (h : Ended G free ls rest expected returns s r s') (keeps : Keeps 0 s₀ s)
    (less : returns = false → returns' = false) :
    Ended G free ls rest expected returns' s₀ r s' := by
  cases h with
  | next kept here passed ready => exact .next (keeps.trans kept le_rfl) here (less passed) ready
  | returned kept leaves expects typed world =>
    exact .returned (keeps.trans kept le_rfl) leaves expects typed world

/-- Code of statements inside of a construct, and the jump to the end of the construct. -/
theorem simulates_inside {returns returns' : Bool} {o : Outcome (Flow × Memory)}
    {code more : Bool → List Instr} {name : Bool → String} (keeps : ∀ b, Keeps 0 (T b) (S b))
    (faces : ∀ b, Faces (S b) (code b ++ .jump (name b) :: more b))
    (toEnd : ∀ b, .label (name b) :: rest b <:+ more b)
    (h : Simulates P rounds (Permitted G) S
      (fun b => Ended G free ls (.jump (name b) :: more b) expected returns (S b)) o)
    (less : returns = false → returns' = false) :
    Simulates P rounds (Permitted G) S
      (fun b => Ended G free ls (rest b) expected returns' (T b)) o := by
  refine h.finish fun ⟨flow, m'⟩ S' after => ?_
  cases flow with
  | next =>
    have passes := fun b => (after b).of_next
    have faces' := fun b => (passes b).1.faces (faces b) (passes b).2.1
    have ahead := fun b => (faces' b).ahead ((toEnd b).trans (List.suffix_cons ..))
    refine .after (fun b => Ir.steps_jump (faces' b) (ahead b)) (.here fun b => ?_)
    obtain ⟨kept, -, passed, ready⟩ := passes b
    exact .next (((keeps b).trans kept le_rfl).facing _) rfl (less passed) (ready.facing _)
  | returned v => exact .here fun b => (after b).of_returned.weaken (keeps b) less

/-- Runs of the code of a condition follow its evaluation. -/
theorem simulates_condition (hcall : CallsFollow P rounds Φ G free call) {e : Expr}
    {t : Typed.Expr} {f f' : Bool → Fresh} {w : Bool → Lowering.Value} (typed : ExprTyped Γ e t)
    (test : t.type = .bool) (regular : Γ.Regular Φ G)
    (lowered : ∀ b, lowerExpr b t (f b) = .ok (w b, f' b))
    (faces : ∀ b, Faces (S b) ((w b).code ++ rest b))
    (ready : ∀ b, Ready G free Γ.locals m (S b)) :
    Simulates P rounds (Permitted G) S
      (fun b r s' => Evaluated G free Γ.locals 0 (w b).operand (rest b) .bool (S b)
        (.bool r.1, r.2) s')
      (evalCondition .store call e m) := by
  rw [evalCondition, Eval.bind_apply]
  refine (simulates_expr hcall e typed regular lowered faces ready).bind
    fun ⟨v, m₁⟩ S₁ after => ?_
  rw [test] at after
  obtain ⟨a, rfl⟩ := (after true).typed.bool_inv
  refine .here fun b => ?_
  exact ⟨(after b).keeps.mono (Nat.zero_le _), (after b).here, (after b).operand,
    (after b).typed, (after b).ready⟩

/-- The code of a choice after its first label. -/
def branchHead (c : Lowering.Value) (yes no : String) (branches : List Instr) : List Instr :=
  c.code ++ .branch c.operand yes no :: .label yes :: branches

/-- The end of a choice, behind the code of its last branch. -/
def choiceEnd (n : Nat) (rest : List Instr) : List Instr :=
  .jump (Lowering.label "if" "end" n) :: .label (Lowering.label "if" "end" n) :: rest

/-- What follows the code of the first branch of a choice that has a second one. -/
def choiceMiddle (n : Nat) (no rest : List Instr) : List Instr :=
  .jump (Lowering.label "if" "end" n) :: .label (Lowering.label "if" "else" n) ::
    (no ++ choiceEnd n rest)

theorem choice_layout (n : Nat) (c : Lowering.Value) (body rest : List Instr) :
    choice n c body ++ rest = .label (Lowering.label "if" "cond" n) ::
      branchHead c (Lowering.label "if" "then" n) (Lowering.label "if" "end" n)
        (body ++ choiceEnd n rest) := by
  simp [choice, branchHead, choiceEnd]

theorem choiceElse_layout (n : Nat) (c : Lowering.Value) (yes no rest : List Instr) :
    choiceElse n c yes no ++ rest = .label (Lowering.label "if" "cond" n) ::
      branchHead c (Lowering.label "if" "then" n) (Lowering.label "if" "else" n)
        (yes ++ choiceMiddle n no rest) := by
  simp [choiceElse, branchHead, choiceMiddle, choiceEnd]

/-- The label behind a jump at the end of a piece of code. -/
theorem jump_suffix (code : List Instr) (target name : String) (after : List Instr) :
    .label name :: after <:+ code ++ .jump target :: .label name :: after :=
  List.IsSuffix.trans (List.suffix_cons ..) (List.suffix_append ..)

/-- A branch on a condition, given how runs go on from both of its labels. -/
theorem simulates_branch {limit : Nat} {α : Type} {good : Bool → α × Memory → State → Prop}
    {test : Eval Bool} {thenCase elseCase : Eval α} {w : Bool → Lowering.Value}
    {yes no : Bool → String} {onYes onNo : Bool → List Instr}
    (faces : ∀ b, Faces (S b) (branchHead (w b) (yes b) (no b) (onYes b)))
    (toNo : ∀ b, .label (no b) :: onNo b <:+ onYes b)
    (condition : Simulates P limit (Permitted G) S
      (fun b r s' => Evaluated G free ls 0 (w b).operand
        (.branch (w b).operand (yes b) (no b) :: .label (yes b) :: onYes b) .bool (S b)
        (.bool r.1, r.2) s')
      (test m))
    (holds : ∀ S' m', (∀ b, Keeps 0 (S b) (S' b)) → (∀ b, Faces (S' b) (onYes b)) →
      (∀ b, Ready G free ls m' (S' b)) →
      Simulates P limit (Permitted G) S' good (thenCase m'))
    (fails : ∀ S' m', (∀ b, Keeps 0 (S b) (S' b)) → (∀ b, Faces (S' b) (onNo b)) →
      (∀ b, Ready G free ls m' (S' b)) →
      Simulates P limit (Permitted G) S' good (elseCase m')) :
    Simulates P limit (Permitted G) S good
      ((test >>= fun b => if b = true then thenCase else elseCase) m) := by
  rw [Eval.bind_apply]
  refine condition.bind fun ⟨truth, m₁⟩ S₁ after => ?_
  have faces₁ := fun b => (after b).keeps.faces (faces b) (after b).here
  have ahead : ∀ b, .label (if truth then yes b else no b) ::
      (if truth then onYes b else onNo b) <:+ (S₁ b).frame.function.code := by
    intro b
    refine List.IsSuffix.trans ?_ ((faces₁ b).ahead (List.suffix_cons ..))
    cases truth with
    | true => exact List.suffix_rfl
    | false => exact (toNo b).trans (List.suffix_cons ..)
  refine .after (fun b => Ir.steps_branch (faces₁ b) (after b).operand (ahead b)) ?_
  have keeps := fun b => (after b).keeps.facing (if truth then onYes b else onNo b)
  have faces₂ := fun b => (faces₁ b).facing ((List.suffix_cons ..).trans (ahead b))
  have ready := fun b => (after b).ready.facing (if truth then onYes b else onNo b)
  cases truth with
  | true => exact holds _ m₁ keeps faces₂ ready
  | false => exact fails _ m₁ keeps faces₂ ready

/-- A choice with one branch. -/
theorem simulates_ifThen (hcall : CallsFollow P rounds Φ G free call) {span : Span}
    {condition : Expr} {body : Block} {c : Typed.Expr} {f f' : Bool → Fresh}
    {w : Bool → Lowering.Value} {label : Bool → Nat} {yes : Bool → List Instr} {returns : Bool}
    (typed : ExprTyped Γ condition c) (test : c.type = .bool) (regular : Γ.Regular Φ G)
    (lowered : ∀ b, lowerExpr b c (f b) = .ok (w b, f' b))
    (faces : ∀ b, Faces (S b) (choice (label b) (w b) (yes b) ++ rest b))
    (ready : ∀ b, Ready G free Γ.locals m (S b))
    (inBody : ∀ S' m', (∀ b, Faces (S' b) (yes b ++ choiceEnd (label b) (rest b))) →
      (∀ b, Ready G free Γ.locals m' (S' b)) →
      Simulates P rounds (Permitted G) S'
        (fun b => Ended G free Γ.locals (choiceEnd (label b) (rest b)) expected returns (S' b))
        (execBlock .store call rounds body m')) :
    Simulates P rounds (Permitted G) S
      (fun b => Ended G free Γ.locals (rest b) expected false (S b))
      (execStmt .store call rounds (.ifThen span condition body) m) := by
  have facesAll := fun b => choice_layout (label b) (w b) (yes b) (rest b) ▸ faces b
  have facesHead := fun b => (facesAll b).tail
  have entered := fun b => (Keeps.refl 0 (S b)).facing (branchHead (w b)
    (Lowering.label "if" "then" (label b)) (Lowering.label "if" "end" (label b))
    (yes b ++ choiceEnd (label b) (rest b)))
  have toEnd := fun b => jump_suffix (yes b) (Lowering.label "if" "end" (label b))
    (Lowering.label "if" "end" (label b)) (rest b)
  rw [execStmt]
  refine .after (fun b => Ir.steps_label (facesAll b).here) ?_
  refine simulates_branch facesHead toEnd (simulates_condition hcall typed test regular lowered
    facesHead fun b => (ready b).facing _) (fun S₁ m₁ keeps faces₁ ready₁ => ?_)
    fun S₁ m₁ keeps faces₁ ready₁ => ?_
  · exact simulates_inside (fun b => (entered b).trans (keeps b) le_rfl) faces₁
      (fun b => List.suffix_rfl) (inBody S₁ m₁ faces₁ ready₁) fun _ => rfl
  · exact .here fun b => .next ((entered b).trans (keeps b) le_rfl) (faces₁ b).here rfl (ready₁ b)

/-- A choice with two branches. Control is said not to get past it only if that is said of both. -/
theorem simulates_ifThenElse (hcall : CallsFollow P rounds Φ G free call) {span : Span}
    {condition : Expr} {body : Block} {elseBranch : Stmt} {c : Typed.Expr} {f f' : Bool → Fresh}
    {w : Bool → Lowering.Value} {label : Bool → Nat} {yes no : Bool → List Instr}
    {returns returns' : Bool} (typed : ExprTyped Γ condition c) (test : c.type = .bool)
    (regular : Γ.Regular Φ G) (lowered : ∀ b, lowerExpr b c (f b) = .ok (w b, f' b))
    (faces : ∀ b, Faces (S b) (choiceElse (label b) (w b) (yes b) (no b) ++ rest b))
    (ready : ∀ b, Ready G free Γ.locals m (S b))
    (inBody : ∀ S' m', (∀ b, Faces (S' b) (yes b ++ choiceMiddle (label b) (no b) (rest b))) →
      (∀ b, Ready G free Γ.locals m' (S' b)) →
      Simulates P rounds (Permitted G) S'
        (fun b => Ended G free Γ.locals (choiceMiddle (label b) (no b) (rest b)) expected returns
          (S' b))
        (execBlock .store call rounds body m'))
    (inElse : ∀ S' m', (∀ b, Faces (S' b) (no b ++ choiceEnd (label b) (rest b))) →
      (∀ b, Ready G free Γ.locals m' (S' b)) →
      Simulates P rounds (Permitted G) S'
        (fun b => Ended G free Γ.locals (choiceEnd (label b) (rest b)) expected returns' (S' b))
        (execStmt .store call rounds elseBranch m')) :
    Simulates P rounds (Permitted G) S
      (fun b => Ended G free Γ.locals (rest b) expected (returns && returns') (S b))
      (execStmt .store call rounds (.ifThenElse span condition body elseBranch) m) := by
  have facesAll := fun b => choiceElse_layout (label b) (w b) (yes b) (no b) (rest b) ▸ faces b
  have facesHead := fun b => (facesAll b).tail
  have entered := fun b => (Keeps.refl 0 (S b)).facing (branchHead (w b)
    (Lowering.label "if" "then" (label b)) (Lowering.label "if" "else" (label b))
    (yes b ++ choiceMiddle (label b) (no b) (rest b)))
  have toElse := fun b => jump_suffix (yes b) (Lowering.label "if" "end" (label b))
    (Lowering.label "if" "else" (label b)) (no b ++ choiceEnd (label b) (rest b))
  have toEnd := fun b => jump_suffix (no b) (Lowering.label "if" "end" (label b))
    (Lowering.label "if" "end" (label b)) (rest b)
  rw [execStmt]
  refine .after (fun b => Ir.steps_label (facesAll b).here) ?_
  refine simulates_branch facesHead toElse (simulates_condition hcall typed test regular lowered
    facesHead fun b => (ready b).facing _) (fun S₁ m₁ keeps faces₁ ready₁ => ?_)
    fun S₁ m₁ keeps faces₁ ready₁ => ?_
  · refine simulates_inside (fun b => (entered b).trans (keeps b) le_rfl) faces₁
      (fun b => (toEnd b).trans (List.suffix_cons ..)) (inBody S₁ m₁ faces₁ ready₁) fun open' => ?_
    rw [open', Bool.false_and]
  · refine simulates_inside (fun b => (entered b).trans (keeps b) le_rfl) faces₁
      (fun b => List.suffix_rfl) (inElse S₁ m₁ faces₁ ready₁) fun open' => ?_
    rw [open', Bool.and_false]

/-- The code of a loop after its first label. -/
def loopHead (top yes no : String) (c : Lowering.Value) (body rest : List Instr) : List Instr :=
  branchHead c yes no (body ++ .jump top :: .label no :: rest)

theorem loop_layout (n : Nat) (c : Lowering.Value) (body rest : List Instr) :
    loop n c body ++ rest = .label (Lowering.label "while" "cond" n) ::
      loopHead (Lowering.label "while" "cond" n) (Lowering.label "while" "body" n)
        (Lowering.label "while" "end" n) c body rest := by
  simp [loop, loopHead, branchHead]

/-- A loop that may take `r` rounds, from the test on. -/
theorem simulates_loop {returns : Bool} {test : Eval Bool} {body : Eval Flow}
    {top yes no : Bool → String} {c : Bool → Lowering.Value} {round : Bool → List Instr}
    (condition : ∀ S m,
      (∀ b, Faces (S b) (loopHead (top b) (yes b) (no b) (c b) (round b) (rest b))) →
      (∀ b, Ready G free ls m (S b)) →
      Simulates P rounds (Permitted G) S
        (fun b r s' => Evaluated G free ls 0 (c b).operand (.branch (c b).operand (yes b) (no b) ::
          .label (yes b) :: (round b ++ .jump (top b) :: .label (no b) :: rest b)) .bool (S b)
          (.bool r.1, r.2) s')
        (test m))
    (inBody : ∀ S m,
      (∀ b, Faces (S b) (round b ++ .jump (top b) :: .label (no b) :: rest b)) →
      (∀ b, Ready G free ls m (S b)) →
      Simulates P rounds (Permitted G) S
        (fun b => Ended G free ls (.jump (top b) :: .label (no b) :: rest b) expected returns (S b))
        (body m)) :
    ∀ r ≤ rounds, ∀ S m, (∀ b, Keeps 0 (T b) (S b)) →
      (∀ b, Faces (S b) (loopHead (top b) (yes b) (no b) (c b) (round b) (rest b))) →
      (∀ b, .label (top b) :: loopHead (top b) (yes b) (no b) (c b) (round b) (rest b) <:+
        (S b).frame.function.code) →
      (∀ b, Ready G free ls m (S b)) →
      Simulates P r (Permitted G) S
        (fun b => Ended G free ls (rest b) expected false (T b)) (repeatWhile test body r m) := by
  intro r
  induction r with
  | zero =>
    intro _ S m _ _ _ _ b
    exact ⟨S b, .none _⟩
  | succ r ih =>
    intro le S m keeps faces back ready
    have toEnd := fun b => jump_suffix (round b) (top b) (no b) (rest b)
    rw [repeatWhile]
    refine simulates_branch faces toEnd ((condition S m faces ready).mono le)
      (fun S₁ m₁ keeps₁ faces₁ ready₁ => ?_) fun S₁ m₁ keeps₁ faces₁ ready₁ => ?_
    · rw [Eval.bind_apply]
      refine ((inBody S₁ m₁ faces₁ ready₁).mono le).bind fun ⟨flow, m₂⟩ S₂ after => ?_
      cases flow with
      | next =>
        have passes := fun b => (after b).of_next
        have faces₂ := fun b => (passes b).1.faces (faces₁ b) (passes b).2.1
        have kept := fun b => (keeps₁ b).trans (passes b).1 le_rfl
        have back₂ : ∀ b, .label (top b) ::
            loopHead (top b) (yes b) (no b) (c b) (round b) (rest b) <:+
              (S₂ b).frame.function.code := by
          intro b
          rw [(kept b).function]
          exact back b
        refine .steps (fun b => Ir.steps_jump (faces₂ b) (back₂ b))
          (ih (Nat.le_of_succ_le le) _ m₂ (fun b => ?_) (fun b => ?_) (fun b => back₂ b)
            fun b => (passes b).2.2.2.facing _) (by omega)
        · exact ((keeps b).trans (kept b) le_rfl).facing _
        · exact (faces₂ b).facing ((List.suffix_cons ..).trans (back₂ b))
      | returned v =>
        refine .here fun b => ?_
        exact (after b).of_returned.weaken ((keeps b).trans (keeps₁ b) le_rfl) fun _ => rfl
    · refine .here fun b => ?_
      exact .next ((keeps b).trans (keeps₁ b) le_rfl) (faces₁ b).here rfl (ready₁ b)

/-- A statement and those after it. -/
theorem simulates_cons {ls' : List Level} {r r' : Bool} {inner : Bool → List Instr} {st : Stmt}
    {ss : List Stmt}
    (first : Simulates P rounds (Permitted G) S
      (fun b => Ended G free ls' (inner b) expected r (S b)) (execStmt .store call rounds st m))
    (others : ∀ S' m', (∀ b, Keeps 0 (S b) (S' b)) → (∀ b, (S' b).frame.code = inner b) →
      (∀ b, Ready G free ls' m' (S' b)) →
      Simulates P rounds (Permitted G) S'
        (fun b => Ended G free ls (rest b) expected r' (S' b)) (execAll .store call rounds ss m')) :
    Simulates P rounds (Permitted G) S
      (fun b => Ended G free ls (rest b) expected (r || r') (S b))
      (execAll .store call rounds (st :: ss) m) := by
  rw [execAll, Eval.bind_apply]
  refine first.bind fun ⟨flow, m₁⟩ S₁ after => ?_
  cases flow with
  | next =>
    have passes := fun b => (after b).of_next
    refine (others S₁ m₁ (fun b => (passes b).1) (fun b => (passes b).2.1)
      fun b => (passes b).2.2.2).imp fun b a s ended => ended.weaken (passes b).1 fun open' => ?_
    rw [(passes true).2.2.1, open']
    rfl
  | returned v =>
    refine .here fun b => ?_
    cases after b with
    | returned kept leaves expects typed world =>
      exact .returned kept leaves expects typed world

end

section

variable {P : Bool → Ir.Program} {rounds free : Nat} {Φ : List (String × Signature)}
  {G : List (String × Ty)} {call : Calls}

/-- A declaration. -/
theorem simulates_let (hcall : CallsFollow P rounds Φ G free call) {Γ : Context}
    {expected : Option Ty} {f f' : Bool → Fresh} {code rest : Bool → List Instr}
    {S : Bool → State} {m : Memory} {id : NodeId} {span nameSpan : Span} {name : String}
    {declared : Option WrittenType} {value : Expr} {v : Typed.Expr} {ref : SymbolRef}
    (typed : ExprTyped Γ value v) (place : ref.scope = Γ.scope) (regular : Γ.Regular Φ G)
    (globals : Γ.locals = [] → G.lookup name = some v.type)
    (lowered : ∀ b, lowerStmt b (.letVar span name (some ref) v.type v) (f b) =
      .ok (code b, f' b))
    (faces : ∀ b, Faces (S b) (code b ++ rest b))
    (ready : ∀ b, Ready G free Γ.locals m (S b)) :
    Simulates P rounds (Permitted G) S
      (fun b => Ended G free (Γ.declare name v.type).locals (rest b) expected false (S b))
      (execStmt .store call rounds (.letVar id span name nameSpan declared value) m) := by
  have lowered' : ∀ b, ∃ o, lowerExpr b v (f b) = .ok (o, f' b) ∧
      code b = o.code ++ [.store (Lowering.placeFor Γ.scope name) o.operand] := by
    intro b
    obtain ⟨-, o, isPlace, ho, same, shape⟩ := Lowering.lowerStmt_letVar.1 (lowered b)
    rw [Lowering.placeOf_eq, place] at same
    cases same
    exact ⟨o, ho, shape⟩
  choose o ho shape using lowered'
  obtain rfl := funext shape
  have facesInner : ∀ b, Faces (S b) ((o b).code ++
      .store (Lowering.placeFor Γ.scope name) (o b).operand :: rest b) := by simpa using faces
  rw [execStmt, Eval.bind_apply]
  refine (simulates_expr hcall value typed regular ho facesInner ready).bind
    fun ⟨a, m₁⟩ S₁ after => ?_
  refine .after (fun b => Ir.steps_store (after b).here (after b).operand) (.here fun b => ?_)
  refine .next ((((after b).keeps.mono (Nat.zero_le _)).facing _).store _ _) ?_ rfl
    (((after b).ready.facing _).declare regular globals (after b).typed)
  rw [State.store_code, State.facing_code]

mutual

/-- Runs of the code of a statement follow its execution. -/
theorem simulates_stmt (hcall : CallsFollow P rounds Φ G free call) :
    ∀ (st : Stmt) {t : Typed.Stmt} {Γ : Context} {expected : Option Ty} {f f' : Bool → Fresh}
      {code rest : Bool → List Instr} {S : Bool → State} {m : Memory},
      StmtTyped Γ expected st t → Γ.Regular Φ G →
      (∀ b, lowerStmt b t (f b) = .ok (code b, f' b)) →
      (∀ b, Faces (S b) (code b ++ rest b)) → (∀ b, Ready G free Γ.locals m (S b)) →
      Simulates P rounds (Permitted G) S
        (fun b => Ended G free Γ.locals (rest b) expected t.returns (S b))
        (execStmt .store call rounds st m)
  | .letVar id span name nameSpan declared value, t, Γ, expected, f, f', code, rest, S, m, typed,
      regular, lowered, faces, ready => by cases typed
  | .function span header body, t, Γ, expected, f, f', code, rest, S, m, typed, regular, lowered,
      faces, ready => by cases typed
  | .error span, t, Γ, expected, f, f', code, rest, S, m, typed, regular, lowered, faces,
      ready => by cases typed
  | .block inner, t, Γ, expected, f, f', code, rest, S, m, typed, regular, lowered, faces,
      ready => by
    cases typed with
    | block here hb =>
      rw [execStmt, Typed.Stmt.returns]
      exact simulates_block hcall inner hb regular
        (fun b => (Lowering.lowerStmt_block.1 (lowered b)).2) faces ready
  | .expression span value, t, Γ, expected, f, f', code, rest, S, m, typed, regular, lowered,
      faces, ready => by
    cases typed with
    | expression here hv =>
      choose _ v hv' shape using fun b => Lowering.lowerStmt_expression.1 (lowered b)
      obtain rfl := funext shape
      rw [execStmt, Eval.bind_apply, Typed.Stmt.returns]
      refine (simulates_expr hcall value hv regular hv' faces ready).bind
        fun ⟨a, m₁⟩ S₁ after => ?_
      exact .here fun b => .next ((after b).keeps.mono (Nat.zero_le _)) (after b).here rfl
        (after b).ready
  | .ret span none, t, Γ, expected, f, f', code, rest, S, m, typed, regular, lowered, faces,
      ready => by
    cases typed with
    | leave here =>
      obtain rfl := funext fun b => (Lowering.lowerStmt_ret_none.1 (lowered b)).2.1
      rw [execStmt]
      exact .here fun b => .returned (.refl ..) (.nothing (faces b).here rfl) rfl .unit
        (ready b).world
  | .ret span (some value), t, Γ, expected, f, f', code, rest, S, m, typed, regular, lowered, faces,
      ready => by
    cases typed with
    | giveBack here hv =>
      choose _ v hv' shape using fun b => Lowering.lowerStmt_ret_some.1 (lowered b)
      obtain rfl := funext shape
      have facesInner : ∀ b, Faces (S b) ((v b).code ++ .ret (some (v b).operand) :: rest b) := by
        simpa using faces
      rw [execStmt, Eval.bind_apply]
      refine (simulates_expr hcall value hv regular hv' facesInner ready).bind
        fun ⟨a, m₁⟩ S₁ after => ?_
      exact .here fun b => .returned ((after b).keeps.mono (Nat.zero_le _))
        (.value (after b).here (after b).operand) rfl (after b).typed (after b).ready.world
  | .ifThen span condition body, t, Γ, expected, f, f', code, rest, S, m, typed, regular, lowered,
      faces, ready => by
    cases typed with
    | @ifThen _ _ _ _ c _ yes here hc test hb =>
      choose _ w fw body' hw hbody shape using fun b => Lowering.lowerStmt_ifThen.1 (lowered b)
      obtain rfl := funext shape
      rw [Typed.Stmt.returns]
      exact simulates_ifThen hcall hc test regular hw faces ready
        fun S₁ m₁ faces₁ ready₁ => simulates_block hcall body hb regular hbody faces₁ ready₁
  | .ifThenElse span condition body elseBranch, t, Γ, expected, f, f', code, rest, S, m, typed,
      regular, lowered, faces, ready => by
    cases typed with
    | @ifThenElse _ _ _ _ c _ yes _ no here hc test hb ht =>
      choose _ w fw body' fy else' hw hbody helse shape using
        fun b => Lowering.lowerStmt_ifThenElse.1 (lowered b)
      obtain rfl := funext shape
      rw [Typed.Stmt.returns]
      exact simulates_ifThenElse hcall hc test regular hw faces ready
        (fun S₁ m₁ faces₁ ready₁ => simulates_block hcall body hb regular hbody faces₁ ready₁)
        fun S₁ m₁ faces₁ ready₁ => simulates_stmt hcall elseBranch ht regular helse faces₁ ready₁
  | .whileLoop span condition body, t, Γ, expected, f, f', code, rest, S, m, typed, regular,
      lowered, faces, ready => by
    cases typed with
    | @whileLoop _ _ _ _ c _ round here hc test hb =>
      choose _ w fw body' hw hbody shape using
        fun b => Lowering.lowerStmt_whileLoop.1 (lowered b)
      obtain rfl := funext shape
      have facesAll := fun b => loop_layout (f b).label (w b) (body' b) (rest b) ▸ faces b
      rw [execStmt, Typed.Stmt.returns]
      refine .after (fun b => Ir.steps_label (facesAll b).here) ?_
      exact simulates_loop
        (fun S₁ m₁ faces₁ ready₁ => simulates_condition hcall hc test regular hw faces₁ ready₁)
        (fun S₁ m₁ faces₁ ready₁ => simulates_block hcall body hb regular hbody faces₁ ready₁)
        rounds le_rfl _ m (fun b => (Keeps.refl ..).facing _) (fun b => (facesAll b).tail)
        (fun b => (facesAll b).suffix) fun b => (ready b).facing _

/-- Runs of the code of a block follow its execution. -/
theorem simulates_block (hcall : CallsFollow P rounds Φ G free call) :
    ∀ (block : Block) {t : Typed.Block} {Γ : Context} {expected : Option Ty} {f f' : Bool → Fresh}
      {code rest : Bool → List Instr} {S : Bool → State} {m : Memory},
      BlockTyped Γ expected block t → Γ.Regular Φ G →
      (∀ b, lowerBlock b t (f b) = .ok (code b, f' b)) →
      (∀ b, Faces (S b) (code b ++ rest b)) → (∀ b, Ready G free Γ.locals m (S b)) →
      Simulates P rounds (Permitted G) S
        (fun b => Ended G free Γ.locals (rest b) expected (Typed.Stmt.blockReturns t) (S b))
        (execBlock .store call rounds block m)
  | .mk id span body, t, Γ, expected, f, f', code, rest, S, m, typed, regular, lowered, faces,
      ready => by
    cases typed with
    | @mk _ _ _ scope _ _ ts Γ' isNew inner hs =>
      obtain ⟨globals, l, around⟩ := hs.inside body rfl
      have known : ∀ name type, Γ'.globals.lookup name = some type → G.lookup name = some type := by
        rw [globals]
        exact regular.globals
      have entered : ∀ b, Ready G free (Γ.push scope).locals
          { m with scopes := .empty :: m.scopes } (S b) := fun b =>
        ⟨(ready b).depth, .cons (LevelMatches.empty _ scope) (ready b).locals,
          (ready b).world.typed, (ready b).world.values, (ready b).world.printed⟩
      rw [execBlock, Typed.Stmt.blockReturns]
      refine (simulates_all hcall body hs (regular.push isNew inner) known lowered faces
        entered).bind fun ⟨flow, m₁⟩ S₁ after => ?_
      refine .here fun b => ?_
      cases flow with
      | next =>
        obtain ⟨keeps, here, passed, ready₁⟩ := (after b).of_next
        exact .next keeps here passed (ready₁.leave around)
      | returned v =>
        cases after b with
        | returned keeps leaves expects typed world =>
          exact .returned keeps leaves expects typed ⟨world.typed, world.values, world.printed⟩

/-- Runs of the code of statements in order follow their execution. -/
theorem simulates_all (hcall : CallsFollow P rounds Φ G free call) :
    ∀ (ss : List Stmt) {ts : List Typed.Stmt} {Γ Γ' : Context} {expected : Option Ty}
      {f f' : Bool → Fresh} {code rest : Bool → List Instr} {S : Bool → State} {m : Memory},
      AllTyped Γ expected ss ts Γ' → Γ.Regular Φ G →
      (∀ name type, Γ'.globals.lookup name = some type → G.lookup name = some type) →
      (∀ b, lowerAll b ts (f b) = .ok (code b, f' b)) →
      (∀ b, Faces (S b) (code b ++ rest b)) → (∀ b, Ready G free Γ.locals m (S b)) →
      Simulates P rounds (Permitted G) S
        (fun b => Ended G free Γ'.locals (rest b) expected (Typed.Stmt.anyReturns ts) (S b))
        (execAll .store call rounds ss m)
  | [], ts, Γ, Γ', expected, f, f', code, rest, S, m, typed, regular, globals, lowered, faces,
      ready => by
    cases typed
    obtain rfl := funext fun b => (Lowering.lowerAll_nil.1 (lowered b)).1
    rw [execAll]
    exact .here fun b => .next (.refl ..) (faces b).here rfl (ready b)
  | st :: ss, ts, Γ, Γ', expected, f, f', code, rest, S, m, typed, regular, globals, lowered, faces,
      ready => by
    cases typed with
    | statement first others =>
      choose code₁ f₁ code₂ hfirst hothers shape using
        fun b => Lowering.lowerAll_cons.1 (lowered b)
      obtain rfl := funext shape
      have faces₁ : ∀ b, Faces (S b) (code₁ b ++ (code₂ b ++ rest b)) := by simpa using faces
      rw [Typed.Stmt.anyReturns]
      refine simulates_cons (simulates_stmt hcall st first regular hfirst faces₁ ready)
        fun S' m' keeps here ready' => ?_
      exact simulates_all hcall ss others regular globals hothers
        (fun b => (keeps b).faces (faces₁ b) (here b)) ready'
    | function _ _ _ _ _ others =>
      choose code₁ f₁ code₂ hfirst hothers shape using
        fun b => Lowering.lowerAll_cons.1 (lowered b)
      obtain rfl := funext shape
      obtain rfl := funext fun b => (Lowering.lowerStmt_function.1 (hfirst b)).2.1
      have skips : ∀ span header body, Simulates P rounds (Permitted G) S
          (fun b => Ended G free Γ.locals (code₂ b ++ rest b) expected false (S b))
          (execStmt .store call rounds (.function span header body) m) := by
        intro span header body
        rw [execStmt]
        exact .here fun b => .next (.refl ..) (faces b).here rfl (ready b)
      have faces₁ : ∀ b, Faces (S b) ([] ++ (code₂ b ++ rest b)) := faces
      rw [Typed.Stmt.anyReturns, Typed.Stmt.returns]
      refine simulates_cons (skips ..) fun S' m' keeps here ready' => ?_
      exact simulates_all hcall ss others regular globals hothers
        (fun b => (keeps b).faces (faces₁ b) (here b)) ready'
    | @letVar _ _ _ _ _ _ name _ _ v _ _ _ _ isName isNew hv _ place others =>
      choose code₁ f₁ code₂ hfirst hothers shape using
        fun b => Lowering.lowerAll_cons.1 (lowered b)
      obtain rfl := funext shape
      have faces₁ : ∀ b, Faces (S b) (code₁ b ++ (code₂ b ++ rest b)) := by simpa using faces
      have known : ∀ other type, (Γ.declare name v.type).globals.lookup other = some type →
          G.lookup other = some type := fun other type declared =>
        globals other type (others.lookup_globals ss declared)
      have global : Γ.locals = [] → G.lookup name = some v.type := by
        intro outside
        refine known name v.type ?_
        rw [Context.declare, outside]
        exact List.lookup_cons_self
      rw [Typed.Stmt.anyReturns, Typed.Stmt.returns]
      refine simulates_cons (simulates_let hcall hv place regular global hfirst faces₁ ready)
        fun S' m' keeps here ready' => ?_
      exact simulates_all hcall ss others (regular.declare isName known) globals hothers
        (fun b => (keeps b).faces (faces₁ b) (here b)) ready'

end

end

end MiniLang.Semantics
