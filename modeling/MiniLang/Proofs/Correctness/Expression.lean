import MiniLang.Proofs.Correctness.Memory
import MiniLang.Proofs.Correctness.Simulation
import MiniLang.Proofs.Lowering.Execution

/-!
# Expressions are compiled correctly

The runs of the code of an expression follow its evaluation (`simulates_expr`), given that those of
calls do (`CallsFollow`): they get past the code, with the number of the value where the code says,
or fail as the evaluation does.
-/

set_option autoImplicit false

namespace MiniLang.Semantics

open Ir (State Faces Keeps Steps Stops Operand Temp Instr)
open Lowering (Fresh Below lowerExpr lowerExprs)

/-- The ways in which a program with the given global variables can fail. -/
def Permitted (G : List (String × Ty)) : Failure → Prop
  | .unset name => (G.lookup name).isSome
  | _ => True

/-- After the code of an expression: only `rest` is left to run, the operand has the number of the
value, and the temporaries below `n` are as before. -/
structure Evaluated (G : List (String × Ty)) (free : Nat) (ls : List Level) (n : Temp) (o : Operand)
    (rest : List Instr) (type : Ty) (s : State) (r : Value × Memory) (s' : State) : Prop where
  keeps : Keeps n s s'
  here : s'.frame.code = rest
  operand : s'.frame.read o = .ok r.1.code
  typed : r.1.HasType type
  ready : Ready G free ls r.2 s'

/-- After the code of expressions: the same for all of their operands and values. -/
structure AllEvaluated (G : List (String × Ty)) (free : Nat) (ls : List Level) (n : Temp)
    (os : List Operand) (rest : List Instr) (types : List Ty) (s : State) (r : List Value × Memory)
    (s' : State) : Prop where
  keeps : Keeps n s s'
  here : s'.frame.code = rest
  operands : s'.frame.readAll os = .ok (r.1.map Value.code)
  typed : List.Forall₂ Value.HasType r.1 types
  ready : Ready G free ls r.2 s'

/-- After a call: its value is in the temporary that takes it, if one does. -/
structure Called (G : List (String × Ty)) (free : Nat) (ls : List Level) (dest : Option Temp)
    (rest : List Instr) (type : Ty) (s : State) (r : Value × Memory) (s' : State) : Prop where
  keeps : ∀ n, (∀ t, dest = some t → n ≤ t) → Keeps n s s'
  here : s'.frame.code = rest
  value : ∀ t, dest = some t → s'.frame.read (.temp t) = .ok r.1.code
  typed : r.1.HasType type
  ready : Ready G free ls r.2 s'

/-- Runs follow the calls of functions with the given signatures where `free` more calls can become
active. A call has a temporary for its value unless there is none. -/
def CallsFollow (P : Bool → Ir.Program) (rounds : Nat) (Φ : List (String × Signature))
    (G : List (String × Ty)) (free : Nat) (call : Calls) : Prop :=
  ∀ {name : String} {f : Signature} {vs : List Value} {m : Memory} {S : Bool → State}
    {ls : List Level} {operands : Bool → List Operand} {dest : Bool → Option Temp}
    {rest : Bool → List Instr},
    Φ.lookup name = some f → List.Forall₂ Value.HasType vs f.params →
    (∀ b, Faces (S b) (.call (dest b) name (operands b) :: rest b)) →
    (∀ b, (S b).frame.readAll (operands b) = .ok (vs.map Value.code)) →
    (∀ b, dest b = none ↔ f.result = .unit) → (∀ b, Ready G free ls m (S b)) →
    Simulates P rounds (Permitted G) S
      (fun b => Called G free ls (dest b) (rest b) f.result (S b)) (call name vs m)

/-- An operand keeps its number as long as the temporaries below do. -/
theorem read_of_keeps {n : Temp} {s s' : State} {o : Operand} {value : Int} (h : Keeps n s s')
    (below : Below n o) (read : s.frame.read o = .ok value) : s'.frame.read o = .ok value := by
  cases o with
  | const c => exact read
  | temp t =>
    simp only [Ir.Frame.read, h.temps t below] at read ⊢
    cases found : s.frame.temps.get? t with
    | none =>
      rw [found] at read
      cases read
    | some w =>
      rw [found] at read
      exact read

section

variable {P : Bool → Ir.Program} {rounds free : Nat} {Φ : List (String × Signature)}
  {G : List (String × Ty)} {call : Calls} {Γ : Context} {ls : List Level} {S T : Bool → State}
  {m : Memory} {n dest : Bool → Temp} {rest : Bool → List Instr}

/-- An instruction that computes the value of an operator. -/
theorem simulates_compute {type : Ty} {o : Outcome Value} {x : Except ArithmeticError Int}
    (agree : Agrees type o x)
    (runs : ∀ b value, x = .ok value →
      Steps (P b) 1 (S b) (((S b).facing (rest b)).write (dest b) value))
    (stops : ∀ b e, x = .error e → Stops (P b) 1 (S b) (.error (.arithmetic e)))
    (keeps : ∀ b, Keeps (n b) (T b) (S b)) (le : ∀ b, n b ≤ dest b)
    (ready : ∀ b, Ready G free ls m (S b)) :
    Simulates P rounds (Permitted G) S
      (fun b => Evaluated G free ls (n b) (.temp (dest b)) (rest b) type (T b))
      (Eval.of o m) := by
  cases agree with
  | value typed =>
    refine .after (fun b => runs b _ rfl) (.here fun b => ?_)
    exact ⟨((keeps b).facing _).write (le b) _, rfl, State.read_write_self .., typed,
      ((ready b).facing _).write _ _⟩
  | divisionByZero => exact .stop trivial 1 fun b => stops b _ rfl
  | overflow => exact .stop trivial 1 fun b => stops b _ rfl

/-- An operator that evaluates both operands. -/
theorem simulates_strict {op : BinaryOp} {left right : Expr} {id : NodeId} {span : Span}
    {leftType rightType type : Ty} {l r : Bool → Lowering.Value} {mid : Bool → Temp}
    (applies : Typing.binaryType op leftType rightType = some type)
    (strict : op.isLogical = false) (below : ∀ b, Below (mid b) (l b).operand)
    (le : ∀ b, n b ≤ mid b) (le' : ∀ b, mid b ≤ dest b)
    (hl : Simulates P rounds (Permitted G) S
      (fun b => Evaluated G free ls (n b) (l b).operand
        ((r b).code ++ .binary (dest b) op (l b).operand (r b).operand :: rest b) leftType (S b))
      (evalExpr .store call left m))
    (hr : ∀ S' m', (∀ b, Keeps (n b) (S b) (S' b)) →
      (∀ b, (S' b).frame.code =
        (r b).code ++ .binary (dest b) op (l b).operand (r b).operand :: rest b) →
      (∀ b, Ready G free ls m' (S' b)) →
      Simulates P rounds (Permitted G) S'
        (fun b => Evaluated G free ls (mid b) (r b).operand
          (.binary (dest b) op (l b).operand (r b).operand :: rest b) rightType (S' b))
        (evalExpr .store call right m')) :
    Simulates P rounds (Permitted G) S
      (fun b => Evaluated G free ls (n b) (.temp (dest b)) (rest b) type (S b))
      (evalExpr .store call (.binary id span op left right) m) := by
  rw [evalExpr, Eval.bind_apply]
  refine hl.bind fun ⟨a, m₁⟩ S₁ atLeft => ?_
  simp only [decided?_of_not_logical strict]
  rw [Eval.bind_apply]
  refine (hr S₁ m₁ (fun b => (atLeft b).keeps) (fun b => (atLeft b).here)
    (fun b => (atLeft b).ready)).bind fun ⟨c, m₂⟩ S₂ atRight => ?_
  have leftRead : ∀ b, (S₂ b).frame.read (l b).operand = .ok a.code := fun b =>
    read_of_keeps (atRight b).keeps (below b) (atLeft b).operand
  exact simulates_compute (applyBinary_code applies (atLeft true).typed (atRight true).typed)
    (fun b _ h => Ir.steps_binary (atRight b).here (leftRead b) (atRight b).operand h)
    (fun b _ h => Ir.stops_binary (atRight b).here (leftRead b) (atRight b).operand h)
    (fun b => (atLeft b).keeps.trans (atRight b).keeps (le b))
    (fun b => (le b).trans (le' b)) (fun b => (atRight b).ready)

/-- The code behind the right operand of an operator that may skip it. -/
def shortTail (op : BinaryOp) (k : Nat) (o : Operand) (dest : Temp) (rest : List Instr) :
    List Instr :=
  .store (Lowering.slot op k) o :: .jump (Lowering.label (Lowering.shortName op) "end" k) ::
    .label (Lowering.label (Lowering.shortName op) "end" k) ::
    .load dest (Lowering.slot op k) :: rest

/-- The code behind the left operand of such an operator. -/
def shortMiddle (op : BinaryOp) (k : Nat) (l r : Lowering.Value) (dest : Temp)
    (rest : List Instr) : List Instr :=
  .store (Lowering.slot op k) l.operand :: Lowering.skipping op k l.operand ::
    .label (Lowering.label (Lowering.shortName op) "rhs" k) ::
    (r.code ++ shortTail op k r.operand dest rest)

theorem shortCircuit_layout (op : BinaryOp) (k : Nat) (l r : Lowering.Value) (dest : Temp)
    (rest : List Instr) :
    (Lowering.shortCircuit op k l r dest).code ++ rest =
      l.code ++ shortMiddle op k l r dest rest := by
  rw [Lowering.shortCircuit_code]
  simp [shortMiddle, shortTail]

/-- An operator that may skip its right operand. -/
theorem simulates_shortCircuit {op : BinaryOp} {left right : Expr} {id : NodeId} {span : Span}
    {l r : Bool → Lowering.Value} {mid : Bool → Temp} {k : Bool → Nat}
    (regular : Γ.Regular Φ G) (logical : op.isLogical = true) (le : ∀ b, n b ≤ mid b)
    (le' : ∀ b, mid b ≤ dest b)
    (faces : ∀ b, Faces (S b)
      ((l b).code ++ shortMiddle op (k b) (l b) (r b) (dest b) (rest b)))
    (hl : Simulates P rounds (Permitted G) S
      (fun b => Evaluated G free Γ.locals (n b) (l b).operand
        (shortMiddle op (k b) (l b) (r b) (dest b) (rest b)) .bool (S b))
      (evalExpr .store call left m))
    (hr : ∀ S' m', (∀ b, Faces (S' b)
        ((r b).code ++ shortTail op (k b) (r b).operand (dest b) (rest b))) →
      (∀ b, Ready G free Γ.locals m' (S' b)) →
      Simulates P rounds (Permitted G) S'
        (fun b => Evaluated G free Γ.locals (mid b) (r b).operand
          (shortTail op (k b) (r b).operand (dest b) (rest b)) .bool (S' b))
        (evalExpr .store call right m')) :
    Simulates P rounds (Permitted G) S
      (fun b => Evaluated G free Γ.locals (n b) (.temp (dest b)) (rest b) .bool (S b))
      (evalExpr .store call (.binary id span op left right) m) := by
  rw [evalExpr, Eval.bind_apply]
  refine hl.bind fun ⟨v, m₁⟩ S₁ atLeft => ?_
  obtain ⟨a, rfl⟩ := (atLeft true).typed.bool_inv
  have facesLeft := fun b => (atLeft b).keeps.faces (faces b) (atLeft b).here
  have le'' := fun b => (le b).trans (le' b)
  cases decided : decided? op (.bool a) with
  | some v =>
    obtain rfl := eq_of_decided? decided
    dsimp only
    have ahead : ∀ b, .label (Lowering.label (Lowering.shortName op) "end" (k b)) ::
        .load (dest b) (Lowering.slot op (k b)) :: rest b <:+
        .label (Lowering.label (Lowering.shortName op) "rhs" (k b)) ::
          ((r b).code ++ shortTail op (k b) (r b).operand (dest b) (rest b)) := by
      intro b
      have inTail : _ <:+ shortTail op (k b) (r b).operand (dest b) (rest b) := ⟨[_, _], rfl⟩
      exact (inTail.trans (List.suffix_append ..)).trans (List.suffix_cons ..)
    refine .after (fun b => Lowering.steps_skip logical (facesLeft b) (atLeft b).operand
      (by simp [decided]) (ahead b)) (.here fun b => ?_)
    exact ⟨(((atLeft b).keeps.store _ _).facing _).write (le'' b) _, rfl,
      State.read_write_self .., .bool a,
      (((atLeft b).ready.slot regular op _ _).facing _).write _ _⟩
  | none =>
    dsimp only
    rw [Eval.bind_apply]
    refine .after (fun b => Lowering.steps_enter logical (facesLeft b) (atLeft b).operand decided)
      ?_
    have entered := fun b => ((atLeft b).keeps.store (Lowering.slot op (k b))
      (Arithmetic.ofBool a)).facing
        ((r b).code ++ shortTail op (k b) (r b).operand (dest b) (rest b))
    have facesRight : ∀ b, Faces (((S₁ b).store (Lowering.slot op (k b))
        (Arithmetic.ofBool a)).facing
          ((r b).code ++ shortTail op (k b) (r b).operand (dest b) (rest b)))
        ((r b).code ++ shortTail op (k b) (r b).operand (dest b) (rest b)) := by
      intro b
      have inMiddle : (r b).code ++ shortTail op (k b) (r b).operand (dest b) (rest b) <:+
          shortMiddle op (k b) (l b) (r b) (dest b) (rest b) := ⟨[_, _, _], rfl⟩
      exact ⟨rfl, (facesLeft b).ahead inMiddle, (facesLeft b).nodup⟩
    refine (hr _ m₁ facesRight fun b =>
      ((atLeft b).ready.slot regular op _ _).facing _).bind fun ⟨w, m₂⟩ S₂ atRight => ?_
    obtain ⟨c, rfl⟩ := (atRight true).typed.bool_inv
    have facesTail := fun b => (atRight b).keeps.faces (facesRight b) (atRight b).here
    rw [Eval.of, operate_of_open logical decided]
    refine .after (fun b => Lowering.steps_leave (facesTail b) (atRight b).operand)
      (.here fun b => ?_)
    have keeps := (entered b).trans (atRight b).keeps (le b)
    exact ⟨((keeps.store _ _).facing _).write (le'' b) _, rfl, State.read_write_self .., .bool c,
      (((atRight b).ready.slot regular op _ _).facing _).write _ _⟩

/-- A value that is written out. -/
theorem simulates_literal {id : NodeId} {span : Span} {value : Literal}
    (here : ∀ b, (S b).frame.code = rest b) (ready : ∀ b, Ready G free ls m (S b)) :
    Simulates P rounds (Permitted G) S
      (fun b => Evaluated G free ls (n b) (.const value.code) (rest b) (Typing.literalType value)
        (S b))
      (evalExpr .store call (.literal id span value) m) := by
  refine .here fun b => ⟨.refl .., here b, ?_, hasType_ofLiteral value, ready b⟩
  rw [code_ofLiteral]
  rfl

/-- The value of an operator that is folded. -/
theorem evalExpr_folded {op : BinaryOp} {left right : Literal} {type : Ty} {value : Int}
    {id leftId rightId : NodeId} {span leftSpan rightSpan : Span}
    (applies : Typing.binaryType op (Typing.literalType left) (Typing.literalType right) =
      some type)
    (folds : Lowering.fold? op left right = some value) (m : Memory) :
    ∃ v : Value, evalExpr .store call (.binary id span op (.literal leftId leftSpan left)
      (.literal rightId rightSpan right)) m = .done (v, m) ∧ v.HasType type ∧ v.code = value := by
  have agree := applyBinary_code applies (hasType_ofLiteral left) (hasType_ofLiteral right)
  rw [code_ofLiteral, code_ofLiteral, Lowering.applyBinary_of_fold? folds] at agree
  have operated : ∃ v : Value, operate op (.ofLiteral left) (.ofLiteral right) = .done v ∧
      v.HasType type ∧ v.code = value := by
    generalize operate op (.ofLiteral left) (.ofLiteral right) = o at agree
    cases agree with
    | value typed => exact ⟨_, rfl, typed, rfl⟩
  obtain ⟨v, isDone, typed, code⟩ := operated
  refine ⟨v, ?_, typed, code⟩
  rw [evalExpr, Eval.bind_apply, evalExpr, Eval.pure_apply]
  dsimp only [Outcome.bind]
  cases decided : decided? op (.ofLiteral left) with
  | none =>
    dsimp only
    rw [Eval.bind_apply, evalExpr, Eval.pure_apply]
    change Eval.of (operate op (.ofLiteral left) (.ofLiteral right)) m = _
    rw [isDone]
    rfl
  | some w =>
    cases logical : op.isLogical with
    | false =>
      rw [decided?_of_not_logical logical] at decided
      cases decided
    | true =>
      obtain ⟨isLeft, isRight, -⟩ := binaryType_logical logical applies
      obtain ⟨a, isA⟩ := (isLeft ▸ hasType_ofLiteral left).bool_inv
      obtain ⟨c, isC⟩ := (isRight ▸ hasType_ofLiteral right).bool_inv
      rw [isA] at decided isDone
      rw [isC, operate_of_decided decided] at isDone
      cases isDone
      rfl

/-- An operator between written-out values in the program without folding. -/
theorem simulates_literals {op : BinaryOp} {left right : Literal} {type : Ty}
    {id leftId rightId : NodeId} {span leftSpan rightSpan : Span} {info l r : Typed.Info}
    {Q : Ir.Program} {s : State} {f f' : Fresh} {w : Lowering.Value} {rest : List Instr}
    (regular : Γ.Regular Φ G)
    (applies : Typing.binaryType op (Typing.literalType left) (Typing.literalType right) =
      some type)
    (lowered : lowerExpr false (.binary info op (.literal l left) (.literal r right)) f =
      .ok (w, f'))
    (faces : Faces s (w.code ++ rest)) (ready : Ready G free Γ.locals m s) :
    Simulates (fun _ => Q) rounds (Permitted G) (fun _ => s)
      (fun _ => Evaluated G free Γ.locals f.temp w.operand rest type s)
      (evalExpr .store call (.binary id span op (.literal leftId leftSpan left)
        (.literal rightId rightSpan right)) m) := by
  have unfolded : Lowering.folded? false op (.literal l left) (.literal r right) = none := rfl
  cases logical : op.isLogical with
  | false =>
    obtain ⟨-, v, fl, v', fr, hv, hv', rfl, rfl⟩ :=
      (Lowering.lowerExpr_binary_strict unfolded logical).1 lowered
    obtain ⟨-, rfl, rfl⟩ := Lowering.lowerExpr_literal.1 hv
    obtain ⟨-, rfl, rfl⟩ := Lowering.lowerExpr_literal.1 hv'
    refine simulates_strict (l := fun _ => ⟨[], .const left.code⟩)
      (r := fun _ => ⟨[], .const right.code⟩) applies logical (fun _ => trivial)
      (fun _ => le_rfl) (fun _ => le_rfl) ?_ fun S' m' _ here ready' => ?_
    · exact simulates_literal (fun _ => faces.here) fun _ => ready
    · exact simulates_literal here ready'
  | true =>
    obtain ⟨isLeft, isRight, rfl⟩ := binaryType_logical logical applies
    obtain ⟨-, v, fl, v', fr, hv, hv', rfl, rfl⟩ :=
      (Lowering.lowerExpr_binary_logical unfolded logical).1 lowered
    obtain ⟨-, rfl, rfl⟩ := Lowering.lowerExpr_literal.1 hv
    obtain ⟨-, rfl, rfl⟩ := Lowering.lowerExpr_literal.1 hv'
    rw [shortCircuit_layout] at faces
    refine simulates_shortCircuit regular logical (fun _ => le_rfl) (fun _ => le_rfl)
      (fun _ => faces) ?_ fun S' m' faces' ready' => ?_
    · exact isLeft ▸ simulates_literal (fun _ => faces.here) fun _ => ready
    · exact isRight ▸ simulates_literal (fun b => (faces' b).here) ready'

/-- What is folded is an operator between written-out values. -/
theorem literals_of_folded? {folding : Bool} {op : BinaryOp} {left right : Expr}
    {l r : Typed.Expr} {value : Int} (hl : ExprTyped Γ left l) (hr : ExprTyped Γ right r)
    (h : Lowering.folded? folding op l r = some value) :
    ∃ id span a id' span' c, left = .literal id span a ∧ right = .literal id' span' c ∧
      l = .literal ⟨id, span, Typing.literalType a⟩ a ∧
      r = .literal ⟨id', span', Typing.literalType c⟩ c ∧ Lowering.fold? op a c = some value := by
  unfold Lowering.folded? at h
  obtain ⟨-, -, h⟩ := Option.bind_eq_some_iff.1 h
  obtain ⟨a, isLeft, h⟩ := Option.bind_eq_some_iff.1 h
  obtain ⟨c, isRight, folds⟩ := Option.bind_eq_some_iff.1 h
  cases hl <;> cases isLeft
  cases hr <;> cases isRight
  exact ⟨_, _, _, _, _, _, rfl, rfl, rfl, rfl, folds⟩

/-- A variable. -/
theorem simulates_var {id : NodeId} {span : Span} {name : String} {scope : ScopeId} {type : Ty}
    (regular : Γ.Regular Φ G) (known : Γ.lookup name = some (scope, type))
    (here : ∀ b, (S b).frame.code = .load (n b) (Lowering.placeFor scope name) :: rest b)
    (ready : ∀ b, Ready G free Γ.locals m (S b)) :
    Simulates P rounds (Permitted G) S
      (fun b => Evaluated G free Γ.locals (n b) (.temp (n b)) (rest b) type (S b))
      (evalExpr .store call (.var id span name) m) := by
  have reads := fun b => (ready b).read regular known
  rw [evalExpr]
  rcases reads true with ⟨v, outcome, typed, -⟩ | ⟨outcome, declared, -⟩
  · have loads : ∀ b, (S b).load (Lowering.placeFor scope name) = .ok v.code := by
      intro b
      rcases reads b with ⟨v', same, -, load⟩ | ⟨same, -⟩
      · rw [outcome] at same
        cases same
        exact load
      · rw [outcome] at same
        cases same
    dsimp only
    rw [outcome]
    refine .after (fun b => Ir.steps_load (here b) (loads b)) (.here fun b => ?_)
    exact ⟨((Keeps.refl ..).facing _).write le_rfl _, rfl, State.read_write_self .., typed,
      ((ready b).facing _).write _ _⟩
  · have loads : ∀ b, (S b).load (Lowering.placeFor scope name) =
        .error (.uninitialized (.global name)) := by
      intro b
      rcases reads b with ⟨v', same, -⟩ | ⟨-, -, load⟩
      · rw [outcome] at same
        cases same
      · exact load
    dsimp only
    rw [outcome]
    exact .stop declared 1 fun b => Ir.stops_load (here b) (loads b)

/-- An operator with one operand. -/
theorem simulates_unary {op : UnaryOp} {operand : Expr} {id : NodeId} {span : Span}
    {w : Bool → Lowering.Value} (le : ∀ b, n b ≤ dest b)
    (inner : Simulates P rounds (Permitted G) S
      (fun b => Evaluated G free ls (n b) (w b).operand
        (.unary (dest b) op (w b).operand :: rest b) (operandType op) (S b))
      (evalExpr .store call operand m)) :
    Simulates P rounds (Permitted G) S
      (fun b => Evaluated G free ls (n b) (.temp (dest b)) (rest b) (operandType op) (S b))
      (evalExpr .store call (.unary id span op operand) m) := by
  rw [evalExpr, Eval.bind_apply]
  refine inner.bind fun ⟨a, m₁⟩ S₁ after => ?_
  exact simulates_compute (applyUnary_code (after true).typed)
    (fun b _ h => Ir.steps_unary (after b).here (after b).operand h)
    (fun b _ h => Ir.stops_unary (after b).here (after b).operand h)
    (fun b => (after b).keeps) le (fun b => (after b).ready)

/-- An assignment, the value of which is what it stores. -/
theorem simulates_assignment {target : String} {value : Expr} {id : NodeId}
    {span targetSpan : Span} {scope : ScopeId} {type : Ty} {w : Bool → Lowering.Value}
    (regular : Γ.Regular Φ G) (known : Γ.lookup target = some (scope, type))
    (inner : Simulates P rounds (Permitted G) S
      (fun b => Evaluated G free Γ.locals (n b) (w b).operand
        (.store (Lowering.placeFor scope target) (w b).operand :: rest b) type (S b))
      (evalExpr .store call value m)) :
    Simulates P rounds (Permitted G) S
      (fun b => Evaluated G free Γ.locals (n b) (w b).operand (rest b) type (S b))
      (evalExpr .store call (.assignment id span target targetSpan value) m) := by
  rw [evalExpr, Eval.bind_apply]
  refine inner.bind fun ⟨a, m₁⟩ S₁ after => ?_
  refine .after (fun b => Ir.steps_store (after b).here (after b).operand) (.here fun b => ?_)
  refine ⟨((after b).keeps.facing _).store _ _, ?_, ?_, (after b).typed,
    ((after b).ready.facing _).assign regular known (after b).typed⟩
  · rw [State.store_code, State.facing_code]
  · rw [State.read_store, State.read_facing, (after b).operand]

/-- Where the value of a call is found: nothing is kept of a value that nobody can use. -/
def callOperand (dest : Option Temp) : Operand := dest.elim (.const 0) .temp

/-- A call whose arguments are evaluated by the code before it. -/
theorem simulates_call {callee : String} {f : Signature} {arguments : List Expr} {id : NodeId}
    {span calleeSpan : Span} {ws : Bool → List Lowering.Value} (into : Bool → Option Temp)
    (hcall : CallsFollow P rounds Φ G free call) (declared : Φ.lookup callee = some f)
    (unused : ∀ b, into b = none ↔ f.result = .unit) (le : ∀ b t, into b = some t → n b ≤ t)
    (faces : ∀ b, Faces (S b) ((ws b).flatMap Lowering.Value.code ++
      .call (into b) callee ((ws b).map Lowering.Value.operand) :: rest b))
    (inner : Simulates P rounds (Permitted G) S
      (fun b => AllEvaluated G free ls (n b) ((ws b).map Lowering.Value.operand)
        (.call (into b) callee ((ws b).map Lowering.Value.operand) :: rest b) f.params (S b))
      (evalExprs .store call arguments m)) :
    Simulates P rounds (Permitted G) S
      (fun b => Evaluated G free ls (n b) (callOperand (into b)) (rest b) f.result (S b))
      (evalExpr .store call (.call id span callee calleeSpan arguments) m) := by
  rw [evalExpr, Eval.bind_apply]
  refine inner.bind fun ⟨values, m₁⟩ S₁ after => ?_
  refine (hcall declared (after true).typed
    (fun b => (after b).keeps.faces (faces b) (after b).here) (fun b => (after b).operands) unused
    (fun b => (after b).ready)).imp fun b ⟨v, m₂⟩ s called => ?_
  refine ⟨(after b).keeps.trans (called.keeps _ (le b)) le_rfl, called.here, ?_, called.typed,
    called.ready⟩
  cases taken : into b with
  | none =>
    obtain rfl : v = .unit := ((unused b).1 taken ▸ called.typed).unit_inv
    rfl
  | some t => exact called.value t taken

/-- An operator between written-out values in both programs, only one of which has code for it. -/
theorem simulates_folded {op : BinaryOp} {left right : Literal} {type : Ty}
    {id leftId rightId : NodeId} {span leftSpan rightSpan : Span} {info l r : Typed.Info}
    {f f' : Bool → Fresh} {w : Bool → Lowering.Value} {value : Int} (regular : Γ.Regular Φ G)
    (applies : Typing.binaryType op (Typing.literalType left) (Typing.literalType right) =
      some type)
    (folds : Lowering.fold? op left right = some value)
    (lowered : ∀ b, lowerExpr b (.binary info op (.literal l left) (.literal r right)) (f b) =
      .ok (w b, f' b))
    (faces : ∀ b, Faces (S b) ((w b).code ++ rest b))
    (ready : ∀ b, Ready G free Γ.locals m (S b)) :
    Simulates P rounds (Permitted G) S
      (fun b => Evaluated G free Γ.locals (f b).temp (w b).operand (rest b) type (S b))
      (evalExpr .store call (.binary id span op (.literal leftId leftSpan left)
        (.literal rightId rightSpan right)) m) := by
  obtain ⟨v, outcome, isOf, code⟩ := evalExpr_folded applies folds m
  rw [outcome]
  refine .folded ?_ ?_
  · rw [← outcome]
    exact simulates_literals regular applies (lowered false) (faces false) (ready false)
  · have whole : Lowering.folded? true op (.literal l left) (.literal r right) = some value := folds
    have shape := ((Lowering.lowerExpr_binary_folded whole).1 (lowered true)).2.1
    have here := (faces true).here
    rw [shape] at here ⊢
    exact ⟨.refl .., here, congrArg Except.ok code.symm, isOf, ready true⟩

end

section

variable {P : Bool → Ir.Program} {rounds free : Nat} {Φ : List (String × Signature)}
  {G : List (String × Ty)} {call : Calls}

mutual

/-- Runs of the code of an expression follow its evaluation. -/
theorem simulates_expr (hcall : CallsFollow P rounds Φ G free call) :
    ∀ (e : Expr) {t : Typed.Expr} {Γ : Context} {f f' : Bool → Fresh}
      {w : Bool → Lowering.Value} {rest : Bool → List Instr} {S : Bool → State} {m : Memory},
      ExprTyped Γ e t → Γ.Regular Φ G → (∀ b, lowerExpr b t (f b) = .ok (w b, f' b)) →
      (∀ b, Faces (S b) ((w b).code ++ rest b)) → (∀ b, Ready G free Γ.locals m (S b)) →
      Simulates P rounds (Permitted G) S
        (fun b => Evaluated G free Γ.locals (f b).temp (w b).operand (rest b) t.type (S b))
        (evalExpr .store call e m)
  | .literal id span value, t, Γ, f, f', w, rest, S, m, typed, regular, lowered, faces, ready => by
    cases typed
    obtain rfl := funext fun b => (Lowering.lowerExpr_literal.1 (lowered b)).2.1
    exact simulates_literal (fun b => (faces b).here) ready
  | .var id span name, t, Γ, f, f', w, rest, S, m, typed, regular, lowered, faces, ready => by
    cases typed with
    | @var _ _ _ ref type known isValue =>
      have shape : ∀ b, w b =
          ⟨[.load (f b).temp (Lowering.placeFor ref.scope name)], .temp (f b).temp⟩ := by
        intro b
        obtain ⟨-, place, isPlace, -, shape⟩ := Lowering.lowerExpr_var.1 (lowered b)
        rw [Lowering.placeOf_eq] at isPlace
        cases isPlace
        exact shape
      obtain rfl := funext shape
      exact simulates_var regular known (fun b => (faces b).here) ready
  | .binary id span op left right, t, Γ, f, f', w, rest, S, m, typed, regular, lowered, faces,
      ready => by
    cases typed with
    | @binary _ _ _ _ _ l r type hl hr applies =>
      cases folds : Lowering.folded? true op l r with
      | some value =>
        obtain ⟨_, _, a, _, _, c, rfl, rfl, rfl, rfl, folds'⟩ := literals_of_folded? hl hr folds
        exact simulates_folded regular applies folds' lowered faces ready
      | none =>
        have unfolded : ∀ b, Lowering.folded? b op l r = none
          | true => folds
          | false => rfl
        cases logical : op.isLogical with
        | false =>
          choose _ v fl v' fr hv hv' _ shape using
            fun b => (Lowering.lowerExpr_binary_strict (unfolded b) logical).1 (lowered b)
          obtain rfl := funext shape
          have facesLeft : ∀ b, Faces (S b) ((v b).code ++ ((v' b).code ++
              .binary (fr b).temp op (v b).operand (v' b).operand :: rest b)) := by
            simpa using faces
          have emits := fun b => Lowering.lowerExpr_emits l (hv b)
          exact simulates_strict applies logical (fun b => (emits b).operand)
            (fun b => (emits b).code.temps)
            (fun b => (Lowering.lowerExpr_emits r (hv' b)).code.temps)
            (simulates_expr hcall left hl regular hv facesLeft ready)
            fun S' m' keeps here ready' => simulates_expr hcall right hr regular hv'
              (fun b => (keeps b).faces (facesLeft b) (here b)) ready'
        | true =>
          obtain ⟨isLeft, isRight, rfl⟩ := binaryType_logical logical applies
          choose _ v fl v' fr hv hv' _ shape using
            fun b => (Lowering.lowerExpr_binary_logical (unfolded b) logical).1 (lowered b)
          obtain rfl := funext shape
          have facesLeft : ∀ b, Faces (S b) ((v b).code ++
              shortMiddle op (f b).label (v b) (v' b) (fr b).temp (rest b)) := by
            intro b
            rw [← shortCircuit_layout]
            exact faces b
          refine simulates_shortCircuit regular logical
            (fun b => (Lowering.lowerExpr_emits l (hv b)).code.temps)
            (fun b => (Lowering.lowerExpr_emits r (hv' b)).code.temps) facesLeft ?_
            fun S' m' faces' ready' => ?_
          · have inLeft := simulates_expr hcall left hl regular hv facesLeft ready
            rw [isLeft] at inLeft
            exact inLeft
          · have inRight := simulates_expr hcall right hr regular hv' faces' ready'
            rw [isRight] at inRight
            exact inRight
  | .unary id span op operand, t, Γ, f, f', w, rest, S, m, typed, regular, lowered, faces,
      ready => by
    cases typed with
    | @unary _ _ _ _ o ho applies =>
      choose v fo hv _ shape using fun b => (Lowering.lowerExpr_unary.1 (lowered b)).2
      obtain rfl := funext shape
      have facesInner : ∀ b, Faces (S b)
          ((v b).code ++ .unary (fo b).temp op (v b).operand :: rest b) := by simpa using faces
      have inOperand := simulates_expr hcall operand ho regular hv facesInner ready
      rw [applies] at inOperand
      exact simulates_unary (fun b => (Lowering.lowerExpr_emits o (hv b)).code.temps) inOperand
  | .call id span callee calleeSpan arguments, t, Γ, f, f', w, rest, S, m, typed, regular, lowered,
      faces, ready => by
    cases typed with
    | @call _ _ _ _ ref _ ts sig hidden known hs fits noError =>
      have declared : Φ.lookup callee = some sig := regular.functions ▸ known
      by_cases unit : sig.result = .unit
      · choose _ vs hvs shape using fun b => (Lowering.lowerExpr_call_unit unit).1 (lowered b)
        obtain rfl := funext shape
        have facesInner : ∀ b, Faces (S b) ((vs b).flatMap Lowering.Value.code ++
            .call none callee ((vs b).map Lowering.Value.operand) :: rest b) := by
          simpa using faces
        have inArguments := simulates_exprs hcall arguments hs regular hvs facesInner ready
        rw [fits] at inArguments
        exact simulates_call (fun _ => none) hcall declared (by simp [unit])
          (by rintro _ _ ⟨⟩) facesInner inArguments
      · choose _ _ vs fs hvs _ shape using
          fun b => (Lowering.lowerExpr_call_value unit).1 (lowered b)
        obtain rfl := funext shape
        have facesInner : ∀ b, Faces (S b) ((vs b).flatMap Lowering.Value.code ++
            .call (some (fs b).temp) callee ((vs b).map Lowering.Value.operand) :: rest b) := by
          simpa using faces
        have le := fun b => (Lowering.lowerExprs_emits ts (hvs b)).1.temps
        have inArguments := simulates_exprs hcall arguments hs regular hvs facesInner ready
        rw [fits] at inArguments
        exact simulates_call (fun b => some (fs b).temp) hcall declared (by simp [unit])
          (by rintro b _ ⟨⟩; exact le b) facesInner inArguments
  | .assignment id span target targetSpan value, t, Γ, f, f', w, rest, S, m, typed, regular,
      lowered, faces, ready => by
    cases typed with
    | @assignment _ _ _ _ ref _ v hv known isValue =>
      have lowered' : ∀ b, ∃ o, lowerExpr b v (f b) = .ok (o, f' b) ∧ w b =
          ⟨o.code ++ [.store (Lowering.placeFor ref.scope target) o.operand], o.operand⟩ := by
        intro b
        obtain ⟨-, o, place, ho, isPlace, shape⟩ := Lowering.lowerExpr_assignment.1 (lowered b)
        rw [Lowering.placeOf_eq] at isPlace
        cases isPlace
        exact ⟨o, ho, shape⟩
      choose o ho shape using lowered'
      obtain rfl := funext shape
      have facesInner : ∀ b, Faces (S b) ((o b).code ++
          .store (Lowering.placeFor ref.scope target) (o b).operand :: rest b) := by
        simpa using faces
      have inValue := simulates_expr hcall value hv regular ho facesInner ready
      exact simulates_assignment regular known inValue

/-- Runs of the code of expressions follow their evaluation. -/
theorem simulates_exprs (hcall : CallsFollow P rounds Φ G free call) :
    ∀ (es : List Expr) {ts : List Typed.Expr} {Γ : Context} {f f' : Bool → Fresh}
      {ws : Bool → List Lowering.Value} {rest : Bool → List Instr} {S : Bool → State} {m : Memory},
      ExprsTyped Γ es ts → Γ.Regular Φ G → (∀ b, lowerExprs b ts (f b) = .ok (ws b, f' b)) →
      (∀ b, Faces (S b) ((ws b).flatMap Lowering.Value.code ++ rest b)) →
      (∀ b, Ready G free Γ.locals m (S b)) →
      Simulates P rounds (Permitted G) S
        (fun b => AllEvaluated G free Γ.locals (f b).temp ((ws b).map Lowering.Value.operand)
          (rest b) (ts.map Typed.Expr.type) (S b))
        (evalExprs .store call es m)
  | [], ts, Γ, f, f', ws, rest, S, m, typed, regular, lowered, faces, ready => by
    cases typed
    obtain rfl := funext fun b => (Lowering.lowerExprs_nil.1 (lowered b)).1
    exact .here fun b => ⟨.refl .., (faces b).here, rfl, .nil, ready b⟩
  | e :: es, ts, Γ, f, f', ws, rest, S, m, typed, regular, lowered, faces, ready => by
    cases typed with
    | @cons _ _ t ts first others =>
      choose w f₁ ws' hw hws shape using fun b => Lowering.lowerExprs_cons.1 (lowered b)
      obtain rfl := funext shape
      have facesInner : ∀ b, Faces (S b)
          ((w b).code ++ ((ws' b).flatMap Lowering.Value.code ++ rest b)) := by simpa using faces
      rw [evalExprs, Eval.bind_apply]
      refine (simulates_expr hcall e first regular hw facesInner ready).bind
        fun ⟨v, m₁⟩ S₁ after => ?_
      rw [Eval.bind_apply]
      refine (simulates_exprs hcall es others regular hws
        (fun b => (after b).keeps.faces (facesInner b) (after b).here)
        (fun b => (after b).ready)).bind fun ⟨vs, m₂⟩ S₂ afterAll => ?_
      refine .here fun b => ?_
      have emits := Lowering.lowerExpr_emits t (hw b)
      have read := read_of_keeps (afterAll b).keeps emits.operand (after b).operand
      refine ⟨(after b).keeps.trans (afterAll b).keeps emits.code.temps, (afterAll b).here, ?_,
        .cons (after b).typed (afterAll b).typed, (afterAll b).ready⟩
      simp only [List.map_cons, Ir.Frame.readAll, read, (afterAll b).operands]

end

end

end MiniLang.Semantics
