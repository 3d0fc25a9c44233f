import MiniLang.Proofs.Ir.Labels
import MiniLang.Proofs.Ir.Steps

/-!
# Running single instructions

One lemma for each instruction: the step that it takes in a state that faces it, or how it ends the
run. A state faces code if the running call has this code still to run, as the last part of the code
of its function (`Faces`); what instructions of a call leave alone is `Keeps`.
-/

set_option autoImplicit false

namespace MiniLang.Ir

/-- The running call has the given code still to run, up to the end of its function, whose labels
are distinct. -/
structure Faces (s : State) (code : List Instr) : Prop where
  here : s.frame.code = code
  suffix : code <:+ s.frame.function.code
  nodup : (labelsOf s.frame.function.code).Nodup

/-- The same call runs in both states, and its temporaries below `n` are the same. -/
structure Keeps (n : Temp) (s s' : State) : Prop where
  function : s'.frame.function = s.frame.function
  waiting : s'.waiting = s.waiting
  temps : ∀ t < n, s'.frame.temps.get? t = s.frame.temps.get? t

namespace Keeps

variable {n m : Temp} {s s' s'' : State}

theorem refl (n : Temp) (s : State) : Keeps n s s := ⟨rfl, rfl, fun _ _ => rfl⟩

theorem trans (h : Keeps n s s') (h' : Keeps m s' s'') (le : n ≤ m) : Keeps n s s'' :=
  ⟨h'.function.trans h.function, h'.waiting.trans h.waiting,
    fun t lt => (h'.temps t (Nat.lt_of_lt_of_le lt le)).trans (h.temps t lt)⟩

theorem mono (h : Keeps m s s') (le : n ≤ m) : Keeps n s s' := (refl n s).trans h le

/-- Later code of the same function is faced if it is what is left to run. -/
theorem faces (h : Keeps n s s') {before code : List Instr} (faced : Faces s (before ++ code))
    (here : s'.frame.code = code) : Faces s' code := by
  refine ⟨here, ?_, ?_⟩
  · rw [h.function]
    exact (List.suffix_append ..).trans faced.suffix
  · rw [h.function]
    exact faced.nodup

end Keeps

namespace Faces

variable {s : State} {i : Instr} {code : List Instr}

theorem tail (h : Faces s (i :: code)) : Faces (s.facing code) code :=
  ⟨rfl, (List.suffix_cons ..).trans h.suffix, h.nodup⟩

/-- Any part that the code of the function ends with can be moved to. -/
theorem facing {after : List Instr} (h : Faces s code) (ahead : after <:+ s.frame.function.code) :
    Faces (s.facing after) after := ⟨rfl, ahead, h.nodup⟩

/-- What the code that is faced ends with, the code of the function ends with. -/
theorem ahead {after : List Instr} (h : Faces s code) (here : after <:+ code) :
    after <:+ s.frame.function.code := here.trans h.suffix

end Faces

namespace State

variable (s : State) (t : Temp) (place : Place) (value : Int) (code : List Instr)

@[simp] theorem write_temps : (s.write t value).frame.temps = s.frame.temps.insert t value := rfl

@[simp] theorem read_write_self : (s.write t value).frame.read (.temp t) = .ok value := by
  simp [Frame.read]

@[simp] theorem store_code : (s.store place value).frame.code = s.frame.code := by
  cases place <;> rfl

@[simp] theorem store_function : (s.store place value).frame.function = s.frame.function := by
  cases place <;> rfl

@[simp] theorem store_temps : (s.store place value).frame.temps = s.frame.temps := by
  cases place <;> rfl

@[simp] theorem store_waiting : (s.store place value).waiting = s.waiting := by
  cases place <;> rfl

@[simp] theorem read_store (o : Operand) :
    (s.store place value).frame.read o = s.frame.read o := by
  cases o <;> simp [Frame.read]

@[simp] theorem load_store_self : (s.store place value).load place = .ok value := by
  cases place <;> simp [load, store]

@[simp] theorem load_facing : (s.facing code).load place = s.load place := rfl

end State

/-- Moving on in the code and writing places leaves the temporaries alone. -/
theorem Keeps.facing {n : Temp} {s s' : State} (h : Keeps n s s') (code : List Instr) :
    Keeps n s (s'.facing code) :=
  ⟨h.function, h.waiting, h.temps⟩

theorem Keeps.store {n : Temp} {s s' : State} (h : Keeps n s s') (place : Place) (value : Int) :
    Keeps n s (s'.store place value) := by
  refine ⟨?_, ?_, fun t lt => ?_⟩
  · rw [State.store_function, h.function]
  · rw [State.store_waiting, h.waiting]
  · rw [State.store_temps, h.temps t lt]

/-- Writing a temporary leaves those with smaller numbers alone. -/
theorem Keeps.write {n t : Temp} {s s' : State} (h : Keeps n s s') (le : n ≤ t) (value : Int) :
    Keeps n s (s'.write t value) := by
  refine ⟨h.function, h.waiting, fun t' lt => ?_⟩
  have differ : t ≠ t' := fun same => absurd (Nat.lt_of_lt_of_le lt le) (same ▸ Nat.lt_irrefl t)
  rw [State.write_temps, Table.get?_insert_of_ne _ _ differ]
  exact h.temps t' lt

section

variable {p : Program} {s : State} {code : List Instr}

theorem steps_binary {dest : Temp} {op : BinaryOp} {left right : Operand} {a b value : Int}
    (here : s.frame.code = .binary dest op left right :: code) (ha : s.frame.read left = .ok a)
    (hb : s.frame.read right = .ok b) (h : Arithmetic.applyBinary op a b = .ok value) :
    Steps p 1 s ((s.facing code).write dest value) := by
  refine .single here ?_
  simp only [step, State.read_facing, ha, hb]
  change (computed (Arithmetic.applyBinary op a b) >>= _) = _
  rw [h]
  rfl

theorem stops_binary {dest : Temp} {op : BinaryOp} {left right : Operand} {a b : Int}
    {e : ArithmeticError} (here : s.frame.code = .binary dest op left right :: code)
    (ha : s.frame.read left = .ok a) (hb : s.frame.read right = .ok b)
    (h : Arithmetic.applyBinary op a b = .error e) : Stops p 1 s (.error (.arithmetic e)) := by
  refine .failing (State.next_eq here) ?_
  simp only [step, State.read_facing, ha, hb]
  change (computed (Arithmetic.applyBinary op a b) >>= _) = _
  rw [h]
  rfl

theorem steps_unary {dest : Temp} {op : UnaryOp} {operand : Operand} {a value : Int}
    (here : s.frame.code = .unary dest op operand :: code) (ha : s.frame.read operand = .ok a)
    (h : Arithmetic.applyUnary op a = .ok value) :
    Steps p 1 s ((s.facing code).write dest value) := by
  refine .single here ?_
  simp only [step, State.read_facing, ha]
  change (computed (Arithmetic.applyUnary op a) >>= _) = _
  rw [h]
  rfl

theorem stops_unary {dest : Temp} {op : UnaryOp} {operand : Operand} {a : Int}
    {e : ArithmeticError} (here : s.frame.code = .unary dest op operand :: code)
    (ha : s.frame.read operand = .ok a) (h : Arithmetic.applyUnary op a = .error e) :
    Stops p 1 s (.error (.arithmetic e)) := by
  refine .failing (State.next_eq here) ?_
  simp only [step, State.read_facing, ha]
  change (computed (Arithmetic.applyUnary op a) >>= _) = _
  rw [h]
  rfl

theorem steps_load {dest : Temp} {place : Place} {value : Int}
    (here : s.frame.code = .load dest place :: code) (h : s.load place = .ok value) :
    Steps p 1 s ((s.facing code).write dest value) := by
  refine .single here ?_
  simp only [step, State.load_facing, h]
  rfl

theorem stops_load {dest : Temp} {place : Place} {e : RuntimeError}
    (here : s.frame.code = .load dest place :: code) (h : s.load place = .error e) :
    Stops p 1 s (.error e) := by
  refine .failing (State.next_eq here) ?_
  simp only [step, State.load_facing, h]
  rfl

theorem steps_store {place : Place} {o : Operand} {value : Int}
    (here : s.frame.code = .store place o :: code) (h : s.frame.read o = .ok value) :
    Steps p 1 s ((s.facing code).store place value) := by
  refine .single here ?_
  simp only [step, State.read_facing, h]
  rfl

theorem steps_label {name : String} (here : s.frame.code = .label name :: code) :
    Steps p 1 s (s.facing code) := .single here rfl

/-- A jump and the label it leads to. -/
theorem steps_jump {name : String} {after : List Instr} (h : Faces s (.jump name :: code))
    (target : .label name :: after <:+ s.frame.function.code) : Steps p 2 s (s.facing after) := by
  have found := codeAt?_of_suffix target h.nodup
  have jump : Steps p 1 s (s.facing (.label name :: after)) := by
    refine .single h.here ?_
    simp only [step, Frame.jump, State.facing_function]
    rw [found]
    rfl
  exact jump.trans (steps_label rfl)

/-- A branch and the label it leads to. -/
theorem steps_branch {o : Operand} {yes no : String} {test : Bool} {after : List Instr}
    (h : Faces s (.branch o yes no :: code)) (ho : s.frame.read o = .ok (Arithmetic.ofBool test))
    (target : .label (if test then yes else no) :: after <:+ s.frame.function.code) :
    Steps p 2 s (s.facing after) := by
  have found := codeAt?_of_suffix target h.nodup
  have chosen : (if Arithmetic.ofBool test ≠ 0 then yes else no) = if test then yes else no := by
    cases test <;> rfl
  have branch : Steps p 1 s (s.facing (.label (if test then yes else no) :: after)) := by
    refine .single h.here ?_
    simp only [step, State.read_facing, ho]
    change (Frame.jump _ _ >>= _) = _
    rw [chosen, Frame.jump, State.facing_function, found]
    rfl
  exact branch.trans (steps_label rfl)

/-- A call that prints. -/
theorem steps_print {os : List Operand} {n : Int} {ns : List Int}
    (here : s.frame.code = .call none printName os :: code)
    (h : s.frame.readAll os = .ok (n :: ns)) :
    Steps p 1 s { s.facing code with printed := n :: s.printed } := by
  refine .single here ?_
  simp only [step, State.readAll_facing, h]
  rfl

/-- A call of a function enters it, if it can. -/
theorem step_call {dest : Option Temp} {callee : String} {os : List Operand} {arguments : List Int}
    (declared : callee ≠ printName) (h : s.frame.readAll os = .ok arguments) :
    step p s (.call dest callee os) = (s.enter p dest callee arguments).map .running := by
  simp only [step, h, if_neg declared]
  change Except.bind (s.enter p dest callee arguments) (fun s => .ok (Outcome.running s)) = _
  cases s.enter p dest callee arguments <;> rfl

/-- The state at the beginning of a call. -/
def State.entered (s : State) (code : List Instr) (dest : Option Temp) (callee : String)
    (f : Function) (arguments : List Int) : State :=
  { s with
    frame := .enter f arguments
    waiting := ⟨(s.facing code).frame, dest, callee⟩ :: s.waiting }

/-- A call of a function. -/
theorem steps_call {dest : Option Temp} {callee : String} {os : List Operand} {f : Function}
    {arguments : List Int} (here : s.frame.code = .call dest callee os :: code)
    (h : s.frame.readAll os = .ok arguments) (declared : callee ≠ printName)
    (known : p.callable? callee = some f) (fits : f.params.length = arguments.length)
    (room : s.depth < maxDepth) :
    Steps p 1 s (s.entered code dest callee f arguments) := by
  refine .single here ?_
  have entered : (s.facing code).enter p dest callee arguments =
      .ok (s.entered code dest callee f arguments) := by
    simp only [State.enter, known, ne_eq, fits, not_true_eq_false, ↓reduceIte,
      State.facing_depth, Nat.not_le.2 room]
    rfl
  rw [← State.readAll_facing s code] at h
  rw [step_call declared h, entered]
  rfl

/-- A call of a function where no more calls can become active. -/
theorem stops_call {dest : Option Temp} {callee : String} {os : List Operand} {f : Function}
    {arguments : List Int} (here : s.frame.code = .call dest callee os :: code)
    (h : s.frame.readAll os = .ok arguments) (declared : callee ≠ printName)
    (known : p.callable? callee = some f) (fits : f.params.length = arguments.length)
    (full : maxDepth ≤ s.depth) : Stops p 1 s (.error (.stackOverflow maxDepth)) := by
  refine .failing (State.next_eq here) ?_
  have failed : (s.facing code).enter p dest callee arguments =
      .error (.stackOverflow maxDepth) := by
    simp only [State.enter, known, ne_eq, fits, not_true_eq_false, ↓reduceIte,
      State.facing_depth, full]
  rw [← State.readAll_facing s code] at h
  rw [step_call declared h, failed]
  rfl

/-- The state in which a call goes on that waited for another one. -/
def State.resumed (s : State) (frame : Frame) (waiting : List Waiting) : State :=
  { s with frame := frame, waiting := waiting }

/-- The end of a call whose value nobody takes. -/
theorem steps_ret {value : Option Operand} {frame : Frame} {callee : String}
    {waiting : List Waiting} (here : s.frame.code = .ret value :: code)
    (waits : s.waiting = ⟨frame, none, callee⟩ :: waiting)
    (h : ∀ o, value = some o → ∃ n, s.frame.read o = .ok n) :
    Steps p 1 s (s.resumed frame waiting) := by
  have back : ∀ v, (s.facing code).giveBack v = .ok (.running (s.resumed frame waiting)) := by
    intro v
    simp only [State.giveBack, State.facing_waiting, waits]
    rfl
  refine .single here ?_
  cases value with
  | none => exact back none
  | some o =>
    obtain ⟨n, read⟩ := h o rfl
    simp only [step, State.read_facing, read]
    exact back (some n)

/-- The end of a call whose value goes into a temporary. -/
theorem steps_ret_value {o : Operand} {n : Int} {frame : Frame} {t : Temp} {callee : String}
    {waiting : List Waiting} (here : s.frame.code = .ret (some o) :: code)
    (waits : s.waiting = ⟨frame, some t, callee⟩ :: waiting) (h : s.frame.read o = .ok n) :
    Steps p 1 s ((s.resumed frame waiting).write t n) := by
  have back : (s.facing code).giveBack (some n) =
      .ok (.running ((s.resumed frame waiting).write t n)) := by
    simp only [State.giveBack, State.facing_waiting, waits]
    rfl
  refine .single here ?_
  simp only [step, State.read_facing, h]
  exact back

/-- The end of the call that a run started with. -/
theorem stops_ret (here : s.frame.code = .ret none :: code) (waits : s.waiting = []) :
    Stops p 1 s (.ok s.printed.reverse) := by
  refine .finishing (State.next_eq here) ?_
  simp only [step, State.giveBack, State.facing_waiting, waits]
  rfl

end

end MiniLang.Ir
