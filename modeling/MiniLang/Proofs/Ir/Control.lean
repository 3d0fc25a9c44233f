import MiniLang.Proofs.Ir.Steps
import MiniLang.Proofs.Ir.WellFormed

/-!
# Where control gets

In a run, every call that is active stands at the end of a way that control may take through its
function (`State.OnWay`). So an instruction that is executed (`Program.Executes`) is reached by such
a way from the start of its function (`Program.Executes.path`), and what no way leads to is never
executed. Control stays out of a piece of code if it cannot fall into it and nothing outside of it
jumps to a label of it (`Path.avoids`).
-/

set_option autoImplicit false

namespace MiniLang.Ir

/-! ## Executed instructions -/

/-- What a state does next is the instruction at a position of a function. -/
def State.RunsAt (s : State) (f : Function) (n : Nat) : Prop :=
  ∃ i past, s.next = .ok (.instr i past) ∧ past.frame.function = f ∧
    i :: past.frame.code = f.code.drop n

/-- Some run of a program gets to the instruction at a position of a function, in whichever call of
the function, and executes it. -/
def Program.Executes (p : Program) (f : Function) (n : Nat) : Prop :=
  ∃ first steps s, start p = .ok first ∧ Steps p steps first s ∧ s.RunsAt f n

/-! ## Calls on their way -/

/-- A call of a function of the program that has got to some position on a way through it. -/
def Frame.OnWay (p : Program) (f : Frame) : Prop :=
  f.function ∈ p.functions ∧
    ∃ n before, Path f.function.code (n :: before) ∧ f.code = f.function.code.drop n

/-- All active calls are on their ways. -/
structure State.OnWay (p : Program) (s : State) : Prop where
  frame : s.frame.OnWay p
  waiting : ∀ w ∈ s.waiting, w.frame.OnWay p

/-- Something is true of the result of a computation, if there is one. -/
def Yields {α : Type} (P : α → Prop) (x : Except RuntimeError α) : Prop := ∀ a, x = .ok a → P a

namespace Yields

variable {α β : Type} {P : α → Prop} {Q : β → Prop}

theorem ok {a : α} (h : P a) : Yields P (.ok a) := by
  rintro _ ⟨⟩
  exact h

theorem error (e : RuntimeError) : Yields P (.error e) := by
  rintro _ ⟨⟩

theorem bind {x : Except RuntimeError α} {f : α → Except RuntimeError β} (first : Yields P x)
    (second : ∀ a, P a → Yields Q (f a)) : Yields Q (x >>= f) := by
  cases x with
  | error e => exact .error e
  | ok a => exact second a (first a rfl)

/-- Whatever the result of the first computation is. -/
theorem after {x : Except RuntimeError α} {f : α → Except RuntimeError β}
    (second : ∀ a, Yields Q (f a)) : Yields Q (x >>= f) :=
  bind (P := fun _ => True) (fun _ _ => trivial) fun a _ => second a

theorem map {x : Except RuntimeError α} {f : α → β} (first : Yields P x)
    (second : ∀ a, P a → Q (f a)) : Yields Q (x.map f) := by
  cases x with
  | error e => exact .error e
  | ok a => exact .ok (second a (first a rfl))

end Yields

/-- A run that goes on does so with all calls on their ways. -/
def Outcome.OnWay (p : Program) : Outcome → Prop
  | .running s => s.OnWay p
  | .finished _ => True

variable {p : Program} {s past : State} {i : Instr} {n : Nat}

/-- A jump leads to a label of the name. -/
theorem codeAt?_eq_some {name : String} :
    ∀ {code found : List Instr}, codeAt? name code = some found →
      ∃ m, code[m]? = some (.label name) ∧ found = code.drop m
  | i :: code, found, h => by
    rw [codeAt?] at h
    cases later : codeAt? name code with
    | some rest =>
      obtain ⟨m, here, same⟩ := codeAt?_eq_some later
      rw [later] at h
      exact ⟨m + 1, here, (Option.some.inj h).symm.trans same⟩
    | none =>
      simp only [later] at h
      split at h
      next named =>
        have isLabel : i = .label name := by
          cases i <;> first | cases named; rfl | cases named
        exact ⟨0, by rw [isLabel]; rfl, (Option.some.inj h).symm⟩
      next => cases h

namespace State.OnWay

/-- Temporaries, places and what was printed do not matter. -/
theorem write (h : s.OnWay p) (t : Temp) (value : Int) : (s.write t value).OnWay p :=
  ⟨h.frame, h.waiting⟩

theorem store (h : s.OnWay p) (place : Place) (value : Int) : (s.store place value).OnWay p := by
  cases place with
  | frame | global => exact ⟨h.frame, h.waiting⟩

theorem print (h : s.OnWay p) (dest : Option Temp) (arguments : List Int) :
    Yields (State.OnWay p) (s.print dest arguments) := by
  unfold State.print
  split
  · exact .error _
  · exact .ok ⟨h.frame, h.waiting⟩
  · exact .error _

/-- A new call starts at the beginning, and the old one waits where it is. -/
theorem enter (h : s.OnWay p) (dest : Option Temp) (callee : String) (arguments : List Int) :
    Yields (State.OnWay p) (s.enter p dest callee arguments) := by
  unfold State.enter
  split
  next => exact .error _
  next f found =>
    split
    · exact .error _
    split
    · exact .error _
    · have known : f ∈ p.functions :=
        (List.mem_filter.1 (List.mem_of_getLast? found)).1
      exact .ok ⟨⟨known, 0, [], .start, rfl⟩, List.forall_mem_cons.2 ⟨h.frame, h.waiting⟩⟩

/-- The call below goes on where it waited. -/
theorem giveBack (below : ∀ w ∈ s.waiting, w.frame.OnWay p) (value : Option Int) :
    Yields (Outcome.OnWay p) (s.giveBack value) := by
  unfold State.giveBack
  split
  next => exact .ok trivial
  next w waiting here =>
    rw [here] at below
    obtain ⟨first, others⟩ := List.forall_mem_cons.1 below
    refine Yields.map (P := State.OnWay p) ?_ fun _ h => h
    unfold State.resume
    split
    · exact .ok ⟨first, others⟩
    · exact .ok ⟨first, others⟩
    · exact .error _

end State.OnWay

/-! ## Steps -/

/-- An instruction is about to run, at the end of a way through its function. -/
structure Facing (p : Program) (i : Instr) (past : State) (n : Nat) : Prop where
  known : past.frame.function ∈ p.functions
  here : i :: past.frame.code = past.frame.function.code.drop n
  way : ∃ before, Path past.frame.function.code (n :: before)
  below : ∀ w ∈ past.waiting, w.frame.OnWay p

namespace Facing

theorem getElem?_eq (h : Facing p i past n) : past.frame.function.code[n]? = some i := by
  rw [← List.head?_drop, ← h.here]
  rfl

theorem drop_eq (h : Facing p i past n) :
    past.frame.code = past.frame.function.code.drop (n + 1) := by
  rw [← List.tail_drop, ← h.here]
  rfl

/-- Control goes on behind the instruction. -/
theorem next (h : Facing p i past n) (on : i.fallsThrough = true) : past.OnWay p := by
  obtain ⟨before, way⟩ := h.way
  exact ⟨⟨h.known, n + 1, n :: before, way.step (.next h.getElem?_eq on), h.drop_eq⟩, h.below⟩

/-- Control moves to a label that the instruction names. -/
theorem jump (h : Facing p i past n) {target : String} (names : target ∈ i.targets) :
    Yields (fun frame => State.OnWay p { past with frame := frame })
      (past.frame.jump target) := by
  obtain ⟨before, way⟩ := h.way
  unfold Frame.jump
  split
  next code found =>
    obtain ⟨m, there, same⟩ := codeAt?_eq_some found
    exact .ok ⟨⟨h.known, m, n :: before, way.step (.jump h.getElem?_eq names there), same⟩,
      h.below⟩
  next => exact .error _

/-- After a step all calls are on their ways. -/
theorem step (h : Facing p i past n) : Yields (Outcome.OnWay p) (step p past i) := by
  cases i with
  | binary dest op left right =>
    exact .after fun a => .after fun b => .after fun value => .ok ((h.next rfl).write ..)
  | unary dest op operand => exact .after fun a => .after fun value => .ok ((h.next rfl).write ..)
  | load dest place => exact .after fun value => .ok ((h.next rfl).write ..)
  | store place operand => exact .after fun value => .ok ((h.next rfl).store ..)
  | call dest callee operands =>
    refine .after fun arguments => ?_
    by_cases prints : callee = printName
    · rw [if_pos prints]
      exact Yields.bind ((h.next rfl).print dest arguments) fun _ h => .ok h
    · rw [if_neg prints]
      exact Yields.bind ((h.next rfl).enter dest callee arguments) fun _ h => .ok h
  | jump target => exact (h.jump (List.mem_singleton_self _)).bind fun _ h => .ok h
  | branch condition yes no =>
    refine .after fun value => (h.jump ?_).bind fun _ h => .ok h
    split
    · exact List.mem_cons_self
    · exact List.mem_cons_of_mem _ (List.mem_singleton_self _)
  | label name => exact .ok (h.next rfl)
  | ret value =>
    cases value with
    | none => exact State.OnWay.giveBack h.below none
    | some operand => exact .after fun value => State.OnWay.giveBack h.below (some value)

end Facing

/-- What the next instruction of calls on their ways is. -/
def Next.Faces (p : Program) : Next → Prop
  | .instr i past => ∃ n, Facing p i past n
  | .finished _ => True

/-- Calls that have come to their ends are left on the way. -/
theorem faces_settle (globals : Table String Int) (printed : List Int) :
    ∀ (waiting : List Waiting) {frame : Frame}, frame.OnWay p →
      (∀ w ∈ waiting, w.frame.OnWay p) →
      Yields (Next.Faces p) (settle globals printed frame waiting) := by
  intro waiting
  induction waiting with
  | nil =>
    rintro ⟨f, code, temps, places⟩ ⟨known, n, before, way, here⟩ below
    unfold settle
    cases code with
    | nil => exact .ok trivial
    | cons i code => exact .ok ⟨n, known, here, ⟨before, way⟩, below⟩
  | cons w waiting ih =>
    rintro ⟨f, code, temps, places⟩ ⟨known, n, before, way, here⟩ below
    unfold settle
    cases code with
    | nil =>
      simp only
      split
      · obtain ⟨first, others⟩ := List.forall_mem_cons.1 below
        exact ih first others
      · exact .error _
    | cons i code => exact .ok ⟨n, known, here, ⟨before, way⟩, below⟩

theorem State.OnWay.faces {s past : State} {i : Instr} (h : s.OnWay p)
    (here : s.next = .ok (.instr i past)) : ∃ n, Facing p i past n :=
  faces_settle s.globals s.printed s.waiting h.frame h.waiting _ here

theorem State.OnWay.steps {t : State} {k : Nat} (steps : Steps p k s t) (h : s.OnWay p) :
    t.OnWay p := by
  induction steps with
  | none s => exact h
  | more here runs _ ih =>
    obtain ⟨n, facing⟩ := h.faces here
    exact ih (facing.step _ runs)

theorem onWay_start : Yields (State.OnWay p) (start p) := by
  unfold start
  split
  next => exact .error _
  next f found =>
    split
    · exact .error _
    · have known : f ∈ p.functions := (List.mem_filter.1 (List.mem_of_getLast? found)).1
      exact .ok ⟨⟨known, 0, [], .start, rfl⟩, List.forall_mem_nil _⟩

/-- What is executed belongs to a function of the program, and there is a way to it from the start
of this function. -/
theorem Program.Executes.path {f : Function} (h : p.Executes f n) :
    f ∈ p.functions ∧ ∃ before, Path f.code (n :: before) := by
  obtain ⟨first, k, s, started, steps, i, past, next, rfl, here⟩ := h
  obtain ⟨m, facing⟩ := (State.OnWay.steps steps (onWay_start _ started)).faces next
  -- what is left of the code tells the position
  have lengths := congrArg List.length (here.symm.trans facing.here)
  have some_left := congrArg List.length here
  rw [List.length_drop, List.length_drop] at lengths
  rw [List.length_cons, List.length_drop] at some_left
  obtain rfl : n = m := by omega
  exact ⟨facing.known, facing.way⟩

/-! ## Code that control stays out of -/

/-- If no label repeats, the code around a piece of code has none of the labels in it. -/
theorem notMem_labelsOf_around {before inside after : List Instr} {name : String}
    (distinct : (labelsOf (before ++ inside ++ after)).Nodup)
    (around : name ∈ labelsOf (before ++ after)) : name ∉ labelsOf inside := by
  rw [labelsOf_append, labelsOf_append, List.nodup_append', List.nodup_append'] at distinct
  obtain ⟨⟨-, -, apart⟩, -, apart'⟩ := distinct
  intro mem
  rw [labelsOf_append] at around
  rcases List.mem_append.1 around with earlier | later
  · exact apart earlier mem
  · exact apart' (List.mem_append_right _ mem) later

/-- Control does not get into a piece of code if it cannot fall into it from what stands before it,
and if what is around it jumps to labels around it. -/
theorem Path.avoids {before dead after : List Instr} {path : List Nat}
    (closed : ∃ i, before.getLast? = some i ∧ i.fallsThrough = false)
    (distinct : (labelsOf (before ++ dead ++ after)).Nodup)
    (outside : ∀ i ∈ before ++ after, ∀ target ∈ i.targets, target ∈ labelsOf (before ++ after))
    (way : Path (before ++ dead ++ after) path) :
    ∀ n ∈ path, n < before.length ∨ before.length + dead.length ≤ n := by
  obtain ⟨last, isLast, leaves⟩ := closed
  have around : ∀ {n : Nat} {i : Instr}, (before ++ dead ++ after)[n]? = some i →
      n < before.length ∨ before.length + dead.length ≤ n → i ∈ before ++ after := by
    rintro n i here (inside | beyond)
    · rw [List.append_assoc, List.getElem?_append_left inside] at here
      exact List.mem_append_left _ (List.mem_of_getElem? here)
    · rw [List.getElem?_append_right (by simpa using beyond)] at here
      exact List.mem_append_right _ (List.mem_of_getElem? here)
  induction way with
  | start =>
    have pos : 0 < before.length := List.length_pos_of_mem (List.mem_of_getLast? isLast)
    exact List.forall_mem_singleton.2 (.inl pos)
  | @step n m passed _ passes ih =>
    refine List.forall_mem_cons.2 ⟨?_, ih⟩
    have at_ := ih n List.mem_cons_self
    cases passes with
    | @next i here on =>
      rcases at_ with inside | beyond
      · by_contra into
        -- only the last instruction before the piece stands next to it
        have end_ : n = before.length - 1 := by omega
        rw [List.append_assoc, List.getElem?_append_left inside, end_,
          ← List.getLast?_eq_getElem?, isLast] at here
        cases here
        cases on.symm.trans leaves
      · exact .inr (Nat.le_succ_of_le beyond)
    | @jump _ i target here names there =>
      by_contra into
      have label : .label target ∈ dead := by
        rw [List.getElem?_append_left (by rw [List.length_append]; omega),
          List.getElem?_append_right (by omega)] at there
        exact List.mem_of_getElem? there
      exact notMem_labelsOf_around distinct (outside _ (around here at_) target names)
        (List.mem_filterMap.2 ⟨_, label, rfl⟩)

end MiniLang.Ir
