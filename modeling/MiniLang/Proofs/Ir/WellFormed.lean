import MiniLang.Proofs.Ir.Labels

/-!
# Well-formed code

What every program of intermediate code should be like: names, labels and parameters differ, jumps
and calls find what they name, every temporary is written by one instruction, and no way through a
function reads a temporary before it is written (`Program.WellFormed`).

The last of these is about paths through code with jumps. It follows from an assignment of
temporaries to labels under which the code can be read once from the start to the end
(`Flows.definedBeforeUse`), in the manner in which typed assembly code is checked.
-/

set_option autoImplicit false

namespace MiniLang.Ir

/-- The temporaries that an operand reads. -/
def Operand.temps : Operand → List Temp
  | const _ => []
  | temp t => [t]

namespace Instr

/-- The temporaries that an instruction reads. -/
def uses : Instr → List Temp
  | binary _ _ left right => left.temps ++ right.temps
  | unary _ _ operand => operand.temps
  | store _ value => value.temps
  | call _ _ arguments => arguments.flatMap Operand.temps
  | branch condition _ _ => condition.temps
  | ret (some value) => value.temps
  | load .. | jump _ | label _ | ret none => []

/-- The labels that control may go to from an instruction. -/
def targets : Instr → List String
  | jump target => [target]
  | branch _ thenLabel elseLabel => [thenLabel, elseLabel]
  | _ => []

/-- Whether control may go on behind an instruction. -/
def fallsThrough : Instr → Bool
  | jump _ | branch .. | ret _ => false
  | _ => true

/-- Instructions that control goes on behind name no labels. -/
theorem targets_eq_nil {i : Instr} (h : i.fallsThrough = true) : i.targets = [] := by
  cases i with
  | jump | branch | ret => cases h
  | _ => rfl

end Instr

/-- Control may get in one step from a position of the code to another. -/
inductive Passes (code : List Instr) : Nat → Nat → Prop
  | next {n : Nat} {i : Instr} (here : code[n]? = some i) (on : i.fallsThrough = true) :
      Passes code n (n + 1)
  | jump {n m : Nat} {i : Instr} {target : String} (here : code[n]? = some i)
      (names : target ∈ i.targets) (there : code[m]? = some (.label target)) : Passes code n m

/-- The positions on a way that control may take from the start of the code, the last one first. -/
inductive Path (code : List Instr) : List Nat → Prop
  | start : Path code [0]
  | step {n m : Nat} {before : List Nat} (path : Path code (n :: before))
      (passes : Passes code n m) : Path code (m :: n :: before)

/-- A temporary is written at one of the given positions. -/
def WrittenAt (code : List Instr) (positions : List Nat) (t : Temp) : Prop :=
  ∃ m ∈ positions, ∃ i, code[m]? = some i ∧ i.dest? = some t

/-- On every way from the start of the code, what an instruction reads was written before. -/
def DefinedBeforeUse (code : List Instr) : Prop :=
  ∀ n before, Path code (n :: before) → ∀ i, code[n]? = some i → ∀ t ∈ i.uses,
    WrittenAt code before t

/-- A call is one of the function that prints, or of a function of the program with as many
parameters. -/
def Program.Accepts (p : Program) : Instr → Prop
  | .call dest callee arguments =>
    (callee = "print" ∧ arguments.length = 1 ∧ dest = none) ∨
      (callee ≠ "print" ∧
        ∃ f ∈ p.functions, f.name = callee ∧ f.params.length = arguments.length)
  | _ => True

/-- A function of a program is as it should be. -/
structure Function.WellFormed (p : Program) (f : Function) : Prop where
  ends : f.code.getLast?.map Instr.isReturn = some true
  labels : f.labels.Nodup
  targets : ∀ i ∈ f.code, ∀ l ∈ i.targets, l ∈ f.labels
  calls : ∀ i ∈ f.code, p.Accepts i
  params : f.params.Nodup
  /-- Each call has its own parameters. -/
  ownParams : ∀ place ∈ f.params, ∃ name, place = .frame name
  /-- Each temporary has one instruction that writes it. -/
  temps : (f.code.filterMap Instr.dest?).Perm (List.range f.temps)
  reads : DefinedBeforeUse f.code

/-- A program is as it should be: its entry function comes first and takes nothing. -/
structure Program.WellFormed (p : Program) : Prop where
  entry : ∃ entry rest, p.functions = entry :: rest ∧ entry.name = entryName ∧ entry.params = []
  names : (p.functions.map Function.name).Nodup
  functions : ∀ f ∈ p.functions, f.WellFormed p

/-! ## Reading code once -/

/-- Code reads nothing that is not there: what is there before the code is given, and what is there
after it. Control gets to a label only with the temporaries that are `known` there. -/
inductive Flows (known : String → Set Temp) : Set Temp → List Instr → Set Temp → Prop
  | done {D D' : Set Temp} (enough : D' ⊆ D) : Flows known D [] D'
  | on {D D' : Set Temp} {i : Instr} {code : List Instr} (reads : ∀ t ∈ i.uses, t ∈ D)
      (goesOn : i.fallsThrough = true) (noLabel : i.label? = none)
      (rest : Flows known (D ∪ {t | i.dest? = some t}) code D') : Flows known D (i :: code) D'
  /-- Nobody gets to what stands behind such an instruction but by a label. -/
  | away {D D₁ D' : Set Temp} {i : Instr} {code : List Instr} (reads : ∀ t ∈ i.uses, t ∈ D)
      (leaves : i.fallsThrough = false) (arrive : ∀ l ∈ i.targets, known l ⊆ D)
      (rest : Flows known D₁ code D') : Flows known D (i :: code) D'
  | label {D D' : Set Temp} {name : String} {code : List Instr} (arrive : known name ⊆ D)
      (rest : Flows known (known name) code D') : Flows known D (.label name :: code) D'

namespace Flows

variable {known : String → Set Temp} {D D₁ D' E : Set Temp} {code before after : List Instr}

/-- More may be there before the code. -/
theorem widen (h : Flows known D code D') (more : D ⊆ E) : Flows known E code D' := by
  induction h generalizing E with
  | done enough => exact .done (enough.trans more)
  | on reads goesOn noLabel _ ih =>
    exact .on (fun t mem => more (reads t mem)) goesOn noLabel
      (ih (Set.union_subset_union_left _ more))
  | away reads leaves arrive rest _ =>
    exact .away (fun t mem => more (reads t mem)) leaves
      (fun l mem => (arrive l mem).trans more) rest
  | label arrive rest _ => exact .label (arrive.trans more) rest

theorem append (h : Flows known D before D₁) (h' : Flows known D₁ after D') :
    Flows known D (before ++ after) D' := by
  induction h with
  | done enough => exact h'.widen enough
  | on reads goesOn noLabel _ ih => exact .on reads goesOn noLabel (ih h')
  | away reads leaves arrive _ ih => exact .away reads leaves arrive (ih h')
  | label arrive _ ih => exact .label arrive (ih h')

/-- Less may be asked for after the code. -/
theorem narrow (h : Flows known D code D') (less : E ⊆ D') : Flows known D code E := by
  have whole := h.append (.done less)
  rwa [List.append_nil] at whole

/-- Code that is read from the start on is read from each of its labels on. -/
theorem from_label (h : Flows known D code D') {m : Nat} {name : String}
    (there : code[m]? = some (.label name)) : Flows known (known name) (code.drop m) D' := by
  induction h generalizing m with
  | done => cases there
  | on _ _ noLabel rest ih =>
    cases m with
    | zero =>
      obtain rfl := Option.some.inj there
      cases noLabel
    | succ m => exact ih there
  | away _ leaves _ rest ih =>
    cases m with
    | zero =>
      obtain rfl := Option.some.inj there
      cases leaves
    | succ m => exact ih there
  | label arrive rest ih =>
    cases m with
    | zero =>
      cases there
      exact .label subset_rfl rest
    | succ m => exact ih there

/-- What stands next reads only what is there. -/
theorem reads_head {i : Instr} (h : Flows known D (i :: code) D') : ∀ t ∈ i.uses, t ∈ D := by
  intro t mem
  cases h with
  | on reads => exact reads t mem
  | away reads => exact reads t mem
  | label => cases mem

/-- One step keeps the reading: only what was written on the way is taken to be there. -/
theorem pass {n m : Nat} {path : List Nat} (whole : Flows known ∅ code D')
    (here : Flows known D (code.drop n) D') (written : ∀ t ∈ D, WrittenAt code path t)
    (passes : Passes code n m) :
    ∃ D₁, Flows known D₁ (code.drop m) D' ∧ ∀ t ∈ D₁, WrittenAt code (n :: path) t := by
  have kept : ∀ t ∈ D, WrittenAt code (n :: path) t := by
    intro t mem
    obtain ⟨m, passed, write⟩ := written t mem
    exact ⟨m, List.mem_cons_of_mem _ passed, write⟩
  cases passes with
  | @next i at_n goesOn =>
    rw [List.drop_eq_getElem?_toList_append, at_n] at here
    cases here with
    | on _ _ _ rest =>
      refine ⟨_, rest, ?_⟩
      rintro t (mem | dest)
      · exact kept t mem
      · exact ⟨n, List.mem_cons_self, i, at_n, dest⟩
    | away _ leaves => cases goesOn.symm.trans leaves
    | label arrive rest => exact ⟨_, rest, fun t mem => kept t (arrive mem)⟩
  | @jump _ i target at_n names at_m =>
    rw [List.drop_eq_getElem?_toList_append, at_n] at here
    refine ⟨_, whole.from_label at_m, fun t mem => ?_⟩
    cases here with
    | on _ goesOn =>
      rw [Instr.targets_eq_nil goesOn] at names
      cases names
    | away _ _ arrive => exact kept t (arrive target names mem)
    | label => cases names

/-- On every way through code that can be read once, what is taken to be there was written. -/
theorem along {path : List Nat} (whole : Flows known ∅ code D') (way : Path code path) :
    ∃ n passed D, path = n :: passed ∧ Flows known D (code.drop n) D' ∧
      ∀ t ∈ D, WrittenAt code passed t := by
  induction way with
  | start => exact ⟨0, [], ∅, rfl, whole, fun t mem => absurd mem (Set.notMem_empty t)⟩
  | step _ passes ih =>
    obtain ⟨n, passed, D, same, here, written⟩ := ih
    cases same
    obtain ⟨D₁, there, written⟩ := pass whole here written passes
    exact ⟨_, _, D₁, rfl, there, written⟩

/-- Code that can be read once, from nothing on, reads no temporary before it is written. -/
theorem definedBeforeUse (whole : Flows known ∅ code D') : DefinedBeforeUse code := by
  intro n before way i here t mem
  obtain ⟨_, _, D, same, reading, written⟩ := along whole way
  cases same
  rw [List.drop_eq_getElem?_toList_append, here] at reading
  exact written t (reading.reads_head t mem)

end Flows

end MiniLang.Ir
