import Mathlib.Logic.Relator
import Mathlib.Tactic
import MiniLang.Ir.Machine

/-!
# Renaming frame places

What the places of a function are called does not matter, as long as they stay apart. Two functions
whose code is the same but for the names of frame places, related one to one, do the same step by
step (`agree_step`): they read and write the same values, call the same functions and print the
same. So two programs of such functions give the same under every limit (`Program.Alike.run`),
unless both come to a frame place without a value, whose names may differ. The order of the
functions does not matter, since calls find them by their names.
-/

set_option autoImplicit false

namespace MiniLang.Ir

/-- The names of frame places in one function, and what they are called in another one. -/
abbrev Renaming := String → String → Prop

variable {ρ : Renaming}

/-- Places that are the same but for the names of frame places. -/
inductive Place.Renamed (ρ : Renaming) : Place → Place → Prop
  | frame {name name' : String} (h : ρ name name') : Renamed ρ (.frame name) (.frame name')
  | global (name : String) : Renamed ρ (.global name) (.global name)

/-- The place that an instruction reads or writes. -/
def Instr.place? : Instr → Option Place
  | load _ place => some place
  | store place _ => some place
  | _ => none

/-- Instructions that are the same but for the names of frame places. -/
inductive Instr.Renamed (ρ : Renaming) : Instr → Instr → Prop
  | load (dest : Temp) {place place' : Place} (h : place.Renamed ρ place') :
      Renamed ρ (.load dest place) (.load dest place')
  | store {place place' : Place} (value : Operand) (h : place.Renamed ρ place') :
      Renamed ρ (.store place value) (.store place' value)
  | other {i : Instr} (h : i.place? = none) : Renamed ρ i i

/-- Code that is the same but for the names of frame places. -/
abbrev CodeRenamed (ρ : Renaming) : List Instr → List Instr → Prop :=
  List.Forall₂ (Instr.Renamed ρ)

/-- Functions that are the same but for the names of frame places. -/
structure Function.Renamed (ρ : Renaming) (F F' : Function) : Prop where
  name : F'.name = F.name
  params : List.Forall₂ (Place.Renamed ρ) F.params F'.params
  code : CodeRenamed ρ F.code F'.code

/-- Functions that are the same up to a renaming of frame places that keeps them apart. -/
def Function.Alike (F F' : Function) : Prop :=
  ∃ ρ : Renaming, Relator.BiUnique ρ ∧ F.Renamed ρ F'

/-- Programs in which calls reach functions that are the same up to a renaming. -/
def Program.Alike (p p' : Program) : Prop :=
  ∀ name, Option.Rel Function.Alike (p.callable? name) (p'.callable? name)

theorem Instr.Renamed.label?_eq {i i' : Instr} (h : i.Renamed ρ i') : i'.label? = i.label? := by
  cases h <;> rfl

/-- Two searches that belong together both find nothing, or both find something. -/
theorem rel_cases {α β : Type} {R : α → β → Prop} {x : Option α} {y : Option β}
    (h : Option.Rel R x y) : x = none ∧ y = none ∨ ∃ a b, x = some a ∧ y = some b ∧ R a b := by
  cases h with
  | none => exact .inl ⟨rfl, rfl⟩
  | some related => exact .inr ⟨_, _, rfl, rfl, related⟩

/-- Labels stand at the same places of the code. -/
theorem codeAt?_renamed {code code' : List Instr} (h : CodeRenamed ρ code code') (label : String) :
    Option.Rel (CodeRenamed ρ) (codeAt? label code) (codeAt? label code') := by
  induction h with
  | nil => exact .none
  | cons first rest ih =>
    rw [codeAt?, codeAt?, first.label?_eq]
    rcases rel_cases ih with ⟨none, none'⟩ | ⟨_, _, later, later', renamed⟩
    · simp only [none, none']
      split
      · exact .some (.cons first rest)
      · exact .none
    · simp only [later, later']
      exact .some renamed

/-! ## Results -/

/-- Two computations give related values or fail for the same reason, where two frame places without
a value count as the same reason. -/
inductive Agree {α β : Type} (R : α → β → Prop) :
    Except RuntimeError α → Except RuntimeError β → Prop
  | ok {a : α} {b : β} (h : R a b) : Agree R (.ok a) (.ok b)
  | error (e : RuntimeError) : Agree R (.error e) (.error e)
  | unset (name name' : String) :
      Agree R (.error (.uninitialized (.frame name))) (.error (.uninitialized (.frame name')))

namespace Agree

variable {α β γ δ : Type} {R : α → β → Prop} {S : γ → δ → Prop}

theorem refl (x : Except RuntimeError α) : Agree Eq x x := by
  cases x with
  | error e => exact .error e
  | ok a => exact .ok rfl

theorem bind {x : Except RuntimeError α} {y : Except RuntimeError β}
    {f : α → Except RuntimeError γ} {g : β → Except RuntimeError δ} (first : Agree R x y)
    (second : ∀ a b, R a b → Agree S (f a) (g b)) : Agree S (x >>= f) (y >>= g) := by
  cases first with
  | ok h => exact second _ _ h
  | error e => exact .error e
  | unset name name' => exact .unset name name'

/-- The first computation is the same on both sides. -/
theorem bind_same (x : Except RuntimeError α) {f : α → Except RuntimeError γ}
    {g : α → Except RuntimeError δ} (second : ∀ a, Agree S (f a) (g a)) :
    Agree S (x >>= f) (x >>= g) :=
  (refl x).bind fun a b same => by
    subst same
    exact second a

theorem map {x : Except RuntimeError α} {y : Except RuntimeError β} {f : α → γ} {g : β → δ}
    (first : Agree R x y) (second : ∀ a b, R a b → S (f a) (g b)) :
    Agree S (x.map f) (y.map g) := by
  cases first with
  | ok h => exact .ok (second _ _ h)
  | error e => exact .error e
  | unset name name' => exact .unset name name'

/-- Results that agree are equal, unless a frame place had no value. -/
theorem eq {x y : Except RuntimeError α} (h : Agree Eq x y)
    (set : ∀ name, x ≠ .error (.uninitialized (.frame name))) : x = y := by
  cases h with
  | ok same => rw [same]
  | error e => rfl
  | unset name => exact absurd rfl (set name)

end Agree

/-! ## States -/

/-- Active calls of functions that are the same but for the names of frame places, with the same
values in them. -/
structure Frame.Renamed (ρ : Renaming) (f f' : Frame) : Prop where
  function : f.function.Renamed ρ f'.function
  code : CodeRenamed ρ f.code f'.code
  temps : f'.temps = f.temps
  places : ∀ name name', ρ name name' → f'.places.get? name' = f.places.get? name

/-- Active calls that are the same up to a renaming. -/
def Frame.Alike (f f' : Frame) : Prop := ∃ ρ : Renaming, Relator.BiUnique ρ ∧ f.Renamed ρ f'

/-- Waiting calls that are the same up to a renaming. -/
structure Waiting.Alike (w w' : Waiting) : Prop where
  frame : w.frame.Alike w'.frame
  dest : w'.dest = w.dest
  callee : w'.callee = w.callee

/-- States that are the same up to a renaming of the frame places of every call, the given one in
the running call. -/
structure State.Renamed (ρ : Renaming) (s s' : State) : Prop where
  frame : s.frame.Renamed ρ s'.frame
  waiting : List.Forall₂ Waiting.Alike s.waiting s'.waiting
  globals : s'.globals = s.globals
  printed : s'.printed = s.printed

/-- States that are the same up to a renaming of the frame places of every call. -/
def State.Alike (s s' : State) : Prop := ∃ ρ : Renaming, Relator.BiUnique ρ ∧ s.Renamed ρ s'

/-- Steps lead to states that are the same up to a renaming, or to the same end. -/
inductive Outcome.Alike : Outcome → Outcome → Prop
  | running {s s' : State} (h : s.Alike s') : Alike (.running s) (.running s')
  | finished (printed : List Int) : Alike (.finished printed) (.finished printed)

/-- The next instructions are the same but for the names of frame places, or there is none. -/
inductive Next.Alike : Next → Next → Prop
  | instr {ρ : Renaming} {i i' : Instr} {s s' : State} (unique : Relator.BiUnique ρ)
      (code : i.Renamed ρ i') (h : s.Renamed ρ s') : Alike (.instr i s) (.instr i' s')
  | finished (printed : List Int) : Alike (.finished printed) (.finished printed)

/-! ## Reading and writing -/

/-- Writing a place and the one it is renamed to changes no other pair of places. -/
theorem get?_insert_renamed {places places' : Table String Int} (unique : Relator.BiUnique ρ)
    (same : ∀ name name', ρ name name' → places'.get? name' = places.get? name)
    {key key' : String} (h : ρ key key') (value : Int) {name name' : String} (h' : ρ name name') :
    (places'.insert key' value).get? name' = (places.insert key value).get? name := by
  rw [Table.get?_insert, Table.get?_insert]
  by_cases here : key = name
  · subst here
    rw [if_pos rfl, if_pos (unique.2 h h')]
  · have other : key' ≠ name' := by
      rintro rfl
      exact here (unique.1 h h')
    rw [if_neg here, if_neg other]
    exact same name name' h'

namespace Frame.Renamed

variable {f f' : Frame}

theorem read (h : f.Renamed ρ f') (o : Operand) : f'.read o = f.read o := by
  cases o with
  | const value => rfl
  | temp t => rw [Frame.read, Frame.read, h.temps, h.function.name]

theorem readAll (h : f.Renamed ρ f') (os : List Operand) : f'.readAll os = f.readAll os := by
  induction os with
  | nil => rfl
  | cons o os ih => rw [Frame.readAll, Frame.readAll, h.read, ih]

theorem write (h : f.Renamed ρ f') (t : Temp) (value : Int) :
    (f.write t value).Renamed ρ (f'.write t value) :=
  ⟨h.function, h.code, congrArg (·.insert t value) h.temps, h.places⟩

/-- Both calls find the label at the same place. -/
theorem jump (h : f.Renamed ρ f') (label : String) :
    Agree (Frame.Renamed ρ) (f.jump label) (f'.jump label) := by
  rw [Frame.jump, Frame.jump, h.function.name]
  rcases rel_cases (codeAt?_renamed h.function.code label) with
    ⟨none, none'⟩ | ⟨_, _, found, found', renamed⟩
  · simp only [none, none']
    exact .error _
  · simp only [found, found']
    exact .ok ⟨h.function, renamed, h.temps, h.places⟩

end Frame.Renamed

/-- Arguments are put where the parameters live. -/
theorem bind_renamed (unique : Relator.BiUnique ρ) {params params' : List Place}
    (h : List.Forall₂ (Place.Renamed ρ) params params') :
    ∀ (values : List Int) {places places' : Table String Int},
      (∀ name name', ρ name name' → places'.get? name' = places.get? name) →
      ∀ name name', ρ name name' → (Frame.bind places' params' values).get? name' =
        (Frame.bind places params values).get? name := by
  induction h with
  | nil => exact fun _ _ _ same => same
  | @cons param param' _ _ first _ ih =>
    intro values places places' same
    cases values with
    | nil =>
      cases first <;> exact same
    | cons value values =>
      cases first with
      | frame key => exact ih values fun _ _ h => get?_insert_renamed unique same key value h
      | global => exact ih values same

/-- Calls of functions that are the same up to a renaming, with the same arguments. -/
theorem Function.Alike.enter {F F' : Function} (h : F.Alike F') (arguments : List Int) :
    (Frame.enter F arguments).Alike (Frame.enter F' arguments) := by
  obtain ⟨ρ, unique, renamed⟩ := h
  exact ⟨ρ, unique, renamed, renamed.code, rfl,
    bind_renamed unique renamed.params arguments fun _ _ _ => rfl⟩

theorem Function.Alike.arity {F F' : Function} (h : F.Alike F') :
    F'.params.length = F.params.length := by
  obtain ⟨ρ, -, renamed⟩ := h
  exact renamed.params.length_eq.symm

namespace State.Renamed

variable {s s' : State}

theorem write (h : s.Renamed ρ s') (t : Temp) (value : Int) :
    (s.write t value).Renamed ρ (s'.write t value) :=
  ⟨h.frame.write t value, h.waiting, h.globals, h.printed⟩

theorem load (h : s.Renamed ρ s') {place place' : Place} (renamed : place.Renamed ρ place') :
    Agree Eq (s.load place) (s'.load place') := by
  cases renamed with
  | @frame name name' key =>
    simp only [State.load, h.frame.places name name' key]
    cases s.frame.places.get? name with
    | none => exact .unset name name'
    | some value => exact .ok rfl
  | global name =>
    simp only [State.load, h.globals]
    exact .refl _

theorem store (h : s.Renamed ρ s') (unique : Relator.BiUnique ρ) {place place' : Place}
    (renamed : place.Renamed ρ place') (value : Int) :
    (s.store place value).Renamed ρ (s'.store place' value) := by
  cases renamed with
  | frame key =>
    exact ⟨⟨h.frame.function, h.frame.code, h.frame.temps,
      fun _ _ h' => get?_insert_renamed unique h.frame.places key value h'⟩, h.waiting, h.globals,
      h.printed⟩
  | global name => exact ⟨h.frame, h.waiting, congrArg (·.insert name value) h.globals, h.printed⟩

theorem depth (h : s.Renamed ρ s') : s'.depth = s.depth :=
  congrArg (· + 1) h.waiting.length_eq.symm

end State.Renamed

/-! ## Steps -/

section Step

variable {p p' : Program} {s s' : State}

/-- The end of the running call. -/
theorem State.Renamed.giveBack (h : s.Renamed ρ s') (value : Option Int) :
    Agree Outcome.Alike (s.giveBack value) (s'.giveBack value) := by
  obtain ⟨frame, waiting, globals, printed⟩ := s
  obtain ⟨frame', waiting', globals', printed'⟩ := s'
  obtain rfl : globals' = globals := h.globals
  obtain rfl : printed' = printed := h.printed
  have waits : List.Forall₂ Waiting.Alike waiting waiting' := h.waiting
  cases waits with
  | nil => exact .ok (.finished _)
  | @cons w w' ws ws' first rest =>
    refine Agree.map (R := State.Alike) ?_ fun _ _ alike => .running alike
    obtain ⟨σ, unique, resumed⟩ := first.frame
    have back : State.Renamed σ ⟨w.frame, ws, globals', printed'⟩
        ⟨w'.frame, ws', globals', printed'⟩ := ⟨resumed, rest, rfl, rfl⟩
    simp only [State.resume, first.dest, first.callee]
    cases w.dest with
    | none => exact .ok ⟨σ, unique, back⟩
    | some t =>
      cases value with
      | none => exact .error _
      | some value => exact .ok ⟨σ, unique, back.write t value⟩

/-- Calls reach functions that are the same up to a renaming. -/
theorem State.Renamed.enter (programs : p.Alike p') (unique : Relator.BiUnique ρ)
    (h : s.Renamed ρ s') (dest : Option Temp) (callee : String) (arguments : List Int) :
    Agree State.Alike (s.enter p dest callee arguments) (s'.enter p' dest callee arguments) := by
  unfold State.enter
  rcases rel_cases (programs callee) with ⟨none, none'⟩ | ⟨F, F', found, found', alike⟩
  · simp only [none, none']
    exact .error _
  · simp only [found, found', alike.arity, h.depth]
    split
    · exact .error _
    · split
      · exact .error _
      · obtain ⟨σ, unique', entered⟩ := alike.enter arguments
        exact .ok ⟨σ, unique', entered, .cons ⟨⟨ρ, unique, h.frame⟩, rfl, rfl⟩ h.waiting,
          h.globals, h.printed⟩

theorem State.Renamed.print (unique : Relator.BiUnique ρ) (h : s.Renamed ρ s')
    (dest : Option Temp) (arguments : List Int) :
    Agree State.Alike (s.print dest arguments) (s'.print dest arguments) := by
  cases arguments with
  | nil => exact .error _
  | cons value _ =>
    cases dest with
    | none =>
      exact .ok ⟨ρ, unique, h.frame, h.waiting, h.globals, congrArg (value :: ·) h.printed⟩
    | some t => exact .error _

/-- One step of both programs. -/
theorem agree_step (programs : p.Alike p') (unique : Relator.BiUnique ρ) (h : s.Renamed ρ s')
    {i i' : Instr} (code : i.Renamed ρ i') :
    Agree Outcome.Alike (step p s i) (step p' s' i') := by
  have running : ∀ {t t' : State}, t.Renamed ρ t' →
      Agree Outcome.Alike (.ok (.running t)) (.ok (.running t')) :=
    fun renamed => .ok (.running ⟨ρ, unique, renamed⟩)
  have jumps : ∀ label, Agree Outcome.Alike
      (s.frame.jump label >>= fun frame => .ok (.running { s with frame := frame }))
      (s'.frame.jump label >>= fun frame => .ok (.running { s' with frame := frame })) :=
    fun label => (h.frame.jump label).bind fun _ _ moved =>
      running ⟨moved, h.waiting, h.globals, h.printed⟩
  cases code with
  | load dest place => exact (h.load place).bind fun a _ same => same ▸ running (h.write dest a)
  | store value place =>
    simp only [step, h.frame.read]
    exact .bind_same _ fun a => running (h.store unique place a)
  | other noPlace =>
    cases i with
    | load => cases noPlace
    | store => cases noPlace
    | label name => exact running h
    | jump target => exact jumps target
    | binary dest op left right =>
      simp only [step, h.frame.read]
      exact .bind_same _ fun a => .bind_same _ fun b => .bind_same _ fun value =>
        running (h.write dest value)
    | unary dest op operand =>
      simp only [step, h.frame.read]
      exact .bind_same _ fun a => .bind_same _ fun value => running (h.write dest value)
    | branch condition yes no =>
      simp only [step, h.frame.read]
      exact .bind_same _ fun value => jumps _
    | call dest callee operands =>
      simp only [step, h.frame.readAll]
      refine .bind_same _ fun arguments => ?_
      split
      · exact (h.print unique dest arguments).bind fun _ _ alike => .ok (.running alike)
      · exact (h.enter programs unique dest callee arguments).bind fun _ _ alike =>
          .ok (.running alike)
    | ret value =>
      cases value with
      | none => exact h.giveBack none
      | some operand =>
        simp only [step, h.frame.read]
        exact .bind_same _ fun value => h.giveBack (some value)

/-- Both programs run the same instruction next, or none. -/
theorem agree_settle (globals : Table String Int) (printed : List Int)
    {waiting waiting' : List Waiting} (waits : List.Forall₂ Waiting.Alike waiting waiting') :
    ∀ {f f' : Frame}, f.Alike f' → Agree Next.Alike (settle globals printed f waiting)
      (settle globals printed f' waiting') := by
  induction waits with
  | nil =>
    rintro ⟨F, code, temps, places⟩ ⟨F', code', temps', places'⟩ ⟨ρ, unique, renamed⟩
    have same : CodeRenamed ρ code code' := renamed.code
    rw [settle.eq_def, settle.eq_def]
    cases same with
    | nil => exact .ok (.finished _)
    | cons first rest =>
      exact .ok (.instr unique first ⟨⟨renamed.function, rest, renamed.temps, renamed.places⟩, .nil,
        rfl, rfl⟩)
  | @cons w w' ws ws' first' rest' ih =>
    rintro ⟨F, code, temps, places⟩ ⟨F', code', temps', places'⟩ ⟨ρ, unique, renamed⟩
    have same : CodeRenamed ρ code code' := renamed.code
    rw [settle.eq_def, settle.eq_def]
    cases same with
    | nil =>
      simp only [first'.dest, first'.callee]
      cases w.dest with
      | none => exact ih first'.frame
      | some t => exact .error _
    | cons first rest =>
      exact .ok (.instr unique first ⟨⟨renamed.function, rest, renamed.temps, renamed.places⟩,
        .cons first' rest', rfl, rfl⟩)

theorem State.Alike.next (h : s.Alike s') : Agree Next.Alike s.next s'.next := by
  obtain ⟨ρ, unique, renamed⟩ := h
  rw [State.next, State.next, renamed.globals, renamed.printed]
  exact agree_settle s.globals s.printed renamed.waiting ⟨ρ, unique, renamed.frame⟩

/-- Both programs go on in the same way, for any number of steps. -/
theorem agree_runFor (programs : p.Alike p') (limit : Nat) :
    ∀ (steps : Nat) {s s' : State}, s.Alike s' →
      Agree Eq (runFor p limit steps s) (runFor p' limit steps s') := by
  intro steps
  induction steps with
  | zero =>
    intro s s' h
    have next := h.next
    rw [runFor, runFor]
    generalize s.next = x, s'.next = y at next ⊢
    cases next with
    | error e => exact .error e
    | unset name name' => exact .unset name name'
    | ok alike =>
      cases alike with
      | finished printed => exact .ok rfl
      | instr => exact .error _
  | succ steps ih =>
    intro s s' h
    have next := h.next
    rw [runFor, runFor]
    generalize s.next = x, s'.next = y at next ⊢
    cases next with
    | error e => exact .error e
    | unset name name' => exact .unset name name'
    | ok alike =>
      cases alike with
      | finished printed => exact .ok rfl
      | @instr ρ i i' t t' unique code renamed =>
        have stepped := agree_step programs unique renamed code
        simp only
        generalize step p t i = z, step p' t' i' = w at stepped ⊢
        cases stepped with
        | error e => exact .error e
        | unset name name' => exact .unset name name'
        | ok alike =>
          cases alike with
          | finished printed => exact .ok rfl
          | running alike => exact ih alike

/-- Programs whose functions are the same up to a renaming give the same under every limit, unless
they come to a frame place without a value. -/
theorem Program.Alike.run (programs : p.Alike p') (limit : Nat) :
    Agree Eq (run p limit) (run p' limit) := by
  unfold Ir.run start
  rcases rel_cases (programs Program.entryName) with ⟨none, none'⟩ | ⟨F, F', found, found', alike⟩
  · simp only [none, none']
    exact .error _
  · simp only [found, found', alike.arity]
    by_cases arity : F.params.length ≠ 0
    · simp only [if_pos arity]
      exact .error _
    · simp only [if_neg arity]
      obtain ⟨ρ, unique, entered⟩ := alike.enter []
      exact agree_runFor programs limit limit ⟨ρ, unique, entered, .nil, rfl, rfl⟩

end Step

end MiniLang.Ir
