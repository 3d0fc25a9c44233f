import MiniLang.Proofs.Correctness.Values
import MiniLang.Proofs.Ir.Instructions
import MiniLang.Proofs.Lowering.Naming

/-!
# Variables and places

When the state of a run holds what the memory of an evaluation holds: the variables of every scope
around, each in a place of its own, the global variables that have a value, and what was printed
(`Ready`). Reading, assigning and declaring a variable and the places of operators keep this so.
-/

set_option autoImplicit false

namespace MiniLang.Semantics

open Ir (State)
open Lowering (numbered numbered_inj placeFor)

/-- Exactly the variables of a scope have values in it, of their types, and places with the numbers
of these. -/
def LevelMatches (places : Table String Int) (l : Level) (scope : Table String Value) : Prop :=
  ∀ name,
    match l.type? name with
    | none => scope.get? name = none
    | some type => ∃ v, scope.get? name = some v ∧ v.HasType type ∧
        places.get? (numbered name l.scope) = some v.code

namespace LevelMatches

variable {places : Table String Int} {l : Level} {scope : Table String Value}

theorem get?_none {name : String} (h : LevelMatches places l scope) (none : l.type? name = none) :
    scope.get? name = .none := by
  have := h name
  rwa [none] at this

theorem get?_some {name : String} {type : Ty} (h : LevelMatches places l scope)
    (some : l.type? name = some type) :
    ∃ v, scope.get? name = .some v ∧ v.HasType type ∧
      places.get? (numbered name l.scope) = .some v.code := by
  have := h name
  rwa [some] at this

/-- Writing a place that belongs to no variable of the scope. -/
theorem frame {key : String} (h : LevelMatches places l scope) (value : Int)
    (other : ∀ name type, l.type? name = some type → numbered name l.scope ≠ key) :
    LevelMatches (places.insert key value) l scope := by
  intro name
  cases declared : l.type? name with
  | none => exact h.get?_none declared
  | some type =>
    obtain ⟨v, here, typed, place⟩ := h.get?_some declared
    refine ⟨v, here, typed, ?_⟩
    rwa [Table.get?_insert_of_ne _ _ (other name type declared).symm]

/-- A variable of the scope gets a value, be it new or not. -/
theorem set {name : String} {type : Ty} {v : Value} (h : LevelMatches places l scope)
    (typed : v.HasType type) :
    LevelMatches (places.insert (numbered name l.scope) v.code) (l.declare name type)
      (scope.insert name v) := by
  intro other
  rw [Level.type?_declare]
  by_cases same : name = other
  · subst same
    rw [if_pos rfl]
    exact ⟨v, Table.get?_insert_self .., typed, Table.get?_insert_self ..⟩
  · have differ : numbered name l.scope ≠ numbered other l.scope :=
      fun equal => same (numbered_inj.1 equal).1
    rw [if_neg same, Level.scope_declare, Table.get?_insert_of_ne _ _ same,
      Table.get?_insert_of_ne _ _ differ]
    exact h other

/-- Only what the types of names are matters. -/
theorem congr {l' : Level} (h : LevelMatches places l scope) (scopes : l'.scope = l.scope)
    (types : ∀ name, l'.type? name = l.type? name) : LevelMatches places l' scope := by
  intro name
  rw [types, scopes]
  exact h name

/-- A variable of the scope gets another value of its type. -/
theorem assign {name : String} {type : Ty} {v : Value} (h : LevelMatches places l scope)
    (declared : l.type? name = some type) (typed : v.HasType type) :
    LevelMatches (places.insert (numbered name l.scope) v.code) l (scope.insert name v) := by
  refine (h.set typed).congr rfl fun other => ?_
  rw [Level.type?_declare]
  by_cases same : name = other
  · rw [if_pos same, ← same, declared]
  · rw [if_neg same]

/-- An empty scope. -/
theorem empty (places : Table String Int) (scope : ScopeId) :
    LevelMatches places { scope := scope } .empty := fun _ => rfl

end LevelMatches

/-- The variables of all scopes around have values and places. -/
abbrev LocalsMatch (places : Table String Int) : List Level → List (Table String Value) → Prop :=
  List.Forall₂ (LevelMatches places)

namespace LocalsMatch

variable {places : Table String Int} {ls : List Level} {scopes : List (Table String Value)}
  {name : String}

theorem find?_none (h : LocalsMatch places ls scopes) (none : Context.find? name ls = none) :
    Memory.find? name scopes = .none := by
  induction h with
  | nil => rfl
  | @cons l scope ls scopes first _ ih =>
    unfold Context.find? at none
    cases declared : l.type? name with
    | none =>
      rw [declared] at none
      rw [Memory.find?, first.get?_none declared]
      exact ih none
    | some type =>
      rw [declared] at none
      cases none

theorem find?_some {n : ScopeId} {type : Ty} (h : LocalsMatch places ls scopes)
    (some : Context.find? name ls = some (n, type)) :
    ∃ v, Memory.find? name scopes = .some v ∧ v.HasType type ∧
      places.get? (numbered name n) = .some v.code := by
  induction h with
  | nil => cases some
  | @cons l scope ls scopes first _ ih =>
    unfold Context.find? at some
    cases declared : l.type? name with
    | none =>
      rw [declared] at some
      rw [Memory.find?, first.get?_none declared]
      exact ih some
    | some type =>
      rw [declared] at some
      obtain ⟨rfl, rfl⟩ := Prod.mk.inj (Option.some.inj some)
      obtain ⟨v, here, typed, place⟩ := first.get?_some declared
      refine ⟨v, ?_, typed, place⟩
      rw [Memory.find?, here]

theorem update?_none {v : Value} (h : LocalsMatch places ls scopes)
    (none : Context.find? name ls = none) : Memory.update? name v scopes = .none := by
  induction h with
  | nil => rfl
  | @cons l scope ls scopes first _ ih =>
    unfold Context.find? at none
    cases declared : l.type? name with
    | none =>
      rw [declared] at none
      rw [Memory.update?, first.get?_none declared]
      simp [ih none]
    | some type =>
      rw [declared] at none
      cases none

/-- Writing a place that belongs to no variable of the scopes. -/
theorem frame {key : String} (h : LocalsMatch places ls scopes) (value : Int)
    (other : ∀ l ∈ ls, ∀ name type, l.type? name = some type → numbered name l.scope ≠ key) :
    LocalsMatch (places.insert key value) ls scopes := by
  induction h with
  | nil => exact .nil
  | cons first _ ih =>
    refine .cons (first.frame value (other _ List.mem_cons_self)) (ih fun l mem => ?_)
    exact other l (List.mem_cons_of_mem _ mem)

theorem update?_some {n : ScopeId} {type : Ty} {v : Value} (h : LocalsMatch places ls scopes)
    (distinct : (ls.map Level.scope).Nodup) (some : Context.find? name ls = some (n, type))
    (typed : v.HasType type) :
    ∃ scopes', Memory.update? name v scopes = .some scopes' ∧
      LocalsMatch (places.insert (numbered name n) v.code) ls scopes' := by
  induction h with
  | nil => cases some
  | @cons l scope ls scopes first rest ih =>
    obtain ⟨isNew, distinct⟩ := List.nodup_cons.1 distinct
    unfold Context.find? at some
    cases declared : l.type? name with
    | none =>
      rw [declared] at some
      obtain ⟨scopes', updated, matched⟩ := ih distinct some
      refine ⟨scope :: scopes', ?_, .cons (first.frame _ fun other type here equal => ?_) matched⟩
      · rw [Memory.update?, first.get?_none declared, updated]
        rfl
      · obtain ⟨rfl, -⟩ := numbered_inj.1 equal
        rw [declared] at here
        cases here
    | some type' =>
      rw [declared] at some
      obtain ⟨rfl, rfl⟩ := Prod.mk.inj (Option.some.inj some)
      obtain ⟨old, here, -, -⟩ := first.get?_some declared
      refine ⟨scope.insert name v :: scopes, ?_, .cons (first.assign declared typed) ?_⟩
      · rw [Memory.update?, here]
      · refine LocalsMatch.frame rest _ fun l' mem other type _ equal => ?_
        obtain ⟨-, same⟩ := numbered_inj.1 equal
        exact isNew (List.mem_map.2 ⟨l', mem, same⟩)

end LocalsMatch

/-- The scope of a variable that is found is one of those around. -/
theorem Context.find?_mem {name : String} {n : ScopeId} {type : Ty} :
    ∀ {ls : List Level}, find? name ls = some (n, type) → n ∈ ls.map Level.scope
  | [], h => by cases h
  | l :: ls, h => by
    unfold find? at h
    cases declared : l.type? name with
    | none =>
      rw [declared] at h
      exact List.mem_cons_of_mem _ (find?_mem h)
    | some type' =>
      rw [declared] at h
      obtain ⟨rfl, -⟩ := Prod.mk.inj (Option.some.inj h)
      exact List.mem_cons_self

/-- What holds of the contexts in a program whose functions and global variables are the given
ones. -/
structure Context.Regular (Φ : List (String × Signature)) (G : List (String × Ty)) (Γ : Context) :
    Prop where
  functions : Γ.functions = Φ
  globals : ∀ name type, Γ.globals.lookup name = some type → G.lookup name = some type
  distinct : Γ.scopes.Nodup
  inner : globalScope ∉ Γ.scopes
  areNames : ∀ l ∈ Γ.locals, ∀ name type, l.type? name = some type → IsName name

namespace Context.Regular

variable {Φ : List (String × Signature)} {G : List (String × Ty)} {Γ : Context}

theorem declare (h : Γ.Regular Φ G) {name : String} {type : Ty} (isName : IsName name)
    (globals : ∀ other type', (Γ.declare name type).globals.lookup other = some type' →
      G.lookup other = some type') : (Γ.declare name type).Regular Φ G := by
  refine ⟨?_, globals, ?_, ?_, ?_⟩
  · rw [functions_declare, h.functions]
  · rw [scopes_declare]
    exact h.distinct
  · rw [scopes_declare]
    exact h.inner
  · intro l mem other type' declared
    cases around : Γ.locals with
    | nil =>
      rw [Context.declare, around] at mem
      have none : l ∈ ([] : List Level) := mem
      cases none
    | cons l₀ ls =>
      have names := h.areNames
      rw [around] at names
      rw [Context.declare, around] at mem
      rcases List.mem_cons.1 mem with rfl | mem
      · rw [Level.type?_declare] at declared
        by_cases same : name = other
        · exact same ▸ isName
        · rw [if_neg same] at declared
          exact names l₀ List.mem_cons_self other type' declared
      · exact names l (List.mem_cons_of_mem _ mem) other type' declared

theorem push (h : Γ.Regular Φ G) {scope : ScopeId} (isNew : scope ∉ Γ.scopes)
    (inner : scope ≠ globalScope) : (Γ.push scope).Regular Φ G := by
  refine ⟨h.functions, h.globals, List.nodup_cons.2 ⟨isNew, h.distinct⟩, ?_, ?_⟩
  · intro mem
    rcases List.mem_cons.1 mem with same | mem
    · exact inner same.symm
    · exact h.inner mem
  · intro l mem name type declared
    rcases List.mem_cons.1 mem with rfl | mem
    · cases declared
    · exact h.areNames l mem name type declared

end Context.Regular

/-- The global variables with a value are those that a run has, of the types they are declared
with, and it printed the same. -/
structure WorldMatches (G : List (String × Ty)) (m : Memory) (s : State) : Prop where
  typed : ∀ name v, m.globals.get? name = some v →
    ∃ type, G.lookup name = some type ∧ v.HasType type
  values : ∀ name, s.globals.get? name = (m.globals.get? name).map Value.code
  printed : s.printed = m.printed.reverse

/-- A global variable gets a value. -/
theorem WorldMatches.set {G : List (String × Ty)} {m : Memory} {s : State} {name : String}
    {type : Ty} {v : Value} (h : WorldMatches G m s) (declared : G.lookup name = some type)
    (typed : v.HasType type) :
    WorldMatches G { m with globals := m.globals.insert name v }
      (s.store (.global name) v.code) := by
  refine ⟨fun other w here => ?_, fun other => ?_, h.printed⟩
  · rw [Table.get?_insert] at here
    by_cases same : name = other
    · rw [if_pos same] at here
      obtain rfl := Option.some.inj here
      exact ⟨type, same ▸ declared, typed⟩
    · rw [if_neg same] at here
      exact h.typed other w here
  · change (s.globals.insert name v.code).get? other = _
    rw [Table.get?_insert, Table.get?_insert]
    by_cases same : name = other
    · rw [if_pos same, if_pos same]
      rfl
    · rw [if_neg same, if_neg same]
      exact h.values other

/-- A state holds what a memory holds, and `free` more calls can become active. -/
structure Ready (G : List (String × Ty)) (free : Nat) (ls : List Level) (m : Memory) (s : State) :
    Prop where
  depth : s.depth + free = Ir.maxDepth
  locals : LocalsMatch s.frame.places ls m.scopes
  world : WorldMatches G m s

namespace Ready

variable {Φ : List (String × Signature)} {G : List (String × Ty)} {free : Nat} {ls : List Level}
  {Γ : Context} {m : Memory} {s : State}

theorem facing (h : Ready G free ls m s) (code : List Ir.Instr) :
    Ready G free ls m (s.facing code) :=
  ⟨h.depth, h.locals, ⟨h.world.typed, h.world.values, h.world.printed⟩⟩

theorem write (h : Ready G free ls m s) (t : Ir.Temp) (value : Int) :
    Ready G free ls m (s.write t value) :=
  ⟨h.depth, h.locals, ⟨h.world.typed, h.world.values, h.world.printed⟩⟩

/-- Reading a variable and loading its place. -/
theorem read (h : Ready G free Γ.locals m s) (regular : Γ.Regular Φ G) {name : String}
    {n : ScopeId} {type : Ty} (known : Γ.lookup name = some (n, type)) :
    (∃ v, m.read name = .done v ∧ v.HasType type ∧ s.load (placeFor n name) = .ok v.code) ∨
      (m.read name = .failed (.unset name) ∧ (G.lookup name).isSome ∧
        s.load (placeFor n name) = .error (.uninitialized (.global name))) := by
  unfold Context.lookup at known
  cases found : Context.find? name Γ.locals with
  | some place =>
    rw [found] at known
    obtain rfl := Option.some.inj known
    obtain ⟨v, here, typed, place⟩ := h.locals.find?_some found
    have inner : n ≠ globalScope := fun same => regular.inner (same ▸ Context.find?_mem found)
    refine .inl ⟨v, ?_, typed, ?_⟩
    · rw [Memory.read, here]
    · rw [placeFor, if_neg inner]
      simp only [State.load, place]
  | none =>
    rw [found] at known
    obtain ⟨type', declared, same⟩ := Option.map_eq_some_iff.1 known
    obtain ⟨rfl, rfl⟩ := Prod.mk.inj same
    have notLocal := h.locals.find?_none found
    have same := h.world.values name
    rw [placeFor, if_pos rfl]
    cases value : m.globals.get? name with
    | some v =>
      obtain ⟨type, declared', typed⟩ := h.world.typed name v value
      rw [regular.globals name _ declared] at declared'
      obtain rfl := Option.some.inj declared'
      rw [value] at same
      refine .inl ⟨v, ?_, typed, ?_⟩
      · rw [Memory.read, notLocal]
        simp only [value]
      · simp only [State.load, same, Option.map_some]
    | none =>
      rw [value] at same
      refine .inr ⟨?_, ?_, ?_⟩
      · rw [Memory.read, notLocal]
        simp only [value]
      · rw [regular.globals name _ declared]
        rfl
      · simp only [State.load, same, Option.map_none]

/-- Assigning to a variable and storing to its place. -/
theorem assign (h : Ready G free Γ.locals m s) (regular : Γ.Regular Φ G) {name : String}
    {n : ScopeId} {type : Ty} {v : Value} (known : Γ.lookup name = some (n, type))
    (typed : v.HasType type) :
    Ready G free Γ.locals (m.assign .store name v) (s.store (placeFor n name) v.code) := by
  unfold Context.lookup at known
  cases found : Context.find? name Γ.locals with
  | some place =>
    rw [found] at known
    obtain rfl := Option.some.inj known
    have inner : n ≠ globalScope := fun same => regular.inner (same ▸ Context.find?_mem found)
    obtain ⟨scopes, updated, matched⟩ := h.locals.update?_some regular.distinct found typed
    rw [placeFor, if_neg inner, Memory.assign, updated]
    exact ⟨h.depth, matched, ⟨h.world.typed, h.world.values, h.world.printed⟩⟩
  | none =>
    rw [found] at known
    obtain ⟨type', declared, same⟩ := Option.map_eq_some_iff.1 known
    obtain ⟨rfl, rfl⟩ := Prod.mk.inj same
    rw [placeFor, if_pos rfl, Memory.assign, h.locals.update?_none found]
    simp only [true_or, ↓reduceIte]
    exact ⟨h.depth, h.locals, h.world.set (regular.globals name _ declared) typed⟩

/-- Declaring a variable and storing to its place. -/
theorem declare (h : Ready G free Γ.locals m s) (regular : Γ.Regular Φ G) {name : String}
    {type : Ty} {v : Value}
    (globals : Γ.locals = [] → G.lookup name = some type) (typed : v.HasType type) :
    Ready G free (Γ.declare name type).locals (m.declare name v)
      (s.store (placeFor Γ.scope name) v.code) := by
  have matched := h.locals
  cases around : Γ.locals with
  | nil =>
    rw [around] at matched
    have none : m.scopes = [] := List.forall₂_nil_left_iff.1 matched
    rw [Context.declare, Context.scope, Memory.declare, around, none, placeFor, if_pos rfl]
    have world := h.world.set (globals around) typed
    exact ⟨h.depth, .nil, ⟨world.typed, world.values, world.printed⟩⟩
  | cons l ls =>
    rw [around] at matched
    obtain ⟨scope, scopes, first, rest, isScopes⟩ := List.forall₂_cons_left_iff.1 matched
    have members : Γ.scopes = l.scope :: ls.map Level.scope := by
      rw [Context.scopes, around, List.map_cons]
    have inner : l.scope ≠ globalScope := fun same =>
      regular.inner (by rw [members, ← same]; exact List.mem_cons_self)
    have isNew : l.scope ∉ ls.map Level.scope := by
      have := regular.distinct
      rw [members] at this
      exact (List.nodup_cons.1 this).1
    rw [Context.declare, Context.scope, Memory.declare, around, isScopes, placeFor, if_neg inner]
    refine ⟨h.depth,
      .cons (first.set typed) (LocalsMatch.frame rest _ fun l' mem other type' _ equal => ?_),
      ⟨h.world.typed, h.world.values, h.world.printed⟩⟩
    obtain ⟨-, same⟩ := numbered_inj.1 equal
    exact isNew (List.mem_map.2 ⟨l', mem, same⟩)

/-- The scope of a block is gone after it. -/
theorem leave {l : Level} {ls' : List Level} (h : Ready G free ls m s) (around : ls = l :: ls') :
    Ready G free ls' { m with scopes := m.scopes.tail } s := by
  subst around
  obtain ⟨depth, locals, world⟩ := h
  obtain ⟨scope, scopes, -, rest, isScopes⟩ := List.forall₂_cons_left_iff.1 locals
  refine ⟨depth, ?_, world.typed, world.values, world.printed⟩
  rw [isScopes]
  exact rest

/-- Storing to the place of an operator. -/
theorem slot (h : Ready G free Γ.locals m s) (regular : Γ.Regular Φ G) (op : BinaryOp) (n : Nat)
    (value : Int) : Ready G free Γ.locals m (s.store (Lowering.slot op n) value) := by
  refine ⟨h.depth, ?_, ⟨h.world.typed, h.world.values, h.world.printed⟩⟩
  refine h.locals.frame value fun l mem name type declared same => ?_
  exact (regular.areNames l mem name type declared).ne_of_dollar _ (numbered_inj.1 same).1

end Ready

end MiniLang.Semantics
