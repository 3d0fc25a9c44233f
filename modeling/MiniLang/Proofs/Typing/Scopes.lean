import MiniLang.Proofs.Scope.Growth
import MiniLang.Proofs.Typing.Judgement

/-!
# Contexts and scopes

When the scopes around a place hold exactly the names that a context knows, with the types that the
checker gives their symbols (`Context.Fits`). What a name refers to in the scopes is then what it
means in the context (`Context.Fits.use`), and declarations and new scopes keep it so.
-/

set_option autoImplicit false

namespace MiniLang.Semantics

/-- What a name stands for. -/
inductive Meaning where
  | value (type : Ty)
  | callable (f : Signature)

/-- The checker knows that a symbol stands for the given. -/
def Meaning.Known (c : Typing.Context) (ref : SymbolRef) : Meaning → Prop
  | value type => c.isFunction ref = false ∧ c.symbolType ref = type ∧ type.isValue = true
  | callable f => c.isFunction ref = true ∧ c.symbolType ref = .function f.params f.result ∧
    (f.result = .unit ∨ f.result.isValue = true)

/-- What the names of a scope inside of a function or block stand for. -/
def Level.meaning (l : Level) (name : String) : Option Meaning := (l.type? name).map .value

namespace Context

/-- What the names of the global scope stand for. -/
def globalMeaning (Γ : Context) (name : String) : Option Meaning :=
  match Γ.globals.lookup name with
  | some type => some (.value type)
  | none => (Γ.functions.lookup name).map .callable

end Context

theorem Level.meaning_declare (l : Level) (name : String) (type : Ty) :
    (l.declare name type).meaning =
      fun other => if name = other then some (.value type) else l.meaning other := by
  funext other
  rw [meaning, type?_declare]
  split <;> rfl

theorem Context.globalMeaning_declare (functions : List (String × Signature))
    (globals : List (String × Ty)) (locals : List Level) (name : String) (type : Ty) :
    globalMeaning ⟨functions, (name, type) :: globals, locals⟩ =
      fun other => if name = other then some (.value type)
        else globalMeaning ⟨functions, globals, locals⟩ other := by
  funext other
  rw [globalMeaning, List.lookup_cons]
  by_cases same : name = other
  · rw [if_pos same, beq_iff_eq.2 same.symm]
  · rw [if_neg same, beq_eq_false_iff_ne.2 (Ne.symm same)]
    rfl

/-- A scope declares exactly the given names, with symbols that are known to stand for what the
names do. -/
def Declares (c : Typing.Context) (id : ScopeId) (S : Scope) (meaning : String → Option Meaning) :
    Prop :=
  ∀ name,
    match meaning name with
    | none => S.get? name = none
    | some m => ∃ index, S.get? name = some index ∧ m.Known c ⟨id, index⟩

/-- The scopes around the scope with the given number, that one included, declare the variables of
the given levels, and the global scope at their end what `g` says. -/
inductive Around (tree : ScopeTree) (c : Typing.Context) (g : String → Option Meaning) :
    List Level → ScopeId → Prop
  | outside {S : Scope} (here : tree.scope? globalScope = some S) (top : S.parent = none)
      (declares : Declares c globalScope S g) : Around tree c g [] globalScope
  | inside {l : Level} {ls : List Level} {parent : ScopeId} {S : Scope}
      (here : tree.scope? l.scope = some S) (up : S.parent = some parent) (less : parent < l.scope)
      (declares : Declares c l.scope S l.meaning) (rest : Around tree c g ls parent) :
      Around tree c g (l :: ls) l.scope

/-- The scopes of a tree around the scope with the given number hold what the context says. -/
def Context.Fits (Γ : Context) (scope : ScopeId) (tree : ScopeTree) (c : Typing.Context) : Prop :=
  Around tree c Γ.globalMeaning Γ.locals scope

/-- Two states of the checker know the same about the symbols of a tree. -/
structure SameSymbols (tree : ScopeTree) (c c' : Typing.Context) : Prop where
  resolution : c'.resolution = c.resolution
  inferred : ∀ ref symbol, tree.symbol? ref = some symbol →
    c'.inferred.get? ref = c.inferred.get? ref

namespace SameSymbols

variable {tree tree' : ScopeTree} {c c' c'' : Typing.Context}

theorem refl (tree : ScopeTree) (c : Typing.Context) : SameSymbols tree c c :=
  ⟨rfl, fun _ _ _ => rfl⟩

theorem trans (h : SameSymbols tree c c') (grows : tree.Grows tree')
    (h' : SameSymbols tree' c' c'') : SameSymbols tree c c'' :=
  ⟨h'.resolution.trans h.resolution, fun ref symbol known =>
    (h'.inferred ref symbol (grows.symbol? known)).trans (h.inferred ref symbol known)⟩

theorem isFunction (h : SameSymbols tree c c') (ref : SymbolRef) :
    c'.isFunction ref = c.isFunction ref := by
  rw [Typing.Context.isFunction, h.resolution]
  rfl

theorem symbolType (h : SameSymbols tree c c') {ref : SymbolRef} {symbol : Symbol}
    (known : tree.symbol? ref = some symbol) : c'.symbolType ref = c.symbolType ref := by
  rw [Typing.Context.symbolType, h.resolution, h.inferred ref symbol known]
  rfl

theorem known {m : Meaning} (h : SameSymbols tree c c') {ref : SymbolRef} {symbol : Symbol}
    (there : tree.symbol? ref = some symbol) (known : m.Known c ref) : m.Known c' ref := by
  cases m with
  | value type =>
    rw [Meaning.Known, h.isFunction, h.symbolType there]
    exact known
  | callable f =>
    rw [Meaning.Known, h.isFunction, h.symbolType there]
    exact known

end SameSymbols

namespace Declares

variable {tree : ScopeTree} {c c' : Typing.Context} {id : ScopeId} {S : Scope}
  {meaning : String → Option Meaning}

theorem of (none : ∀ name, meaning name = .none → S.get? name = .none)
    (some : ∀ name m, meaning name = .some m →
      ∃ index, S.get? name = .some index ∧ m.Known c ⟨id, index⟩) : Declares c id S meaning := by
  intro name
  cases means : meaning name with
  | none => exact none name means
  | some m => exact some name m means

theorem none {name : String} (h : Declares c id S meaning) (none : meaning name = none) :
    S.get? name = .none := by
  have := h name
  rwa [none] at this

theorem some {name : String} {m : Meaning} (h : Declares c id S meaning)
    (some : meaning name = some m) :
    ∃ index, S.get? name = .some index ∧ m.Known c ⟨id, index⟩ := by
  have := h name
  rwa [some] at this

theorem mono (h : Declares c id S meaning) (here : tree.scope? id = .some S)
    (same : SameSymbols tree c c') : Declares c' id S meaning := by
  intro name
  cases means : meaning name with
  | none => exact h.none means
  | some m =>
    obtain ⟨index, found, known⟩ := h.some means
    obtain ⟨symbol, there⟩ := ScopeTree.symbol?_of_get? here found
    exact ⟨index, found, same.known there known⟩

/-- One more declaration in a scope. -/
theorem declare {symbol : Symbol} {m : Meaning} (h : Declares c id S meaning)
    (here : tree.scope? id = .some S) (isNew : S.get? symbol.name = .none)
    (same : SameSymbols tree c c') (known : m.Known c' ⟨id, S.symbols.length⟩) :
    Declares c' id { S with symbols := S.symbols ++ [symbol] }
      (fun other => if symbol.name = other then .some m else meaning other) := by
  intro other
  by_cases named : symbol.name = other
  · simp only [if_pos named, Scope.get?_grown]
    rw [named] at isNew
    exact ⟨S.symbols.length, by rw [isNew]; rfl, known⟩
  · simp only [if_neg named, Scope.get?_grown, Option.or_none]
    exact h.mono here same other

/-- A scope that declares nothing. -/
theorem empty (c : Typing.Context) (id : ScopeId) (S : Scope) (h : S.symbols = []) :
    Declares c id S fun _ => .none := by
  intro name
  simp [Scope.get?, h]

end Declares

namespace Around

variable {tree tree' : ScopeTree} {c c' : Typing.Context} {g : String → Option Meaning}
  {ls : List Level} {scope : ScopeId}

/-- The scope that others are around. -/
theorem scope? (h : Around tree c g ls scope) : ∃ S, tree.scope? scope = some S := by
  cases h with
  | outside here => exact ⟨_, here⟩
  | inside here => exact ⟨_, here⟩

/-- Scopes that stay as they are, and what is known about them. -/
theorem mono (h : Around tree c g ls scope) (same : SameSymbols tree c c')
    (frame : ∀ id S, id ≤ scope → tree.scope? id = some S → tree'.scope? id = some S) :
    Around tree' c' g ls scope := by
  induction h with
  | outside here top declares =>
    exact .outside (frame _ _ (Nat.le_refl _) here) top (declares.mono here same)
  | inside here up less declares rest ih =>
    exact .inside (frame _ _ (Nat.le_refl _) here) up less (declares.mono here same)
      (ih fun id S le => frame id S (le.trans less.le))

/-- A new scope inside of the others. -/
theorem push (h : Around tree c g ls scope) (kind : ScopeKind) :
    Around (tree.push kind scope).2 c g ({ scope := tree.size } :: ls) tree.size := by
  obtain ⟨S, there⟩ := h.scope?
  have new := tree.scope?_push kind scope tree.size
  rw [if_pos rfl] at new
  refine .inside (l := { scope := tree.size }) new rfl (ScopeTree.lt_size there)
    (.empty _ _ _ rfl) ?_
  refine h.mono (.refl ..) fun id S _ here => ?_
  rw [tree.scope?_push, if_neg (ScopeTree.lt_size here).ne]
  exact here

/-- All scopes around belong to the tree. -/
theorem lt_size (h : Around tree c g ls scope) : ∀ l ∈ ls, l.scope < tree.size := by
  induction h with
  | outside => exact fun _ mem => by cases mem
  | inside here _ _ _ _ ih =>
    intro l mem
    rcases List.mem_cons.1 mem with rfl | mem
    · exact ScopeTree.lt_size here
    · exact ih l mem

end Around

/-- The global scope is around all others. -/
theorem Around.global {tree : ScopeTree} {c : Typing.Context} {g : String → Option Meaning}
    {ls : List Level} {scope : ScopeId} (h : Around tree c g ls scope) :
    ∃ S, Declares c globalScope S g := by
  induction h with
  | outside _ _ declares => exact ⟨_, declares⟩
  | inside _ _ _ _ _ ih => exact ih

/-- Looking a name up in the scopes of a tree finds what the innermost declaration of it stands
for. -/
theorem Around.lookupFrom {tree : ScopeTree} {c : Typing.Context} {g : String → Option Meaning}
    {ls : List Level} {scope : ScopeId} {name : String} {ref : SymbolRef}
    (h : Around tree c g ls scope) :
    ∀ fuel, scope < fuel → tree.lookupFrom name fuel scope = some ref →
      (∃ type, Context.find? name ls = some (ref.scope, type) ∧
        (Meaning.value type).Known c ref) ∨
      ∃ m, Context.find? name ls = none ∧ g name = some m ∧ ref.scope = globalScope ∧
        m.Known c ref := by
  induction h with
  | @outside S here top declares =>
    intro fuel enough found
    obtain ⟨fuel, rfl⟩ := Nat.exists_eq_succ_of_ne_zero (Nat.ne_zero_of_lt enough)
    simp only [ScopeTree.lookupFrom, here, top] at found
    cases means : g name with
    | none =>
      rw [declares.none means] at found
      cases found
    | some m =>
      obtain ⟨index, place, known⟩ := declares.some means
      rw [place] at found
      cases found
      exact .inr ⟨m, rfl, rfl, rfl, known⟩
  | @inside l ls parent S here up less declares rest ih =>
    intro fuel enough found
    obtain ⟨fuel, rfl⟩ := Nat.exists_eq_succ_of_ne_zero (Nat.ne_zero_of_lt enough)
    simp only [ScopeTree.lookupFrom, here, up] at found
    rw [Context.find?]
    cases declared : l.type? name with
    | none =>
      have means : l.meaning name = none := by rw [Level.meaning, declared]; rfl
      rw [declares.none means] at found
      exact ih fuel (less.trans_le (Nat.le_of_lt_succ enough)) found
    | some type =>
      have means : l.meaning name = some (.value type) := by rw [Level.meaning, declared]; rfl
      obtain ⟨index, place, known⟩ := declares.some means
      rw [place] at found
      cases found
      exact .inl ⟨type, rfl, known⟩

namespace Context

variable {Γ : Context} {scope : ScopeId} {tree tree' : ScopeTree} {c c' : Typing.Context}

namespace Fits

/-- What a name refers to is what it means. -/
theorem use {name : String} {ref : SymbolRef} (h : Γ.Fits scope tree c)
    (found : tree.lookup scope name = some ref) :
    (∃ type, Γ.lookup name = some (ref.scope, type) ∧ (Meaning.value type).Known c ref) ∨
      ∃ f, Γ.lookup name = none ∧ Γ.functions.lookup name = some f ∧
        (Meaning.callable f).Known c ref := by
  obtain ⟨S, there⟩ := Around.scope? h
  unfold Context.lookup
  rcases Around.lookupFrom h _ (ScopeTree.lt_size there) found with
    ⟨type, inner, known⟩ | ⟨m, none, global, isGlobal, known⟩
  · rw [inner]
    exact .inl ⟨type, rfl, known⟩
  · rw [none]
    unfold globalMeaning at global
    cases declared : Γ.globals.lookup name with
    | some type =>
      rw [declared] at global
      obtain rfl := Option.some.inj global
      exact .inl ⟨type, by rw [isGlobal]; rfl, known⟩
    | none =>
      rw [declared] at global
      obtain ⟨f, isFunction, rfl⟩ := Option.map_eq_some_iff.1 global
      exact .inr ⟨f, rfl, isFunction, known⟩

/-- A function gives back a value or nothing. -/
theorem result {name : String} {f : Signature} (h : Γ.Fits scope tree c)
    (free : Γ.lookup name = none) (known : Γ.functions.lookup name = some f) :
    f.result = .unit ∨ f.result.isValue = true := by
  obtain ⟨S, declares⟩ := Around.global h
  have noVariable : Γ.globals.lookup name = none := by
    unfold Context.lookup at free
    split at free
    · cases free
    · exact Option.map_eq_none_iff.1 free
  have means : Γ.globalMeaning name = some (.callable f) := by
    rw [globalMeaning, noVariable, known]
    rfl
  obtain ⟨-, -, -, -, result⟩ := declares.some means
  exact result

theorem scope_eq (h : Γ.Fits scope tree c) : Γ.scope = scope := by
  obtain ⟨functions, globals, locals⟩ := Γ
  change Around tree c _ locals scope at h
  cases h with
  | outside => rfl
  | inside => rfl

/-- Scopes that stay as they are, and what is known about them. -/
theorem mono (h : Γ.Fits scope tree c) (same : SameSymbols tree c c')
    (frame : ∀ id S, tree.scope? id = some S → tree'.scope? id = some S) :
    Γ.Fits scope tree' c' :=
  Around.mono h same fun id S _ => frame id S

/-- The beginning of a block. -/
theorem push (h : Γ.Fits scope tree c) (kind : ScopeKind) :
    (Γ.push tree.size).Fits tree.size (tree.push kind scope).2 c :=
  Around.push h kind

/-- The beginning of a function, outside of all blocks. -/
theorem enter (h : Γ.Fits scope tree c) (outside : Γ.locals = []) :
    (Γ.enter tree.size []).Fits tree.size (tree.push .function scope).2 c := by
  unfold Fits at h
  rw [outside] at h
  exact Around.push h .function

/-- The number of a new scope belongs to no scope around. -/
theorem isNew (h : Γ.Fits scope tree c) : tree.size ∉ Γ.scopes ∧ tree.size ≠ globalScope := by
  constructor
  · intro mem
    obtain ⟨l, mem, same⟩ := List.mem_map.1 mem
    exact (Around.lt_size h l mem).ne same
  · obtain ⟨S, there⟩ := Around.scope? h
    exact Nat.ne_zero_of_lt (ScopeTree.lt_size there)

/-- The declaration of a variable or parameter. -/
theorem declare {symbol : Symbol} {ref : SymbolRef} {type : Ty} (h : Γ.Fits scope tree c)
    (there : symbol.scope = scope) (declared : tree.declare symbol = .ok (ref, tree'))
    (same : SameSymbols tree c c') (known : (Meaning.value type).Known c' ref) :
    (Γ.declare symbol.name type).Fits scope tree' c' ∧ Γ.own? symbol.name = none ∧
      ref.scope = scope := by
  obtain ⟨S, here, isNew, rfl, rfl⟩ := ScopeTree.declare_ok_iff.1 declared
  have grown : ∀ other, ScopeTree.scope?
      ⟨tree.scopes.set symbol.scope { S with symbols := S.symbols ++ [symbol] }⟩ other =
        if symbol.scope = other then some { S with symbols := S.symbols ++ [symbol] }
        else tree.scope? other := ScopeTree.scope?_set here
  rw [there] at here grown known ⊢
  obtain ⟨functions, globals, locals⟩ := Γ
  change Around tree c _ locals scope at h
  cases h with
  | outside here' top declares =>
    obtain rfl := Option.some.inj (here.symm.trans here')
    have declares' := declares.declare here isNew same known
    rw [← globalMeaning_declare] at declares'
    refine ⟨.outside ((grown _).trans (if_pos rfl)) top declares', ?_, rfl⟩
    cases before : globals.lookup symbol.name with
    | none => exact before
    | some type' =>
      obtain ⟨index, found, -⟩ := declares.some (m := .value type')
        (by rw [globalMeaning, before])
      rw [isNew] at found
      cases found
  | inside here' up less declares rest =>
    obtain rfl := Option.some.inj (here.symm.trans here')
    have declares' := declares.declare here isNew same known
    rw [← Level.meaning_declare] at declares'
    refine ⟨.inside ((grown _).trans (if_pos rfl)) up less declares' ?_, ?_, rfl⟩
    · refine rest.mono same fun id S le here => ?_
      rw [grown, if_neg (le.trans_lt less).ne']
      exact here
    · cases before : Level.type? _ symbol.name with
      | none => exact before
      | some type' =>
        obtain ⟨index, found, -⟩ := declares.some (m := .value type')
          (by rw [Level.meaning, before]; rfl)
        rw [isNew] at found
        cases found

end Fits

end Context

end MiniLang.Semantics
