import MiniLang.Proofs.Scope.Growth
import MiniLang.Proofs.Scope.Lexical

/-!
# Scopes around a place

The scopes around a place declare what its frames say (`Around`), so that looking a name up in them
finds what it means. This stays so while scopes are added and while something is found out about
other nodes (`Fresh`, `Keeps`).
-/

set_option autoImplicit false

namespace MiniLang.Scoping

variable {r r' : Resolver} {ids ids' touched : List NodeId} {own : Option ScopeId}
  {f : Frame} {frames : List Frame} {scope : ScopeId} {d : Declaration}

/-! ## What stays known -/

/-- Nothing was found out about the nodes yet. -/
structure Fresh (r : Resolution) (ids : List NodeId) : Prop where
  references : ∀ id ∈ ids, r.references.get? id = none
  declarations : ∀ id ∈ ids, r.declarations.get? id = none
  blockScopes : ∀ id ∈ ids, r.blockScopes.get? id = none

theorem Fresh.mono {r : Resolution} (h : Fresh r ids') (sub : ids ⊆ ids') : Fresh r ids :=
  ⟨fun id mem => h.references id (sub mem), fun id mem => h.declarations id (sub mem),
    fun id mem => h.blockScopes id (sub mem)⟩

theorem Fresh.later (h : Fresh r.resolution ids) (later : Resolver.Later own touched r r')
    (apart : touched.Disjoint ids) : Fresh r'.resolution ids := by
  refine ⟨fun id mem => ?_, fun id mem => ?_, fun id mem => ?_⟩
  all_goals have other : id ∉ touched := fun mem' => apart mem' mem
  · rw [later.references id other, h.references id mem]
  · rw [later.declarations id other, h.declarations id mem]
  · rw [later.blockScopes id other, h.blockScopes id mem]

/-- What was found out stays so. -/
structure Keeps (r r' : Resolution) : Prop where
  grows : r.tree.Grows r'.tree
  references : ∀ id ref, r.references.get? id = some ref → r'.references.get? id = some ref
  declarations : ∀ id ref, r.declarations.get? id = some ref → r'.declarations.get? id = some ref
  blockScopes : ∀ id scope, r.blockScopes.get? id = some scope →
    r'.blockScopes.get? id = some scope

theorem keeps_of_later (later : Resolver.Later own touched r r')
    (fresh : Fresh r.resolution touched) : Keeps r.resolution r'.resolution := by
  have known : ∀ {α : Type} {now : Option α} {id : NodeId} {a : α},
      (id ∈ touched → now = none) → now = some a → id ∉ touched := by
    intro α now id a unknown known mem
    rw [unknown mem] at known
    cases known
  refine ⟨later.grows, fun id ref here => ?_, fun id ref here => ?_, fun id scope here => ?_⟩
  · rw [later.references id (known (fresh.references id) here), here]
  · rw [later.declarations id (known (fresh.declarations id) here), here]
  · rw [later.blockScopes id (known (fresh.blockScopes id) here), here]

theorem Denotes.mono {r r' : Resolution} {ref : SymbolRef} (h : Denotes r ref f d)
    (keeps : Keeps r r') : Denotes r' ref f d := by
  refine ⟨?_, keeps.grows.symbol? h.symbol, fun node mem => ?_⟩
  · have place := h.scope
    cases block : f.block with
    | none => rwa [block] at place
    | some id =>
      rw [block] at place
      exact keeps.blockScopes _ _ place
  · exact keeps.declarations _ _ (h.declared node mem)

/-- The nodes that something is found out about: one at most. -/
def Event.nodes : Event → List NodeId
  | use u _ => [u.id]
  | declaration d _ => d.node.toList
  | strayReturn _ => []

/-- What is settled stays so if its node is not looked at again. -/
theorem Event.Settled.later {e : Event} (h : e.Settled r.resolution)
    (later : Resolver.Later own touched r r') (fresh : Fresh r.resolution touched)
    (apart : e.nodes.Disjoint touched) : e.Settled r'.resolution := by
  have keeps := keeps_of_later later fresh
  cases e with
  | use u frames =>
    cases means : meaning? u.name frames with
    | some found =>
      simp only [Settled, means] at h ⊢
      obtain ⟨ref, found, denotes⟩ := h
      exact ⟨ref, keeps.references _ _ found, denotes.mono keeps⟩
    | none =>
      simp only [Settled, means] at h ⊢
      rw [later.references _ fun mem => apart (List.mem_singleton_self _) mem, h]
  | declaration d f =>
    cases before : f.find? d.name with
    | some _ =>
      simp only [Settled, before] at h ⊢
      intro node mem
      rw [later.declarations _ fun mem' => apart (Option.mem_toList.2 mem) mem', h node mem]
    | none =>
      simp only [Settled, before] at h ⊢
      obtain ⟨ref, denotes⟩ := h
      exact ⟨ref, denotes.mono keeps⟩
  | strayReturn span => trivial

/-! ## Frames and scopes -/

/-- A scope declares exactly what a frame does. -/
def Holds (r : Resolution) (id : ScopeId) (S : Scope) (f : Frame) : Prop :=
  ∀ name,
    match f.find? name with
    | none => S.get? name = none
    | some d => ∃ index, S.get? name = some index ∧ S.symbols[index]? = some (d.symbol id) ∧
      ∀ node ∈ d.node, r.declarations.get? node = some ⟨id, index⟩

/-- The scopes around the scope with the given number, that one included, declare exactly what the
frames do. -/
inductive Around (r : Resolution) : List Frame → ScopeId → Prop
  | program {f : Frame} {S : Scope} (whole : f.block = none)
      (here : r.tree.scope? globalScope = some S) (top : S.parent = none)
      (holds : Holds r globalScope S f) : Around r [f] globalScope
  | inside {f : Frame} {fs : List Frame} {block : NodeId} {id parent : ScopeId} {S : Scope}
      (opened : f.block = some block) (numbered : r.blockScopes.get? block = some id)
      (here : r.tree.scope? id = some S) (up : S.parent = some parent) (less : parent < id)
      (holds : Holds r id S f) (rest : Around r fs parent) : Around r (f :: fs) id

theorem Holds.mono {r r' : Resolution} {S : Scope} (h : Holds r scope S f) (keeps : Keeps r r') :
    Holds r' scope S f := by
  intro name
  have here := h name
  cases found : f.find? name with
  | none => rwa [found] at here
  | some d =>
    rw [found] at here
    obtain ⟨index, place, symbol, declared⟩ := here
    exact ⟨index, place, symbol, fun node mem => keeps.declarations _ _ (declared node mem)⟩

variable {R R' : Resolution}

/-- What the symbol of a name in a scope refers to. -/
theorem Holds.denotes {S : Scope} {name : String} (h : Holds R scope S f)
    (here : R.tree.scope? scope = some S)
    (place : match f.block with
      | none => scope = globalScope
      | some block => R.blockScopes.get? block = some scope)
    (found : f.find? name = some d) :
    ∃ index, S.get? name = some index ∧ Denotes R ⟨scope, index⟩ f d := by
  have declared := h name
  rw [found] at declared
  obtain ⟨index, there, symbol, nodes⟩ := declared
  exact ⟨index, there, place, Option.bind_eq_some_iff.2 ⟨S, here, symbol⟩, nodes⟩

/-- A name that the frame does not declare is not in the scope either. -/
theorem Holds.absent {S : Scope} {name : String} (h : Holds R scope S f)
    (none : f.find? name = none) : S.get? name = .none := by
  have declared := h name
  rwa [none] at declared

namespace Around

theorem scope? (h : Around R frames scope) : ∃ S, R.tree.scope? scope = some S := by
  cases h with
  | program _ here => exact ⟨_, here⟩
  | inside _ _ here => exact ⟨_, here⟩

/-- The scopes around a scope have smaller numbers, so that only these have to stay. -/
theorem mono (h : Around R frames scope) (keeps : Keeps R R')
    (frame : ∀ id S, id ≤ scope → R.tree.scope? id = some S → R'.tree.scope? id = some S) :
    Around R' frames scope := by
  induction h with
  | program whole here top holds =>
    exact .program whole (frame _ _ (Nat.le_refl _) here) top (holds.mono keeps)
  | inside opened numbered here up less holds rest ih =>
    exact .inside opened (keeps.blockScopes _ _ numbered) (frame _ _ (Nat.le_refl _) here) up less
      (holds.mono keeps) (ih fun id S le => frame id S (le.trans less.le))

/-- What happens inside of new scopes does not touch those around. -/
theorem later (h : Around r.resolution frames scope) (later : Resolver.Later none touched r r')
    (fresh : Fresh r.resolution touched) : Around r'.resolution frames scope :=
  h.mono (keeps_of_later later fresh) fun id S _ here => later.frame id S here nofun

/-- The innermost frame, and the scope that holds it. -/
theorem head (h : Around R (f :: frames) scope) :
    ∃ S, R.tree.scope? scope = some S ∧ Holds R scope S f ∧
      match f.block with
      | none => scope = globalScope
      | some block => R.blockScopes.get? block = some scope := by
  cases h with
  | program whole here _ holds =>
    refine ⟨_, here, holds, ?_⟩
    rw [whole]
  | inside opened numbered here _ _ holds _ =>
    refine ⟨_, here, holds, ?_⟩
    rw [opened]
    exact numbered

/-- The innermost scope declares something else now. -/
theorem replace {f' : Frame} {S S' : Scope} (h : Around R (f :: frames) scope) (keeps : Keeps R R')
    (here : R.tree.scope? scope = some S) (here' : R'.tree.scope? scope = some S')
    (others : ∀ id, id ≠ scope → R'.tree.scope? id = R.tree.scope? id)
    (parent : S'.parent = S.parent) (block : f'.block = f.block) (holds : Holds R' scope S' f') :
    Around R' (f' :: frames) scope := by
  cases h with
  | program whole there top _ =>
    obtain rfl := Option.some.inj (here.symm.trans there)
    exact .program (block.trans whole) here' (parent.trans top) holds
  | inside opened numbered there up less _ rest =>
    obtain rfl := Option.some.inj (here.symm.trans there)
    refine .inside (block.trans opened) (keeps.blockScopes _ _ numbered) here' (parent.trans up)
      less holds (rest.mono keeps fun id T le there => ?_)
    rw [others id (le.trans_lt less).ne, there]

/-- Looking a name up in the scopes finds what it means. -/
theorem lookupFrom (h : Around R frames scope) (name : String) :
    ∀ fuel, scope < fuel →
      match meaning? name frames with
      | none => R.tree.lookupFrom name fuel scope = none
      | some (f, d) =>
        ∃ ref, R.tree.lookupFrom name fuel scope = some ref ∧ Denotes R ref f d := by
  induction h with
  | @program f S whole here top holds =>
    intro fuel enough
    obtain ⟨fuel, rfl⟩ := Nat.exists_eq_succ_of_ne_zero (Nat.ne_zero_of_lt enough)
    cases found : f.find? name with
    | none => simp only [meaning?, found, ScopeTree.lookupFrom, here, holds.absent found, top]
    | some d =>
      obtain ⟨index, there, denotes⟩ := holds.denotes here (by rw [whole]) found
      simp only [meaning?, found, ScopeTree.lookupFrom, here, there]
      exact ⟨_, rfl, denotes⟩
  | @inside f fs block id parent S opened numbered here up less holds rest ih =>
    intro fuel enough
    obtain ⟨fuel, rfl⟩ := Nat.exists_eq_succ_of_ne_zero (Nat.ne_zero_of_lt enough)
    cases found : f.find? name with
    | none =>
      simp only [meaning?, found, ScopeTree.lookupFrom, here, holds.absent found, up]
      exact ih fuel (less.trans_le (Nat.le_of_lt_succ enough))
    | some d =>
      obtain ⟨index, there, denotes⟩ := holds.denotes here (by rw [opened]; exact numbered) found
      simp only [meaning?, found, ScopeTree.lookupFrom, here, there]
      exact ⟨_, rfl, denotes⟩

theorem lookup (h : Around R frames scope) (name : String) :
    match meaning? name frames with
    | none => R.tree.lookup scope name = none
    | some (f, d) => ∃ ref, R.tree.lookup scope name = some ref ∧ Denotes R ref f d := by
  obtain ⟨S, here⟩ := h.scope?
  exact h.lookupFrom name _ (ScopeTree.lt_size here)

end Around

/-! ## Declarations -/

theorem Frame.declare_nil (f : Frame) : f.declare [] = f := by
  unfold declare
  rw [List.append_nil]

theorem Frame.find?_declare (f : Frame) (d : Declaration) (name : String) :
    (f.declare [d]).find? name = (f.find? name).or (if d.name = name then some d else none) := by
  unfold declare find?
  rw [List.find?_append, List.find?_singleton]
  simp

/-- The first declaration of a name is added to the scope. -/
theorem Holds.declare {S : Scope} (h : Holds R scope S f) (keeps : Keeps R R')
    (isNew : f.find? d.name = none)
    (declared : ∀ node ∈ d.node, R'.declarations.get? node = some ⟨scope, S.symbols.length⟩) :
    Holds R' scope { S with symbols := S.symbols ++ [d.symbol scope] } (f.declare [d]) := by
  intro name
  have named : (d.symbol scope).name = d.name := rfl
  rw [Frame.find?_declare, Scope.get?_grown, named]
  by_cases same : d.name = name
  · rw [← same, isNew, h.absent isNew, if_pos rfl, if_pos rfl]
    exact ⟨_, rfl, List.getElem?_concat_length, declared⟩
  · rw [if_neg same, if_neg same, Option.or_none, Option.or_none]
    have here := (h.mono keeps) name
    cases found : f.find? name with
    | none => rwa [found] at here
    | some d' =>
      rw [found] at here
      obtain ⟨index, place, symbol, nodes⟩ := here
      refine ⟨index, place, ?_, nodes⟩
      rw [List.getElem?_append_left (List.getElem?_eq_some_iff.1 symbol).1, symbol]

/-- Another declaration of a name changes nothing. -/
theorem Holds.redeclare {S : Scope} {d' : Declaration} (h : Holds R scope S f)
    (before : f.find? d.name = some d') : Holds R scope S (f.declare [d]) := by
  intro name
  have same : (f.declare [d]).find? name = f.find? name := by
    rw [Frame.find?_declare]
    by_cases same : d.name = name
    · rw [← same, before]
      rfl
    · rw [if_neg same, Option.or_none]
  rw [same]
  exact h name

/-- The frame around a place has one more declaration when its scope has one more symbol. -/
theorem Around.declare {S : Scope} (h : Around R (f :: frames) scope) (keeps : Keeps R R')
    (here : R.tree.scope? scope = some S)
    (grown : R'.tree =
      ⟨R.tree.scopes.set scope { S with symbols := S.symbols ++ [d.symbol scope] }⟩)
    (isNew : f.find? d.name = none)
    (declared : ∀ node ∈ d.node, R'.declarations.get? node = some ⟨scope, S.symbols.length⟩) :
    Around R' (f.declare [d] :: frames) scope := by
  obtain ⟨S₀, here₀, holds, -⟩ := h.head
  obtain rfl := Option.some.inj (here.symm.trans here₀)
  have own : R'.tree.scope? scope = some { S with symbols := S.symbols ++ [d.symbol scope] } := by
    rw [grown, ScopeTree.scope?_set here, if_pos rfl]
  have others : ∀ id, id ≠ scope → R'.tree.scope? id = R.tree.scope? id := by
    intro id other
    rw [grown, ScopeTree.scope?_set here, if_neg other.symm]
  exact h.replace keeps here own others rfl rfl (holds.declare keeps isNew declared)

end MiniLang.Scoping
