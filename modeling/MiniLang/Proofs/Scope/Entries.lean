import MiniLang.Proofs.Scope.LexicalResolution
import MiniLang.Proofs.Syntax.Nodes

/-!
# Entries of nodes

Resolution keeps its tables under the numbers of nodes. Since it looks at every node once, it never
writes over an entry: every scope that was opened is that of a block, every symbol that a program
declares is found by its node (`Resolution.Complete`), and the entry of a name is a symbol of that
name (`Resolver.Answered`). This is so whatever is wrong with a program, and also if a cancellation
is seen, after which names are left without entries.
-/

set_option autoImplicit false

namespace MiniLang

/-- A new key goes to the end. -/
theorem Table.entries_insert_of_new {κ ν : Type} [DecidableEq κ] {t : Table κ ν} {key : κ}
    (isNew : t.get? key = none) (value : ν) :
    (t.insert key value).entries = t.entries ++ [(key, value)] := by
  obtain ⟨entries⟩ := t
  change write key value entries = entries ++ [(key, value)]
  change find? key entries = none at isNew
  induction entries with
  | nil => rfl
  | cons entry rest ih =>
    obtain ⟨k, v⟩ := entry
    by_cases same : k = key
    · cases (if_pos same).symm.trans isNew
    · rw [write, if_neg same, ih ((if_neg same).symm.trans isNew)]
      rfl

/-! ## Names that are used -/

namespace Stmt

mutual

/-- The names that the expressions of a statement use, also those inside of statements below it. -/
def uses : Stmt → List NameUse
  | letVar _ _ _ _ _ value => value.nameUses
  | ifThen _ condition thenBlock => condition.nameUses ++ blockUses thenBlock
  | ifThenElse _ condition thenBlock elseBranch =>
    condition.nameUses ++ blockUses thenBlock ++ uses elseBranch
  | whileLoop _ condition body => condition.nameUses ++ blockUses body
  | block b => blockUses b
  | expression _ value => value.nameUses
  | function _ _ body => blockUses body
  | ret _ none => []
  | ret _ (some value) => value.nameUses
  | error _ => []

/-- The names that are used in a block. -/
def blockUses : Block → List NameUse
  | .mk _ _ body => usesAll body

/-- The names that are used in statements, in order. -/
def usesAll : List Stmt → List NameUse
  | [] => []
  | s :: ss => uses s ++ usesAll ss

end

mutual

/-- Names are used by nodes of a statement. -/
theorem mem_ids_of_mem_uses {u : NameUse} : ∀ s : Stmt, u ∈ s.uses → u.id ∈ s.ids
  | letVar _ _ _ _ _ value, mem => List.mem_cons_of_mem _ (value.mem_preorder_of_mem_nameUses mem)
  | ifThen _ condition thenBlock, mem => by
    rcases List.mem_append.1 mem with mem | mem
    · exact List.mem_append_left _ (condition.mem_preorder_of_mem_nameUses mem)
    · exact List.mem_append_right _ (mem_blockIds_of_mem_blockUses thenBlock mem)
  | ifThenElse _ condition thenBlock elseBranch, mem => by
    rcases List.mem_append.1 mem with mem | mem
    · rcases List.mem_append.1 mem with mem | mem
      · exact List.mem_append_left _
          (List.mem_append_left _ (condition.mem_preorder_of_mem_nameUses mem))
      · exact List.mem_append_left _
          (List.mem_append_right _ (mem_blockIds_of_mem_blockUses thenBlock mem))
    · exact List.mem_append_right _ (mem_ids_of_mem_uses elseBranch mem)
  | whileLoop _ condition body, mem => by
    rcases List.mem_append.1 mem with mem | mem
    · exact List.mem_append_left _ (condition.mem_preorder_of_mem_nameUses mem)
    · exact List.mem_append_right _ (mem_blockIds_of_mem_blockUses body mem)
  | block b, mem => mem_blockIds_of_mem_blockUses b mem
  | expression _ value, mem => value.mem_preorder_of_mem_nameUses mem
  | function _ _ body, mem =>
    List.mem_cons_of_mem _ (List.mem_append_right _ (mem_blockIds_of_mem_blockUses body mem))
  | ret _ none, mem | error _, mem => by cases mem
  | ret _ (some value), mem => value.mem_preorder_of_mem_nameUses mem

theorem mem_blockIds_of_mem_blockUses {u : NameUse} :
    ∀ b : Block, u ∈ blockUses b → u.id ∈ blockIds b
  | .mk _ _ body, mem => List.mem_cons_of_mem _ (mem_idsAll_of_mem_usesAll body mem)

theorem mem_idsAll_of_mem_usesAll {u : NameUse} :
    ∀ ss : List Stmt, u ∈ usesAll ss → u.id ∈ idsAll ss
  | [], mem => by cases mem
  | s :: ss, mem => by
    rcases List.mem_append.1 mem with mem | mem
    · exact List.mem_append_left _ (mem_ids_of_mem_uses s mem)
    · exact List.mem_append_right _ (mem_idsAll_of_mem_usesAll ss mem)

end

/-- The name of a function is not used by the node that declares it. -/
theorem mem_innerIds_of_mem_uses {u : NameUse} {s : Stmt} (mem : u ∈ s.uses) :
    u.id ∈ s.innerIds := by
  cases s with
  | function span header body =>
    exact List.mem_append_right _ (mem_blockIds_of_mem_blockUses body mem)
  | _ => exact mem_ids_of_mem_uses _ mem

theorem mem_flatMap_innerIds_of_mem_usesAll {u : NameUse} {ss : List Stmt}
    (mem : u ∈ usesAll ss) : u.id ∈ ss.flatMap innerIds := by
  induction ss with
  | nil => cases mem
  | cons s ss ih =>
    rcases List.mem_append.1 mem with mem | mem
    · exact List.mem_append_left _ (mem_innerIds_of_mem_uses mem)
    · exact List.mem_append_right _ (ih mem)

end Stmt

/-- The names that a program uses. -/
def Program.uses (p : Program) : List NameUse := Stmt.usesAll p.body

/-! ## What the tables hold -/

/-- The scopes of blocks are all scopes but the global one, and the symbols of declarations are all
symbols that the program declares. -/
structure Resolution.Complete (R : Resolution) : Prop where
  blockScopes : globalScope :: R.blockScopes.entries.map Prod.snd = List.range R.tree.size
  declarations : ∀ node ref, R.declarations.get? node = some ref ↔
    ∃ symbol, R.tree.symbol? ref = some symbol ∧ symbol.node = some node

/-- What a missing entry is put down to. -/
def Session.Excuses (s : Session) (d : Diagnostic) : Prop :=
  s.cancelled = true ∨ d ∈ s.diagnostics

/-- The entry of a name is a symbol of that name. A name without entry is undeclared, which was
reported, or it was not looked at after a cancellation. -/
def Resolver.Answers (r : Resolver) (u : NameUse) : Prop :=
  match r.resolution.references.get? u.id with
  | some ref => ∃ symbol, r.resolution.tree.symbol? ref = some symbol ∧ symbol.name = u.name
  | none => r.session.Excuses (.of (.undeclaredIdentifier u.name) u.span)

namespace ScopeTree

/-- A name is looked up among symbols of that name. -/
theorem symbol?_lookupFrom {t : ScopeTree} {name : String} {ref : SymbolRef} :
    ∀ (fuel : Nat) {scope : ScopeId}, t.lookupFrom name fuel scope = some ref →
      ∃ symbol, t.symbol? ref = some symbol ∧ symbol.name = name
  | 0, scope, found => by cases found
  | fuel + 1, scope, found => by
    unfold lookupFrom at found
    split at found
    next => cases found
    next S here =>
      split at found
      next index declared =>
        obtain rfl := Option.some.inj found
        obtain ⟨less, named, -⟩ := List.findIdx?_eq_some_iff_getElem.1 declared
        refine ⟨S.symbols[index], Option.bind_eq_some_iff.2 ⟨S, here, ?_⟩, eq_of_beq named⟩
        exact List.getElem?_eq_getElem less
      next =>
        split at found
        · exact symbol?_lookupFrom fuel found
        · cases found

/-- The symbols of a scope, by their places. -/
theorem symbol?_eq {t : ScopeTree} {scope : ScopeId} {S : Scope} (here : t.scope? scope = some S)
    (index : Nat) : t.symbol? ⟨scope, index⟩ = S.symbols[index]? := by
  unfold symbol?
  rw [here]
  rfl

/-- The symbols after one was added at the end of a scope. -/
theorem symbol?_set {t : ScopeTree} {scope : ScopeId} {S : Scope} (here : t.scope? scope = some S)
    (symbol : Symbol) (ref : SymbolRef) :
    symbol? ⟨t.scopes.set scope { S with symbols := S.symbols ++ [symbol] }⟩ ref =
      if ref = ⟨scope, S.symbols.length⟩ then some symbol else t.symbol? ref := by
  obtain ⟨place, index⟩ := ref
  by_cases same : scope = place
  · subst same
    rw [symbol?_eq ((scope?_set here scope).trans (if_pos rfl)), symbol?_eq here]
    by_cases last : index = S.symbols.length
    · rw [last, if_pos rfl, List.getElem?_concat_length]
    · rw [if_neg fun eq => last (congrArg SymbolRef.index eq), List.getElem?_append]
      split
      · rfl
      · rw [List.getElem?_eq_none (by simp; omega), List.getElem?_eq_none (by omega)]
  · have other : (⟨place, index⟩ : SymbolRef) ≠ ⟨scope, S.symbols.length⟩ :=
      fun eq => same (congrArg SymbolRef.scope eq).symm
    unfold symbol?
    rw [scope?_set here, if_neg same, if_neg other]

/-- A new scope has no symbols. -/
theorem symbol?_push (t : ScopeTree) (kind : ScopeKind) (parent : ScopeId) (ref : SymbolRef) :
    (t.push kind parent).2.symbol? ref = t.symbol? ref := by
  unfold symbol?
  rw [scope?_push]
  split
  next new =>
    rw [new, scope?_eq_none_iff.2 (Nat.le_refl _)]
    rfl
  next => rfl

end ScopeTree

/-! ## Steps of resolution -/

namespace Resolution.Complete

variable {r : Resolver}

open Scoping

theorem declare (h : r.resolution.Complete) {node : NodeId} (fresh : Fresh r.resolution [node])
    (scope : ScopeId) (name : String) (kind : SymbolKind) (type : Option Ty) (span : Span) :
    (r.declare scope node name kind type span).resolution.Complete := by
  unfold Resolver.declare
  split
  next ref grown declared =>
    obtain ⟨S, here, -, rfl, rfl⟩ := ScopeTree.declare_ok_iff.1 declared
    refine ⟨?_, fun other ref => ?_⟩
    · rw [h.blockScopes]
      exact congrArg List.range List.length_set.symm
    · have new := fresh.declarations node (List.mem_singleton_self _)
      have before := h.declarations
      have free : r.tree.symbol? ⟨scope, S.symbols.length⟩ = none :=
        (ScopeTree.symbol?_eq here _).trans (List.getElem?_eq_none (Nat.le_refl _))
      change (r.resolution.declarations.insert node _).get? other = some ref ↔
        ∃ symbol, ScopeTree.symbol? ⟨r.tree.scopes.set scope _⟩ ref = some symbol ∧ _
      rw [ScopeTree.symbol?_set here, Table.get?_insert]
      by_cases same : node = other
      · subst same
        rw [if_pos rfl]
        by_cases last : ref = ⟨scope, S.symbols.length⟩
        · simp [last]
        · -- a symbol from before is not that of the node, which had no entry
          rw [if_neg last, ← before, new]
          simp [Ne.symm last]
      · rw [if_neg same]
        by_cases last : ref = ⟨scope, S.symbols.length⟩
        · rw [if_pos last, before, last, free]
          simp [same]
        · rw [if_neg last]
          exact before other ref
  next => exact h

theorem enter (h : r.resolution.Complete) {block : NodeId} (fresh : Fresh r.resolution [block])
    (kind : ScopeKind) (parent : ScopeId) :
    (r.enter kind parent block).2.resolution.Complete := by
  refine ⟨?_, fun node ref => ?_⟩
  · have grown : (r.tree.push kind parent).2.size = r.tree.size + 1 := List.length_append
    change globalScope :: (r.resolution.blockScopes.insert block r.tree.size).entries.map Prod.snd =
      List.range (r.tree.push kind parent).2.size
    rw [Table.entries_insert_of_new (fresh.blockScopes block (List.mem_singleton_self _)),
      List.map_append, grown, List.range_succ, ← h.blockScopes]
    rfl
  · change _ ↔ ∃ symbol, (r.tree.push kind parent).2.symbol? ref = some symbol ∧ _
    rw [ScopeTree.symbol?_push]
    exact h.declarations node ref

/-- Before anything of a program is resolved there is no block, and no symbol has a node. -/
theorem start (s : Session) : (Resolver.start s).resolution.Complete := by
  refine ⟨rfl, fun node ref => ⟨nofun, fun ⟨symbol, here, declared⟩ => ?_⟩⟩
  have known : symbol ∈ (Resolver.start s).tree.scopes.flatMap Scope.symbols := by
    obtain ⟨S, there, at_⟩ := Option.bind_eq_some_iff.1 here
    exact List.mem_flatMap.2 ⟨S, List.mem_of_getElem? there, List.mem_of_getElem? at_⟩
  have builtin : (Resolver.start s).tree.scopes.flatMap Scope.symbols =
      MiniLang.builtins.map fun b => (Declaration.ofBuiltin b).symbol globalScope := rfl
  rw [builtin] at known
  obtain ⟨b, -, rfl⟩ := List.mem_map.1 known
  cases declared

end Resolution.Complete

namespace Resolver

variable {r r' r'' : Resolver} {own own' : Option ScopeId} {ids ids' : List NodeId}
  {uses uses' : List NameUse}

open Scoping

/-- Between two resolvers names were looked at, at the given nodes among others, and what the tables
hold is still complete. -/
structure Handled (ids : List NodeId) (uses : List NameUse) (r r' : Resolver) : Prop where
  excused : ∀ d, r.session.Excuses d → r'.session.Excuses d
  complete : r.resolution.Complete → r'.resolution.Complete
  answers : ∀ u ∈ uses, r'.Answers u
  within : ∀ u ∈ uses, u.id ∈ ids

/-- So it is if nothing is known of the nodes yet. -/
structure Handles (ids : List NodeId) (uses : List NameUse) (r r' : Resolver) : Prop where
  handled (fresh : Fresh r.resolution ids) (distinct : ids.Nodup) : Handled ids uses r r'

/-- An answer stays one while other nodes are looked at. -/
theorem Answers.later {u : NameUse} (h : r.Answers u) (later : Later own ids r r')
    (other : u.id ∉ ids) (excused : ∀ d, r.session.Excuses d → r'.session.Excuses d) :
    r'.Answers u := by
  unfold Answers at *
  rw [later.references u.id other]
  cases found : r.resolution.references.get? u.id with
  | none =>
    rw [found] at h
    exact excused _ h
  | some ref =>
    rw [found] at h
    obtain ⟨symbol, here, named⟩ := h
    exact ⟨symbol, later.grows.symbol? here, named⟩

namespace Handles

/-- The rule of sequencing. -/
theorem seq (first : Handles ids uses r r') (later : Later own ids r r')
    (second : Handles ids' uses' r' r'') (later' : Later own' ids' r' r'') :
    Handles (ids ++ ids') (uses ++ uses') r r'' := by
  refine ⟨fun fresh distinct => ?_⟩
  obtain ⟨inFirst, inSecond, apart⟩ := List.nodup_append'.1 distinct
  have fresh' : Fresh r'.resolution ids' :=
    (fresh.mono (List.subset_append_right ..)).later later apart
  have h := first.handled (fresh.mono (List.subset_append_left ..)) inFirst
  have h' := second.handled fresh' inSecond
  refine ⟨fun d => h'.excused d ∘ h.excused d, h'.complete ∘ h.complete, fun u mem => ?_,
    fun u mem => ?_⟩
  · rcases List.mem_append.1 mem with mem | mem
    · exact (h.answers u mem).later later' (apart (h.within u mem)) h'.excused
    · exact h'.answers u mem
  · rcases List.mem_append.1 mem with mem | mem
    · exact List.mem_append_left _ (h.within u mem)
    · exact List.mem_append_right _ (h'.within u mem)

/-- More nodes may have been looked at, and their order does not matter. -/
theorem widen (h : Handles ids uses r r') (sub : ids ⊆ ids')
    (distinct : ids'.Nodup → ids.Nodup) : Handles ids' uses r r' := by
  refine ⟨fun fresh distinct' => ?_⟩
  have h := h.handled (fresh.mono sub) (distinct distinct')
  exact ⟨h.excused, h.complete, h.answers, fun u mem => sub (h.within u mem)⟩

theorem perm (h : Handles ids uses r r') (turned : ids.Perm ids') : Handles ids' uses r r' :=
  h.widen turned.subset turned.nodup_iff.2

/-- Only the session has changed. -/
theorem session {s : Session} (on : ∀ d, r.session.Excuses d → s.Excuses d) :
    Handles [] [] r { r with session := s } :=
  ⟨fun _ _ => ⟨on, id, List.forall_mem_nil _, List.forall_mem_nil _⟩⟩

/-- After a cancellation names need not be looked at. -/
theorem stop (first : Handles ids uses r r') (later : Later own ids r r')
    (seen : r'.session.cancelled = true) (within : ∀ u ∈ uses', u.id ∈ ids') :
    Handles (ids ++ ids') (uses ++ uses') r r' := by
  have idle : Later none ids' r' r' := (Later.refl none r').widen (.inl rfl) (List.nil_subset _)
  refine first.seq later ⟨fun fresh _ => ⟨fun _ => id, id, fun u mem => ?_, within⟩⟩ idle
  unfold Answers
  rw [fresh.references u.id (within u mem)]
  exact .inl seen

end Handles

end Resolver

theorem Session.Excuses.report {s : Session} {d : Diagnostic} (h : s.Excuses d) (problem : Problem)
    (span : Span) : (s.report problem span).Excuses d :=
  h.imp_right (List.mem_append_left _)

theorem Session.Excuses.checkpoint {s : Session} {d : Diagnostic} (h : s.Excuses d) (span : Span) :
    (s.checkpoint span).2.Excuses d := by
  unfold Session.checkpoint
  split
  · exact h
  · split
    · exact h
    · exact h
    · exact .inl rfl

namespace Resolver

open Scoping

/-! ### Names and declarations -/

theorem handles_resolveUse (scope : ScopeId) (r : Resolver) (u : NameUse) :
    Handles [u.id] [u] r (resolveUse scope r u) := by
  refine ⟨fun fresh _ => ?_⟩
  have isNew := fresh.references u.id (List.mem_singleton_self _)
  unfold resolveUse
  split
  next ref found =>
    refine ⟨fun _ => id, fun h => ⟨h.blockScopes, h.declarations⟩, List.forall_mem_singleton.2 ?_,
      List.forall_mem_singleton.2 (List.mem_singleton_self _)⟩
    unfold Answers
    rw [Table.get?_insert_self]
    exact ScopeTree.symbol?_lookupFrom _ found
  next =>
    refine ⟨fun _ h => h.report .., id, List.forall_mem_singleton.2 ?_,
      List.forall_mem_singleton.2 (List.mem_singleton_self _)⟩
    unfold Answers
    rw [isNew]
    exact .inr (List.mem_append_right _ (List.mem_singleton_self _))

theorem handles_resolveUses (scope : ScopeId) (uses : List NameUse) :
    ∀ r : Resolver, Handles (uses.map NameUse.id) uses r (uses.foldl (resolveUse scope) r) := by
  induction uses with
  | nil => exact fun r => .session fun _ => id
  | cons u uses ih =>
    exact fun r => (handles_resolveUse scope r u).seq (later_resolveUse scope r u) (ih _)
      (later_resolveUses scope uses _)

theorem handles_resolveExpr (scope : ScopeId) (r : Resolver) (e : Expr) :
    Handles e.preorder e.nameUses r (r.resolveExpr scope e) := by
  refine (handles_resolveUses scope e.nameUses r).widen (fun id mem => ?_) e.nodup_nameUses
  obtain ⟨u, used, rfl⟩ := List.mem_map.1 mem
  exact e.mem_preorder_of_mem_nameUses used

theorem handles_declare (r : Resolver) (scope : ScopeId) (node : NodeId) (name : String)
    (kind : SymbolKind) (type : Option Ty) (span : Span) :
    Handles [node] [] r (r.declare scope node name kind type span) := by
  refine ⟨fun fresh _ => ?_⟩
  refine ⟨fun d h => ?_, fun h => h.declare fresh .., List.forall_mem_nil _, List.forall_mem_nil _⟩
  unfold declare
  split
  · exact h
  · exact h.report ..

theorem handles_enter (r : Resolver) (kind : ScopeKind) (parent : ScopeId) (block : NodeId) :
    Handles [block] [] r (r.enter kind parent block).2 :=
  ⟨fun fresh _ => ⟨fun _ => id, fun h => h.enter fresh .., List.forall_mem_nil _,
    List.forall_mem_nil _⟩⟩

theorem handles_checkpoint (r : Resolver) (span : Span) :
    Handles [] [] r (r.checkpoint span).2 := .session fun _ h => h.checkpoint span

theorem handles_declareParams (scope : ScopeId) (params : List Param) :
    ∀ r : Resolver, Handles (params.map Param.id) [] r (params.foldl (declareParam scope) r) := by
  induction params with
  | nil => exact fun r => .session fun _ => id
  | cons p params ih =>
    intro r
    have first : Handles [p.id] [] r (declareParam scope r p) := handles_declare ..
    exact first.seq (later_declare ..) (ih _) (later_declareParams scope params _)

/-! ### Statements -/

/-- A checkpoint that does not pass ends the work. -/
theorem cancelled_checkpoint {r : Resolver} {span : Span} (stops : (r.checkpoint span).1 ≠ true) :
    (r.checkpoint span).2.session.cancelled = true := by
  have outcome := r.session.checkpoint_fst span
  exact cast (if_neg stops) outcome

mutual

theorem handles_resolveStmt :
    ∀ (s : Stmt) (scope : ScopeId) (inFunction : Bool) (r : Resolver), s.WellPlaced →
      s.declares = false → Handles s.ids s.uses r (resolveStmt scope inFunction s r)
  | .ifThen _ condition thenBlock, scope, inFunction, r, h, _ =>
    (handles_resolveExpr scope r condition).seq (later_resolveExpr r scope condition)
      (handles_resolveBlock thenBlock _ _ _ h) (later_resolveBlock thenBlock _ _ _ h)
  | .ifThenElse _ condition thenBlock elseBranch, scope, inFunction, r, h, _ =>
    ((handles_resolveExpr scope r condition).seq (later_resolveExpr r scope condition)
      (handles_resolveBlock thenBlock _ _ _ h.1) (later_resolveBlock thenBlock _ _ _ h.1)).seq
      ((later_resolveExpr r scope condition).trans (later_resolveBlock thenBlock _ _ _ h.1))
      (handles_resolveStmt elseBranch _ _ _ h.2.1 h.2.2)
      (later_resolveStmt elseBranch _ _ _ h.2.1 h.2.2)
  | .whileLoop _ condition body, scope, inFunction, r, h, _ => by
    have test := (handles_resolveExpr scope r condition).seq (later_resolveExpr r scope condition)
      (handles_checkpoint _ body.span) (later_checkpoint none _ body.span)
    have tested := (later_resolveExpr r scope condition).trans
      (later_checkpoint none _ body.span)
    rw [List.append_nil, List.append_nil] at test
    rw [List.append_nil] at tested
    rw [resolveStmt]
    by_cases passes : ((r.resolveExpr scope condition).checkpoint body.span).1 = true
    · simp only [passes, if_true]
      exact test.seq tested (handles_resolveBlock body _ _ _ h) (later_resolveBlock body _ _ _ h)
    · simp only [if_neg passes]
      exact test.stop tested (cancelled_checkpoint passes)
        fun _ => Stmt.mem_blockIds_of_mem_blockUses body
  | .block b, scope, inFunction, r, h, _ => handles_resolveBlock b _ _ r h
  | .expression _ value, scope, inFunction, r, _, _ => handles_resolveExpr scope r value
  | .ret span value, scope, inFunction, r, _, _ => by
    have complaint : Handles [] [] r (if inFunction then r
        else { r with session := r.session.report .returnOutsideFunction span }) := by
      split
      · exact .session fun _ => id
      · exact .session fun _ h => h.report ..
    cases value with
    | none => exact complaint
    | some e =>
      exact complaint.seq (Scoping.later_stray inFunction span r) (handles_resolveExpr scope _ e)
        (later_resolveExpr _ scope e)
  | .letVar .., _, _, _, _, declares => by cases declares
  | .function .., _, _, _, h, _ => h.elim
  | .error .., _, _, r, _, _ => .session fun _ => id

theorem handles_resolveBlock :
    ∀ (b : Block) (parent : ScopeId) (inFunction : Bool) (r : Resolver), Stmt.BlockWellPlaced b →
      Handles (Stmt.blockIds b) (Stmt.blockUses b) r (resolveBlock parent inFunction b r)
  | .mk id span body, parent, inFunction, r, h => by
    have entered : Handles [id] [] r (r.enter .block parent id).2 := handles_enter ..
    rw [resolveBlock]
    simp only [hoist_eq_self h]
    exact entered.seq (later_enter r .block parent id)
      (handles_resolveAll body r.tree.size inFunction _ h) (later_resolveAll body _ _ _ h)

theorem handles_resolveAll :
    ∀ (ss : List Stmt) (scope : ScopeId) (inFunction : Bool) (r : Resolver),
      Stmt.AllWellPlaced ss →
        Handles (Stmt.idsAll ss) (Stmt.usesAll ss) r (resolveAll scope inFunction ss r)
  | [], scope, inFunction, r, _ => .session fun _ => id
  | s :: ss, scope, inFunction, r, h => by
    refine Handles.seq ?_ (later_resolveInner scope inFunction r h.1)
      (handles_resolveAll ss scope inFunction _ h.2) (later_resolveAll ss _ _ _ h.2)
    cases declares : s.declares with
    | false => exact handles_resolveStmt s _ _ r h.1 declares
    | true =>
      cases s with
      | letVar id span name nameSpan declared value =>
        have test := handles_resolveExpr scope r value
        have declaration : Handles [id] [] (r.resolveExpr scope value)
            (resolveStmt scope inFunction (.letVar id span name nameSpan declared value) r) :=
          handles_declare ..
        have whole := test.seq (later_resolveExpr r scope value) declaration (later_declare ..)
        rw [List.append_nil] at whole
        exact whole.perm (List.perm_append_singleton id value.preorder)
      | function => exact h.1.elim
      | _ => cases declares

end

theorem handles_resolveFunction (parent : ScopeId) (header : FunctionHeader) {b : Block}
    (r : Resolver) (h : Stmt.BlockWellPlaced b) :
    Handles (header.params.map Param.id ++ Stmt.blockIds b) (Stmt.blockUses b) r
      (resolveFunction parent header b r) := by
  cases b with
  | mk id span body =>
    have entered : Handles [id] [] r (r.enter .function parent id).2 := handles_enter ..
    have entering := later_enter r .function parent id
    have params := handles_declareParams r.tree.size header.params (r.enter .function parent id).2
    have declaring :=
      later_declareParams r.tree.size header.params (r.enter .function parent id).2
    rw [resolveFunction]
    simp only [hoist_eq_self h]
    have inside := params.seq declaring (handles_resolveAll body r.tree.size true _ h)
      (later_resolveAll body _ _ _ h)
    have whole : Handles (id :: (header.params.map Param.id ++ Stmt.idsAll body))
        (Stmt.usesAll body) r _ :=
      entered.seq entering inside (declaring.trans (later_resolveAll body _ _ _ h))
    exact whole.perm List.perm_middle.symm

/-- A statement of the top level; if it declares a function, that was done before. -/
theorem handles_resolveTop {s : Stmt} {scope : ScopeId} (r : Resolver) (h : s.TopWellPlaced) :
    Handles s.innerIds s.uses r (resolveStmt scope false s r) := by
  cases h with
  | inner h =>
    rw [h.innerIds_eq]
    have whole := handles_resolveAll [s] scope false r ⟨h, trivial⟩
    rwa [Stmt.idsAll, Stmt.idsAll, List.append_nil, Stmt.usesAll, Stmt.usesAll, List.append_nil]
      at whole
  | function h => exact handles_resolveFunction _ _ r h

theorem handles_resolveTopLevel :
    ∀ (ss : List Stmt) (r : Resolver), (∀ s ∈ ss, s.TopWellPlaced) →
      Handles (ss.flatMap Stmt.innerIds) (Stmt.usesAll ss) r (resolveTopLevel ss r)
  | [], r, _ => .session fun _ => id
  | s :: ss, r, h => by
    obtain ⟨first, others⟩ := List.forall_mem_cons.1 h
    have asked := handles_checkpoint r s.span
    have asking := later_checkpoint none r s.span
    rw [resolveTopLevel]
    by_cases passes : (r.checkpoint s.span).1 = true
    · have later : Later (some globalScope) s.innerIds (r.checkpoint s.span).2
          (resolveStmt globalScope false s (r.checkpoint s.span).2) := later_resolveTop _ first
      simp only [passes, if_true]
      exact asked.seq asking
        ((handles_resolveTop _ first).seq later (handles_resolveTopLevel ss _ others)
          (later_resolveTopInner ss _ others))
        (later.trans (later_resolveTopInner ss _ others))
    · have within : ∀ u ∈ Stmt.usesAll (s :: ss), u.id ∈ (s :: ss).flatMap Stmt.innerIds :=
        fun _ => Stmt.mem_flatMap_innerIds_of_mem_usesAll
      simp only [if_neg passes]
      exact asked.stop asking (cancelled_checkpoint passes) within

theorem handles_declareAll (scope : ScopeId) (ds : List Declaration) :
    ∀ r : Resolver, Handles (nodesOf ds) [] r (ds.foldl (declareIn scope) r) := by
  induction ds with
  | nil => exact fun r => .session fun _ => id
  | cons d ds ih =>
    intro r
    have first : Handles d.node.toList [] r (declareIn scope r d) := by
      unfold declareIn
      cases d.node with
      | none => exact .session fun _ => id
      | some node => exact handles_declare ..
    have whole := first.seq (later_declareIn scope r d) (ih _) (later_declareAll scope ds _)
    have nodes : nodesOf (d :: ds) = d.node.toList ++ nodesOf ds := by
      cases node : d.node <;> simp [nodesOf, node]
    rw [nodes]
    exact whole

/-- Resolving a program looks at each of its nodes once. -/
theorem handles_resolve {p : Program} (placed : ∀ st ∈ p.body, st.TopWellPlaced) (s : Session) :
    Handles (Stmt.idsAll p.body) p.uses (start s)
      (resolveTopLevel p.body ((start s).hoist globalScope p.body)) := by
  have functions := handles_declareAll globalScope (hoisted p) (start s)
  have whole := functions.seq (later_declareAll globalScope (hoisted p) (start s))
    (handles_resolveTopLevel p.body _ placed) (later_resolveTopInner p.body _ placed)
  rw [hoisted, Program.functions, ← hoist_eq] at whole
  exact whole.perm (perm_innerIds p.body)

end Resolver

/-! ## Programs that were parsed -/

/-- The nodes of a program have numbers of their own, and that of an expression was drawn after
those below it. -/
structure Program.NumberedApart (p : Program) : Prop where
  distinct : (Stmt.idsAll p.body).Nodup
  drawnLast : ∀ e ∈ p.exprs, e.DrawnLast

/-- No two nodes of a program share a number, also if statements of it could not be read. So no
entry is lost when the names of the program are resolved, and each is about its own node. -/
theorem resolve_entries (tokens : List Delivery) (s t : Session) :
    (parse tokens s).program.NumberedApart ∧
      (resolve (parse tokens s).program t).1.Complete ∧
      ∀ u ∈ (parse tokens s).program.uses,
        Resolver.Answers ⟨(resolve (parse tokens s).program t).1,
          (resolve (parse tokens s).program t).2⟩ u := by
  have distinct := nodup_ids_parse tokens s
  have fresh : Scoping.Fresh (Resolver.start t).resolution
      (Stmt.idsAll (parse tokens s).program.body) :=
    ⟨fun _ _ => rfl, fun _ _ => rfl, fun _ _ => rfl⟩
  have handled :=
    (Resolver.handles_resolve (parse_wellPlaced tokens s) t).handled fresh distinct
  exact ⟨⟨distinct, drawnLast_parse tokens s⟩, handled.complete (.start t), handled.answers⟩

end MiniLang
