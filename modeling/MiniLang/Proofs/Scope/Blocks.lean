import MiniLang.Proofs.Scope.Entries

/-!
# Scopes mirror blocks

If resolution is not cancelled, it opens one scope for each block of a program, in the order in
which the blocks begin (`Resolver.Mirrors`). The number of a scope is therefore known from the
blocks alone, and the scope around it is that of the nearest block around its block, however the
walk went through the blocks in between (`Resolution.MirrorsBlocks`).
-/

set_option autoImplicit false

namespace MiniLang

/-! ## Blocks and what stands around them -/

/-- A block of a program: its node, whether it is the body of a function, and the node of the
nearest block around it, if there is one. -/
structure BlockSite where
  id : NodeId
  isBody : Bool
  around : Option NodeId
  deriving DecidableEq, Repr

/-- What the scope of a block has to be. -/
def BlockSite.kind (site : BlockSite) : ScopeKind := if site.isBody then .function else .block

namespace Stmt

mutual

/-- The blocks of a statement that stands directly in the given block, in the order in which they
begin. -/
def blockSites (around : Option NodeId) : Stmt → List BlockSite
  | letVar .. | expression .. | ret .. | error _ => []
  | ifThen _ _ thenBlock => sitesOf false around thenBlock
  | ifThenElse _ _ thenBlock elseBranch =>
    sitesOf false around thenBlock ++ blockSites around elseBranch
  | whileLoop _ _ body => sitesOf false around body
  | block b => sitesOf false around b
  | function _ _ body => sitesOf true around body

/-- A block and the blocks in it. -/
def sitesOf (isBody : Bool) (around : Option NodeId) : Block → List BlockSite
  | .mk id _ body => ⟨id, isBody, around⟩ :: sitesAll (some id) body

/-- The blocks of statements in order. -/
def sitesAll (around : Option NodeId) : List Stmt → List BlockSite
  | [] => []
  | s :: ss => blockSites around s ++ sitesAll around ss

end

mutual

/-- Blocks are nodes of their own. -/
theorem blockSites_sublist (around : Option NodeId) :
    ∀ s : Stmt, ((s.blockSites around).map BlockSite.id).Sublist s.ids
  | letVar .. | expression .. | ret .. | error _ => List.nil_sublist _
  | ifThen _ _ thenBlock => (sitesOf_sublist false around thenBlock).trans
      (List.sublist_append_right ..)
  | ifThenElse _ condition thenBlock elseBranch => by
    have first : ((sitesOf false around thenBlock).map BlockSite.id).Sublist
        (condition.preorder ++ blockIds thenBlock) :=
      (sitesOf_sublist false around thenBlock).trans (List.sublist_append_right ..)
    rw [blockSites, List.map_append]
    exact first.append (blockSites_sublist around elseBranch)
  | whileLoop _ _ body => (sitesOf_sublist false around body).trans (List.sublist_append_right ..)
  | block b => sitesOf_sublist false around b
  | function _ header body => by
    have inBody : ((sitesOf true around body).map BlockSite.id).Sublist
        (header.params.map Param.id ++ blockIds body) :=
      (sitesOf_sublist true around body).trans (List.sublist_append_right ..)
    exact inBody.cons header.id

theorem sitesOf_sublist (isBody : Bool) (around : Option NodeId) :
    ∀ b : Block, ((sitesOf isBody around b).map BlockSite.id).Sublist (blockIds b)
  | .mk id _ body => (sitesAll_sublist (some id) body).cons_cons id

theorem sitesAll_sublist (around : Option NodeId) :
    ∀ ss : List Stmt, ((sitesAll around ss).map BlockSite.id).Sublist (idsAll ss)
  | [] => List.nil_sublist _
  | s :: ss => by
    rw [sitesAll, List.map_append]
    exact (blockSites_sublist around s).append (sitesAll_sublist around ss)

end

end Stmt

/-- The blocks of a program, the bodies of functions among them, in the order in which they
begin. -/
def Program.blockSites (p : Program) : List BlockSite := Stmt.sitesAll none p.body

/-! ## Numbers of scopes -/

/-- The places of a list with one element more. -/
theorem getElem?_concat_eq_some_iff {α : Type} {l : List α} {a b : α} {i : Nat} :
    (l ++ [a])[i]? = some b ↔ l[i]? = some b ∨ i = l.length ∧ a = b := by
  rcases Nat.lt_trichotomy i l.length with less | rfl | more
  · rw [List.getElem?_append_left less]
    simp [less.ne]
  · simp
  · rw [List.getElem?_eq_none (by simp; omega), List.getElem?_eq_none more.le]
    simp [more.ne']

/-- The number that the scope of a block gets when scopes are opened in the order of blocks. -/
def BlockSite.Numbered (sites : List BlockSite) (block : NodeId) (scope : ScopeId) : Prop :=
  ∃ i, (sites.map BlockSite.id)[i]? = some block ∧ scope = i + 1

/-- The number of the scope in which what stands directly in a block is resolved: it is global if
there is no block. -/
def BlockSite.Within (sites : List BlockSite) : Option NodeId → ScopeId → Prop
  | none, scope => scope = globalScope
  | some block, scope => Numbered sites block scope

namespace BlockSite

variable {sites : List BlockSite} {block block' : NodeId} {scope : ScopeId}

/-- Blocks that come later change no number. -/
theorem Numbered.append (h : Numbered sites block scope) (more : List BlockSite) :
    Numbered (sites ++ more) block scope := by
  obtain ⟨i, here, rfl⟩ := h
  refine ⟨i, ?_, rfl⟩
  rw [List.map_append, List.getElem?_append_left (List.getElem?_eq_some_iff.1 here).1]
  exact here

theorem Within.append {around : Option NodeId} (h : Within sites around scope)
    (more : List BlockSite) : Within (sites ++ more) around scope := by
  cases around with
  | none => exact h
  | some block => exact Numbered.append h more

/-- The next block gets the next number. -/
theorem numbered_concat {site : BlockSite} :
    Numbered (sites ++ [site]) block scope ↔
      Numbered sites block scope ∨ site.id = block ∧ scope = sites.length + 1 := by
  simp only [Numbered, List.map_append, List.map_singleton, getElem?_concat_eq_some_iff,
    List.length_map]
  constructor
  · rintro ⟨i, here | ⟨rfl, same⟩, rfl⟩
    · exact .inl ⟨i, here, rfl⟩
    · exact .inr ⟨same, rfl⟩
  · rintro (⟨i, here, rfl⟩ | ⟨same, rfl⟩)
    · exact ⟨i, .inl here, rfl⟩
    · exact ⟨_, .inr ⟨rfl, same⟩, rfl⟩

/-- A block has one number, if no two blocks share a node. -/
theorem Numbered.unique {scope' : ScopeId} (distinct : (sites.map BlockSite.id).Nodup)
    (h : Numbered sites block scope) (h' : Numbered sites block scope') : scope = scope' := by
  obtain ⟨i, here, rfl⟩ := h
  obtain ⟨j, there, rfl⟩ := h'
  have inside := (List.getElem?_eq_some_iff.1 here).1
  rw [(List.getElem?_inj inside distinct).1 (here.trans there.symm)]

/-- Two blocks never have the same number. -/
theorem Numbered.injective (h : Numbered sites block scope) (h' : Numbered sites block' scope) :
    block = block' := by
  obtain ⟨i, here, rfl⟩ := h
  obtain ⟨j, there, same⟩ := h'
  rw [Nat.succ.inj same] at here
  exact Option.some.inj (here.symm.trans there)

theorem exists_numbered_iff :
    (∃ scope, Numbered sites block scope) ↔ block ∈ sites.map BlockSite.id := by
  rw [List.mem_iff_getElem?]
  constructor
  · rintro ⟨_, i, here, -⟩
    exact ⟨i, here⟩
  · rintro ⟨i, here⟩
    exact ⟨i + 1, i, here, rfl⟩

/-- All numbers but that of the global scope are numbers of blocks. -/
theorem exists_numbers_iff :
    (∃ block, Numbered sites block scope) ↔ scope ≠ globalScope ∧ scope < sites.length + 1 := by
  constructor
  · rintro ⟨block, i, here, rfl⟩
    have inside := (List.getElem?_eq_some_iff.1 here).1
    rw [List.length_map] at inside
    exact ⟨Nat.succ_ne_zero i, Nat.succ_lt_succ inside⟩
  · rintro ⟨inner, less⟩
    obtain ⟨i, rfl⟩ := Nat.exists_eq_succ_of_ne_zero inner
    have inside : i < (sites.map BlockSite.id).length := by
      rw [List.length_map]
      exact Nat.lt_of_succ_lt_succ less
    exact ⟨_, i, List.getElem?_eq_getElem inside, rfl⟩

end BlockSite

/-! ## Steps of resolution -/

/-- The kinds of scopes and what is around them, by number. -/
def ScopeTree.outline (t : ScopeTree) : List (ScopeKind × Option ScopeId) :=
  t.scopes.map fun S => (S.kind, S.parent)

@[simp] theorem ScopeTree.length_outline (t : ScopeTree) : t.outline.length = t.size :=
  List.length_map _

/-- An entry of the outline is about the scope with that number. -/
theorem ScopeTree.outline_eq_some_iff {t : ScopeTree} {id : ScopeId} {kind : ScopeKind}
    {parent : Option ScopeId} : t.outline[id]? = some (kind, parent) ↔
      ∃ S, t.scope? id = some S ∧ S.kind = kind ∧ S.parent = parent := by
  rw [outline, List.getElem?_map, Option.map_eq_some_iff]
  simp only [Prod.mk.injEq]
  rfl

/-- A declaration opens no scope and closes none. -/
theorem ScopeTree.outline_of_declare {t t' : ScopeTree} {symbol : Symbol} {ref : SymbolRef}
    (declared : t.declare symbol = .ok (ref, t')) : t'.outline = t.outline := by
  obtain ⟨S, here, -, -, rfl⟩ := declare_ok_iff.1 declared
  refine List.ext_getElem? fun i => ?_
  simp only [outline, List.getElem?_map]
  change (scope? ⟨t.scopes.set _ _⟩ i).map _ = (t.scope? i).map _
  rw [scope?_set here]
  by_cases same : symbol.scope = i
  · rw [if_pos same, ← same, here]
    rfl
  · rw [if_neg same]

namespace Resolver

/-- The given blocks have got scopes, in this order, and no other scope was opened. -/
structure Mirrors (r : Resolver) (sites : List BlockSite) : Prop where
  uncancelled : r.session.Uncancelled
  blocks : ∀ block scope,
    r.resolution.blockScopes.get? block = some scope ↔ BlockSite.Numbered sites block scope
  size : r.tree.size = sites.length + 1
  root : r.tree.outline[globalScope]? = some (.global, none)
  scopes : ∀ i site, sites[i]? = some site → ∃ parent,
    r.tree.outline[i + 1]? = some (site.kind, some parent) ∧
      BlockSite.Within sites site.around parent

variable {r r' : Resolver} {sites : List BlockSite} {around : Option NodeId} {scope : ScopeId}

namespace Mirrors

/-- Neither scopes were opened nor was a cancellation seen. -/
theorem of_eq (h : r.Mirrors sites) (uncancelled : r'.session.Uncancelled)
    (outline : r'.tree.outline = r.tree.outline)
    (blocks : r'.resolution.blockScopes = r.resolution.blockScopes) : r'.Mirrors sites := by
  refine ⟨uncancelled, ?_, ?_, ?_, ?_⟩
  · rw [blocks]
    exact h.blocks
  · rw [← ScopeTree.length_outline, outline, ScopeTree.length_outline, h.size]
  all_goals rw [outline]
  · exact h.root
  · exact h.scopes

theorem report (h : r.Mirrors sites) (problem : Problem) (span : Span) :
    Mirrors { r with session := r.session.report problem span } sites :=
  h.of_eq (h.uncancelled.report problem span) rfl rfl

theorem declare (h : r.Mirrors sites) (scope : ScopeId) (node : NodeId) (name : String)
    (kind : SymbolKind) (type : Option Ty) (span : Span) :
    (r.declare scope node name kind type span).Mirrors sites := by
  unfold Resolver.declare
  split
  next ref grown declared =>
    exact h.of_eq h.uncancelled (ScopeTree.outline_of_declare declared) rfl
  next => exact h.report ..

theorem hoist (h : r.Mirrors sites) (scope : ScopeId) (body : List Stmt) :
    (r.hoist scope body).Mirrors sites := by
  refine List.foldlRecOn (motive := (Mirrors · sites)) body (hoistFunction scope) h fun r h s _ => ?_
  unfold hoistFunction
  split
  · exact h.declare ..
  · exact h

theorem resolveExpr (h : r.Mirrors sites) (scope : ScopeId) (e : Expr) :
    (r.resolveExpr scope e).Mirrors sites := by
  refine List.foldlRecOn (motive := (Mirrors · sites)) e.nameUses (resolveUse scope) h
    fun r h use _ => ?_
  unfold resolveUse
  split
  · exact h.of_eq h.uncancelled rfl rfl
  · exact h.report ..

theorem declareParams (h : r.Mirrors sites) (scope : ScopeId) (params : List Param) :
    (params.foldl (declareParam scope) r).Mirrors sites :=
  List.foldlRecOn (motive := (Mirrors · sites)) params (declareParam scope) h
    fun _ h _ _ => h.declare ..

/-- The scope of a new block is inside of that of the block around it. -/
theorem enter (h : r.Mirrors sites) {site : BlockSite} {parent : ScopeId}
    (new : site.id ∉ sites.map BlockSite.id) (within : BlockSite.Within sites site.around parent) :
    (r.enter site.kind parent site.id).2.Mirrors (sites ++ [site]) := by
  have outline : (r.enter site.kind parent site.id).2.tree.outline =
      r.tree.outline ++ [(site.kind, some parent)] := List.map_append
  refine ⟨h.uncancelled, fun block scope => ?_, ?_, ?_, fun i other here => ?_⟩
  · change (r.resolution.blockScopes.insert site.id r.tree.size).get? block = some scope ↔ _
    rw [Table.get?_insert, BlockSite.numbered_concat, h.size]
    by_cases same : site.id = block
    · have absent : ¬ BlockSite.Numbered sites block scope := by
        rw [← same]
        exact fun known => new (BlockSite.exists_numbered_iff.1 ⟨scope, known⟩)
      simp [same, absent, eq_comm]
    · simp [same, h.blocks]
  · rw [← ScopeTree.length_outline, outline, List.length_append, ScopeTree.length_outline, h.size]
    simp
  · rw [outline, getElem?_concat_eq_some_iff]
    exact .inl h.root
  · rw [outline]
    simp only [getElem?_concat_eq_some_iff, ScopeTree.length_outline, h.size]
    rcases getElem?_concat_eq_some_iff.1 here with here | ⟨rfl, rfl⟩
    · obtain ⟨above, there, inside⟩ := h.scopes i other here
      exact ⟨above, .inl there, inside.append _⟩
    · exact ⟨parent, .inr ⟨rfl, rfl⟩, within.append _⟩

end Mirrors

/-! ## Statements -/

theorem nodup_left {more : List BlockSite}
    (distinct : ((sites ++ more).map BlockSite.id).Nodup) : (sites.map BlockSite.id).Nodup := by
  rw [List.map_append] at distinct
  exact (List.nodup_append.1 distinct).1

/-- A block gets a scope, in which its statements are resolved. -/
theorem Mirrors.enterBlock (h : r.Mirrors sites) {id : NodeId} {isBody : Bool}
    {inside : List BlockSite} (within : BlockSite.Within sites around scope)
    (distinct : ((sites ++ ⟨id, isBody, around⟩ :: inside).map BlockSite.id).Nodup) :
    (r.enter (BlockSite.kind ⟨id, isBody, around⟩) scope id).2.Mirrors
        (sites ++ [⟨id, isBody, around⟩]) ∧
      BlockSite.Within (sites ++ [⟨id, isBody, around⟩]) (some id) r.tree.size := by
  have new : id ∉ sites.map BlockSite.id := by
    rw [List.map_append, List.map_cons] at distinct
    exact fun known => (List.nodup_append'.1 distinct).2.2 known List.mem_cons_self
  let site : BlockSite := ⟨id, isBody, around⟩
  exact ⟨h.enter (show site.id ∉ sites.map BlockSite.id from new) within,
    BlockSite.numbered_concat.2 (.inr ⟨rfl, h.size⟩)⟩

mutual

theorem mirrors_resolveStmt (inFunction : Bool) :
    ∀ (s : Stmt) {r : Resolver} {sites : List BlockSite} {around : Option NodeId}
      {scope : ScopeId}, r.Mirrors sites → BlockSite.Within sites around scope →
      ((sites ++ s.blockSites around).map BlockSite.id).Nodup →
      (resolveStmt scope inFunction s r).Mirrors (sites ++ s.blockSites around)
  | .letVar _ _ _ _ _ value, r, sites, _, scope, h, _, _ => by
    rw [Stmt.blockSites, List.append_nil]
    exact (h.resolveExpr scope value).declare ..
  | .ifThen _ condition thenBlock, _, _, _, scope, h, within, distinct =>
    mirrors_resolveBlock inFunction thenBlock (h.resolveExpr scope condition) within distinct
  | .ifThenElse _ condition thenBlock elseBranch, _, _, _, scope, h, within, distinct => by
    rw [Stmt.blockSites, ← List.append_assoc] at distinct ⊢
    exact mirrors_resolveStmt inFunction elseBranch
      (mirrors_resolveBlock inFunction thenBlock (h.resolveExpr scope condition) within
        (nodup_left distinct))
      (within.append _) distinct
  | .whileLoop _ condition body, _, _, _, scope, h, within, distinct => by
    have tested := h.resolveExpr scope condition
    rw [resolveStmt, Scoping.checkpoint_eq tested.uncancelled]
    exact mirrors_resolveBlock inFunction body tested within distinct
  | .block b, _, _, _, _, h, within, distinct =>
    mirrors_resolveBlock inFunction b h within distinct
  | .expression _ value, _, _, _, scope, h, _, _ => by
    rw [Stmt.blockSites, List.append_nil]
    exact h.resolveExpr scope value
  | .function _ header body, _, _, _, _, h, within, distinct =>
    mirrors_resolveFunction header body h within distinct
  | .ret span value, r, sites, _, scope, h, _, _ => by
    have complained : Mirrors (if inFunction then r else
        { r with session := r.session.report .returnOutsideFunction span }) sites := by
      split
      · exact h
      · exact h.report ..
    rw [Stmt.blockSites, List.append_nil]
    cases value with
    | none => exact complained
    | some e => exact complained.resolveExpr scope e
  | .error _, _, _, _, _, h, _, _ => by
    rw [Stmt.blockSites, List.append_nil]
    exact h

theorem mirrors_resolveBlock (inFunction : Bool) :
    ∀ (b : Block) {r : Resolver} {sites : List BlockSite} {around : Option NodeId}
      {scope : ScopeId}, r.Mirrors sites → BlockSite.Within sites around scope →
      ((sites ++ Stmt.sitesOf false around b).map BlockSite.id).Nodup →
      (resolveBlock scope inFunction b r).Mirrors (sites ++ Stmt.sitesOf false around b)
  | .mk id _ body, _, _, _, scope, h, within, distinct => by
    obtain ⟨entered, inside⟩ := h.enterBlock within distinct
    rw [Stmt.sitesOf, List.append_cons] at distinct ⊢
    exact mirrors_resolveAll inFunction body (entered.hoist _ body) inside distinct

theorem mirrors_resolveFunction (header : FunctionHeader) :
    ∀ (b : Block) {r : Resolver} {sites : List BlockSite} {around : Option NodeId}
      {scope : ScopeId}, r.Mirrors sites → BlockSite.Within sites around scope →
      ((sites ++ Stmt.sitesOf true around b).map BlockSite.id).Nodup →
      (resolveFunction scope header b r).Mirrors (sites ++ Stmt.sitesOf true around b)
  | .mk id _ body, _, _, _, scope, h, within, distinct => by
    obtain ⟨entered, inside⟩ := h.enterBlock within distinct
    rw [Stmt.sitesOf, List.append_cons] at distinct ⊢
    exact mirrors_resolveAll true body ((entered.declareParams _ header.params).hoist _ body)
      inside distinct

theorem mirrors_resolveAll (inFunction : Bool) :
    ∀ (ss : List Stmt) {r : Resolver} {sites : List BlockSite} {around : Option NodeId}
      {scope : ScopeId}, r.Mirrors sites → BlockSite.Within sites around scope →
      ((sites ++ Stmt.sitesAll around ss).map BlockSite.id).Nodup →
      (resolveAll scope inFunction ss r).Mirrors (sites ++ Stmt.sitesAll around ss)
  | [], _, _, _, _, h, _, _ => by
    rw [Stmt.sitesAll, List.append_nil]
    exact h
  | s :: ss, _, _, _, _, h, within, distinct => by
    rw [Stmt.sitesAll, ← List.append_assoc] at distinct ⊢
    exact mirrors_resolveAll inFunction ss
      (mirrors_resolveStmt inFunction s h within (nodup_left distinct)) (within.append _) distinct

end

/-! ## Programs -/

theorem mirrors_resolveTopLevel :
    ∀ (ss : List Stmt) {r : Resolver} {sites : List BlockSite}, r.Mirrors sites →
      ((sites ++ Stmt.sitesAll none ss).map BlockSite.id).Nodup →
      (resolveTopLevel ss r).Mirrors (sites ++ Stmt.sitesAll none ss)
  | [], _, _, h, _ => by
    rw [Stmt.sitesAll, List.append_nil]
    exact h
  | s :: ss, _, sites, h, distinct => by
    rw [Stmt.sitesAll, ← List.append_assoc] at distinct ⊢
    have outside : BlockSite.Within sites none globalScope := rfl
    rw [resolveTopLevel, Scoping.checkpoint_eq h.uncancelled]
    exact mirrors_resolveTopLevel ss
      (mirrors_resolveStmt false s h outside (nodup_left distinct)) distinct

/-- Before anything of a program is resolved there is the global scope alone. -/
theorem mirrors_start {s : Session} (uncancelled : s.Uncancelled) : (start s).Mirrors [] := by
  refine ⟨uncancelled, fun block scope => ⟨fun found => ?_, fun ⟨i, here, _⟩ => ?_⟩, rfl, rfl,
    fun i site here => ?_⟩
  · cases found
  · cases here
  · cases here

end Resolver

/-- The scopes of a resolution mirror the blocks of a program: its blocks correspond one to one to
all scopes but the global one, the scope of a block is that of a function exactly if the block is
the body of one, and it is inside of the scope of the nearest block around the block. -/
structure Resolution.MirrorsBlocks (R : Resolution) (p : Program) : Prop where
  /-- No two blocks share a node, under which their scopes are kept. -/
  distinct : (p.blockSites.map BlockSite.id).Nodup
  /-- Blocks have scopes, and nothing else has one. -/
  total : ∀ block, (∃ scope, R.blockScopes.get? block = some scope) ↔
    block ∈ p.blockSites.map BlockSite.id
  /-- No two blocks have the same scope. -/
  injective : ∀ block block' scope, R.blockScopes.get? block = some scope →
    R.blockScopes.get? block' = some scope → block = block'
  /-- The scopes of blocks are all scopes that there are, without the global one. -/
  onto : ∀ scope, (∃ block, R.blockScopes.get? block = some scope) ↔
    scope ≠ globalScope ∧ ∃ S, R.tree.scope? scope = some S
  root : ∃ G, R.tree.scope? globalScope = some G ∧ G.kind = .global ∧ G.parent = none
  /-- The kind of the scope of a block, and the scope around it. -/
  scopes : ∀ site ∈ p.blockSites, ∀ scope, R.blockScopes.get? site.id = some scope →
    ∃ S, R.tree.scope? scope = some S ∧ S.kind = (if site.isBody then .function else .block) ∧
      match site.around with
      | none => S.parent = some globalScope
      | some block => ∃ parent, R.blockScopes.get? block = some parent ∧ S.parent = some parent

/-- What a walk has left behind. -/
theorem Resolver.Mirrors.mirrorsBlocks {r : Resolver} {p : Program}
    (h : r.Mirrors p.blockSites) (distinct : (p.blockSites.map BlockSite.id).Nodup) :
    r.resolution.MirrorsBlocks p := by
  refine ⟨distinct, fun block => ?_, fun block block' scope found found' => ?_, fun scope => ?_,
    ScopeTree.outline_eq_some_iff.1 h.root, fun site mem scope found => ?_⟩
  · simp only [h.blocks]
    exact BlockSite.exists_numbered_iff
  · exact ((h.blocks ..).1 found).injective ((h.blocks ..).1 found')
  · simp only [h.blocks]
    rw [BlockSite.exists_numbers_iff, ← h.size, ← Nat.not_le, ← ScopeTree.scope?_eq_none_iff,
      ← Option.ne_none_iff_exists']
  · obtain ⟨i, here⟩ := List.mem_iff_getElem?.1 mem
    have numbered : BlockSite.Numbered p.blockSites site.id (i + 1) := by
      refine ⟨i, ?_, rfl⟩
      rw [List.getElem?_map, here]
      rfl
    obtain rfl := ((h.blocks ..).1 found).unique distinct numbered
    obtain ⟨parent, there, within⟩ := h.scopes i site here
    obtain ⟨S, isScope, kind, above⟩ := ScopeTree.outline_eq_some_iff.1 there
    refine ⟨S, isScope, kind, ?_⟩
    cases around : site.around with
    | none =>
      rw [around] at within
      exact above.trans (congrArg some within)
    | some block =>
      rw [around] at within
      exact ⟨parent, (h.blocks ..).2 within, above⟩

/-- Whatever tokens are parsed, without a cancellation the scopes of the program mirror its
blocks. -/
theorem resolve_mirrorsBlocks (tokens : List Delivery) (before : Session) {s : Session}
    (uncancelled : s.Uncancelled) :
    (resolve (parse tokens before).program s).1.MirrorsBlocks (parse tokens before).program := by
  have distinct := (nodup_ids_parse tokens before).sublist
    (Stmt.sitesAll_sublist none (parse tokens before).program.body)
  have hoisted := (Resolver.mirrors_start uncancelled).hoist globalScope
    (parse tokens before).program.body
  exact (Resolver.mirrors_resolveTopLevel _ hoisted distinct).mirrorsBlocks distinct

/-- Blocks in branches of a chain, in a loop, in a function and in blocks; one is empty. -/
def nestedBlocks : String :=
  "fn f(n: int) \x7b if (n > 0) \x7b \x7b \x7d \x7d else if (n < 0) \x7b \x7d " ++
    "else \x7b while (true) \x7b \x7d \x7d \x7d \x7b let x = 1; \x7d"

/-- Its seven blocks, the last of which stands in no other, and the scopes that mirror them. -/
theorem resolve_mirrorsBlocks_nestedBlocks :
    ∃ tokens, (parse tokens .fresh).program = (parseSource nestedBlocks.toList .fresh).program ∧
      Session.fresh.Uncancelled ∧
      (resolve (parse tokens .fresh).program .fresh).1.MirrorsBlocks
        (parse tokens .fresh).program ∧
      (parseSource nestedBlocks.toList .fresh).program.blockSites.map
        (fun site => (site.isBody, site.around.isSome)) =
        [(true, false), (false, true), (false, true), (false, true), (false, true), (false, true),
          (false, false)] ∧
      (resolve (parseSource nestedBlocks.toList .fresh).program .fresh).1.tree.outline =
        [(.global, none), (.function, some 0), (.block, some 1), (.block, some 2),
          (.block, some 1), (.block, some 1), (.block, some 5), (.block, some 0)] := by
  have parsed : ∃ tokens, parseSource nestedBlocks.toList .fresh = parse tokens .fresh := ⟨_, rfl⟩
  obtain ⟨tokens, parsed⟩ := parsed
  have uncancelled : Session.fresh.Uncancelled := ⟨rfl, rfl⟩
  refine ⟨tokens, by rw [parsed], uncancelled, resolve_mirrorsBlocks tokens .fresh uncancelled,
    ?_, ?_⟩
  · decide +kernel
  · decide +kernel

end MiniLang
