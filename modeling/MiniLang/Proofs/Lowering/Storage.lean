import MiniLang.Proofs.Ir.Renaming
import MiniLang.Proofs.Lowering.Emission
import MiniLang.Proofs.Lowering.Rejection
import MiniLang.Proofs.Typing.Symbols

/-!
# Whose place is whose

The places that generated code reads and writes belong to the variables, the parameters and the
operators of the program that it was generated from (`Typed.Program.owners`). Code generation gives
the place of a symbol to the names that refer to it and a slot with a number of its own to each
operator that may skip its right operand (`stores_lowerExpr`, `stores_lowerStmt`). So no two owners
share a place, whatever names the program has (`StoresApart`).
-/

set_option autoImplicit false

namespace MiniLang

open Ir (Instr Place)

/-! ## Places and owners -/

namespace Ir

/-- The places that a piece of code reads and writes, in order. -/
def placesOf (code : List Instr) : List Place := code.filterMap Instr.place?

/-- The places of a function: where its arguments go, and those that its code reads and writes. -/
def Function.places (F : Function) : List Place := F.params ++ placesOf F.code

@[simp] theorem placesOf_nil : placesOf [] = [] := rfl

@[simp] theorem placesOf_cons (i : Instr) (code : List Instr) :
    placesOf (i :: code) = i.place?.toList ++ placesOf code := by
  unfold placesOf
  rw [List.filterMap_cons]
  cases i.place? <;> rfl

@[simp] theorem placesOf_append (before after : List Instr) :
    placesOf (before ++ after) = placesOf before ++ placesOf after := List.filterMap_append

end Ir

/-- Where a variable or parameter lives. -/
def Symbol.place (s : Symbol) : Place := Lowering.placeFor s.scope s.name

namespace Lowering

/-- What has a place: a variable or parameter, or an operator that may skip its right operand. -/
inductive Owner where
  | symbol (ref : SymbolRef)
  | operator (node : NodeId)
  deriving DecidableEq, Repr

/-- The owner of the place that a name stands for. -/
def Owner.ofSymbol (symbol : Option SymbolRef) : List Owner := (symbol.map Owner.symbol).toList

end Lowering

open Lowering (Owner)

namespace Typed

namespace Expr

mutual

/-- Whose places the code of an expression reads and writes, in order. The slot of an operator is
written after its left operand and after its right one, and then it is read. Operators that are
folded have no code. -/
def owners (folding : Bool) : Expr → List Owner
  | literal _ _ => []
  | var _ _ symbol => Owner.ofSymbol symbol
  | binary info op left right =>
    if op.isLogical && (Lowering.folded? folding op left right).isNone then
      owners folding left ++ [.operator info.id] ++ owners folding right ++
        [.operator info.id, .operator info.id]
    else
      owners folding left ++ owners folding right
  | unary _ _ operand => owners folding operand
  | call _ _ _ arguments => ownersAll folding arguments
  | assignment _ _ symbol value => owners folding value ++ Owner.ofSymbol symbol

/-- Whose places the code of expressions reads and writes, in order. -/
def ownersAll (folding : Bool) : List Expr → List Owner
  | [] => []
  | e :: es => owners folding e ++ ownersAll folding es

end

theorem owners_of_literal {e : Expr} {value : Literal} (h : e.literal? = some value)
    (folding : Bool) : e.owners folding = [] := by
  cases e with
  | literal => rfl
  | _ => cases h

end Expr

namespace Stmt

mutual

/-- Whose places the code of a statement reads and writes, in order. Functions inside others have no
code. -/
def owners (folding : Bool) : Stmt → List Owner
  | letVar _ _ symbol _ value => value.owners folding ++ Owner.ofSymbol symbol
  | ifThen _ condition thenBlock => condition.owners folding ++ blockOwners folding thenBlock
  | ifThenElse _ condition thenBlock elseBranch =>
    condition.owners folding ++ blockOwners folding thenBlock ++ owners folding elseBranch
  | whileLoop _ condition body => condition.owners folding ++ blockOwners folding body
  | block b => blockOwners folding b
  | expression _ value => value.owners folding
  | ret _ (some value) => value.owners folding
  | ret _ none => []
  | function _ _ _ => []
  | error _ => []

/-- Whose places the code of a block reads and writes. -/
def blockOwners (folding : Bool) : Block → List Owner
  | .mk _ _ body => ownersAll folding body

/-- Whose places the code of statements reads and writes, in order. -/
def ownersAll (folding : Bool) : List Stmt → List Owner
  | [] => []
  | s :: ss => owners folding s ++ ownersAll folding ss

end

end Stmt

namespace Program

/-- Whose places a declared function uses: those of its parameters, and those in its body. -/
def functionOwners (folding : Bool) (f : Function) : List Owner :=
  f.2.1.params.flatMap (fun p => Owner.ofSymbol p.symbol) ++ Stmt.blockOwners folding f.2.2

/-- Whose places the functions of a program use, function by function, in the order in which they
are generated. The first one is made of the statements that stand in no function. -/
def owners (folding : Bool) (p : Program) : List (List Owner) :=
  Stmt.ownersAll folding (p.body.filter (!·.isFunction)) ::
    p.functions.map (functionOwners folding)

end Program

end Typed

namespace Lowering

open Ir (placesOf)

/-! ## Places of laid-out code -/

section

variable {condition : Value} {thenCode elseCode body : List Instr}

theorem place?_skipping (op : BinaryOp) (number : Nat) (left : Ir.Operand) :
    (skipping op number left).place? = none := by
  unfold skipping
  split <;> rfl

theorem placesOf_shortCircuit (op : BinaryOp) (number : Nat) (left right : Value) (dest : Ir.Temp) :
    placesOf (shortCircuit op number left right dest).code =
      placesOf left.code ++ [slot op number] ++ placesOf right.code ++
        [slot op number, slot op number] := by
  rw [shortCircuit_code]
  simp only [Ir.placesOf_append, Ir.placesOf_cons, Ir.placesOf_nil, place?_skipping]
  simp [Instr.place?]

theorem placesOf_choice (number : Nat) :
    placesOf (choice number condition thenCode) =
      placesOf condition.code ++ placesOf thenCode := by
  simp [choice, Instr.place?]

theorem placesOf_choiceElse (number : Nat) :
    placesOf (choiceElse number condition thenCode elseCode) =
      placesOf condition.code ++ placesOf thenCode ++ placesOf elseCode := by
  simp [choiceElse, Instr.place?]

theorem placesOf_loop (number : Nat) :
    placesOf (loop number condition body) = placesOf condition.code ++ placesOf body := by
  simp [loop, Instr.place?]

theorem placesOf_closed (code : List Instr) : placesOf (closed code) = placesOf code := by
  unfold closed
  split
  · rfl
  · simp [Instr.place?]

end

/-! ## Numbers for slots -/

/-- An operator that may skip its right operand, and the number that was drawn for its slot. -/
structure Drawn where
  node : NodeId
  op : BinaryOp
  number : Nat

/-- Places that are those of the symbols of a tree and the slots with the drawn numbers. -/
structure Assigns (tree : ScopeTree) (drawn : List Drawn) (place : Owner → Place) : Prop where
  symbols : ∀ ref symbol, tree.symbol? ref = some symbol → place (.symbol ref) = symbol.place
  operators : ∀ d ∈ drawn, place (.operator d.node) = slot d.op d.number

/-- Code that was generated between two states, from expressions with the given numbers, uses the
places of the given owners. Its operators are among the expressions, and each has a number of its
own. -/
structure Stores (tree : ScopeTree) (f f' : Fresh) (drawn : List Drawn) (nodes : List NodeId)
    (owners : List Owner) (code : List Instr) : Prop where
  le : f.label ≤ f'.label
  numbers : Numbered f.label f'.label (drawn.map Drawn.number)
  nodes : (drawn.map Drawn.node).Sublist nodes
  known : ∀ ref, .symbol ref ∈ owners → ∃ name, tree.HasVariable name ref
  slots : ∀ node, .operator node ∈ owners → node ∈ drawn.map Drawn.node
  places : ∀ place, Assigns tree drawn place → placesOf code = owners.map place

namespace Assigns

variable {tree : ScopeTree} {drawn drawn' : List Drawn} {place : Owner → Place}

theorem mono (h : Assigns tree drawn' place) (sub : drawn ⊆ drawn') : Assigns tree drawn place :=
  ⟨h.symbols, fun d mem => h.operators d (sub mem)⟩

end Assigns

section

variable {tree : ScopeTree} {f f₀ f₁ f' : Fresh} {drawn drawn' : List Drawn}
  {nodes nodes' : List NodeId} {owners owners' : List Owner} {code code' : List Instr}

namespace Stores

/-- Code without places. -/
theorem silent (le : f.label ≤ f'.label) (nodes : List NodeId) (none : placesOf code = []) :
    Stores tree f f' [] nodes [] code := by
  refine ⟨le, .nil _ _, List.nil_sublist _, fun _ mem => ?_, fun _ mem => ?_, fun _ _ => none⟩
  · cases mem
  · cases mem

/-- Other code that uses the same places. -/
theorem recode (h : Stores tree f f' drawn nodes owners code)
    (same : placesOf code' = placesOf code) : Stores tree f f' drawn nodes owners code' :=
  ⟨h.le, h.numbers, h.nodes, h.known, h.slots, fun place assigns =>
    same.trans (h.places place assigns)⟩

/-- More numbers may have been drawn. -/
theorem widen (h : Stores tree f f' drawn nodes owners code) (le : f₀.label ≤ f.label)
    (ge : f'.label ≤ f₁.label) : Stores tree f₀ f₁ drawn nodes owners code :=
  ⟨(le.trans h.le).trans ge, h.numbers.widen le ge, h.nodes, h.known, h.slots, h.places⟩

/-- More temporaries may be used up. -/
theorem moreTemps (h : Stores tree f f' drawn nodes owners code) (n : Nat) :
    Stores tree f { f' with temp := f'.temp + n } drawn nodes owners code :=
  h.widen (Nat.le_refl _) (Nat.le_refl _)

/-- One more instruction that uses no place. -/
theorem snoc (h : Stores tree f f' drawn nodes owners code) {i : Instr} (none : i.place? = none) :
    Stores tree f f' drawn nodes owners (code ++ [i]) := by
  refine h.recode ?_
  simp [none]

/-- There may be more expressions. -/
theorem among (h : Stores tree f f' drawn nodes owners code) (sub : nodes.Sublist nodes') :
    Stores tree f f' drawn nodes' owners code :=
  ⟨h.le, h.numbers, h.nodes.trans sub, h.known, h.slots, h.places⟩

theorem append (h : Stores tree f f₁ drawn nodes owners code)
    (h' : Stores tree f₁ f' drawn' nodes' owners' code') :
    Stores tree f f' (drawn ++ drawn') (nodes ++ nodes') (owners ++ owners') (code ++ code') := by
  refine ⟨h.le.trans h'.le, ?_, ?_, fun ref mem => ?_, fun node mem => ?_, fun place assigns => ?_⟩
  · rw [List.map_append]
    exact h.numbers.append h'.numbers h.le h'.le
  · rw [List.map_append]
    exact h.nodes.append h'.nodes
  · rcases List.mem_append.1 mem with mem | mem
    · exact h.known ref mem
    · exact h'.known ref mem
  · rw [List.map_append, List.mem_append]
    rcases List.mem_append.1 mem with mem | mem
    · exact .inl (h.slots node mem)
    · exact .inr (h'.slots node mem)
  · have before := h.places place (assigns.mono (List.subset_append_left ..))
    have after := h'.places place (assigns.mono (List.subset_append_right ..))
    rw [Ir.placesOf_append, before, after, List.map_append]

/-- An operator that may skip its right operand draws its number before its operands draw theirs. -/
theorem shortCircuit {f fl fr : Fresh} {dl dr : List Drawn} {ln rn : List NodeId}
    {lo ro : List Owner} {left right : Value} (id : NodeId) (op : BinaryOp) (dest : Ir.Temp)
    (hl : Stores tree { f with label := f.label + 1 } fl dl ln lo left.code)
    (hr : Stores tree fl fr dr rn ro right.code) :
    Stores tree f fr (⟨id, op, f.label⟩ :: (dl ++ dr)) (id :: (ln ++ rn))
      (lo ++ [.operator id] ++ ro ++ [.operator id, .operator id])
      (Lowering.shortCircuit op f.label left right dest).code := by
  have inner := hl.append hr
  have less : f.label < fr.label := Nat.lt_of_succ_le inner.le
  refine ⟨less.le, inner.numbers.cons_first less, inner.nodes.cons_cons id, fun ref mem => ?_,
    fun node mem => ?_, fun place assigns => ?_⟩
  · refine inner.known ref ?_
    simpa using mem
  · by_cases same : node = id
    · exact List.mem_cons.2 (.inl same)
    · refine List.mem_cons_of_mem _ (inner.slots node ?_)
      simpa [same] using mem
  · have own : place (.operator id) = slot op f.label := assigns.operators _ List.mem_cons_self
    have below := assigns.mono (List.subset_cons_self ..)
    have inLeft := hl.places place (below.mono (List.subset_append_left ..))
    have inRight := hr.places place (below.mono (List.subset_append_right ..))
    rw [placesOf_shortCircuit, inLeft, inRight]
    simp [own]

end Stores

/-- The place that a name stands for is that of the symbol that it refers to. -/
theorem map_ofSymbol (wellFormed : tree.WellFormed) {symbol : Option SymbolRef} {name : String}
    {span : Span} {place : Place} (placed : placeOf symbol name span = .ok place)
    (known : ∀ ref ∈ symbol, tree.HasVariable name ref) {assigned : Owner → Place}
    (assigns : Assigns tree drawn assigned) : (Owner.ofSymbol symbol).map assigned = [place] := by
  cases symbol with
  | none => cases placed
  | some ref =>
    obtain ⟨found, there, rfl, -⟩ := known ref rfl
    rw [placeOf_eq] at placed
    obtain rfl := Except.ok.inj placed
    have same : assigned (.symbol ref) = found.place := assigns.symbols ref found there
    rw [Symbol.place, wellFormed.scope_eq there] at same
    exact congrArg (· :: []) same

/-- One instruction that uses this place. -/
theorem stores_symbol (wellFormed : tree.WellFormed) {symbol : Option SymbolRef} {name : String}
    {span : Span} {place : Place} (placed : placeOf symbol name span = .ok place)
    (known : ∀ ref ∈ symbol, tree.HasVariable name ref) {i : Instr} (uses : i.place? = some place)
    (f : Fresh) (nodes : List NodeId) :
    Stores tree f f [] nodes (Owner.ofSymbol symbol) [i] := by
  refine ⟨Nat.le_refl _, .nil _ _, List.nil_sublist _, fun ref mem => ?_, fun node mem => ?_,
    fun assigned assigns => ?_⟩
  · obtain ⟨ref', refers, same⟩ := Option.map_eq_some_iff.1 (Option.mem_toList.1 mem)
    obtain rfl := Owner.symbol.inj same
    exact ⟨name, known ref' refers⟩
  · obtain ⟨ref', -, same⟩ := Option.map_eq_some_iff.1 (Option.mem_toList.1 mem)
    cases same
  · rw [map_ofSymbol wellFormed placed known assigns]
    simp [uses]

end

/-! ## Expressions -/

section

variable {tree : ScopeTree} {folding : Bool}

theorem owners_folded {info : Typed.Info} {op : BinaryOp} {left right : Typed.Expr} {value : Int}
    (h : folded? folding op left right = some value) :
    (Typed.Expr.binary info op left right).owners folding = [] := by
  obtain ⟨⟨l, isLeft⟩, r, isRight⟩ := exists_folded h
  simp [Typed.Expr.owners, h, Typed.Expr.owners_of_literal isLeft,
    Typed.Expr.owners_of_literal isRight]

-- By induction on the tree. The numbers that a part draws lie between the counters before and after
-- it, so parts that follow each other draw different ones, whatever they are.
mutual

/-- The code of an expression uses the places of its owners, with slots of its own. -/
theorem stores_lowerExpr (wellFormed : tree.WellFormed) :
    ∀ (e : Typed.Expr) {f f' : Fresh} {v : Value}, (∀ n ∈ e.nodes, n.Named tree) →
      lowerExpr folding e f = .ok (v, f') →
      ∃ drawn, Stores tree f f' drawn (e.nodes.map (·.info.id)) (e.owners folding) v.code
  | .literal .., f, f', v, _, h => by
    obtain ⟨-, rfl, rfl⟩ := lowerExpr_literal.1 h
    exact ⟨[], .silent (Nat.le_refl _) _ rfl⟩
  | .var info name symbol, f, f', v, named, h => by
    obtain ⟨typed, place, placed, rfl, rfl⟩ := lowerExpr_var.1 h
    have known : ∀ ref ∈ symbol, tree.HasVariable name ref := fun ref mem =>
      named _ (List.mem_singleton_self _) typed (name, ref) (by rw [mem]; rfl)
    exact ⟨[], (stores_symbol wellFormed placed known rfl f _).moreTemps 1⟩
  | .binary info op left right, f, f', v, named, h => by
    obtain ⟨inLeft, inRight⟩ := List.forall_mem_append.1 (List.forall_mem_cons.1 named).2
    cases folded : folded? folding op left right with
    | some value =>
      obtain ⟨-, rfl, rfl⟩ := (lowerExpr_binary_folded folded).1 h
      rw [owners_folded folded]
      exact ⟨[], .silent (Nat.le_refl _) _ rfl⟩
    | none =>
      cases logical : op.isLogical with
      | false =>
        obtain ⟨-, l, fl, r, fr, hl, hr, rfl, rfl⟩ := (lowerExpr_binary_strict folded logical).1 h
        obtain ⟨dl, first⟩ := stores_lowerExpr wellFormed left inLeft hl
        obtain ⟨dr, second⟩ := stores_lowerExpr wellFormed right inRight hr
        have whole := (first.append second).among (List.sublist_cons_self info.id _)
        refine ⟨dl ++ dr, ?_⟩
        rw [Typed.Expr.owners, logical, Typed.Expr.nodes, List.map_cons, List.map_append]
        exact (whole.snoc rfl).moreTemps 1
      | true =>
        obtain ⟨-, l, fl, r, fr, hl, hr, rfl, rfl⟩ := (lowerExpr_binary_logical folded logical).1 h
        obtain ⟨dl, first⟩ := stores_lowerExpr wellFormed left inLeft hl
        obtain ⟨dr, second⟩ := stores_lowerExpr wellFormed right inRight hr
        refine ⟨⟨info.id, op, f.label⟩ :: (dl ++ dr), ?_⟩
        rw [Typed.Expr.owners, logical, folded, Typed.Expr.nodes, List.map_cons, List.map_append]
        exact (first.shortCircuit info.id op fr.temp second).moreTemps 1
  | .unary info op operand, f, f', v, named, h => by
    obtain ⟨-, o, fo, ho, rfl, rfl⟩ := lowerExpr_unary.1 h
    obtain ⟨drawn, below⟩ := stores_lowerExpr wellFormed operand (List.forall_mem_cons.1 named).2 ho
    have whole := below.among (List.sublist_cons_self info.id _)
    exact ⟨drawn, (whole.snoc rfl).moreTemps 1⟩
  | .call info callee symbol arguments, f, f', v, named, h => by
    have inArguments := (List.forall_mem_cons.1 named).2
    by_cases unit : info.type = .unit
    · obtain ⟨-, vs, lowered, rfl⟩ := (lowerExpr_call_unit unit).1 h
      obtain ⟨drawn, below⟩ := stores_lowerExprs wellFormed arguments inArguments lowered
      have whole := below.among (List.sublist_cons_self info.id _)
      exact ⟨drawn, whole.snoc rfl⟩
    · obtain ⟨-, -, vs, fs, lowered, rfl, rfl⟩ := (lowerExpr_call_value unit).1 h
      obtain ⟨drawn, below⟩ := stores_lowerExprs wellFormed arguments inArguments lowered
      have whole := below.among (List.sublist_cons_self info.id _)
      exact ⟨drawn, (whole.snoc rfl).moreTemps 1⟩
  | .assignment info target symbol value, f, f', v, named, h => by
    obtain ⟨typed, o, place, ho, placed, rfl⟩ := lowerExpr_assignment.1 h
    obtain ⟨own, inValue⟩ := List.forall_mem_cons.1 named
    have known : ∀ ref ∈ symbol, tree.HasVariable target ref := fun ref mem =>
      own typed (target, ref) (by rw [mem]; rfl)
    obtain ⟨drawn, below⟩ := stores_lowerExpr wellFormed value inValue ho
    have own := stores_symbol wellFormed placed known (i := .store place o.operand) rfl f' []
    have whole := below.append own
    rw [List.append_nil, List.append_nil] at whole
    exact ⟨drawn, whole.among (List.sublist_cons_self info.id _)⟩

theorem stores_lowerExprs (wellFormed : tree.WellFormed) :
    ∀ (es : List Typed.Expr) {f f' : Fresh} {vs : List Value},
      (∀ n ∈ Typed.Expr.nodesAll es, n.Named tree) → lowerExprs folding es f = .ok (vs, f') →
      ∃ drawn, Stores tree f f' drawn ((Typed.Expr.nodesAll es).map (·.info.id))
        (Typed.Expr.ownersAll folding es) (vs.flatMap Value.code)
  | [], f, f', vs, _, h => by
    obtain ⟨rfl, rfl⟩ := lowerExprs_nil.1 h
    exact ⟨[], .silent (Nat.le_refl _) _ rfl⟩
  | e :: es, f, f', vs, named, h => by
    obtain ⟨inFirst, inRest⟩ := List.forall_mem_append.1 named
    obtain ⟨v, f₁, rest, hv, hrest, rfl⟩ := lowerExprs_cons.1 h
    obtain ⟨drawn, first⟩ := stores_lowerExpr wellFormed e inFirst hv
    obtain ⟨drawn', others⟩ := stores_lowerExprs wellFormed es inRest hrest
    refine ⟨drawn ++ drawn', ?_⟩
    rw [Typed.Expr.nodesAll, List.map_append, List.flatMap_cons]
    exact first.append others

end

end

/-! ## Statements -/

section

variable {tree : ScopeTree} {folding : Bool}

open Typed.Stmt (exprIds)

/-- The numbers of the one expression that a statement holds, and of those in the statements below
it. -/
theorem exprIds_of_single {s : Typed.Stmt} {e : Typed.Expr} (own : s.ownExprs = [e])
    (ss : List Typed.Stmt) : exprIds (s :: ss) = e.nodes.map (·.info.id) ++ exprIds ss := by
  rw [Typed.Stmt.exprIds_cons, own, List.flatMap_singleton]

mutual

/-- The code of a statement uses the places of its owners, with slots of its own. -/
theorem stores_lowerStmt (wellFormed : tree.WellFormed) :
    ∀ (s : Typed.Stmt) {f f' : Fresh} {code : List Instr}, (∀ x ∈ s.preorder, x.Named tree) →
      lowerStmt folding s f = .ok (code, f') →
      ∃ drawn, Stores tree f f' drawn (exprIds s.preorder) (s.owners folding) code
  | .letVar span name symbol type value, f, f', code, named, h => by
    obtain ⟨-, v, place, hv, placed, rfl⟩ := lowerStmt_letVar.1 h
    have own := named _ (List.mem_singleton_self _)
    have known : ∀ ref ∈ symbol, tree.HasVariable name ref :=
      own.declared (name, symbol) (List.mem_singleton_self _)
    obtain ⟨drawn, below⟩ := stores_lowerExpr wellFormed value
      (own.exprs value (List.mem_singleton_self _)) hv
    refine ⟨drawn ++ [], ?_⟩
    rw [Typed.Stmt.preorder, exprIds_of_single rfl]
    exact below.append (stores_symbol wellFormed placed known rfl f' _)
  | .ifThen span condition thenBlock, f, f', code, named, h => by
    obtain ⟨own, inThen⟩ := List.forall_mem_cons.1 named
    obtain ⟨-, c, fc, yes, hc, hy, rfl⟩ := lowerStmt_ifThen.1 h
    obtain ⟨dc, test⟩ := stores_lowerExpr wellFormed condition
      (own.exprs condition (List.mem_singleton_self _)) hc
    obtain ⟨dy, body⟩ := stores_lowerBlock wellFormed thenBlock inThen hy
    refine ⟨dc ++ dy, ?_⟩
    rw [Typed.Stmt.preorder, exprIds_of_single rfl]
    have whole := (test.append body).widen (Nat.le_succ f.label) (Nat.le_refl _)
    exact whole.recode (by rw [placesOf_choice, Ir.placesOf_append])
  | .ifThenElse span condition thenBlock elseBranch, f, f', code, named, h => by
    obtain ⟨own, inBranches⟩ := List.forall_mem_cons.1 named
    obtain ⟨inThen, inElse⟩ := List.forall_mem_append.1 inBranches
    obtain ⟨-, c, fc, yes, fy, no, hc, hy, hn, rfl⟩ := lowerStmt_ifThenElse.1 h
    obtain ⟨dc, test⟩ := stores_lowerExpr wellFormed condition
      (own.exprs condition (List.mem_singleton_self _)) hc
    obtain ⟨dy, body⟩ := stores_lowerBlock wellFormed thenBlock inThen hy
    obtain ⟨dn, other⟩ := stores_lowerStmt wellFormed elseBranch inElse hn
    refine ⟨dc ++ dy ++ dn, ?_⟩
    rw [Typed.Stmt.preorder, exprIds_of_single rfl, Typed.Stmt.exprIds_append, ← List.append_assoc]
    have whole := ((test.append body).append other).widen (Nat.le_succ f.label) (Nat.le_refl _)
    exact whole.recode (by simp only [placesOf_choiceElse, Ir.placesOf_append])
  | .whileLoop span condition body, f, f', code, named, h => by
    obtain ⟨own, inBody⟩ := List.forall_mem_cons.1 named
    obtain ⟨-, c, fc, round, hc, hb, rfl⟩ := lowerStmt_whileLoop.1 h
    obtain ⟨dc, test⟩ := stores_lowerExpr wellFormed condition
      (own.exprs condition (List.mem_singleton_self _)) hc
    obtain ⟨db, rounds⟩ := stores_lowerBlock wellFormed body inBody hb
    refine ⟨dc ++ db, ?_⟩
    rw [Typed.Stmt.preorder, exprIds_of_single rfl]
    have whole := (test.append rounds).widen (Nat.le_succ f.label) (Nat.le_refl _)
    exact whole.recode (by rw [placesOf_loop, Ir.placesOf_append])
  | .block b, f, f', code, named, h =>
    stores_lowerBlock wellFormed b (List.forall_mem_cons.1 named).2 (lowerStmt_block.1 h).2
  | .expression span value, f, f', code, named, h => by
    obtain ⟨-, v, hv, rfl⟩ := lowerStmt_expression.1 h
    have own := named _ (List.mem_singleton_self _)
    obtain ⟨drawn, below⟩ := stores_lowerExpr wellFormed value
      (own.exprs value (List.mem_singleton_self _)) hv
    refine ⟨drawn, ?_⟩
    rw [Typed.Stmt.preorder, exprIds_of_single rfl]
    exact below.among (List.sublist_append_left ..)
  | .function span header body, f, f', code, _, h => by
    obtain ⟨-, rfl, rfl⟩ := lowerStmt_function.1 h
    exact ⟨[], .silent (Nat.le_refl _) _ rfl⟩
  | .ret span none, f, f', code, _, h => by
    obtain ⟨-, rfl, rfl⟩ := lowerStmt_ret_none.1 h
    exact ⟨[], .silent (Nat.le_refl _) _ rfl⟩
  | .ret span (some value), f, f', code, named, h => by
    obtain ⟨-, v, hv, rfl⟩ := lowerStmt_ret_some.1 h
    have own := named _ (List.mem_singleton_self _)
    obtain ⟨drawn, below⟩ := stores_lowerExpr wellFormed value
      (own.exprs value (List.mem_singleton_self _)) hv
    refine ⟨drawn, ?_⟩
    rw [Typed.Stmt.preorder, exprIds_of_single rfl]
    exact (below.among (List.sublist_append_left ..)).snoc rfl
  | .error span, f, f', code, _, h => absurd h lowerStmt_error

theorem stores_lowerBlock (wellFormed : tree.WellFormed) :
    ∀ (b : Typed.Block) {f f' : Fresh} {code : List Instr},
      (∀ x ∈ Typed.Stmt.inBlock b, x.Named tree) → lowerBlock folding b f = .ok (code, f') →
      ∃ drawn, Stores tree f f' drawn (exprIds (Typed.Stmt.inBlock b))
        (Typed.Stmt.blockOwners folding b) code
  | .mk _ _ body, f, f', code, named, h => by
    rw [lowerBlock_eq] at h
    exact stores_lowerAll wellFormed body named h

theorem stores_lowerAll (wellFormed : tree.WellFormed) :
    ∀ (ss : List Typed.Stmt) {f f' : Fresh} {code : List Instr},
      (∀ x ∈ Typed.Stmt.preorderAll ss, x.Named tree) → lowerAll folding ss f = .ok (code, f') →
      ∃ drawn, Stores tree f f' drawn (exprIds (Typed.Stmt.preorderAll ss))
        (Typed.Stmt.ownersAll folding ss) code
  | [], f, f', code, _, h => by
    obtain ⟨rfl, rfl⟩ := lowerAll_nil.1 h
    exact ⟨[], .silent (Nat.le_refl _) _ rfl⟩
  | s :: ss, f, f', code, named, h => by
    obtain ⟨inFirst, inRest⟩ := List.forall_mem_append.1 named
    obtain ⟨first, f₁, rest, hfirst, hrest, rfl⟩ := lowerAll_cons.1 h
    obtain ⟨drawn, here⟩ := stores_lowerStmt wellFormed s inFirst hfirst
    obtain ⟨drawn', others⟩ := stores_lowerAll wellFormed ss inRest hrest
    refine ⟨drawn ++ drawn', ?_⟩
    rw [Typed.Stmt.preorderAll, Typed.Stmt.exprIds_append]
    exact here.append others

end

end

/-! ## Places apart -/

/-- A place says which scope and which name it belongs to. -/
theorem placeFor_inj {scope scope' : ScopeId} {name name' : String}
    (same : placeFor scope name = placeFor scope' name') : scope = scope' ∧ name = name' := by
  unfold placeFor at same
  by_cases outer : scope = globalScope <;> by_cases outer' : scope' = globalScope
  · rw [if_pos outer, if_pos outer'] at same
    exact ⟨outer.trans outer'.symm, Place.global.inj same⟩
  · rw [if_pos outer, if_neg outer'] at same
    cases same
  · rw [if_neg outer, if_pos outer'] at same
    cases same
  · rw [if_neg outer, if_neg outer'] at same
    exact (numbered_inj.1 (Place.frame.inj same)).symm

/-- A slot says which number was drawn for it. -/
theorem slot_inj {op op' : BinaryOp} {number number' : Nat}
    (same : slot op number = slot op' number') : number = number' :=
  (numbered_inj.1 (Place.frame.inj same)).2

/-- What has a name lives in no slot. -/
theorem placeFor_ne_slot {name : String} (isName : IsName name) (scope : ScopeId) (op : BinaryOp)
    (number : Nat) : placeFor scope name ≠ slot op number := by
  intro same
  unfold placeFor at same
  by_cases outer : scope = globalScope
  · rw [if_pos outer] at same
    cases same
  · rw [if_neg outer] at same
    exact isName.ne_of_dollar _ (numbered_inj.1 (Place.frame.inj same)).1

/-- What the places of a function are used for. They belong to the given owners, in this order.
Every variable and parameter of the program has a place that follows from its scope and name, and no
two of them have the same one. The operators of the function that may skip their right operands have
slots, and no two of them the same one; and no variable or parameter lives in a slot. -/
structure StoresApart (tree : ScopeTree) (owners : List Owner) (F : Ir.Function)
    (place : Owner → Place) : Prop where
  places : F.places = owners.map place
  known : ∀ ref, .symbol ref ∈ owners → ∃ name, tree.HasVariable name ref
  symbols : ∀ ref symbol, tree.symbol? ref = some symbol → place (.symbol ref) = symbol.place
  symbolsApart : ∀ ref ref' symbol symbol', tree.symbol? ref = some symbol →
    tree.symbol? ref' = some symbol' → place (.symbol ref) = place (.symbol ref') → ref = ref'
  slots : ∀ node, .operator node ∈ owners → ∃ op number, place (.operator node) = slot op number
  slotsApart : ∀ node node', .operator node ∈ owners → .operator node' ∈ owners →
    place (.operator node) = place (.operator node') → node = node'
  reserved : ∀ ref symbol, tree.symbol? ref = some symbol →
    ∀ op number, place (.symbol ref) ≠ slot op number

section

variable {tree : ScopeTree} {folding : Bool} {drawn : List Drawn}

/-- The places of the symbols of a tree, and the slots with the drawn numbers. What has no place is
put anywhere. -/
def placeIn (tree : ScopeTree) (drawn : List Drawn) : Owner → Place
  | .symbol ref => ((tree.symbol? ref).map Symbol.place).getD (.global "")
  | .operator node =>
    ((drawn.find? (·.node == node)).map fun d => slot d.op d.number).getD (.global "")

/-- If no operator has two numbers, these are the places that are looked for. -/
theorem assigns_placeIn (distinct : (drawn.map Drawn.node).Nodup) :
    Assigns tree drawn (placeIn tree drawn) := by
  refine ⟨fun ref symbol known => ?_, fun d mem => ?_⟩
  · rw [placeIn, known]
    rfl
  · have isSome : (drawn.find? (·.node == d.node)).isSome = true :=
      List.find?_isSome.2 ⟨d, mem, beq_self_eq_true _⟩
    obtain ⟨d', found⟩ := Option.isSome_iff_exists.1 isSome
    have named : d'.node = d.node := by simpa using List.find?_some found
    rw [placeIn, found,
      List.inj_on_of_nodup_map distinct (List.mem_of_find?_eq_some found) mem named]
    rfl

variable {f f' : Fresh} {nodes : List NodeId} {owners : List Owner} {code : List Instr}

/-- A function with the given code, if its expressions differ in their numbers and its parameters
are variables. -/
theorem Stores.apart (h : Stores tree f f' drawn nodes owners code)
    (wellFormed : tree.WellFormed)
    (areNames : ∀ ref symbol, tree.symbol? ref = some symbol → IsName symbol.name)
    (distinct : nodes.Nodup) {F : Ir.Function} {params : List Owner}
    (areVariables : ∀ o ∈ params, ∃ ref name, o = .symbol ref ∧ tree.HasVariable name ref)
    (atParams : ∀ place, Assigns tree drawn place → F.params = params.map place)
    (inCode : placesOf F.code = placesOf code) :
    StoresApart tree (params ++ owners) F (placeIn tree drawn) := by
  have assigns : Assigns tree drawn (placeIn tree drawn) :=
    assigns_placeIn (distinct.sublist h.nodes)
  have drawnFor : ∀ node, .operator node ∈ params ++ owners → ∃ d ∈ drawn, d.node = node := by
    intro node mem
    rcases List.mem_append.1 mem with isParam | mem
    · obtain ⟨_, _, same, -⟩ := areVariables _ isParam
      cases same
    · exact List.mem_map.1 (h.slots node mem)
  constructor
  · rw [Ir.Function.places, atParams _ assigns, inCode, h.places _ assigns, List.map_append]
  · intro ref mem
    rcases List.mem_append.1 mem with isParam | mem
    · obtain ⟨_, name, same, refers⟩ := areVariables _ isParam
      obtain rfl := Owner.symbol.inj same
      exact ⟨name, refers⟩
    · exact h.known ref mem
  · exact assigns.symbols
  · intro ref ref' symbol symbol' known known' same
    rw [assigns.symbols ref symbol known, assigns.symbols ref' symbol' known'] at same
    -- scope and name can be read off a place, and no scope has two symbols of one name
    obtain ⟨scopes, names⟩ := placeFor_inj same
    rw [wellFormed.scope_eq known, wellFormed.scope_eq known'] at scopes
    exact wellFormed.eq_of_name known known' scopes names
  · intro node mem
    obtain ⟨d, isDrawn, rfl⟩ := drawnFor node mem
    exact ⟨d.op, d.number, assigns.operators d isDrawn⟩
  · intro node node' mem mem' same
    obtain ⟨d, isDrawn, rfl⟩ := drawnFor node mem
    obtain ⟨d', isDrawn', rfl⟩ := drawnFor node' mem'
    rw [assigns.operators d isDrawn, assigns.operators d' isDrawn'] at same
    rw [List.inj_on_of_nodup_map h.numbers.nodup isDrawn isDrawn' (slot_inj same)]
  · intro ref symbol known op number
    rw [assigns.symbols ref symbol known]
    exact placeFor_ne_slot (areNames ref symbol known) symbol.scope op number

/-- The places of parameters are those of their symbols. -/
theorem map_params (wellFormed : tree.WellFormed) {span : Span} {params : List Typed.Param}
    {places : List Place}
    (placed : List.Forall₂ (fun p place => placeOf p.symbol p.name span = .ok place) params places)
    (known : ∀ p ∈ params, ∀ ref ∈ p.symbol, tree.HasVariable p.name ref)
    {place : Owner → Place} (assigns : Assigns tree drawn place) :
    places = (params.flatMap fun p => Owner.ofSymbol p.symbol).map place := by
  induction placed with
  | nil => rfl
  | cons first _ ih =>
    obtain ⟨here, others⟩ := List.forall_mem_cons.1 known
    rw [List.flatMap_cons, List.map_append, map_ofSymbol wellFormed first here assigns, ← ih others]
    rfl

end

/-! ## Programs -/

section

variable {t : Typed.Program} {folding : Bool} {F : Ir.Function}

/-- The statements in a function are among those of the program. -/
theorem inBlock_sublist {ss : List Typed.Stmt} {span : Span} {header : Typed.FunctionHeader}
    {body : Typed.Block} (mem : .function span header body ∈ ss) :
    (Typed.Stmt.inBlock body).Sublist (Typed.Stmt.preorderAll ss) := by
  have whole : (Typed.Stmt.function span header body).preorder.Sublist
      (Typed.Stmt.preorderAll ss) := by
    rw [Typed.Stmt.preorderAll_eq_flatMap, List.flatMap_def]
    exact List.sublist_flatten_of_mem (List.mem_map.2 ⟨_, mem, rfl⟩)
  exact (List.sublist_cons_self _ _).trans whole

/-- So are those of the entry function. -/
theorem preorderAll_filter (keep : Typed.Stmt → Bool) (ss : List Typed.Stmt) :
    (Typed.Stmt.preorderAll (ss.filter keep)).Sublist (Typed.Stmt.preorderAll ss) := by
  rw [Typed.Stmt.preorderAll_eq_flatMap, Typed.Stmt.preorderAll_eq_flatMap]
  exact List.filter_sublist.flatMap _

/-- Expressions in some of the statements have numbers of their own. -/
theorem nodup_exprIds (h : t.WellNamed) {ss : List Typed.Stmt} (sub : ss.Sublist t.statements) :
    (Typed.Stmt.exprIds ss).Nodup := h.distinct.sublist ((sub.flatMap _).map _)

theorem apart_lowerEntry (h : t.WellNamed) (lowered : lowerEntry folding t.body = .ok F) :
    ∃ place, StoresApart t.tree (Typed.Stmt.ownersAll folding (t.body.filter (!·.isFunction))) F
      place := by
  obtain ⟨code, fresh, body, rfl⟩ := function_ok_iff.1 lowered
  have inside := preorderAll_filter (!·.isFunction) t.body
  obtain ⟨drawn, stores⟩ := stores_lowerAll h.scopes _
    (fun x mem => h.named x (inside.subset mem)) body
  exact ⟨_, stores.apart h.scopes h.areNames (nodup_exprIds h inside) (List.forall_mem_nil _)
    (fun _ _ => rfl) (placesOf_closed code)⟩

theorem apart_lowerFunction (h : t.WellNamed) {f : Typed.Program.Function} (mem : f ∈ t.functions)
    (lowered : lowerFunction folding f = .ok F) :
    ∃ place, StoresApart t.tree (Typed.Program.functionOwners folding f) F place := by
  obtain ⟨span, header, body⟩ := f
  have top := Typed.Program.mem_functionsOf.1 mem
  have inside := inBlock_sublist top
  have itself : .function span header body ∈ t.statements := by
    rw [Typed.Program.statements, Typed.Stmt.preorderAll_eq_flatMap]
    exact List.mem_flatMap.2 ⟨_, top, List.mem_cons_self⟩
  have known : ∀ p ∈ header.params, ∀ ref ∈ p.symbol, t.tree.HasVariable p.name ref := by
    intro p isParam
    exact (h.named _ itself).declared (p.name, p.symbol) (List.mem_map.2 ⟨p, isParam, rfl⟩)
  obtain ⟨places, code, fresh, placed, inBody, rfl⟩ := lowerFunction_ok_iff.1 lowered
  obtain ⟨drawn, stores⟩ := stores_lowerBlock h.scopes body
    (fun x mem => h.named x (inside.subset mem)) inBody
  refine ⟨_, stores.apart h.scopes h.areNames (nodup_exprIds h inside) (fun o mem => ?_)
    (fun _ => map_params h.scopes (mapM_ok_iff.1 placed) known) (placesOf_closed code)⟩
  obtain ⟨p, isParam, owner⟩ := List.mem_flatMap.1 mem
  obtain ⟨ref, refers, rfl⟩ := Option.map_eq_some_iff.1 (Option.mem_toList.1 owner)
  exact ⟨ref, p.name, rfl, known p isParam ref refers⟩

/-- In the code of a program, function by function, no two owners share a place. -/
theorem apart_generate (h : t.WellNamed) {code : Ir.Program}
    (generated : generate folding t = .ok code) :
    List.Forall₂ (fun F owners => ∃ place, StoresApart t.tree owners F place) code.functions
      (t.owners folding) := by
  obtain ⟨entry, functions, isEntry, all, rfl⟩ := generate_ok_iff.1 generated
  have declared := (List.forall₂_and_left (p := (· ∈ t.functions)) t.functions functions).2
    ⟨fun _ mem => mem, all⟩
  refine .cons (apart_lowerEntry h isEntry) ?_
  rw [List.forall₂_map_right_iff]
  exact (declared.imp fun f F lowered => apart_lowerFunction h lowered.1 lowered.2).flip

end

end Lowering

end MiniLang
