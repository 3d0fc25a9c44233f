import Mathlib.Tactic
import MiniLang.Proofs.Token.Names
import MiniLang.Syntax.Stmt

/-!
# Trees of programs

What later stages rely on in the tree of a program that was read without errors: no two nodes share
a number (`Numbered`), nothing stands for text that could not be read, functions stand at the top
level only, what is declared has a name, and all statements have a place (`Stmt.WellFormed`). Where
declarations stand does not depend on errors (`Stmt.WellPlaced`).
-/

set_option autoImplicit false

namespace MiniLang

/-- The numbers are distinct, and lie from `lo` up to `hi`. -/
structure Numbered (lo hi : Nat) (ids : List Nat) : Prop where
  nodup : ids.Nodup
  within : ∀ id ∈ ids, lo ≤ id ∧ id < hi

namespace Numbered

variable {lo mid hi : Nat} {ids ids' : List Nat}

theorem nil (lo hi : Nat) : Numbered lo hi [] := ⟨List.nodup_nil, fun _ mem => by cases mem⟩

theorem widen {lo' hi' : Nat} (h : Numbered lo hi ids) (le : lo' ≤ lo) (ge : hi ≤ hi') :
    Numbered lo' hi' ids :=
  ⟨h.nodup, fun id mem => ⟨le.trans (h.within id mem).1, (h.within id mem).2.trans_le ge⟩⟩

theorem append (h : Numbered lo mid ids) (h' : Numbered mid hi ids') (le : lo ≤ mid)
    (ge : mid ≤ hi) : Numbered lo hi (ids ++ ids') := by
  refine ⟨List.nodup_append.2 ⟨h.nodup, h'.nodup, fun a before b after same => ?_⟩,
    fun id mem => ?_⟩
  · have below := (h.within a before).2
    have above := (h'.within b after).1
    omega
  · rcases List.mem_append.1 mem with mem | mem
    · exact (h.widen le_rfl ge).within id mem
    · exact (h'.widen le le_rfl).within id mem

/-- A node whose number is drawn after those below it. -/
theorem cons_last (h : Numbered lo mid ids) (le : lo ≤ mid) :
    Numbered lo (mid + 1) (mid :: ids) := by
  refine ⟨List.nodup_cons.2 ⟨fun mem => ?_, h.nodup⟩, fun id mem => ?_⟩
  · have := (h.within mid mem).2
    omega
  · rcases List.mem_cons.1 mem with rfl | mem
    · exact ⟨le, Nat.lt_succ_self _⟩
    · exact ⟨(h.within id mem).1, Nat.lt_succ_of_lt (h.within id mem).2⟩

/-- A node whose number is drawn before those below it. -/
theorem cons_first (h : Numbered (lo + 1) hi ids) (lt : lo < hi) : Numbered lo hi (lo :: ids) := by
  refine ⟨List.nodup_cons.2 ⟨fun mem => ?_, h.nodup⟩, fun id mem => ?_⟩
  · have := (h.within lo mem).1
    omega
  · rcases List.mem_cons.1 mem with rfl | mem
    · exact ⟨le_rfl, lt⟩
    · exact ⟨Nat.le_of_succ_le (h.within id mem).1, (h.within id mem).2⟩

end Numbered

namespace Stmt

/-- Whether a statement declares a variable or function. -/
def declares : Stmt → Bool
  | letVar _ _ _ _ _ _ => true
  | function _ _ _ => true
  | _ => false

mutual

/-- The numbers of the nodes of a statement: of its expressions, blocks and declarations. -/
def ids : Stmt → List NodeId
  | letVar id _ _ _ _ value => id :: value.preorder
  | ifThen _ condition thenBlock => condition.preorder ++ blockIds thenBlock
  | ifThenElse _ condition thenBlock elseBranch =>
    condition.preorder ++ blockIds thenBlock ++ ids elseBranch
  | whileLoop _ condition body => condition.preorder ++ blockIds body
  | block b => blockIds b
  | expression _ value => value.preorder
  | function _ header body => header.id :: (header.params.map Param.id ++ blockIds body)
  | ret _ none => []
  | ret _ (some value) => value.preorder
  | error _ => []

/-- The numbers of the nodes of a block. -/
def blockIds : Block → List NodeId
  | .mk id _ body => id :: idsAll body

/-- The numbers of the nodes of statements in order. -/
def idsAll : List Stmt → List NodeId
  | [] => []
  | s :: ss => ids s ++ idsAll ss

end

mutual

/-- A statement that can stand inside of a block and was read without errors. -/
def WellFormed : Stmt → Prop
  | letVar _ span name _ _ _ => span.Valid ∧ IsName name
  | ifThen span _ thenBlock => span.Valid ∧ BlockWellFormed thenBlock
  | ifThenElse span _ thenBlock elseBranch =>
    span.Valid ∧ BlockWellFormed thenBlock ∧ WellFormed elseBranch ∧ elseBranch.declares = false
  | whileLoop span _ body => span.Valid ∧ BlockWellFormed body
  | block b => BlockWellFormed b
  | expression span _ => span.Valid
  | function _ _ _ => False
  | ret span _ => span.Valid
  | error _ => False

/-- A block that was read without errors. -/
def BlockWellFormed : Block → Prop
  | .mk _ span body => span.Valid ∧ AllWellFormed body

/-- Statements inside of a block that were read without errors. -/
def AllWellFormed : List Stmt → Prop
  | [] => True
  | s :: ss => WellFormed s ∧ AllWellFormed ss

end

theorem BlockWellFormed.valid {b : Block} (h : BlockWellFormed b) : b.span.Valid := by
  cases b with
  | mk id span body => exact h.1

/-- A statement of the top level that was read without errors: there functions can stand too. -/
inductive TopWellFormed : Stmt → Prop
  | inner {s : Stmt} (h : s.WellFormed) : TopWellFormed s
  | function {span : Span} {header : FunctionHeader} {body : Block} (here : span.Valid)
      (isName : IsName header.name) (areNames : ∀ p ∈ header.params, IsName p.name)
      (hb : BlockWellFormed body) : TopWellFormed (.function span header body)

mutual

/-- No function is declared in a statement, and variables only in lists of statements. -/
def WellPlaced : Stmt → Prop
  | ifThen _ _ thenBlock => BlockWellPlaced thenBlock
  | ifThenElse _ _ thenBlock elseBranch =>
    BlockWellPlaced thenBlock ∧ WellPlaced elseBranch ∧ elseBranch.declares = false
  | whileLoop _ _ body => BlockWellPlaced body
  | block b => BlockWellPlaced b
  | function _ _ _ => False
  | letVar .. | expression .. | ret .. | error _ => True

/-- Declarations stand where they can in a block. -/
def BlockWellPlaced : Block → Prop
  | .mk _ _ body => AllWellPlaced body

/-- Declarations stand where they can in a list of statements inside of a block. -/
def AllWellPlaced : List Stmt → Prop
  | [] => True
  | s :: ss => WellPlaced s ∧ AllWellPlaced ss

end

/-- Declarations stand where they can in a statement of the top level. -/
inductive TopWellPlaced : Stmt → Prop
  | inner {s : Stmt} (h : s.WellPlaced) : TopWellPlaced s
  | function {span : Span} {header : FunctionHeader} {body : Block} (h : BlockWellPlaced body) :
      TopWellPlaced (.function span header body)

mutual

theorem WellFormed.wellPlaced : ∀ {s : Stmt}, s.WellFormed → s.WellPlaced
  | ifThen .., h => BlockWellFormed.wellPlaced h.2
  | ifThenElse .., h =>
    ⟨BlockWellFormed.wellPlaced h.2.1, WellFormed.wellPlaced h.2.2.1, h.2.2.2⟩
  | whileLoop .., h => BlockWellFormed.wellPlaced h.2
  | block b, h => BlockWellFormed.wellPlaced (b := b) h
  | letVar .., _ | expression .., _ | ret .., _ => trivial
  | function .., h | error _, h => h.elim

theorem BlockWellFormed.wellPlaced : ∀ {b : Block}, BlockWellFormed b → BlockWellPlaced b
  | .mk .., h => AllWellFormed.wellPlaced h.2

theorem AllWellFormed.wellPlaced : ∀ {ss : List Stmt}, AllWellFormed ss → AllWellPlaced ss
  | [], _ => trivial
  | _ :: _, h => ⟨WellFormed.wellPlaced h.1, AllWellFormed.wellPlaced h.2⟩

end

theorem TopWellFormed.wellPlaced {s : Stmt} (h : s.TopWellFormed) : s.TopWellPlaced := by
  cases h with
  | inner h => exact .inner h.wellPlaced
  | function _ _ _ hb => exact .function hb.wellPlaced

theorem WellPlaced.function?_eq_none {s : Stmt} (h : s.WellPlaced) : s.function? = none := by
  cases s with
  | function => exact h.elim
  | _ => rfl

end Stmt

end MiniLang
