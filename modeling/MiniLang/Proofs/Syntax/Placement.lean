import MiniLang.Proofs.Syntax.Parser.Soundness.Statements
import MiniLang.Proofs.Syntax.Trees

/-!
# Where declarations stand

Functions stand at the top level of a program and variables are declared in lists of statements
only, whatever else is wrong with the program (`parse_wellPlaced`): a function inside of a block
becomes an error placeholder, and what follows `else` is a block or another choice.
-/

set_option autoImplicit false

namespace MiniLang

variable {d : Dialect}

mutual

theorem DerivesStmt.wellPlaced {ts : List Terminal} {s : Stmt} (h : DerivesStmt d ts s) :
    s.WellPlaced := by
  match h with
  | .choice h => exact h.wellPlaced.1
  | .whileLoop _ body => exact body.wellPlaced
  | .block h => exact h.wellPlaced
  | .letVar _ | .leave | .giveBack _ | .expression _ | .error _ => exact trivial

theorem DerivesChoice.wellPlaced {ts : List Terminal} {s : Stmt} (h : DerivesChoice d ts s) :
    s.WellPlaced ∧ s.declares = false := by
  match h with
  | .ifThen _ yes => exact ⟨yes.wellPlaced, rfl⟩
  | .ifThenElse _ yes no => exact ⟨⟨yes.wellPlaced, no.wellPlaced, rfl⟩, rfl⟩
  | .elseIf _ yes no => exact ⟨⟨yes.wellPlaced, no.wellPlaced⟩, rfl⟩

theorem DerivesBlock.wellPlaced {ts : List Terminal} {b : Block} (h : DerivesBlock d ts b) :
    Stmt.BlockWellPlaced b := by
  match h with
  | .mk body => exact body.wellPlaced

theorem DerivesBody.wellPlaced {ts : List Terminal} {ss : List Stmt} (h : DerivesBody d ts ss) :
    Stmt.AllWellPlaced ss := by
  match h with
  | .nil => exact trivial
  | .cons first rest => exact ⟨first.wellPlaced, rest.wellPlaced⟩

end

theorem DerivesProgram.wellPlaced {ts : List Terminal} {ss : List Stmt}
    (h : DerivesProgram d ts ss) : ∀ s ∈ ss, s.TopWellPlaced := by
  induction h with
  | nil => exact fun _ mem => by cases mem
  | cons first _ ih =>
    refine List.forall_mem_cons.2 ⟨?_, ih⟩
    cases first with
    | inner h => exact .inner h.wellPlaced
    | function h => exact .function h.wellPlaced

/-- Declarations stand where they can in every program that is parsed. -/
theorem parse_wellPlaced (tokens : List Delivery) (s : Session) :
    ∀ st ∈ (parse tokens s).program.body, st.TopWellPlaced := by
  obtain ⟨_, _, derives⟩ := parse_derives_any tokens s
  exact derives.wellPlaced

end MiniLang
