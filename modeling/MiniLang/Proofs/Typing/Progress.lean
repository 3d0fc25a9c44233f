import MiniLang.Proofs.Session.Progress
import MiniLang.Typing.Statement

/-!
# How typing goes on

Typing takes no error back, cancels nothing, and looks at one resolution of names all the time
(`Checker.Leads`).
-/

set_option autoImplicit false

namespace MiniLang.Typing

/-- The checker has gone on. -/
structure Checker.Leads (k k' : Checker) : Prop where
  session : k.session.Leads k'.session
  resolution : k'.context.resolution = k.context.resolution
  uncancelled : k.session.Uncancelled → k'.session.Uncancelled

namespace Checker

namespace Leads

variable {k k' k'' : Checker}

theorem refl (k : Checker) : k.Leads k := ⟨.refl _, rfl, id⟩

theorem trans (h : k.Leads k') (h' : k'.Leads k'') : k.Leads k'' :=
  ⟨h.session.trans h'.session, h'.resolution.trans h.resolution, h'.uncancelled ∘ h.uncancelled⟩

end Leads

theorem leads_recordAll (k : Checker) (ds : List Diagnostic) : k.Leads (k.recordAll ds) :=
  ⟨.recordAll .., rfl, fun h => ⟨h.unasked, h.unseen⟩⟩

/-- A warning about a statement behind a `return`. -/
theorem leads_warning (afterReturn : Bool) (k : Checker) (ds : List Diagnostic) :
    k.Leads (if afterReturn then k.recordAll ds else k) := by
  cases afterReturn with
  | true => exact leads_recordAll k ds
  | false => exact .refl k

@[simp] theorem session_infer (k : Checker) (symbol : Option SymbolRef) (type : Ty) :
    (k.infer symbol type).session = k.session := by
  cases symbol <;> rfl

theorem leads_infer (k : Checker) (symbol : Option SymbolRef) (type : Ty) :
    k.Leads (k.infer symbol type) := by
  cases symbol with
  | none => exact .refl k
  | some ref => exact ⟨.refl _, rfl, id⟩

theorem leads_checkpoint (k : Checker) (span : Span) : k.Leads (k.checkpoint span).2 :=
  ⟨(Session.Leads.checkpoint k.session span).1, rfl, fun h => by
    rw [Checker.checkpoint, h.checkpoint span]
    exact h⟩

theorem leads_expr (k : Checker) (e : Expr) : k.Leads (k.expr e).2 := leads_recordAll k _

theorem leads_condition (k : Checker) (e : Expr) : k.Leads (k.condition e).2 :=
  (leads_expr k e).trans (leads_recordAll _ _)

end Checker

open Checker

mutual

theorem leads_typeStmt (expected : Option Ty) :
    ∀ (s : Stmt) (k : Checker), k.Leads (typeStmt expected s k).2
  | .letVar _ _ _ _ _ value, k =>
    ((leads_expr k value).trans (leads_recordAll _ _)).trans (leads_infer _ _ _)
  | .ifThen _ test thenBlock, k =>
    (leads_condition k test).trans (leads_typeBlock expected thenBlock _)
  | .ifThenElse _ test thenBlock elseBranch, k =>
    ((leads_condition k test).trans (leads_typeBlock expected thenBlock _)).trans
      (leads_typeStmt expected elseBranch _)
  | .whileLoop _ test body, k => by
    have asked := (leads_condition k test).trans (leads_checkpoint _ body.span)
    simp only [typeStmt]
    split
    · exact asked.trans (leads_typeBlock expected body _)
    · exact asked
  | .block b, k => leads_typeBlock expected b k
  | .expression _ e, k => leads_expr k e
  | .function _ header body, k =>
    (leads_typeBlock (some (.ofReturn header.returnType)) body k).trans (leads_recordAll _ _)
  | .ret _ (some e), k => (leads_expr k e).trans (leads_recordAll _ _)
  | .ret _ none, k => leads_recordAll k _
  | .error _, k => .refl k

theorem leads_typeBlock (expected : Option Ty) :
    ∀ (b : Block) (k : Checker), k.Leads (typeBlock expected b k).2
  | .mk _ _ body, k => leads_typeAll expected false body k

theorem leads_typeAll (expected : Option Ty) :
    ∀ (afterReturn : Bool) (ss : List Stmt) (k : Checker),
      k.Leads (typeAll expected afterReturn ss k).2
  | _, [], k => .refl k
  | afterReturn, s :: ss, k =>
    ((leads_warning afterReturn k _).trans (leads_typeStmt expected s _)).trans
      (leads_typeAll expected _ ss _)

end

theorem leads_typeTopLevel :
    ∀ (afterReturn : Bool) (ss : List Stmt) (k : Checker),
      k.Leads (typeTopLevel afterReturn ss k).2
  | _, [], k => .refl k
  | afterReturn, s :: ss, k => by
    have asked := leads_checkpoint k s.span
    simp only [typeTopLevel]
    split
    · exact ((asked.trans (leads_warning afterReturn _ _)).trans (leads_typeStmt none s _)).trans
        (leads_typeTopLevel _ ss _)
    · exact asked

end MiniLang.Typing
