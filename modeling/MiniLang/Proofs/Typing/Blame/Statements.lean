import MiniLang.Proofs.Typing.Agreement.Programs
import MiniLang.Proofs.Typing.Blame.Expressions

/-!
# What the checker finds in statements is found once

The checker goes through the statements of a program in order, and all that it finds in a statement
stands in that statement (`Checker.Covers`). The warning about a statement behind a `return` is
about the whole of it, and so is the complaint about a `return` without a value; everything else is
about something in the statement. So nothing is found twice (`typeCheck_found`).
-/

set_option autoImplicit false

namespace MiniLang.Typing

open Semantics (typeStmt_whileLoop_of_uncancelled typeTopLevel_cons_of_uncancelled)

/-! ## Steps of the checker -/

namespace Checker

variable {k k' k'' : Checker} {span : Span} {spans spans' : List Span}

/-- What is found between two states of the checker is found in parts of the program that stand at
the given spans. -/
def Covers (k : Checker) (spans : List Span) (k' : Checker) : Prop :=
  ∃ parts : List (List Diagnostic), k'.session = k.session.recordAll parts.flatten ∧
    List.Forall₂ Findings spans parts

theorem Covers.nil (same : k'.session = k.session) : k.Covers [] k' :=
  ⟨[], same.trans (Session.recordAll_nil _).symm, .nil⟩

theorem Covers.single {ds : List Diagnostic} (session : k'.session = k.session.recordAll ds)
    (findings : Findings span ds) : k.Covers [span] k' :=
  ⟨[ds], by simpa using session, .cons findings .nil⟩

theorem Covers.append (h : k.Covers spans k') (h' : k'.Covers spans' k'') :
    k.Covers (spans ++ spans') k'' := by
  obtain ⟨parts, session, each⟩ := h
  obtain ⟨parts', session', each'⟩ := h'
  refine ⟨parts ++ parts', ?_, List.rel_append each each'⟩
  rw [session', session, List.flatten_append]
  simp [Session.recordAll]

/-- What is found in a statement between two states of the checker. That it is unreachable is only
found out by looking at what is before it. -/
def CoversStmt (k : Checker) (span : Span) (k' : Checker) : Prop :=
  ∃ ds, k'.session = k.session.recordAll ds ∧ Findings span ds ∧
    ∀ d ∈ ds, d.span = span → d.problem ≠ .unreachableCode

theorem CoversStmt.covers (h : k.CoversStmt span k') : k.Covers [span] k' := by
  obtain ⟨ds, session, findings, -⟩ := h
  exact .single session findings

/-- A statement in whose parts everything is found. -/
theorem Covers.within (h : k.Covers spans k') (holds : span.Holds spans) :
    k.CoversStmt span k' := by
  obtain ⟨parts, session, each⟩ := h
  obtain ⟨findings, apart⟩ := Findings.below holds each
  exact ⟨_, session, findings, fun d mem same => absurd same (apart d mem)⟩

/-- A statement that may stand behind a `return`. -/
theorem CoversStmt.warned (afterReturn : Bool)
    (h : (if afterReturn then k.recordAll (reported [.unreachableCode] span) else k).CoversStmt
      span k') : k.Covers [span] k' := by
  cases afterReturn with
  | false => exact h.covers
  | true =>
    obtain ⟨ds, session, findings, reachable⟩ := h
    have whole : Findings span (ds ++ reported [.unreachableCode] span) :=
      findings.add (.single (.of_lint rfl)) fun d mem same => by simpa using reachable d mem same
    refine .single ?_ (whole.perm (List.perm_append_comm ..))
    rw [session]
    simp [Session.recordAll, Checker.recordAll]

/-- An expression, and what is said about it from outside. -/
theorem covers_outside {e : Expr} {problems : List Problem} (laidOut : e.LaidOut)
    (finds : Finds (Foreign (typeExpr k.context e).1.type) problems)
    (session : k'.session = ((k.expr e).2.recordAll (reported problems e.span)).session) :
    k.Covers [e.span] k' := by
  refine .single ?_ ((findings_typeExpr k.context laidOut).outside finds)
  rw [session]
  simp [Session.recordAll, Checker.recordAll, Checker.expr]

theorem covers_expr {e : Expr} (laidOut : e.LaidOut) : k.Covers [e.span] (k.expr e).2 :=
  .single rfl (findings_typeExpr k.context laidOut).toFindings

theorem covers_condition {e : Expr} (laidOut : e.LaidOut) :
    k.Covers [e.span] (k.condition e).2 :=
  covers_outside laidOut (foreign_mismatch Ty.plain_bool (typeExpr k.context e).1.type) (by
    rw [← span_typeExpr k.context]
    rfl)

end Checker

open Checker

/-! ## Rules -/

theorem foreign_declarationRule (name : String) (declared : Option WrittenType) (value : Ty) :
    Finds (Foreign value) (declarationRule name declared value).2 := by
  unfold declarationRule
  split
  · exact foreign_mismatch (Ty.plain_ofName _) value
  · split
    · exact .single ⟨.of_typing rfl, id⟩
    · exact .nil

/-- What is said about a function is said at its name. -/
theorem functionRule_eq_reported (header : FunctionHeader) (body : Typed.Block) :
    ∃ problems, functionRule header body = reported problems header.nameSpan ∧
      Finds Unresolving problems := by
  unfold functionRule
  split
  · exact ⟨_, rfl, .single (.of_typing rfl)⟩
  · exact ⟨[], rfl, .nil⟩

/-- What is said about a `return` with a value is said about the value. -/
theorem returnRule_eq_reported {expected : Option Ty} (plain : ∀ type ∈ expected, type.Plain)
    (span : Span) (e : Typed.Expr) :
    ∃ problems, returnRule expected span (some e) = reported problems e.span ∧
      Finds (Foreign e.type) problems := by
  cases expected with
  | none => exact ⟨[], rfl, .nil⟩
  | some type => exact ⟨_, rfl, foreign_mismatch (plain type rfl) e.type⟩

/-- A `return` without a value. -/
theorem covers_return {expected : Option Ty} {span : Span} {k : Checker}
    (nonempty : span.start < span.stop) :
    k.CoversStmt span (typeStmt expected (.ret span none) k).2 := by
  cases expected with
  | none =>
    exact ⟨[], (Session.recordAll_nil _).trans (Session.recordAll_nil _).symm, .nil nonempty,
      List.forall_mem_nil _⟩
  | some type =>
    have finds := own_mismatch type .unit
    refine ⟨_, rfl, .reported nonempty (finds.mono fun _ => unresolving_of_own), ?_⟩
    intro d mem _ unreachable
    obtain ⟨p, found, rfl⟩ := List.mem_map.1 mem
    have own := finds.all p found
    rw [show p = .unreachableCode from unreachable] at own
    exact own

/-- A function, whose body was looked at. -/
theorem covers_function {expected : Option Ty} {span : Span} {header : FunctionHeader}
    {body : Block} {k : Checker}
    (holds : span.Holds [header.nameSpan, body.span])
    (inBody : k.CoversStmt body.span
      (typeBlock (some (.ofReturn header.returnType)) body k).2) :
    k.CoversStmt span (typeStmt expected (.function span header body) k).2 := by
  obtain ⟨ds, session, findings, -⟩ := inBody
  obtain ⟨problems, form, finds⟩ := functionRule_eq_reported header
    (typeBlock (some (.ofReturn header.returnType)) body k).1
  obtain ⟨whole, apart⟩ := Findings.below holds
    (.cons (.reported holds.inOrder.2.1 finds) (.cons findings .nil))
  -- The name stands in front of the body, but is complained about after it.
  have turned : [reported problems header.nameSpan, ds].flatten.Perm
      (ds ++ reported problems header.nameSpan) := by
    simpa using List.perm_append_comm
  refine ⟨_, ?_, whole.perm turned,
    fun d mem same => absurd same (apart d (turned.symm.subset mem))⟩
  simp only [typeStmt, form, Checker.recordAll, session]
  simp [Session.recordAll]

/-! ## Statements -/

mutual

theorem covers_typeStmt {expected : Option Ty} (plain : ∀ type ∈ expected, type.Plain) :
    ∀ {s : Stmt} {k : Checker}, s.LaidOut → k.session.Uncancelled →
      k.CoversStmt s.span (typeStmt expected s k).2
  | .letVar id span name nameSpan declared value, k, ⟨holds, inside⟩, _ => by
    refine (covers_outside inside (foreign_declarationRule name declared _) ?_).within
      (holds.sublist (List.sublist_append_right ..))
    rw [← span_typeExpr k.context]
    exact session_infer ..
  | .ifThen _ test thenBlock, k, ⟨holds, inTest, inThen⟩, uncancelled => by
    have goesOn := (leads_condition k test).uncancelled uncancelled
    exact ((covers_condition inTest).append
      (covers_typeBlock plain inThen goesOn).covers).within holds
  | .ifThenElse _ test thenBlock elseBranch, k, ⟨holds, inTest, inThen, inElse⟩, uncancelled => by
    have goesOn := (leads_condition k test).uncancelled uncancelled
    have goesOn' := (leads_typeBlock expected thenBlock _).uncancelled goesOn
    exact ((covers_condition inTest).append ((covers_typeBlock plain inThen goesOn).covers.append
      (covers_typeStmt plain inElse goesOn').covers)).within holds
  | .whileLoop span test body, k, ⟨holds, inTest, inBody⟩, uncancelled => by
    have goesOn := (leads_condition k test).uncancelled uncancelled
    rw [typeStmt_whileLoop_of_uncancelled uncancelled]
    exact ((covers_condition inTest).append
      (covers_typeBlock plain inBody goesOn).covers).within holds
  | .block b, k, h, uncancelled => covers_typeBlock plain (b := b) h uncancelled
  | .expression _ value, k, ⟨holds, inside⟩, _ => (covers_expr inside).within holds
  | .function span header body, k, ⟨holds, _, inBody⟩, uncancelled => by
    have returned : ∀ type ∈ some (Ty.ofReturn header.returnType), type.Plain := by
      intro type same
      rw [← Option.mem_some.1 same]
      exact Ty.plain_ofReturn header.returnType
    exact covers_function (holds.sublist ((List.sublist_append_right ..).cons_cons _))
      (covers_typeBlock returned inBody uncancelled)
  | .ret span (some e), k, ⟨holds, inside⟩, _ => by
    obtain ⟨problems, form, finds⟩ :=
      returnRule_eq_reported plain span (typeExpr k.context e).1
    refine (covers_outside (inside e rfl) finds ?_).within holds
    rw [← span_typeExpr k.context, ← form]
    rfl
  | .ret _ none, k, ⟨holds, _⟩, _ => covers_return holds.nonempty
  | .error _, k, h, _ =>
    ⟨[], (Session.recordAll_nil _).symm, .nil (Span.Holds.nonempty h), List.forall_mem_nil _⟩

theorem covers_typeBlock {expected : Option Ty} (plain : ∀ type ∈ expected, type.Plain) :
    ∀ {b : Block} {k : Checker}, Stmt.BlockLaidOut b → k.session.Uncancelled →
      k.CoversStmt b.span (typeBlock expected b k).2
  | .mk _ _ _, _, ⟨holds, inside⟩, uncancelled =>
    (covers_typeAll plain false inside uncancelled).within holds

theorem covers_typeAll {expected : Option Ty} (plain : ∀ type ∈ expected, type.Plain) :
    ∀ (afterReturn : Bool) {ss : List Stmt} {k : Checker}, Stmt.AllLaidOut ss →
      k.session.Uncancelled → k.Covers (ss.map Stmt.span) (typeAll expected afterReturn ss k).2
  | _, [], _, _, _ => .nil rfl
  | afterReturn, s :: ss, k, ⟨first, others⟩, uncancelled => by
    have warned := (leads_warning afterReturn k (reported [.unreachableCode] s.span)).uncancelled
      uncancelled
    have goesOn := (leads_typeStmt expected s _).uncancelled warned
    exact ((covers_typeStmt plain first warned).warned afterReturn).append
      (covers_typeAll plain s.isReturn others goesOn)

end

/-! ## Programs -/

theorem covers_typeTopLevel : ∀ (afterReturn : Bool) {ss : List Stmt} {k : Checker},
    Stmt.AllLaidOut ss → k.session.Uncancelled →
      k.Covers (ss.map Stmt.span) (typeTopLevel afterReturn ss k).2
  | _, [], _, _, _ => .nil rfl
  | afterReturn, s :: ss, k, ⟨first, others⟩, uncancelled => by
    obtain ⟨k₁, rfl, result⟩ := typeTopLevel_cons_of_uncancelled uncancelled afterReturn s ss
    have warned := (leads_warning afterReturn k (reported [.unreachableCode] s.span)).uncancelled
      uncancelled
    have goesOn := (leads_typeStmt none s _).uncancelled warned
    rw [result]
    have outside : ∀ type ∈ (none : Option Ty), type.Plain := nofun
    exact ((covers_typeStmt outside first warned).warned afterReturn).append
      (covers_typeTopLevel s.isReturn others goesOn)

/-- What is found about the types of a program whose parts stand in order is found once. -/
theorem typeCheck_found {p : Program} (r : Resolution) {s : Session} (uncancelled : s.Uncancelled)
    {lo hi : Nat} (inOrder : Span.InOrder lo hi (p.body.map Stmt.span))
    (laidOut : Stmt.AllLaidOut p.body) :
    ∃ ds, (typeCheck p r s).2 = s.recordAll ds ∧ (ds.map Diagnostic.blame).Nodup ∧
      ∀ d ∈ ds, d.problem.category ≠ .resolution := by
  obtain ⟨parts, session, each⟩ := covers_typeTopLevel (k := .start r s) false laidOut uncancelled
  obtain ⟨spread, unresolving⟩ := Findings.flatten each inOrder
  exact ⟨parts.flatten, session, spread.nodup, unresolving⟩

end MiniLang.Typing
