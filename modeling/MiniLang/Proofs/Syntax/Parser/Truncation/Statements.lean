import MiniLang.Proofs.Syntax.Parser.Braces.Statements
import MiniLang.Proofs.Syntax.Parser.Truncation.Expressions

/-!
# Statements that are cut off

In the front behind a statement the same brackets are open as before it. Where a statement is cut
off, a block in it has blamed its own brace, unless something in the block was to blame; without a
block it is as if an expression were cut off.
-/

set_option autoImplicit false

namespace MiniLang

/-- No error placeholder stands in a statement. -/
def Stmt.Whole (s : Stmt) : Prop := s.preorder.countP Stmt.isError = 0

/-- No error placeholder stands in a block. -/
def Block.Whole (b : Block) : Prop := (Stmt.inBlock b).countP Stmt.isError = 0

theorem Stmt.whole_ifThen {span : Span} {e : Expr} {b : Block} :
    (Stmt.ifThen span e b).Whole ↔ b.Whole := by
  rw [Stmt.Whole, Stmt.preorder, List.countP_cons_of_neg Bool.false_ne_true, Block.Whole]

theorem Stmt.whole_ifThenElse {span : Span} {e : Expr} {b : Block} {s : Stmt} :
    (Stmt.ifThenElse span e b s).Whole ↔ b.Whole ∧ s.Whole := by
  rw [Stmt.Whole, Stmt.preorder, List.countP_cons_of_neg Bool.false_ne_true, List.countP_append,
    Nat.add_eq_zero_iff, Block.Whole, Stmt.Whole]

theorem Stmt.whole_whileLoop {span : Span} {e : Expr} {b : Block} :
    (Stmt.whileLoop span e b).Whole ↔ b.Whole := by
  rw [Stmt.Whole, Stmt.preorder, List.countP_cons_of_neg Bool.false_ne_true, Block.Whole]

theorem Stmt.whole_block {b : Block} : (Stmt.block b).Whole ↔ b.Whole := by
  rw [Stmt.Whole, Stmt.preorder, List.countP_cons_of_neg Bool.false_ne_true, Block.Whole]

theorem Stmt.whole_function {span : Span} {header : FunctionHeader} {b : Block} :
    (Stmt.function span header b).Whole ↔ b.Whole := by
  rw [Stmt.Whole, Stmt.preorder, List.countP_cons_of_neg Bool.false_ne_true, Block.Whole]

theorem Stmt.not_whole_error {span : Span} : ¬(Stmt.error span).Whole := Nat.one_ne_zero

namespace Parse

open Cut

variable {c : Cut} {brace : Option Token} {opened : List Bracket} {recent : Recent}
  {p p' q : Parser} {bound : Nat}

/-- The same brackets are open as before. -/
def Around (opened : List Bracket) (f : Front) (_ : Parser) : Prop := f.opened = opened

/-- The same brackets are open as before, and another statement may begin. -/
def Between (opened : List Bracket) (f : Front) (_ : Parser) : Prop := f = ⟨opened, .other⟩

/-! ## Forms without blocks -/

/-- Which type is read depends on the current token alone. -/
theorem typeName_of_current (same : p'.current = p.current) :
    (∃ type, p.current.kind = type.name.kind ∧ typeName p = .ok type p.advance ∧
        typeName p' = .ok type p'.advance) ∨
      typeName p = .error (.unexpected "type" p.current) p ∧
        typeName p' = .error (.unexpected "type" p'.current) p' := by
  unfold typeName
  rw [same]
  split
  next kind => exact .inl ⟨⟨.int, p.current.span⟩, kind, rfl, rfl⟩
  next kind => exact .inl ⟨⟨.bool, p.current.span⟩, kind, rfl, rfl⟩
  next => exact .inr ⟨rfl, rfl⟩

theorem follows_typeName {f : Front} (blamed : p.atEnd = true → f.blamed = brace) :
    c.Follows brace anyValue typeName typeName f p p' (Complete f.opened) := by
  intro holds succeeds
  cases atEnd : p.atEnd with
  | true =>
    rcases typeName_eq p with ⟨⟨name, span⟩, kind, -⟩ | fails
    · rw [Parser.atEnd, kind] at atEnd
      cases name <;> cases atEnd
    · rw [fails]
      exact holds.settled atEnd rfl (blamed atEnd)
  | false =>
    rcases typeName_of_current (holds.current atEnd) with
      ⟨⟨name, span⟩, kind, here, there⟩ | ⟨-, there⟩
    · have step : f.step p.current = ⟨f.opened, .complete⟩ := by
        refine f.step_complete ?_
        rw [kind]
        change name.kind ∈ _
        cases name <;> decide
      rw [here]
      exact ⟨_, _, holds.advance atEnd, step, (Parser.length_pending_advance_lt atEnd).le,
        fun _ => ⟨rfl, there⟩⟩
    · obtain ⟨type, q, result, -⟩ := succeeds atEnd
      rw [there] at result
      cases result

theorem follows_typeAfter (within : InBlock brace opened) {sign : TokenKind}
    (ne : sign ≠ .endOfInput) (plain : ∀ (f : Front) (t : Token), t.kind = sign →
      (f.step t).opened = f.opened) :
    c.Follows brace anyValue (typeAfter sign) (typeAfter sign) ⟨opened, recent⟩ p p'
      (Around opened) := by
  refine .kind (.ite (fun is => ?_) fun _ => .pure rfl)
  have more : p.atEnd = false := by simp [Parser.atEnd, is, ne]
  refine .advance more fun q' => ?_
  have same := plain ⟨opened, recent⟩ p.current is
  generalize (⟨opened, recent⟩ : Front).step p.current = f at same
  obtain ⟨_, recent'⟩ := f
  obtain rfl := same
  refine (follows_typeName fun _ => within.blamed recent').bind fun type f r r' complete _ => ?_
  obtain rfl := complete
  exact .pure rfl

theorem follows_letStatement (within : InBlock brace opened) (is : p.current.kind = .kwLet) :
    c.Follows brace Stmt.Whole (letStatement .standard) (letStatement .standard) ⟨opened, .other⟩ p
      p' (Between opened) := by
  have more : p.atEnd = false := by simp [Parser.atEnd, is]
  refine .advance more fun q' => ?_
  rw [Front.step_other _ is (by decide)]
  refine .expect (by decide) (fun _ => within.blamed _) fun name q' => ?_
  rw [Front.step_identifier name within.amongOperands (by decide)]
  refine (follows_typeAfter within (by decide) ?_).bind ?_
  · intro f t colon
    rw [Front.step_other _ colon (by decide)]
  rintro declared ⟨_, recent⟩ r r' rfl _
  refine .expect (by decide) (fun _ => within.blamed _) fun assigns r' => ?_
  rw [Front.step_other _ assigns (by decide)]
  refine (follows_expression _ within.amongOperands).bind fun value f r r' complete _ => ?_
  obtain rfl := complete
  refine .expect (by decide) (fun _ => within.blamed _) fun ends r' => ?_
  rw [Front.step_other _ ends (by decide)]
  exact .node fun _ _ _ => rfl

theorem follows_condition (within : InBlock brace opened) :
    c.Follows brace anyValue (condition .standard) (condition .standard) ⟨opened, .other⟩ p p'
      (Complete opened) := by
  refine .expect (by decide) (fun _ => within.blamed _) fun opens q' => ?_
  rw [Front.step_openParen opens (by decide)]
  refine (follows_expression _ (within.amongOperands.paren opens)).bind ?_
  intro e f r r' complete _
  obtain rfl := complete
  refine .expectClosing (by decide) (fun _ => Front.blamed_of_complete) fun closes s' => ?_
  rw [Front.step_closeParen closes]
  exact .pure rfl

theorem follows_returnStatement (within : InBlock brace opened) (is : p.current.kind = .kwReturn) :
    c.Follows brace Stmt.Whole (returnStatement .standard) (returnStatement .standard)
      ⟨opened, .other⟩ p p' (Between opened) := by
  have more : p.atEnd = false := by simp [Parser.atEnd, is]
  refine .advance more fun q' => ?_
  rw [Front.step_other _ is (by decide)]
  refine .kind ?_
  have stops : ∀ (start : Token) (value : Option Expr) (f : Front) (r r' : Parser),
      f.opened = opened →
      c.Follows brace Stmt.Whole
        (do
          let stop ← expect .semicolon "`;`"
          return Stmt.ret (start.span.join stop.span) value)
        (do
          let stop ← expect .semicolon "`;`"
          return Stmt.ret (start.span.join stop.span) value) f r r' (Between opened) := by
    rintro start value ⟨_, recent⟩ r r' rfl
    refine .expect (by decide) (fun _ => within.blamed _) fun ends r' => ?_
    rw [Front.step_other _ ends (by decide)]
    exact .pure rfl
  refine .ite (fun _ => ?_) fun _ => ?_
  · exact stops _ _ _ _ _ rfl
  · refine (Follows.map (follows_expression _ within.amongOperands) fun _ _ => trivial).bind ?_
    intro value f r r' complete _
    obtain rfl := complete
    exact stops _ _ _ _ _ rfl

theorem follows_expressionStatement (within : InBlock brace opened) :
    c.Follows brace Stmt.Whole (expressionStatement .standard) (expressionStatement .standard)
      ⟨opened, .other⟩ p p' (Between opened) := by
  refine (follows_expression _ within.amongOperands).bind fun e f r r' complete _ => ?_
  obtain rfl := complete
  refine .expect (by decide) (fun _ => within.blamed _) fun ends r' => ?_
  rw [Front.step_other _ ends (by decide)]
  exact .pure rfl

theorem follows_commaSeparatedParams {opening : Token}
    (around : Front.braceOf (⟨opening, true⟩ :: opened) = brace) :
    ∀ (fuel fuel' : Nat) (p p' : Parser), p.pending.length < fuel → p.pending.length < fuel' →
      c.Follows brace anyValue (commaSeparatedParams fuel) (commaSeparatedParams fuel')
        ⟨⟨opening, true⟩ :: opened, .other⟩ p p' (AfterList (⟨opening, true⟩ :: opened))
  | 0, _, _, _, less, _ => absurd less (Nat.not_lt_zero _)
  | _ + 1, 0, _, _, _, less => absurd less (Nat.not_lt_zero _)
  | fuel + 1, fuel' + 1, p, p', less, less' => by
    have blamed : (⟨⟨opening, true⟩ :: opened, .other⟩ : Front).blamed = brace :=
      (Front.blamed_of_incomplete (by simp)).trans around
    refine .expect (by decide) (fun _ => blamed) fun isName q' => ?_
    have named : (⟨⟨opening, true⟩ :: opened, .other⟩ : Front).step p.current =
        ⟨⟨opening, true⟩ :: opened, .other⟩ := by
      simp [Front.step, isName, Front.inParameters]
    rw [named]
    have more : p.atEnd = false := by simp [Parser.atEnd, isName]
    have shorter := Parser.length_pending_advance_lt more
    refine .expect (by decide) (fun _ => blamed) fun isColon q' => ?_
    rw [Front.step_other _ isColon (by decide)]
    have more : p.advance.atEnd = false := by simp [Parser.atEnd, isColon]
    have shorter' := Parser.length_pending_advance_lt more
    refine (follows_typeName fun _ => blamed).bind fun type f q q' complete le => ?_
    obtain rfl := complete
    refine .freshId fun id q' => .kind (.ite (fun comma => ?_) fun _ => .pure ⟨rfl, fun _ => rfl⟩)
    generalize again : ({ q with nextId := q.nextId + 1 } : Parser) = r at comma
    have kept : r.pending = q.pending := by
      rw [← again]
      rfl
    have more : r.atEnd = false := by simp [Parser.atEnd, comma]
    have shorter'' := Parser.length_pending_advance_lt more
    refine .advance more fun q'' => ?_
    rw [Front.step_other _ comma (by decide)]
    rw [kept] at shorter''
    exact (follows_commaSeparatedParams around fuel fuel' r.advance q'' (by omega)
      (by omega)).bind fun es g r r' after le' => .pure after

theorem follows_params {opening : Token}
    (around : Front.braceOf (⟨opening, true⟩ :: opened) = brace) :
    c.Follows brace anyValue params params ⟨⟨opening, true⟩ :: opened, .other⟩ p p'
      (AfterList (⟨opening, true⟩ :: opened)) := by
  refine .kind (.ite (fun closes => .pure ⟨rfl, fun atEnd => ?_⟩) fun _ => .bounded ?_)
  · simp [Parser.atEnd, closes] at atEnd
  · exact fun fuel fuel' enough enough' =>
      follows_commaSeparatedParams around fuel fuel' p p' enough enough'

/-! ## Blocks and the forms around them -/

/-- What becomes of a parser that never fails: it still follows the one of the whole text, or it is
settled at the end. -/
inductive Outcome {α : Type} (c : Cut) (brace : Option Token) (opened : List Bracket) (p : Parser) :
    α × Parser → α × Parser → Prop
  | goesOn {a : α} {q q' : Parser} {result : α × Parser} (holds : c.Holds ⟨opened, .other⟩ q q')
      (same : q.atEnd = false → p.atEnd = false ∧ result = (a, q')) :
      Outcome c brace opened p (a, q) result
  | settled {a : α} {q : Parser} {result : α × Parser} (settled : c.Settled brace q) :
      Outcome c brace opened p (a, q) result

/-- The statements of a text follow those of the whole, as long as so few tokens are pending. -/
def FollowsStmt (c : Cut) (bound : Nat) : Prop :=
  ∀ (brace : Option Token) (opened : List Bracket) (p p' : Parser), InBlock brace opened →
    c.Holds ⟨opened, .other⟩ p p' → p.atEnd = false → p.pending.length ≤ bound →
    (statementOrError .standard p').1.Whole →
    Outcome c brace opened p (statementOrError .standard p) (statementOrError .standard p')

/-- No error placeholder stands in any of some statements. -/
def AllWhole (ss : List Stmt) : Prop := (Stmt.preorderAll ss).countP Stmt.isError = 0

theorem allWhole_cons {s : Stmt} {ss : List Stmt} : AllWhole (s :: ss) ↔ s.Whole ∧ AllWhole ss := by
  rw [AllWhole, Stmt.preorderAll, List.countP_append, Nat.add_eq_zero_iff]
  rfl

/-- A statement takes tokens. -/
theorem length_pending_statementOrError_lt (more : p.atEnd = false) :
    (statementOrError .standard p).2.pending.length < p.pending.length := by
  obtain ⟨run, took⟩ := took_current_statementOrError (.inl rfl) more
  rw [took.pending, List.length_append, List.length_cons]
  omega

/-- Statements are read up to a closing brace or the end of the input. -/
theorem statements_stop : ∀ (fuel : Nat) {p : Parser}, p.pending.length < fuel →
    ((statements (statementOrError .standard) fuel p).2.current.kind = .closeCurly ∨
      (statements (statementOrError .standard) fuel p).2.atEnd = true) ∧
    (statements (statementOrError .standard) fuel p).2.pending.length ≤ p.pending.length
  | 0, _, less => absurd less (Nat.not_lt_zero _)
  | fuel + 1, p, less => by
    rw [statements]
    split
    next stops => exact ⟨stops, le_rfl⟩
    next going =>
      have more : p.atEnd = false := Bool.eq_false_of_not_eq_true fun atEnd => going (.inr atEnd)
      have fewer := length_pending_statementOrError_lt more
      obtain ⟨stops, le⟩ := statements_stop fuel (fewer.trans_le (Nat.le_of_lt_succ less))
      exact ⟨stops, le.trans fewer.le⟩

theorem statements_follow (h : FollowsStmt c bound) (within : InBlock brace opened) :
    ∀ (fuel fuel' : Nat) {p p' : Parser}, c.Holds ⟨opened, .other⟩ p p' →
      p.pending.length < fuel → p.pending.length < fuel' → p.pending.length ≤ bound →
      (p.atEnd = false → AllWhole (statements (statementOrError .standard) fuel' p').1) →
      Outcome c brace opened p (statements (statementOrError .standard) fuel p)
        (statements (statementOrError .standard) fuel' p')
  | 0, _, _, _, _, less, _, _, _ => absurd less (Nat.not_lt_zero _)
  | _ + 1, 0, _, _, _, _, less, _, _ => absurd less (Nat.not_lt_zero _)
  | fuel + 1, fuel' + 1, p, p', holds, less, less', few, unbroken => by
    cases atEnd : p.atEnd with
    | true =>
      rw [statements, if_pos (.inr atEnd)]
      exact .goesOn holds fun more => by
        rw [atEnd] at more
        cases more
    | false =>
      have same := holds.current atEnd
      have unbroken := unbroken atEnd
      by_cases stops : p.current.kind = .closeCurly ∨ p.atEnd = true
      · have stops' : p'.current.kind = .closeCurly ∨ p'.atEnd = true := by
          rwa [Parser.atEnd, same]
        rw [statements, statements, if_pos stops, if_pos stops']
        exact .goesOn holds fun more => ⟨more, rfl⟩
      · have stops' : ¬(p'.current.kind = .closeCurly ∨ p'.atEnd = true) := by
          rwa [Parser.atEnd, same]
        rw [statements, if_neg stops'] at unbroken
        obtain ⟨first, others⟩ := allWhole_cons.1 unbroken
        have outcome := h brace opened p p' within holds atEnd few first
        have fewer := length_pending_statementOrError_lt atEnd
        rw [statements, statements, if_neg stops, if_neg stops']
        generalize statementOrError .standard p = result at outcome fewer
        cases outcome with
        | @goesOn s q q' _ holds' next =>
          have fewer : q.pending.length < p.pending.length := fewer
          have rest := statements_follow h within fuel fuel' holds' (by omega) (by omega) (by omega)
            fun more => by
              rw [(next more).2] at others
              exact others
          simp only
          generalize statements (statementOrError .standard) fuel q = result at rest
          cases rest with
          | @goesOn ss r r' _ holds'' next' =>
            refine .goesOn holds'' fun more => ?_
            obtain ⟨more', rest⟩ := next' more
            rw [(next more').2]
            simp only [rest]
            exact ⟨atEnd, trivial⟩
          | settled settled => exact .settled settled
        | @settled s q _ settled =>
          -- at the end there are no more statements
          have none : statements (statementOrError .standard) fuel q = ([], q) := by
            cases fuel with
            | zero => rfl
            | succ fuel => rw [statements, if_pos (.inr settled.atEnd)]
          simp only [none]
          exact .settled settled

/-- A block that is closed has just its statements. -/
theorem allWhole_of_closeBlock {opening : Token} {id : NodeId} {body : List Stmt} {b : Block}
    (h : closeBlock opening id body p = .ok b q) (whole : b.Whole) : AllWhole body := by
  cases atEnd : p.atEnd with
  | true =>
    rw [closeBlock_of_atEnd opening id body atEnd] at h
    cases h
  | false =>
    rw [closeBlock_of_not_atEnd opening id body atEnd] at h
    cases h
    exact whole

/-- A block from behind its opening brace on. -/
theorem follows_blockBody (h : FollowsStmt c bound) {opening : Token}
    (opens : opening.kind = .openCurly) (few : p.pending.length ≤ bound) (id : NodeId) :
    c.Follows brace Block.Whole
      (blockBody (statementOrError .standard) >>= closeBlock opening id)
      (blockBody (statementOrError .standard) >>= closeBlock opening id)
      ⟨⟨opening, false⟩ :: opened, .other⟩ p p' (Between opened) := by
  intro holds succeeds
  have enough : p.pending.length < p.remaining + 1 :=
    Nat.lt_succ_of_le (p.length_ahead ▸ p.length_ahead_le)
  have outcome := statements_follow h (.inside opens) (p.remaining + 1) (p'.remaining + 1)
    (holds.mapBlockDepth (· + 1)) enough (Nat.lt_succ_of_le holds.length_pending_le) few
    fun more => by
      obtain ⟨b, r, result, whole⟩ := succeeds more
      obtain ⟨body, q, read, closed⟩ := ok_of_bind result
      cases read
      exact allWhole_of_closeBlock closed whole
  obtain ⟨stops, le⟩ := statements_stop (p.remaining + 1)
    (p := { p with blockDepth := p.blockDepth + 1 }) enough
  generalize read : statements (statementOrError .standard) (p.remaining + 1)
    { p with blockDepth := p.blockDepth + 1 } = result at outcome stops le
  cases outcome with
  | @goesOn body q q' _ holds' next =>
    have rest : c.Follows brace Block.Whole (closeBlock opening id body)
        (closeBlock opening id body) ⟨⟨opening, false⟩ :: opened, .other⟩
        { q with blockDepth := q.blockDepth - 1 } { q' with blockDepth := q'.blockDepth - 1 }
        (Between opened) := by
      refine .kind (.ite (fun ends => ?_) fun going => ?_)
      · exact .failUnterminated (beq_iff_eq.2 ends) ((InBlock.inside opens).blamed _)
      · have more : q.atEnd = false := beq_eq_false_iff_ne.2 going
        have closes : q.current.kind = .closeCurly := stops.resolve_right (by simp [more])
        exact .advance more fun r' => .pure (Front.step_closeCurly closes)
    exact Follows.of_step (bind_eq_of_ok (blockBody_of_statements read))
      (fun _ more => bind_eq_of_ok (blockBody_of_statements (next more).2))
      (fun _ => holds'.mapBlockDepth (· - 1)) le (fun more => (next more).1) rest holds succeeds
  | @settled body q _ settled =>
    have ended := settled.setBlockDepth (q.blockDepth - 1)
    rw [bind_eq_of_ok (blockBody_of_statements read), closeBlock_of_atEnd _ _ _ ended.atEnd]
    exact ended.unterminated

theorem follows_block (h : FollowsStmt c bound) (within : InBlock brace opened)
    (few : p.pending.length ≤ bound + 1) :
    c.Follows brace Block.Whole (block (statementOrError .standard))
      (block (statementOrError .standard)) ⟨opened, recent⟩ p p' (Between opened) := by
  refine .expect (by decide) (fun _ => within.blamed _) fun opens q' => ?_
  have more : p.atEnd = false := by simp [Parser.atEnd, opens]
  have fewer := Parser.length_pending_advance_lt more
  rw [Front.step_openCurly _ opens]
  refine .freshId fun id q' => follows_blockBody h opens ?_ id
  exact Nat.le_of_lt_succ (fewer.trans_le few)

/-- A choice behind its last branch. -/
def closeChoice (start : Token) (test : Expr) (yes : Block) (no : Stmt) : Parse Stmt := do
  return .ifThenElse (start.span.join (← previousSpan)) test yes no

theorem follows_closeChoice {start : Token} {test : Expr} {yes : Block} {no : Stmt} :
    c.Follows brace Stmt.Whole (closeChoice start test yes no) (closeChoice start test yes no)
      ⟨opened, .other⟩ p p' (Between opened) := .lastSpan fun _ => .pure rfl

theorem whole_of_closeChoice {start : Token} {test : Expr} {yes : Block} {no s : Stmt}
    (h : closeChoice start test yes no p = .ok s q) (whole : s.Whole) : yes.Whole ∧ no.Whole := by
  cases h
  exact Stmt.whole_ifThenElse.1 whole

theorem follows_ifStatement (h : FollowsStmt c bound) (within : InBlock brace opened) :
    ∀ (fuel fuel' : Nat) {p p' : Parser}, p.current.kind = .kwIf → p.pending.length < fuel →
      p.pending.length < fuel' → p.pending.length ≤ bound + 1 →
      c.Follows brace Stmt.Whole
        (ifStatement .standard (block (statementOrError .standard)) fuel)
        (ifStatement .standard (block (statementOrError .standard)) fuel') ⟨opened, .other⟩ p p'
        (Between opened)
  | 0, _, _, _, _, less, _, _ => absurd less (Nat.not_lt_zero _)
  | _ + 1, 0, _, _, _, _, less, _ => absurd less (Nat.not_lt_zero _)
  | fuel + 1, fuel' + 1, p, p', is, less, less', few => by
    have more : p.atEnd = false := by simp [Parser.atEnd, is]
    have fewer := Parser.length_pending_advance_lt more
    refine .advance more fun q' => ?_
    rw [Front.step_other _ is (by decide)]
    refine (follows_condition within).bind fun test f q q' complete le => ?_
    obtain rfl := complete
    refine (follows_block h within (by omega)).bindFine (fun yes f r r' between le' => ?_) ?_
    · obtain rfl := between
      refine .kind (.ite (fun other => ?_) fun _ => .lastSpan fun _ => .pure rfl)
      have more : r.atEnd = false := by simp [Parser.atEnd, other]
      have fewer' := Parser.length_pending_advance_lt more
      refine .advance more fun s' => .kind ?_
      rw [Front.step_other _ other (by decide)]
      have parts : ∀ (no : Stmt) (t : Parser) (s : Stmt) (u : Parser),
          closeChoice p.current test yes no t = .ok s u → s.Whole → no.Whole :=
        fun _ _ _ _ result whole => (whole_of_closeChoice result whole).2
      refine .ite (fun again => ?_) fun _ => ?_
      · refine (follows_ifStatement h within fuel fuel' again (by omega) (by omega)
          (by omega)).bindFine (fun no f t t' between _ => ?_) parts
        obtain rfl := between
        exact follows_closeChoice
      · refine (Follows.map (follows_block h within (by omega)) fun b =>
          Stmt.whole_block.1).bindFine (fun no f t t' between _ => ?_) parts
        obtain rfl := between
        exact follows_closeChoice
    · intro yes t s u result whole
      obtain ⟨kind, t, -, result⟩ := ok_of_bind result
      split at result
      · obtain ⟨_, t, -, result⟩ := ok_of_bind result
        obtain ⟨kind, t, -, result⟩ := ok_of_bind result
        split at result
        · obtain ⟨no, t, -, result⟩ := ok_of_bind result
          exact (whole_of_closeChoice result whole).1
        · obtain ⟨no, t, -, result⟩ := ok_of_bind result
          exact (whole_of_closeChoice result whole).1
      · cases result
        exact Stmt.whole_ifThen.1 whole

theorem follows_whileStatement (h : FollowsStmt c bound) (within : InBlock brace opened)
    (is : p.current.kind = .kwWhile) (few : p.pending.length ≤ bound + 1) :
    c.Follows brace Stmt.Whole (whileStatement .standard (block (statementOrError .standard)))
      (whileStatement .standard (block (statementOrError .standard))) ⟨opened, .other⟩ p p'
      (Between opened) := by
  have more : p.atEnd = false := by simp [Parser.atEnd, is]
  have fewer := Parser.length_pending_advance_lt more
  refine .advance more fun q' => ?_
  rw [Front.step_other _ is (by decide)]
  refine (follows_condition within).bind fun test f q q' complete le => ?_
  obtain rfl := complete
  refine (follows_block h within (by omega)).bindFine (fun body f r r' between _ => ?_) ?_
  · exact .pure between
  · intro body t s u result whole
    cases result
    exact Stmt.whole_whileLoop.1 whole

/-- A function behind its body. -/
def closeFunction (start name : Token) (parameters : List Param) (returnType : Option WrittenType)
    (depth : Nat) (body : Block) : Parse Stmt := do
  let span := start.span.join body.span
  if 0 < depth then
    complain (.nestedFunction name.text) name.span
    return .error span
  else
    return .function span ⟨← freshId, name.text, name.span, parameters, returnType⟩ body

theorem not_whole_of_closeFunction {start name : Token} {parameters : List Param}
    {returnType : Option WrittenType} {depth : Nat} {body : Block} {s : Stmt} (nested : 0 < depth)
    (h : closeFunction start name parameters returnType depth body p = .ok s q) : ¬s.Whole := by
  unfold closeFunction at h
  simp only [nested, if_true] at h
  cases h
  exact Stmt.not_whole_error

theorem follows_functionBody (h : FollowsStmt c bound) (within : InBlock brace opened)
    {start name : Token} {parameters : List Param} {returnType : Option WrittenType} (depth : Nat)
    (few : p.pending.length ≤ bound + 1) :
    c.Follows brace Stmt.Whole
      (block (statementOrError .standard) >>=
        closeFunction start name parameters returnType depth)
      (block (statementOrError .standard) >>=
        closeFunction start name parameters returnType depth)
      ⟨opened, recent⟩ p p' (Between opened) := by
  rcases Nat.eq_zero_or_pos depth with rfl | nested
  · refine (follows_block h within few).bindFine (fun body f r r' between _ => ?_) ?_
    · exact .node fun _ _ _ => between
    · intro body t s u result whole
      cases result
      exact Stmt.whole_function.1 whole
  · -- a function inside of a block gives a placeholder
    intro holds succeeds
    cases atEnd : p.atEnd with
    | false =>
      obtain ⟨s, r, result, whole⟩ := succeeds atEnd
      obtain ⟨body, q, -, closed⟩ := ok_of_bind result
      exact absurd whole (not_whole_of_closeFunction nested closed)
    | true =>
      have ends : p.current.kind = .endOfInput := beq_iff_eq.1 atEnd
      have stops : expect .openCurly "`\x7b`" p =
          .error (.unexpected "`\x7b`" p.current) p := if_neg (by rw [ends]; decide)
      have fails : block (statementOrError .standard) p =
          .error (.unexpected "`\x7b`" p.current) p := bind_eq_of_error stops
      rw [bind_eq_of_error fails]
      exact holds.settled atEnd rfl (within.blamed _)

theorem follows_functionStatement (h : FollowsStmt c bound) (within : InBlock brace opened)
    (is : p.current.kind = .kwFn) (few : p.pending.length ≤ bound + 1) :
    c.Follows brace Stmt.Whole (functionStatement (block (statementOrError .standard)))
      (functionStatement (block (statementOrError .standard))) ⟨opened, .other⟩ p p'
      (Between opened) := by
  have more : p.atEnd = false := by simp [Parser.atEnd, is]
  have fewer := Parser.length_pending_advance_lt more
  refine .advance more fun q' => ?_
  rw [Front.step_kwFn _ is]
  refine .expect (by decide) (fun _ => within.blamed _) fun isName q' => ?_
  have named : (⟨opened, .declaring⟩ : Front).step p.advance.current = ⟨opened, .declared⟩ := by
    simp [Front.step, isName]
  rw [named]
  have more : p.advance.atEnd = false := by simp [Parser.atEnd, isName]
  have fewer' := Parser.length_pending_advance_lt more
  refine .expect (by decide) (fun _ => within.blamed _) fun opens q' => ?_
  rw [Front.step_parameters opens]
  have around := (Front.braceOf_paren opens true).trans within.amongOperands.brace
  have more : p.advance.advance.atEnd = false := by simp [Parser.atEnd, opens]
  have fewer'' := Parser.length_pending_advance_lt more
  refine (follows_params around).bind ?_
  rintro parameters ⟨_, recent⟩ q q' ⟨rfl, complete⟩ le
  refine .expectClosing (by decide) (fun atEnd => ?_) fun closes q'' => ?_
  · obtain rfl := complete atEnd
    exact Front.blamed_of_complete
  rw [Front.step_closeParen closes]
  have more : q.atEnd = false := by simp [Parser.atEnd, closes]
  have shorter := Parser.length_pending_advance_lt more
  refine (follows_typeAfter within (by decide) ?_).bind ?_
  · intro f t arrow
    rw [Front.step_other _ arrow (by decide)]
  rintro returnType ⟨_, recent⟩ r r' rfl le'
  exact .openBlocks fun depth => follows_functionBody h within depth (by omega)

theorem follows_statement (h : FollowsStmt c bound) (within : InBlock brace opened)
    (few : p.pending.length ≤ bound + 1) :
    c.Follows brace Stmt.Whole (statement .standard) (statement .standard) ⟨opened, .other⟩ p p'
      (Between opened) := by
  refine .kind ?_
  cases begins : Grammar.standard.statementRule p.current.kind with
  | none => exact follows_expressionStatement within
  | some rule =>
    cases rule with
    | letVar =>
      refine follows_letStatement within ?_
      cases kind : p.current.kind <;> simp_all [Grammar.standard]
    | ifElse =>
      refine .bounded fun fuel fuel' enough enough' => ?_
      refine follows_ifStatement h within fuel fuel' ?_ enough enough' few
      cases kind : p.current.kind <;> simp_all [Grammar.standard]
    | whileLoop =>
      refine follows_whileStatement h within ?_ few
      cases kind : p.current.kind <;> simp_all [Grammar.standard]
    | block => exact .map (follows_block h within few) fun b => Stmt.whole_block.1
    | function =>
      refine follows_functionStatement h within ?_ few
      cases kind : p.current.kind <;> simp_all [Grammar.standard]
    | ret =>
      refine follows_returnStatement within ?_
      cases kind : p.current.kind <;> simp_all [Grammar.standard]

/-! ## Recovery -/

/-- At the end there is nothing to skip. -/
theorem recover_of_settled {start failed : Parser} {e : SyntaxError}
    (settled : c.Settled brace (failed.report e)) : c.Settled brace (recover start e failed).2 := by
  have ends : (failed.report e).current.kind = .endOfInput := beq_iff_eq.1 settled.atEnd
  have skipped : (failed.report e).synchronize = failed.report e := by
    rw [Parser.synchronize, Parser.synchronizeFrom, ends]
  have still : (failed.report e).advance = failed.report e := by
    simp [Parser.advance, settled.atEnd]
  simp only [recover, skipped, still, ite_self]
  exact settled

/-- A statement is read if it is no placeholder. -/
theorem ok_of_recovering {action : Parse Stmt} (whole : (recovering action p).1.Whole) :
    ∃ s q, action p = .ok s q ∧ s.Whole := by
  unfold recovering at whole
  cases result : action p with
  | ok s q =>
    rw [result] at whole
    exact ⟨s, q, rfl, whole⟩
  | error e q =>
    rw [result] at whole
    exact absurd whole Stmt.not_whole_error

/-- The statements of a text follow those of the whole. -/
theorem followsStmt : ∀ bound : Nat, FollowsStmt c bound
  | 0, brace, opened, p, p', within, holds, more, few, _ => by
    rw [Parser.pending_of_not_atEnd more, List.length_cons] at few
    exact absurd few (Nat.not_succ_le_zero _)
  | bound + 1, brace, opened, p, p', within, holds, more, few, whole => by
    rw [statementOrError_eq, statementOrError_eq] at *
    have outcome := follows_statement (followsStmt bound) within few holds fun _ =>
      ok_of_recovering whole
    unfold recovering
    cases result : statement .standard p with
    | ok s q =>
      rw [result] at outcome
      obtain ⟨f, q', holds', rfl, le, both⟩ := outcome
      refine .goesOn holds' fun more => ?_
      obtain ⟨more, there⟩ := both more
      rw [there]
      exact ⟨more, rfl⟩
    | error e q =>
      rw [result] at outcome
      exact .settled (recover_of_settled outcome)

end Parse

end MiniLang
