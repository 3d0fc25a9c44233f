import MiniLang.Proofs.Syntax.Parser.Truncation.Statements
import MiniLang.Proofs.Syntax.Parser.Unterminated.Programs

/-!
# Programs that are cut off

A program that is cut off anywhere has the end of the input blamed on the bracket that the front of
the cut says is to blame (`parse_truncated`): the innermost bracket that is still open if it is a
brace, or if it is a parenthesis behind which something is complete. Where a parenthesis is open but
an operand or a parameter is missing, the complaint is about that, and what is blamed is the brace
around, if there is one.
-/

set_option autoImplicit false

namespace MiniLang

/-! ## Programs without error placeholders -/

mutual

theorem Stmt.countP_isError_bare : ∀ s : Stmt,
    s.bare.preorder.countP Stmt.isError = s.preorder.countP Stmt.isError
  | .letVar .. | .expression .. | .ret .. | .error _ => rfl
  | .ifThen _ _ b => by
    rw [bare, preorder, List.countP_cons_of_neg Bool.false_ne_true, preorder,
      List.countP_cons_of_neg Bool.false_ne_true, countP_isError_bareBlock b]
  | .ifThenElse _ _ b s => by
    rw [bare, preorder, List.countP_cons_of_neg Bool.false_ne_true, preorder,
      List.countP_cons_of_neg Bool.false_ne_true, List.countP_append, List.countP_append,
      countP_isError_bareBlock b, countP_isError_bare s]
  | .whileLoop _ _ b => by
    rw [bare, preorder, List.countP_cons_of_neg Bool.false_ne_true, preorder,
      List.countP_cons_of_neg Bool.false_ne_true, countP_isError_bareBlock b]
  | .block b => by
    rw [bare, preorder, List.countP_cons_of_neg Bool.false_ne_true, preorder,
      List.countP_cons_of_neg Bool.false_ne_true, countP_isError_bareBlock b]
  | .function _ _ b => by
    rw [bare, preorder, List.countP_cons_of_neg Bool.false_ne_true, preorder,
      List.countP_cons_of_neg Bool.false_ne_true, countP_isError_bareBlock b]

theorem Stmt.countP_isError_bareBlock : ∀ b : Block,
    (Stmt.inBlock (Stmt.bareBlock b)).countP Stmt.isError = (Stmt.inBlock b).countP Stmt.isError
  | .mk _ _ body => Stmt.countP_isError_bareAll body

theorem Stmt.countP_isError_bareAll : ∀ ss : List Stmt,
    (Stmt.preorderAll (Stmt.bareAll ss)).countP Stmt.isError =
      (Stmt.preorderAll ss).countP Stmt.isError
  | [] => rfl
  | s :: ss => by
    simp only [bareAll, preorderAll, List.countP_append, countP_isError_bare s,
      countP_isError_bareAll ss]

end

namespace Parse

variable {c : Cut} {p p' : Parser}

theorem topLevel_follow : ∀ (fuel fuel' : Nat) {p p' : Parser}, c.Holds ⟨[], .other⟩ p p' →
    p.pending.length < fuel → p.pending.length < fuel' →
    (p.atEnd = false → AllWhole (topLevel .standard fuel' p').1) →
    c.Settled none (topLevel .standard fuel p).2
  | 0, _, _, _, _, less, _, _ => absurd less (Nat.not_lt_zero _)
  | _ + 1, 0, _, _, _, _, less, _ => absurd less (Nat.not_lt_zero _)
  | fuel + 1, fuel' + 1, p, p', holds, less, less', whole => by
    cases atEnd : p.atEnd with
    | true =>
      rw [topLevel_of_atEnd _ atEnd]
      have front := holds.atEnd_iff atEnd
      exact ⟨atEnd, .inr ⟨holds.unreported, by rw [← front]; rfl, by rw [holds.session]⟩⟩
    | false =>
      have atEnd' : p'.atEnd = false := by rwa [Parser.atEnd, holds.current atEnd]
      have uncancelled : p.session.Uncancelled := ⟨holds.calm.cancelAfter, holds.calm.uncancelled⟩
      have uncancelled' : p'.session.Uncancelled := by
        obtain ⟨ds, -, rfl⟩ := holds.whole atEnd
        exact uncancelled
      have whole := whole atEnd
      rw [topLevel_succ fuel' atEnd' uncancelled'] at whole
      obtain ⟨first, others⟩ := allWhole_cons.1 whole
      have outcome := followsStmt p.pending.length none [] p p' .outside holds atEnd le_rfl first
      have fewer := length_pending_statementOrError_lt atEnd
      rw [topLevel_succ fuel atEnd uncancelled]
      generalize statementOrError .standard p = result at outcome fewer
      cases outcome with
      | @goesOn s q q' _ holds' next =>
        have fewer : q.pending.length < p.pending.length := fewer
        refine topLevel_follow fuel fuel' holds' (by omega) (by omega) fun more => ?_
        rw [(next more).2] at others
        exact others
      | @settled s q _ settled =>
        rw [topLevel_of_atEnd fuel settled.atEnd]
        exact settled

end Parse

/-- The tokens of a whole text, of which the first ones are left. -/
def Cut.between (cut rest ending : List Token) (s : Session)
    (ends : ∀ t ∈ ending.head?, t.kind = .endOfInput) : Cut where
  ending := deliveriesOf ending
  ends d mem := by
    rw [deliveriesOf, List.head?_map, Option.mem_map] at mem
    obtain ⟨t, mem, rfl⟩ := mem
    exact ends t mem
  more := deliveriesOf rest
  front := .after cut
  session := s

/-- Two parsers begin with a whole text and with its beginning. -/
theorem Cut.holds_start {cut ending : List Token} {s : Session} (rest : List Token)
    (ends : ∀ t ∈ ending.head?, t.kind = .endOfInput) (going : ∀ t ∈ cut, t.kind ≠ .endOfInput)
    (unasked : s.cancelAfter = none) (uncancelled : s.cancelled = false) :
    (between cut rest ending s ends).Holds ⟨[], .other⟩ (.start (deliveriesOf (cut ++ ending)) s)
      (.start (deliveriesOf (cut ++ rest)) s) := by
  obtain ⟨calm, same⟩ := (quiet_deliveriesOf (cut ++ ending)).start unasked uncancelled
  cases cut with
  | nil =>
    have atEnd : (Parser.start (deliveriesOf ending) s).atEnd = true := by
      cases ending with
      | nil => rfl
      | cons t ending => exact beq_iff_eq.2 (ends t rfl)
    refine ⟨?_, same, ?_, calm, fun more => absurd (atEnd.symm.trans more) (by decide)⟩
    · rw [List.nil_append, Parser.pending_of_atEnd atEnd]
      rfl
    · cases ending <;> rfl
  | cons t cut =>
    have pending : (Parser.start (deliveriesOf (t :: cut ++ ending)) s).pending = t :: cut := by
      have tokens := map_token_deliveriesOf (t :: cut ++ ending)
      refine (congrArg (List.takeWhile (·.kind ≠ .endOfInput)) tokens).trans ?_
      exact takeWhile_append_ending going ends
    refine ⟨by rw [pending]; rfl, same, rfl, calm, fun _ => ⟨deliveriesOf cut, ?_, ?_⟩⟩
    · exact List.map_append
    · simp only [Parser.start, deliveriesOf, List.cons_append, List.map_cons, List.map_append,
        between]

/-- Cut off anywhere, a program has the end of the input blamed on one bracket, or none: the one
that is to blame by the front of what is left. -/
theorem parse_truncated {cut rest ending : List Token} {ss : List Stmt} {s : Session}
    (derives : DerivesProgram .standard ((cut ++ rest).map Token.terminal) ss)
    (ends : ∀ t ∈ ending.head?, t.kind = .endOfInput) (unasked : s.cancelAfter = none)
    (uncancelled : s.cancelled = false) :
    ∃ ds, (parse (deliveriesOf (cut ++ ending)) s).session.diagnostics = s.diagnostics ++ ds ∧
      Diagnostics.unterminated ds = ((Front.after cut).blamed.map Token.span).toList := by
  have noEnd := derives.noEnd
  have holds := Cut.holds_start rest ends
    (fun t mem => noEnd t (List.mem_append_left rest mem)) unasked uncancelled
  have whole : Parse.AllWhole (parse (deliveriesOf (cut ++ rest)) s).program.body := by
    have all : terminals (cut ++ rest ++ []) = (cut ++ rest).map Token.terminal :=
      terminals_append_ending noEnd fun _ mem => by cases mem
    rw [List.append_nil] at all
    rw [← all] at derives
    obtain ⟨-, -, bare⟩ := parse_clean standard_namesTargets (fun _ => id) unasked uncancelled
      derives
    rw [Parse.AllWhole, ← Stmt.countP_isError_bareAll, bare, Stmt.countP_isError_bareAll]
    exact derives.noErrors fun _ => id
  have settled := Parse.topLevel_follow
    ((Parser.start (deliveriesOf (cut ++ ending)) s).remaining + 1)
    ((Parser.start (deliveriesOf (cut ++ rest)) s).remaining + 1) holds
    (Nat.lt_succ_of_le (Parser.length_ahead _ ▸ Parser.length_ahead_le _))
    (Nat.lt_succ_of_le holds.length_pending_le) fun _ => whole
  obtain ⟨ds, grown⟩ := parse_grows (cut ++ ending) s
  refine ⟨ds, grown, ?_⟩
  have split : (parse (deliveriesOf (cut ++ ending)) s).session.unterminated =
      s.unterminated ++ Diagnostics.unterminated ds := by
    rw [Session.unterminated, grown, Diagnostics.unterminated_append]
    rfl
  refine List.append_cancel_left (split.symm.trans ?_)
  obtain ⟨-, t, blamed, recorded⟩ | ⟨-, blamed, recorded⟩ := settled.blamed
  · have blamed : (Front.after cut).blamed = some t := blamed
    rw [blamed]
    exact recorded
  · have blamed : (Front.after cut).blamed = none := blamed
    rw [blamed]
    exact recorded.trans (List.append_nil _).symm

/-- The tokens of `f(1 + 2);`. -/
def callOfSum : List Token :=
  [⟨.identifier, "f", .origin⟩, ⟨.openParen, "(", .origin⟩, ⟨.integer, "1", .origin⟩,
    ⟨.plus, "+", .origin⟩, ⟨.integer, "2", .origin⟩, ⟨.closeParen, ")", .origin⟩,
    ⟨.semicolon, ";", .origin⟩]

/-- The statement that these tokens form. -/
def callOfSumTree : Stmt :=
  .expression .origin (.call 0 .origin "f" .origin
    [.binary 0 .origin .add (.literal 0 .origin (.int 1)) (.literal 0 .origin (.int 2))])

theorem derives_callOfSum :
    DerivesProgram .standard (callOfSum.map Token.terminal) [callOfSumTree] := by
  have one : Derives .standard .primary [.integer "1"] (.literal 0 .origin (.int 1)) :=
    .integer (by decide)
  have two : Derives .standard .primary [.integer "2"] (.literal 0 .origin (.int 2)) :=
    .integer (by decide)
  have sum : Derives .standard .additive ([.integer "1"] ++ .fixed .plus :: [.integer "2"])
      (.binary 0 .origin .add (.literal 0 .origin (.int 1)) (.literal 0 .origin (.int 2))) :=
    .binary (by decide) (one.loosen (by decide)) (two.loosen (by decide))
  have call : Derives .standard .primary
      (.identifier "f" :: Terminal.inParens ([.integer "1"] ++ .fixed .plus :: [.integer "2"]))
      (.call 0 .origin "f" .origin [.binary 0 .origin .add (.literal 0 .origin (.int 1))
        (.literal 0 .origin (.int 2))]) := .call (.some (.last (sum.loosen (by decide))))
  exact .cons (.inner (.expression (call.loosen (by decide)))) .nil

/-- Behind `f(1` the parenthesis is blamed. -/
theorem parse_truncated_callOfSum :
    DerivesProgram .standard ((callOfSum.take 3 ++ callOfSum.drop 3).map Token.terminal)
        [callOfSumTree] ∧
      ∃ ds, (parse (deliveriesOf (callOfSum.take 3 ++ [.endAt .origin])) .fresh).session.diagnostics
          = Session.fresh.diagnostics ++ ds ∧
        Diagnostics.unterminated ds =
          ((Front.after (callOfSum.take 3)).blamed.map Token.span).toList :=
  ⟨derives_callOfSum, parse_truncated derives_callOfSum (by decide) rfl rfl⟩

/-- Behind `f(1 +` the parenthesis is still open, but nothing is blamed. -/
theorem parse_blames_nothing_callOfSum :
    DerivesProgram .standard ((callOfSum.take 4 ++ callOfSum.drop 4).map Token.terminal)
        [callOfSumTree] ∧
      (Front.after (callOfSum.take 4)).opened.map Bracket.token =
        [⟨.openParen, "(", .origin⟩] ∧
      Diagnostics.unterminated
        (parse (deliveriesOf (callOfSum.take 4 ++ [.endAt .origin])) .fresh).session.diagnostics
          = [] :=
  ⟨derives_callOfSum, by decide, by decide +kernel⟩

end MiniLang
