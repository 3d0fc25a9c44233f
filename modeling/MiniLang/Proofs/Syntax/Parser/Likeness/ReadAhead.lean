import MiniLang.Proofs.Syntax.Parser.Likeness.Programs
import MiniLang.Proofs.Syntax.Parser.Soundness.Statements
import MiniLang.Proofs.Token.Lexed
import MiniLang.Syntax.Parser.Source

/-!
# Parsing what was read before

A parser may take the tokens of a text as it needs them, or all of them may be read before. The two
differ in when the problems of tokens are recorded, and in nothing else: `Parser.ReadsAhead` is the
relation between them, which every step keeps. So they give the same tree and record the same, in
another order (`parseAfterReading_eq`). As nobody cancels them, both get to the end of the text
(`parseSource_derives`).
-/

set_option autoImplicit false

namespace MiniLang

namespace Parser

variable {before : List Diagnostic} {p : Parser} {s : Session}

/-- The parser of the same tokens for which these were read before, with a session of its own. -/
def readAhead (p : Parser) (s : Session) : Parser :=
  { p with upcoming := deliveriesOf (p.upcoming.map Delivery.token), session := s }

/-- A parser stands in a text that nobody cancels, and `s` is the session of the parser for which
the rest of the text was read before: what comes with the tokens still to be taken is recorded there
already. Since `before`, only errors of syntax were recorded in it. -/
structure ReadsAhead (before : List Diagnostic) (p : Parser) (s : Session) : Prop where
  upcoming : ∀ d ∈ p.upcoming, d.Lexed
  current : p.current.HasValue
  ends : (p.current :: p.upcoming.map Delivery.token).IsChain fun t _ => t.kind ≠ .endOfInput
  uncancelled : p.session.Uncancelled ∧ s.Uncancelled
  recorded : (p.session.diagnostics ++ p.upcoming.flatMap Delivery.diagnostics).Perm s.diagnostics
  found : ∃ ds, s.diagnostics = before ++ ds ∧
    ∀ d ∈ ds, d.problem.category = .syntactic ∧ d.isError = true

theorem atEnd_readAhead (p : Parser) (s : Session) : (p.readAhead s).atEnd = p.atEnd := rfl

theorem remaining_readAhead (p : Parser) (s : Session) :
    (p.readAhead s).remaining = p.remaining := by
  unfold remaining
  rw [atEnd_readAhead]
  simp [readAhead, deliveriesOf]

/-- Taking a token that was read before records nothing. -/
theorem notify_of_read (t : Token) (s : Session) : Delivery.notify { token := t } s = s :=
  Session.recordAll_nil s

theorem start_readAhead (tokens : List Delivery) (s s' : Session) :
    start (deliveriesOf (tokens.map Delivery.token)) s' = (start tokens s).readAhead s' := by
  cases tokens with
  | nil => rfl
  | cons d rest => exact congrArg (Parser.mk _ _ _ _ · _ _ _) (notify_of_read d.token s')

theorem advance_readAhead (p : Parser) (s : Session) :
    (p.readAhead s).advance = p.advance.readAhead s := by
  unfold advance
  rw [atEnd_readAhead]
  split
  · rfl
  · cases more : p.upcoming with
    | nil => simp [readAhead, deliveriesOf, more]
    | cons d rest => simp [readAhead, deliveriesOf, more, notify_of_read]

namespace ReadsAhead

/-- Taking a token records what came with it, which was recorded before for the other parser. -/
theorem advance (h : ReadsAhead before p s) : ReadsAhead before p.advance s := by
  unfold Parser.advance
  split
  · exact h
  · split
    next nothing =>
      have recorded := h.recorded
      rw [nothing] at recorded
      exact ⟨(fun d mem => by rw [nothing] at mem; cases mem), Token.hasValue_endAt _,
        by rw [nothing]; exact .singleton _, h.uncancelled, by rw [nothing]; exact recorded,
        h.found⟩
    next d rest more =>
      have first := h.upcoming d (more ▸ List.mem_cons_self)
      have recorded := h.recorded
      have ends := h.ends
      rw [more] at recorded ends
      rw [List.flatMap_cons, ← List.append_assoc] at recorded
      rw [first.notify]
      exact ⟨fun d mem => h.upcoming d (more ▸ List.mem_cons_of_mem _ mem), first.hasValue,
        ends.tail, ⟨h.uncancelled.1.recordAll _, h.uncancelled.2⟩, recorded, h.found⟩

/-- Both parsers report what they find. -/
theorem report (h : ReadsAhead before p s) {problem : Problem}
    (syntactic : problem.category = .syntactic) (span : Span) :
    ReadsAhead before { p with session := p.session.report problem span }
      (s.report problem span) := by
  obtain ⟨ds, same, errors⟩ := h.found
  refine ⟨h.upcoming, h.current, h.ends, ⟨h.uncancelled.1.report _ _, h.uncancelled.2.report _ _⟩,
    ?_, ds ++ [.of problem span], ?_, ?_⟩
  · refine List.Perm.trans ?_ (h.recorded.append_right [.of problem span])
    change ((p.session.diagnostics ++ [_]) ++ _).Perm _
    rw [List.append_assoc, List.append_assoc]
    exact List.perm_append_comm.append_left _
  · change s.diagnostics ++ [_] = _
    rw [same, List.append_assoc]
  · intro d mem
    rcases List.mem_append.1 mem with mem | mem
    · exact errors d mem
    · rw [List.mem_singleton.1 mem]
      refine ⟨syntactic, ?_⟩
      rw [Diagnostic.isError_of, Problem.isWarning, syntactic]
      rfl

/-- At the end of the text everything was recorded. -/
theorem recorded_atEnd (h : ReadsAhead before p s) (atEnd : p.atEnd = true) :
    p.session.diagnostics.Perm s.diagnostics := by
  have recorded := h.recorded
  cases more : p.upcoming with
  | nil => simpa [more] using recorded
  | cons d rest =>
    have ends := h.ends
    rw [more, List.map_cons] at ends
    exact absurd (beq_iff_eq.1 atEnd) ends.rel

theorem start {tokens : List Delivery} (lexed : ∀ d ∈ tokens, d.Lexed)
    (ends : tokens.IsChain fun d _ => d.token.kind ≠ .endOfInput) (uncancelled : s.Uncancelled) :
    ReadsAhead (s.diagnostics ++ tokens.flatMap Delivery.diagnostics) (start tokens s)
      (s.recordAll (tokens.flatMap Delivery.diagnostics)) := by
  have after := uncancelled.recordAll (tokens.flatMap Delivery.diagnostics)
  cases tokens with
  | nil =>
    exact ⟨(fun _ mem => by cases mem), Token.hasValue_endAt _, .singleton _, ⟨uncancelled, after⟩,
      .refl _, [], (List.append_nil _).symm, fun _ mem => by cases mem⟩
  | cons d rest =>
    have first := lexed d List.mem_cons_self
    have chain : ((d :: rest).map Delivery.token).IsChain fun t _ => t.kind ≠ .endOfInput :=
      (List.isChain_map _).2 ends
    have same : (d.notify s).diagnostics ++ rest.flatMap Delivery.diagnostics =
        (s.recordAll ((d :: rest).flatMap Delivery.diagnostics)).diagnostics := by
      rw [first.notify, Session.diagnostics_recordAll, Session.diagnostics_recordAll,
        List.flatMap_cons, List.append_assoc]
    refine ⟨fun d mem => lexed d (List.mem_cons_of_mem _ mem), first.hasValue, chain,
      ⟨?_, after⟩, .of_eq same, [], (List.append_nil _).symm, fun _ mem => by cases mem⟩
    change (d.notify s).Uncancelled
    rw [first.notify]
    exact uncancelled.recordAll _

end ReadsAhead

end Parser

namespace Comparison

open MiniLang.Parser

/-- How a parser is compared with that for which all tokens were read before: nothing can be told
apart, and only errors of syntax are found. -/
def readAhead (before : List Diagnostic) : Comparison where
  toView := .exact
  token t t' := t' = t ∧ t.HasValue
  problem a a' := a' = a ∧ a.category = .syntactic
  state p q := ∃ s, q = p.readAhead s ∧ ReadsAhead before p s

theorem lawful_readAhead (before : List Diagnostic) : (readAhead before).Lawful where
  join := by
    rintro a _ b _ rfl rfl
    rfl
  kind h := congrArg Token.kind h.1.symm
  tokenSpan h := congrArg Token.span h.1.symm
  name h := congrArg Token.text h.1.symm
  integer h _ := by rw [h.1]
  overflow h is none := by
    have value := h.2 is
    rw [none] at value
    cases value
  unexpected h expected := by
    rw [h.1]
    exact ⟨rfl, rfl⟩
  unterminated construct := ⟨rfl, rfl⟩
  target := ⟨rfl, rfl⟩
  nested h := ⟨congrArg Problem.nestedFunction h.symm, rfl⟩
  current := by
    rintro p _ ⟨s, rfl, h⟩
    exact ⟨rfl, h.current⟩
  previousSpan := by
    rintro p _ ⟨s, rfl, h⟩
    rfl
  consumed := by
    rintro p _ ⟨s, rfl, h⟩
    rfl
  nextId := by
    rintro p _ ⟨s, rfl, h⟩
    rfl
  blockDepth := by
    rintro p _ ⟨s, rfl, h⟩
    rfl
  reportedEnd := by
    rintro p _ ⟨s, rfl, h⟩
    rfl
  remaining := by
    rintro p _ ⟨s, rfl, h⟩
    exact (remaining_readAhead p s).symm
  advance := by
    rintro p _ ⟨s, rfl, h⟩
    exact ⟨s, advance_readAhead p s, h.advance⟩
  setNextId := by
    rintro p _ ⟨s, rfl, h⟩ n
    exact ⟨s, rfl, ⟨h.upcoming, h.current, h.ends, h.uncancelled, h.recorded, h.found⟩⟩
  setBlockDepth := by
    rintro p _ ⟨s, rfl, h⟩ n
    exact ⟨s, rfl, ⟨h.upcoming, h.current, h.ends, h.uncancelled, h.recorded, h.found⟩⟩
  setReportedEnd := by
    rintro p _ ⟨s, rfl, h⟩
    exact ⟨s, rfl, ⟨h.upcoming, h.current, h.ends, h.uncancelled, h.recorded, h.found⟩⟩
  report := by
    rintro p _ ⟨s, rfl, h⟩ a _ ⟨rfl, syntactic⟩ span _ rfl
    exact ⟨s.report _ span, rfl, h.report syntactic span⟩

/-! ## Programs -/

variable {c : Comparison}

/-- Checkpoints pass as long as nobody cancels either parser. -/
theorem passesTogether_of_uncancelled
    (h : ∀ p q, c.state p q → p.session.Uncancelled ∧ q.session.Uncancelled) :
    c.PassesTogether := by
  intro p q together
  obtain ⟨here, there⟩ := h p q together
  rw [here.checkpoint, there.checkpoint]
  exact ⟨rfl, together⟩

/-- A parser that nobody cancels gets to the end of the input: every statement takes tokens. -/
theorem Lawful.atEnd_topLevel (law : c.Lawful) (h : ∀ p q, c.state p q → p.session.Uncancelled) :
    ∀ (fuel : Nat) {p q : Parser}, c.state p q → p.ahead.length < fuel →
      (Parse.topLevel .standard fuel p).2.atEnd = true
  | 0, _, _, _, less => absurd less (Nat.not_lt_zero _)
  | fuel + 1, p, q, together, less => by
    rw [Parse.topLevel, (h p q together).checkpoint]
    simp only [↓reduceIte]
    split
    next atEnd => exact atEnd
    next more =>
      have nonempty : p.ahead ≠ [] := fun nothing => more (atEnd_of_ahead_eq_nil nothing)
      obtain ⟨-, fewer, -⟩ := Parse.soundStmt_statementOrErrorFrom ⟨Enclosed, fun _ => True⟩
        (p.remaining + 1) p (fun _ _ enclosed _ => enclosed) nonempty
        (Nat.lt_succ_of_le (length_ahead_le p))
      obtain ⟨moved, -⟩ := law.alikeStmts_statementOrError .standard p q together
      exact law.atEnd_topLevel h fuel moved (fewer.trans_le (Nat.le_of_lt_succ less))

end Comparison

/-! ## Source texts -/

open MiniLang.Parser Comparison

variable {s : Session}

/-- Nobody cancels a parser or the one that is compared with it. -/
theorem uncancelled_readAhead {before : List Diagnostic} {p q : Parser}
    (together : (readAhead before).state p q) : p.session.Uncancelled ∧ q.session.Uncancelled := by
  obtain ⟨s, rfl, h⟩ := together
  exact h.uncancelled

/-- Both parsers read the same statements in the same number of rounds. -/
theorem topLevel_readAhead_rounds {before : List Diagnostic} {p : Parser}
    (h : ReadsAhead before p s) (rounds : Nat) :
    ∃ t, Parse.topLevel .standard rounds (p.readAhead s) =
        ((Parse.topLevel .standard rounds p).1, (Parse.topLevel .standard rounds p).2.readAhead t) ∧
      ReadsAhead before (Parse.topLevel .standard rounds p).2 t := by
  have together : (readAhead before).state p (p.readAhead s) := ⟨s, rfl, h⟩
  obtain ⟨⟨t, stop, h'⟩, same⟩ := (lawful_readAhead before).topLevel_alike
    (passesTogether_of_uncancelled fun _ _ => uncancelled_readAhead) .standard rounds together
  have body : (Parse.topLevel .standard rounds p).1 =
      (Parse.topLevel .standard rounds (p.readAhead s)).1 := by
    rw [← Stmt.viewAll_exact (Parse.topLevel .standard rounds p).1, ← Stmt.viewAll_exact
      (Parse.topLevel .standard rounds (p.readAhead s)).1]
    exact same
  exact ⟨t, Prod.ext body.symm stop, h'⟩

/-- Both parsers get to the end of the text, with the same statements. -/
theorem topLevel_readAhead {before : List Diagnostic} {p : Parser} (h : ReadsAhead before p s)
    (fuel : Nat) (enough : p.ahead.length < fuel) :
    ∃ t, Parse.topLevel .standard fuel (p.readAhead s) =
        ((Parse.topLevel .standard fuel p).1, (Parse.topLevel .standard fuel p).2.readAhead t) ∧
      ReadsAhead before (Parse.topLevel .standard fuel p).2 t ∧
      (Parse.topLevel .standard fuel p).2.atEnd = true := by
  obtain ⟨t, same, after⟩ := topLevel_readAhead_rounds h fuel
  have together : (readAhead before).state p (p.readAhead s) := ⟨s, rfl, h⟩
  exact ⟨t, same, after, (lawful_readAhead before).atEnd_topLevel
    (fun _ _ together => (uncancelled_readAhead together).1) fuel together enough⟩

/-- Reading a text first gives the same tree as taking tokens as they are needed, and records the
same: first the problems of tokens, then errors of syntax. -/
theorem parseAfterReading_eq (source : List Char) (uncancelled : s.Uncancelled) :
    (parseAfterReading source s).program = (parseSource source s).program ∧
      (parseSource source s).session.diagnostics.Perm
        (parseAfterReading source s).session.diagnostics ∧
      ∃ ds, (parseAfterReading source s).session.diagnostics =
          s.diagnostics ++ (deliveries source).flatMap Delivery.diagnostics ++ ds ∧
        ∀ d ∈ ds, d.problem.category = .syntactic ∧ d.isError = true := by
  have before := ReadsAhead.start (lexed_deliveries source) (isChain_deliveries source) uncancelled
  obtain ⟨t, same, after, atEnd⟩ := topLevel_readAhead before _
    (Nat.lt_succ_of_le (length_ahead_le _))
  unfold parseAfterReading parseSource parse
  simp only
  rw [start_readAhead, remaining_readAhead, same]
  exact ⟨rfl, after.recorded_atEnd atEnd, after.found⟩

/-- What is parsed of a text is derived from all of its tokens, if error placeholders may stand for
anything. -/
theorem parseSource_derives (source : List Char) (uncancelled : s.Uncancelled) :
    DerivesProgram ⟨Enclosed, fun _ => True⟩ (terminals ((deliveries source).map Delivery.token))
      (parseSource source s).program.body := by
  have before := ReadsAhead.start (lexed_deliveries source) (isChain_deliveries source) uncancelled
  have enough := Nat.lt_succ_of_le (length_ahead_le (Parser.start (deliveries source) s))
  obtain ⟨_, -, -, atEnd⟩ := topLevel_readAhead before _ enough
  obtain ⟨ahead, outside, -⟩ := @Parser.onward_start (deliveries source) s
  have read := Parse.topLevel_sound ⟨Enclosed, fun _ => True⟩ _
    (p := Parser.start (deliveries source) s) (fun _ _ enclosed _ => enclosed) enough outside
  obtain ⟨ts, cut, sited⟩ := read.reads (.inl fun _ => trivial)
  rw [pending_of_atEnd atEnd, List.append_nil] at cut
  rw [← ahead, ahead_eq_map_pending, cut]
  exact sited.derives

end MiniLang
