import MiniLang.Proofs.Syntax.Parser.Order.Statements
import MiniLang.Proofs.Syntax.Validity
import MiniLang.Proofs.Token.Lossless

/-!
# What is found in a program

Statements of the top level are read until the end of the input. Recovery stops before a brace that
closes nothing just as it does before one that closes a block, so that after a statement which
failed at such a brace the next one begins with it, and fails there once more. This is the only way
in which something is found twice (`Parser.TopFound`, `topLevel_found`): the second statement takes
the brace and nothing else.

The tokens of a text stand one after the other, so that the program parsed from them is laid out in
the order of the text, and nothing is found twice in it except braces that close nothing
(`count_blame_parseSource`). What is wrong with the tokens themselves is found along the way, once
for each token, and is never an error of syntax.
-/

set_option autoImplicit false

namespace MiniLang

/-! ## Programs -/

section

open MiniLang.Parser

/-- A statement is expected where a brace closes nothing. -/
def Problem.strayBrace : Problem := .unexpectedToken "expression" "\x7d"

/-- What is found while a parser reads statements of the top level: nothing more than once, except
that a brace which closes nothing may be found twice, and an error placeholder stands for it. -/
structure Parser.TopFound (p : Parser) (body : List Stmt) (ds : List Diagnostic) : Prop where
  syntactic : ∀ d ∈ ds, d.problem.category = .syntactic
  behind : ∀ d ∈ ds, p.here ≤ d.span.start
  atEnd : p.atEnd = true → ds = []
  once : ∀ b : Blame, (ds.map Diagnostic.blame).count b ≤ 1 ∨
    (ds.map Diagnostic.blame).count b = 2 ∧ b.1 = .strayBrace ∧ .error b.2 ∈ body
  /-- At a brace with which a statement begins, only the brace is found, and once. -/
  atBrace : p.current.kind = .closeCurly → ∀ b ∈ ds.map Diagnostic.blame, b.2.start = p.here →
    (ds.map Diagnostic.blame).count b = 1 ∧ b.1 = .strayBrace ∧ .error b.2 ∈ body

namespace Parser.TopFound

theorem nil (p : Parser) (body : List Stmt) : p.TopFound body [] :=
  ⟨List.forall_mem_nil _, List.forall_mem_nil _, fun _ => rfl, fun _ => .inl (Nat.zero_le _),
    fun _ => List.forall_mem_nil _⟩

theorem far {p : Parser} {body : List Stmt} {ds : List Diagnostic} (h : p.TopFound body ds) :
    ∀ b ∈ ds.map Diagnostic.blame, p.here ≤ b.2.start :=
  List.forall_mem_map.2 fun d mem => h.behind d mem

/-- A first statement and those behind it may both blame the token between them only if the first
one got stuck at it, and then it is a brace which the next one takes. -/
theorem once_append {q : Parser} {lo : Nat} {body : List Stmt} {ds ds' : List Diagnostic}
    (found : Found q.Stuck lo q.here ds) (rest : q.TopFound body ds') (b : Blame) :
    ((ds ++ ds').map Diagnostic.blame).count b ≤ 1 ∨
      ((ds ++ ds').map Diagnostic.blame).count b = 2 ∧ b.1 = .strayBrace ∧ .error b.2 ∈ body := by
  have near : ∀ b ∈ ds.map Diagnostic.blame,
      b.2.start < q.here ∨ q.Stuck ∧ b.2.start = q.here :=
    List.forall_mem_map.2 fun d mem => (found.within d mem).2
  rw [List.map_append, List.count_append]
  by_cases inFirst : b ∈ ds.map Diagnostic.blame
  · have one := List.count_eq_one_of_mem found.nodup inFirst
    by_cases inRest : b ∈ ds'.map Diagnostic.blame
    · have place := rest.far b inRest
      obtain before | ⟨stuck, here⟩ := near b inFirst
      · omega
      · rcases stuck with isBrace | atEnd
        · obtain ⟨again, stray, placeholder⟩ := rest.atBrace isBrace b inRest here
          exact .inr ⟨by omega, stray, placeholder⟩
        · rw [rest.atEnd atEnd] at inRest
          cases inRest
    · rw [List.count_eq_zero_of_not_mem inRest]
      exact .inl one.le
  · rw [List.count_eq_zero_of_not_mem inFirst, Nat.zero_add]
    exact rest.once b

/-- What is found in a first statement and in those behind it. -/
theorem cons {p q : Parser} {s : Stmt} {body : List Stmt} {ds ds' : List Diagnostic}
    (found : Found q.Stuck p.here q.here ds) (rest : q.TopFound body ds')
    (more : p.atEnd = false) (moved : p.here < q.here)
    (brace : p.current.kind = .closeCurly →
      s = .error p.current.span ∧ ds = [.of .strayBrace p.current.span]) :
    p.TopFound (s :: body) (ds ++ ds') := by
  refine ⟨?_, ?_, fun atEnd => ?_, fun b => ?_, fun isBrace b mem here => ?_⟩
  · exact List.forall_mem_append.2 ⟨found.syntactic, rest.syntactic⟩
  · exact List.forall_mem_append.2 ⟨fun d mem => (found.within d mem).1,
      fun d mem => moved.le.trans (rest.behind d mem)⟩
  · rw [more] at atEnd
    cases atEnd
  · refine (once_append found rest b).imp_right fun ⟨twice, stray, placeholder⟩ => ?_
    exact ⟨twice, stray, List.mem_cons_of_mem s placeholder⟩
  · obtain ⟨rfl, rfl⟩ := brace isBrace
    rw [List.map_append] at mem ⊢
    have absent : b ∉ ds'.map Diagnostic.blame := fun inRest => by
      have place := rest.far b inRest
      omega
    obtain rfl := List.mem_singleton.1 ((List.mem_append.1 mem).resolve_right absent)
    refine ⟨?_, rfl, List.mem_cons_self⟩
    rw [List.count_append, List.count_eq_zero_of_not_mem absent]
    exact List.count_eq_one_of_mem (List.nodup_singleton _) List.mem_cons_self

end Parser.TopFound

theorem Session.recordAll_inj {s : Session} {ds ds' : List Diagnostic}
    (h : s.recordAll ds = s.recordAll ds') : ds = ds' :=
  List.append_cancel_left (congrArg Session.diagnostics h)

namespace Parse

variable {p : Parser}

/-- No expression and no statement begins with a closing brace. -/
theorem statementWith_brace (brace : p.current.kind = .closeCurly)
    (inner : Parser → Stmt × Parser) :
    statementWith .standard inner p = .error (.unexpected "expression" p.current) p := by
  have expression : expression .standard .default p =
      .error (.unexpected "expression" p.current) p := by
    simp [Parse.expression, bounded, expressionFrom, bind, EStateM.bind, currentKind, brace,
      Grammar.standard]
  have statement : statementWith .standard inner p = expressionStatement .standard p := by
    simp [statementWith, bind, EStateM.bind, currentKind, brace, Grammar.standard]
  rw [statement]
  simp [expressionStatement, bind, EStateM.bind, expression]

/-- A statement that begins with a closing brace is that brace. -/
theorem statementOrError_brace (inOrder : p.InOrder) (brace : p.current.kind = .closeCurly) :
    ∃ q, statementOrError .standard p = (.error p.current.span, q) ∧
      q.session = p.session.recordAll [.of .strayBrace p.current.span] := by
  have shown : p.current.shown = "\x7d" := by
    have text := inOrder.current.brace brace
    unfold Token.shown
    rw [brace, text]
    rfl
  have reported : p.report (.unexpected "expression" p.current) =
      { p with session := p.session.report .strayBrace p.current.span } := by
    unfold Parser.report SyntaxError.unexpected
    rw [brace, shown]
    rfl
  generalize toldEq : ({ p with session := p.session.report .strayBrace p.current.span } : Parser) =
    told at reported
  have same : p.StandsAt told := by
    rw [← toldEq]
    exact ⟨rfl, rfl, rfl, rfl⟩
  have more : told.atEnd = false := atEnd_eq_false_of_kind (same.current ▸ brace) (by decide)
  have still : told.synchronize = told := by
    simp [Parser.synchronize, Parser.synchronizeFrom, same.current, brace]
  obtain ⟨previous, -, session⟩ := (same.inOrder inOrder).advance_eq more
  refine ⟨told.advance, ?_, ?_⟩
  · unfold statementOrError statementOrErrorFrom recovering recover
    rw [statementWith_brace brace]
    simp only [reported, still]
    rw [if_pos same.consumed, previous, same.current]
    simp [Span.join]
  · rw [session, ← toldEq]
    rfl

/-- Statements of the top level stand one after the other, and what is found in them is found
once. -/
theorem topLevel_found : ∀ (fuel : Nat) {p : Parser}, p.InOrder → p.session.Uncancelled →
    ∃ ds, (topLevel .standard fuel p).2.session = p.session.recordAll ds ∧
      p.TopFound (topLevel .standard fuel p).1 ds ∧
      Span.InOrder p.here (topLevel .standard fuel p).2.here
        ((topLevel .standard fuel p).1.map Stmt.span) ∧
      Stmt.AllLaidOut (topLevel .standard fuel p).1
  | 0, p, inOrder, _ =>
    ⟨[], (Session.recordAll_nil _).symm, TopFound.nil p [], Nat.le_refl _, trivial⟩
  | fuel + 1, p, inOrder, uncancelled => by
    rw [topLevel, uncancelled.checkpoint]
    simp only [↓reduceIte]
    split
    · exact ⟨[], (Session.recordAll_nil _).symm, TopFound.nil p [], Nat.le_refl _, trivial⟩
    next going =>
      have more : p.atEnd = false := Bool.eq_false_iff.2 going
      obtain ⟨went, laid⟩ := laysStmt_statementOrErrorFrom (p.remaining + 1) p inOrder more
      have brace := @statementOrError_brace p inOrder
      change p.Went (statementOrError .standard p).2.Stuck (statementOrError .standard p).2 at went
      change (statementOrError .standard p).1.Laid p (statementOrError .standard p).2 at laid
      generalize statementOrError .standard p = result at went laid brace
      obtain ⟨s, q⟩ := result
      obtain ⟨ds, recorded, found⟩ := went.found
      obtain ⟨start, nonempty, stop⟩ := laid.places
      have upTo := stop.trans went.inOrder.previous
      obtain ⟨ds', recorded', found', parts, laidOut⟩ :=
        topLevel_found fuel went.inOrder (recorded ▸ uncancelled.recordAll ds)
      refine ⟨ds ++ ds', ?_, .cons found found' more (by omega) fun isBrace => ?_,
        ⟨start, nonempty, parts.widen upTo (Nat.le_refl _)⟩, laid.laidOut, laidOut⟩
      · rw [recorded', recorded]
        simp [Session.recordAll]
      · obtain ⟨q', same, session⟩ := brace isBrace
        obtain ⟨rfl, rfl⟩ := Prod.mk.inj same
        exact ⟨rfl, Session.recordAll_inj (recorded.symm.trans session)⟩

end Parse

/-- A parser of tokens that were read before begins in order. -/
theorem Parser.inOrder_start {tokens : List Token} (regular : ∀ t ∈ tokens, t.Regular)
    (inOrder : tokens.IsChain fun t u => t.span.stop ≤ u.span.start) (s : Session) :
    (start (deliveriesOf tokens) s).InOrder := by
  cases tokens with
  | nil =>
    exact ⟨List.forall_mem_singleton.2 ⟨Nat.le_refl _, (fun going => absurd rfl going),
      Token.hasValue_endAt _, fun is => by cases is⟩, .singleton _, Nat.le_refl _,
      List.forall_mem_nil _⟩
  | cons t tokens =>
    have same : (deliveriesOf tokens).map Delivery.token = tokens := by
      simp [deliveriesOf, Function.comp_def]
    have silent : ∀ (t : Token) (s : Session), Delivery.notify { token := t } s = s :=
      fun _ s => Session.recordAll_nil s
    refine ⟨?_, ?_, Nat.zero_le _, fun d mem => ?_⟩
    · change ∀ u ∈ t :: (deliveriesOf tokens).map Delivery.token, u.Regular
      rw [same]
      exact regular
    · change (t :: (deliveriesOf tokens).map Delivery.token).IsChain _
      rw [same]
      exact inOrder
    · obtain ⟨t, -, rfl⟩ := List.mem_map.1 mem
      exact silent t

/-- What is found in a program is found once, apart from braces that close nothing, and the program
is laid out in the order of its tokens. -/
theorem parse_found {tokens : List Token} (regular : ∀ t ∈ tokens, t.Regular)
    (inOrder : tokens.IsChain fun t u => t.span.stop ≤ u.span.start) {s : Session}
    (uncancelled : s.Uncancelled) :
    ∃ ds, (parse (deliveriesOf tokens) s).session = s.recordAll ds ∧
      (Parser.start (deliveriesOf tokens) s).TopFound (parse (deliveriesOf tokens) s).program.body
        ds ∧
      (∃ lo hi, Span.InOrder lo hi ((parse (deliveriesOf tokens) s).program.body.map Stmt.span)) ∧
      Stmt.AllLaidOut (parse (deliveriesOf tokens) s).program.body := by
  have begins := Parser.inOrder_start regular inOrder s
  have session : (Parser.start (deliveriesOf tokens) s).session = s := by
    cases tokens with
    | nil => rfl
    | cons => exact Session.recordAll_nil s
  obtain ⟨ds, recorded, found, parts, laidOut⟩ := Parse.topLevel_found
    ((Parser.start (deliveriesOf tokens) s).remaining + 1) begins (session.symm ▸ uncancelled)
  rw [session] at recorded
  exact ⟨ds, recorded, found, ⟨_, _, parts⟩, laidOut⟩

end

/-! ## Source texts -/

open LexemeClass

/-- Only the one sign closes a block. -/
theorem brace_of_firstPiece? {cs text : List Char} {problem : Option Problem}
    (found : firstPiece? cs = some (text, some (.closeCurly, problem))) : text = ['\x7d'] := by
  rcases firstPiece?_eq_some found with ⟨cls, first, means⟩ | ⟨c, -, -, -, -, means⟩
  · obtain ⟨mem, fits⟩ := firstMatch?_eq_some first
    cases cls with
    | name =>
      have kind : (keyword? (String.ofList text)).getD .identifier = .closeCurly :=
        (Prod.mk.inj (Option.some.inj means)).1.symm
      cases reserved : keyword? (String.ofList text) with
      | none =>
        rw [reserved] at kind
        cases kind
      | some k =>
        rw [reserved] at kind
        obtain rfl : k = .closeCurly := kind
        have mem := mem_of_lookup reserved
        simp [keywords] at mem
    | number =>
      simp only [meaning] at means
      split at means <;> cases means
    | blank => cases means
    | comment => cases means
    | sign sign kind =>
      cases means
      obtain ⟨-, -, rfl⟩ := Option.map_eq_some_iff.1 fits
      simpa [table] using mem
  · cases means

/-- What closes a block is the brace. -/
theorem Reads.brace {before rest : List Char} {ds : List Delivery} (h : Reads before rest ds) :
    ∀ d ∈ ds, d.token.kind = .closeCurly → d.token.text = "\x7d" := by
  induction h with
  | ending =>
    refine List.forall_mem_singleton.2 fun is => ?_
    cases is
  | separator found more ih => exact ih
  | @token before text rest kind problem ds found more ih =>
    refine List.forall_mem_cons.2 ⟨fun is => ?_, ih⟩
    obtain rfl : kind = .closeCurly := is
    rw [brace_of_firstPiece? found]

/-- The tokens of a text are regular. -/
theorem regular_deliveries (source : List Char) :
    ∀ t ∈ (deliveries source).map Delivery.token, t.Regular := by
  have reads := reads_deliveries source
  refine List.forall_mem_map.2 fun d mem => ?_
  obtain ⟨early, late, -, span, nonempty⟩ := reads.piece d mem
  refine ⟨?_, fun going => ?_, (lexed_deliveries source d mem).hasValue, reads.brace d mem⟩
  · rw [span]
    exact Nat.le_add_right ..
  · rw [span]
    exact Nat.lt_add_of_pos_right (Text.byteLength_pos (nonempty going))

/-- They stand one after the other. -/
theorem inOrder_deliveries (source : List Char) :
    ((deliveries source).map Delivery.token).IsChain fun t u => t.span.stop ≤ u.span.start := by
  have ordered := (reads_deliveries source).ordered.2
  rw [List.pairwise_map] at ordered
  rw [List.isChain_map]
  exact (ordered.imp fun between => between.2).isChain

/-- What is wrong with the tokens of a text is found once. -/
theorem nodup_lexical_deliveries (source : List Char) :
    (((deliveries source).flatMap Delivery.diagnostics).map Diagnostic.blame).Nodup := by
  have ordered := (reads_deliveries source).ordered.2
  rw [List.pairwise_map] at ordered
  rw [List.map_flatMap, List.nodup_flatMap]
  refine ⟨fun d _ => ?_, ordered.imp fun {d d'} between b mem mem' => ?_⟩
  · cases problem : d.problem <;> simp [Delivery.diagnostics, problem]
  · have here : ∀ d : Delivery, b ∈ d.diagnostics.map Diagnostic.blame → b.2 = d.token.span := by
      intro d mem
      obtain ⟨x, there, rfl⟩ := List.mem_map.1 mem
      obtain ⟨p, -, rfl⟩ := List.mem_map.1 there
      rfl
    have same : d.token.span = d'.token.span := (here d mem).symm.trans (here d' mem')
    have apart := between.1.trans_le between.2
    rw [same] at apart
    exact Nat.lt_irrefl _ apart

variable {s : Session}

/-- The program parsed from a text is laid out in the order of the text. -/
theorem laidOut_parseSource (source : List Char) (uncancelled : s.Uncancelled) :
    (∃ lo hi, Span.InOrder lo hi ((parseSource source s).program.body.map Stmt.span)) ∧
      Stmt.AllLaidOut (parseSource source s).program.body := by
  rw [← (parseAfterReading_eq source uncancelled).1]
  obtain ⟨-, -, -, inOrder, laidOut⟩ := parse_found (regular_deliveries source)
    (inOrder_deliveries source) (uncancelled.recordAll _)
  exact ⟨inOrder, laidOut⟩

/-- While a text is parsed nothing is found twice, except that a brace which closes nothing may be
found twice, and an error placeholder stands for it. -/
theorem count_blame_parseSource (source : List Char) (b : Blame) :
    let parsed := parseSource source .fresh
    (parsed.session.diagnostics.map Diagnostic.blame).count b ≤ 1 ∨
      (parsed.session.diagnostics.map Diagnostic.blame).count b = 2 ∧ b.1 = .strayBrace ∧
        .error b.2 ∈ parsed.program.body := by
  intro parsed
  obtain ⟨tree, perm, -⟩ := parseAfterReading_eq source uncancelled_fresh
  obtain ⟨ds, recorded, found, -⟩ := parse_found (regular_deliveries source)
    (inOrder_deliveries source) (uncancelled_fresh.recordAll
      ((deliveries source).flatMap Delivery.diagnostics))
  have all : (parseAfterReading source .fresh).session.diagnostics =
      (deliveries source).flatMap Delivery.diagnostics ++ ds :=
    congrArg Session.diagnostics recorded
  rw [(perm.map Diagnostic.blame).count_eq b, all, List.map_append, List.count_append]
  by_cases lexical : b ∈ ((deliveries source).flatMap Delivery.diagnostics).map Diagnostic.blame
  · have others : ∀ d ∈ ds, d.problem.category ≠ .lexical := by
      intro d mem
      rw [found.syntactic d mem]
      decide
    have absent := Diagnostic.blame_notMem (fun d mem => (lexical_deliveries mem).1) others b lexical
    rw [List.count_eq_one_of_mem (nodup_lexical_deliveries source) lexical,
      List.count_eq_zero_of_not_mem absent]
    exact .inl (Nat.le_refl 1)
  · rw [List.count_eq_zero_of_not_mem lexical, Nat.zero_add, ← tree]
    exact found.once b

end MiniLang
