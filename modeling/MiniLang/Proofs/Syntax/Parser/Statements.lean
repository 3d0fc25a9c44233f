import MiniLang.Proofs.Syntax.Parser.Expressions

/-!
# What statements and programs are read

Every statement that is read has nodes with numbers of their own, and it is well formed unless an
error was recorded (`Stmt.Read`). A parser that recovers from an error has recorded it, so that
nothing needs to be known about what it skips. Blocks nest only as deep as there are tokens, which
keeps the bound on their nesting from ever being reached (`readsStmt_statementOrErrorFrom`).
-/

set_option autoImplicit false

namespace MiniLang

/-- A statement that declares no function was read by a parser that drew its numbers from `lo`
on. -/
structure Stmt.ReadInner (lo : NodeId) (s : Stmt) (q : Parser) : Prop where
  numbered : Numbered lo q.nextId s.ids
  last : ∀ e ∈ s.exprs, e.DrawnLast
  wellFormed : q.session.hasErrors = false → s.WellFormed

/-- A statement was read by a parser that drew its numbers from `lo` on; only outside of blocks it
may declare a function. -/
structure Stmt.Read (lo : NodeId) (s : Stmt) (q : Parser) : Prop where
  numbered : Numbered lo q.nextId s.ids
  last : ∀ e ∈ s.exprs, e.DrawnLast
  wellFormed : q.session.hasErrors = false → s.WellFormed ∨ q.blockDepth = 0 ∧ s.TopWellFormed

/-- A block was read by a parser that drew its numbers from `lo` on. -/
structure Block.Read (lo : NodeId) (b : Block) (q : Parser) : Prop where
  numbered : Numbered lo q.nextId (Stmt.blockIds b)
  last : ∀ e ∈ Stmt.blockExprs b, e.DrawnLast
  wellFormed : q.session.hasErrors = false → Stmt.BlockWellFormed b

theorem Stmt.ReadInner.read {lo : NodeId} {s : Stmt} {q : Parser} (h : s.ReadInner lo q) :
    s.Read lo q := ⟨h.numbered, h.last, fun clean => .inl (h.wellFormed clean)⟩

namespace Parse

theorem Taken.less_of_kind {p q : Parser} {t : Token} {kind : TokenKind} (h : Taken p t q)
    (is : t.kind = kind) (more : kind ≠ .endOfInput) : q.remaining < p.remaining := by
  refine h.less ?_
  rw [Parser.atEnd, ← h.current, is]
  exact beq_false_of_ne more

/-! ## Forms without blocks -/

theorem yields_typeName (p : Parser) : Yields typeName p fun _ _ => True := by
  have result : (∃ type, typeName p = .ok type p.advance) ∨
      typeName p = .error (.unexpected "type" p.current) p := by
    unfold typeName
    split
    · exact .inl ⟨_, rfl⟩
    · exact .inl ⟨_, rfl⟩
    · exact .inr rfl
  rcases result with ⟨type, same⟩ | same
  · intro fit
    rw [same]
    exact ⟨fit.advance, trivial⟩
  · exact .unexpectedHere same

theorem yields_typeAfter (kind : TokenKind) (p : Parser) :
    Yields (typeAfter kind) p fun _ _ => True := by
  refine .kind (.ite (fun _ => ?_) fun _ => .pure fun _ => trivial)
  refine (yields_advance p).bind fun _ q _ _ => ?_
  exact (yields_typeName q).bind fun _ _ _ _ => .pure fun _ => trivial

theorem yields_letStatement (g : Grammar) (p : Parser) :
    Yields (letStatement g) p (Stmt.ReadInner p.nextId) := by
  refine (yields_advance p).bind fun start q₁ moves₁ first => ?_
  refine (yields_expect _ _ _).bind fun name q₂ moves₂ ⟨taken, isIdentifier⟩ => ?_
  refine (yields_typeAfter _ _).bind fun declared q₃ moves₃ _ => ?_
  refine (yields_expect _ _ _).bind fun _ q₄ moves₄ _ => ?_
  refine (yields_expression _ _ _).bind fun value q₅ moves₅ read => ?_
  refine (yields_expect _ _ _).bind fun stop q₆ moves₆ _ => ?_
  refine (yields_freshId _).bind fun id q₇ _ ⟨same, next, _⟩ => .pure fun _ => ?_
  have before := ((moves₁.trans moves₂).trans (moves₃.trans moves₄)).nextId
  refine ⟨?_, read.last, fun _ => ⟨first.fit.valid.join _, taken.fit.isName isIdentifier⟩⟩
  rw [next, same]
  exact (read.numbered.widen before moves₆.nextId).cons_last
    (before.trans (moves₅.trans moves₆).nextId)

theorem yields_condition (g : Grammar) (p : Parser) :
    Yields (condition g) p (Expr.Read p.nextId) := by
  refine (yields_expect _ _ _).bind fun opening q₁ moves₁ _ => ?_
  refine (yields_expression _ _ _).bind fun e q₂ moves₂ read => ?_
  refine (yields_expectClosing _ _ _ _ _).bind fun _ q₃ moves₃ _ => .pure fun _ => ?_
  exact ⟨read.valid, read.numbered.widen moves₁.nextId moves₃.nextId, read.last⟩

theorem yields_returnStatement (g : Grammar) (p : Parser) :
    Yields (returnStatement g) p (Stmt.ReadInner p.nextId) := by
  refine (yields_advance p).bind fun start q₁ moves₁ first => .kind ?_
  have close : ∀ (value : Option Expr) (q : Parser),
      Numbered p.nextId q.nextId (Stmt.ids (.ret start.span value)) →
      (∀ e ∈ Stmt.exprs (.ret start.span value), e.DrawnLast) →
      Yields (do
        let stop ← expect .semicolon "`;`"
        return .ret (start.span.join stop.span) value) q (Stmt.ReadInner p.nextId) := by
    intro value q numbered last
    refine (yields_expect _ _ _).bind fun stop r moves _ => .pure fun _ => ?_
    cases value with
    | none => exact ⟨.nil .., last, fun _ => first.fit.valid.join _⟩
    | some e =>
      exact ⟨numbered.widen le_rfl moves.nextId, last, fun _ => first.fit.valid.join _⟩
  refine .ite (fun _ => ?_) fun _ => ?_
  · exact close none q₁ (.nil ..) (List.forall_mem_nil _)
  · have value : Yields (some <$> expression g .default) q₁ fun value q =>
        Numbered p.nextId q.nextId (Stmt.ids (.ret start.span value)) ∧
          ∀ e ∈ Stmt.exprs (.ret start.span value), e.DrawnLast :=
      .map ((yields_expression _ _ _).imp fun _ _ _ read =>
        ⟨read.numbered.widen moves₁.nextId le_rfl, read.last⟩)
    exact value.bind fun e q₂ _ ⟨numbered, last⟩ => close e q₂ numbered last

theorem yields_expressionStatement (g : Grammar) (p : Parser) :
    Yields (expressionStatement g) p (Stmt.ReadInner p.nextId) := by
  refine (yields_expression _ _ _).bind fun e q₁ moves₁ read => ?_
  refine (yields_expect _ _ _).bind fun stop q₂ moves₂ _ => .pure fun _ => ?_
  exact ⟨read.numbered.widen le_rfl moves₂.nextId, read.last, fun _ => read.valid.join _⟩

/-- Parameters have names, and numbers of their own. -/
theorem yields_commaSeparatedParams :
    ∀ (fuel : Nat) (p : Parser), Yields (commaSeparatedParams fuel) p fun ps q =>
      Numbered p.nextId q.nextId (ps.map Param.id) ∧ ∀ x ∈ ps, IsName x.name
  | 0, p => .pure fun _ => ⟨.nil .., fun _ mem => by cases mem⟩
  | fuel + 1, p => by
    refine (yields_expect _ _ _).bind fun name q₁ moves₁ ⟨taken, isIdentifier⟩ => ?_
    refine (yields_expect _ _ _).bind fun _ q₂ moves₂ _ => ?_
    refine (yields_typeName _).bind fun type q₃ moves₃ _ => ?_
    refine (yields_freshId _).bind fun id q₄ moves₄ ⟨same, next, _⟩ => .kind ?_
    have isName := taken.fit.isName isIdentifier
    have before := (moves₁.trans (moves₂.trans moves₃)).nextId
    have numbered : Numbered p.nextId q₄.nextId [id] := by
      rw [next, same]
      exact (Numbered.nil p.nextId q₃.nextId).cons_last before
    refine .ite (fun _ => ?_) fun _ => .pure fun _ => ⟨numbered, fun x mem => ?_⟩
    · refine (yields_advance _).bind fun _ q₅ moves₅ _ => ?_
      refine (yields_commaSeparatedParams fuel q₅).bind fun ps q₆ moves₆ ⟨numbered', areNames⟩ =>
        .pure fun _ => ⟨?_, fun x mem => ?_⟩
      · exact (numbered.widen le_rfl moves₅.nextId).append numbered'
          (before.trans (moves₄.trans moves₅).nextId) moves₆.nextId
      · rcases List.mem_cons.1 mem with rfl | mem
        · exact isName
        · exact areNames x mem
    · rw [List.mem_singleton.1 mem]
      exact isName

theorem yields_params (p : Parser) : Yields params p fun ps q =>
    Numbered p.nextId q.nextId (ps.map Param.id) ∧ ∀ x ∈ ps, IsName x.name :=
  .kind (.ite (fun _ => .pure fun _ => ⟨.nil .., fun _ mem => by cases mem⟩)
    fun _ => yields_bounded (yields_commaSeparatedParams _ p))

/-! ## Blocks and the forms around them -/

/-- What is read by a parser of statements that always goes on, as long as less than `fuel` tokens
are left. -/
def ReadsStmt (inner : Parser → Stmt × Parser) (fuel : Nat) : Prop :=
  ∀ p : Parser, p.Fit → p.remaining < fuel →
    p.Moves (inner p).2 ∧ (inner p).1.Read p.nextId (inner p).2

/-- What is read by a parser of blocks, as long as no more than `fuel` tokens are left. -/
def ReadsBlock (blockOf : Parse Block) (fuel : Nat) : Prop :=
  ∀ p : Parser, p.remaining ≤ fuel → Yields blockOf p (Block.Read p.nextId)

variable {inner : Parser → Stmt × Parser} {blockOf : Parse Block} {bound : Nat}

/-- Statements inside of a block. -/
theorem statements_read (h : ReadsStmt inner bound) :
    ∀ (fuel : Nat) {p : Parser}, p.Fit → p.remaining < bound → 0 < p.blockDepth →
      p.Moves (statements inner fuel p).2 ∧
        Numbered p.nextId (statements inner fuel p).2.nextId
          (Stmt.idsAll (statements inner fuel p).1) ∧
        (∀ e ∈ Stmt.exprsAll (statements inner fuel p).1, e.DrawnLast) ∧
        ((statements inner fuel p).2.session.hasErrors = false →
          Stmt.AllWellFormed (statements inner fuel p).1)
  | 0, p, fit, _, _ => ⟨.refl fit, .nil .., List.forall_mem_nil _, fun _ => trivial⟩
  | fuel + 1, p, fit, less, inside => by
    rw [statements]
    split
    · exact ⟨.refl fit, .nil .., List.forall_mem_nil _, fun _ => trivial⟩
    · obtain ⟨moves, read⟩ := h p fit less
      have depth := moves.blockDepth
      obtain ⟨moves', numbered, last, wellFormed⟩ := statements_read h fuel moves.fit
        (moves.remaining.trans_lt less) (depth ▸ inside)
      refine ⟨moves.trans moves', read.numbered.append numbered moves.nextId moves'.nextId,
        List.forall_mem_append.2 ⟨read.last, last⟩, fun clean => ⟨?_, wellFormed clean⟩⟩
      rcases read.wellFormed (moves'.leads.clean clean) with wellFormed | ⟨outside, -⟩
      · exact wellFormed
      · omega

theorem yields_blockBody (h : ReadsStmt inner bound) {p : Parser} (less : p.remaining < bound) :
    Yields (blockBody inner) p fun body q => Numbered p.nextId q.nextId (Stmt.idsAll body) ∧
      (∀ e ∈ Stmt.exprsAll body, e.DrawnLast) ∧
      (q.session.hasErrors = false → Stmt.AllWellFormed body) := by
  intro fit
  have deeper : Parser.Fit { p with blockDepth := p.blockDepth + 1 } :=
    ⟨fit.current, fit.upcoming, fit.previous, fit.unknown, fit.reportedEnd⟩
  obtain ⟨moves, numbered, last, wellFormed⟩ :=
    statements_read h (p.remaining + 1) deeper less (Nat.succ_pos _)
  have fit' := moves.fit
  refine ⟨⟨⟨fit'.current, fit'.upcoming, fit'.previous, fit'.unknown, fit'.reportedEnd⟩,
    moves.leads, moves.nextId, moves.remaining, ?_⟩, numbered, last, wellFormed⟩
  exact Nat.sub_eq_of_eq_add moves.blockDepth

/-- A block begins with a token of its own, so that fewer are left for the statements in it. -/
theorem readsBlock_block (h : ReadsStmt inner bound) : ReadsBlock (block inner) bound := by
  intro p le
  refine (yields_expect _ _ _).bind fun opening q₁ moves₁ ⟨taken, is⟩ => ?_
  refine (yields_freshId _).bind fun id q₂ moves₂ ⟨same, next, _⟩ => ?_
  have less : q₂.remaining < bound := by
    have := taken.less_of_kind is (by decide)
    have := moves₂.remaining
    omega
  refine (yields_blockBody h less).bind fun body q₃ moves₃ ⟨numbered, last, wellFormed⟩ => .kind ?_
  refine .ite (fun _ => yields_failUnterminated _ _ _) fun _ => ?_
  refine (yields_advance _).bind fun closing q₄ moves₄ _ => .pure fun _ => ?_
  refine ⟨?_, last, fun clean =>
    ⟨taken.fit.valid.join _, wellFormed (moves₄.leads.clean clean)⟩⟩
  rw [next] at numbered
  have drawn := moves₃.nextId
  rw [next] at drawn
  rw [← same] at numbered drawn
  have whole : Numbered id q₃.nextId (id :: Stmt.idsAll body) := numbered.cons_first drawn
  exact whole.widen (moves₁.nextId.trans same.ge) moves₄.nextId

/-- A choice does not declare anything, however many choices follow each other in it. -/
theorem yields_ifStatement (g : Grammar) (h : ReadsBlock blockOf bound) :
    ∀ (fuel : Nat) {p : Parser}, p.remaining ≤ bound → Yields (ifStatement g blockOf fuel) p
      fun s q => s.ReadInner p.nextId q ∧ s.declares = false
  | 0, p, _ => .unexpectedHere rfl
  | fuel + 1, p, le => by
    refine (yields_advance p).bind fun start q₁ moves₁ first => ?_
    refine (yields_condition g q₁).bind fun test q₂ moves₂ read => ?_
    have to₂ := moves₁.trans moves₂
    refine (h q₂ (to₂.remaining.trans le)).bind fun thenBlock q₃ moves₃ body => .kind ?_
    have to₃ := to₂.trans moves₃
    have numbered := (read.numbered.widen moves₁.nextId le_rfl).append body.numbered to₂.nextId
      moves₃.nextId
    have last := List.forall_mem_append.2 ⟨read.last, body.last⟩
    refine .ite (fun _ => ?_) fun _ => ?_
    · refine (yields_advance q₃).bind fun _ q₄ moves₄ _ => .kind ?_
      have to₄ := to₃.trans moves₄
      have close : ∀ (elseBranch : Stmt) (q : Parser), Parser.Moves q₄ q →
          elseBranch.ReadInner q₄.nextId q ∧ elseBranch.declares = false →
          Yields (do
            return Stmt.ifThenElse (start.span.join (← previousSpan)) test thenBlock elseBranch) q
            fun s r => s.ReadInner p.nextId r ∧ s.declares = false := by
        intro elseBranch q moves ⟨read', noName⟩
        refine .lastSpan (.pure fun _ => ⟨⟨?_, ?_, fun clean => ?_⟩, rfl⟩)
        · exact (numbered.widen le_rfl moves₄.nextId).append read'.numbered to₄.nextId moves.nextId
        · exact List.forall_mem_append.2 ⟨last, read'.last⟩
        · exact ⟨first.fit.valid.join _, body.wellFormed ((moves₄.trans moves).leads.clean clean),
            read'.wellFormed clean, noName⟩
      refine .ite (fun _ => ?_) fun _ => ?_
      · exact (yields_ifStatement g h fuel (to₄.remaining.trans le)).bind close
      · have elseBlock : Yields (Stmt.block <$> blockOf) q₄ fun s q =>
            s.ReadInner q₄.nextId q ∧ s.declares = false :=
          .map ((h q₄ (to₄.remaining.trans le)).imp fun b q _ read' =>
            ⟨⟨read'.numbered, read'.last, read'.wellFormed⟩, rfl⟩)
        exact elseBlock.bind close
    · exact .lastSpan (.pure fun _ => ⟨⟨numbered, last, fun clean =>
        ⟨first.fit.valid.join _, body.wellFormed clean⟩⟩, rfl⟩)

theorem yields_whileStatement (g : Grammar) (h : ReadsBlock blockOf bound) {p : Parser}
    (le : p.remaining ≤ bound) :
    Yields (whileStatement g blockOf) p (Stmt.ReadInner p.nextId) := by
  refine (yields_advance p).bind fun start q₁ moves₁ first => ?_
  refine (yields_condition g q₁).bind fun test q₂ moves₂ read => ?_
  have to₂ := moves₁.trans moves₂
  refine (h q₂ (to₂.remaining.trans le)).bind fun body q₃ moves₃ read' => .pure fun _ => ?_
  refine ⟨?_, List.forall_mem_append.2 ⟨read.last, read'.last⟩,
    fun clean => ⟨first.fit.valid.join _, read'.wellFormed clean⟩⟩
  exact (read.numbered.widen moves₁.nextId le_rfl).append read'.numbered to₂.nextId moves₃.nextId

/-- A function inside of a block is an error. -/
theorem yields_functionStatement (h : ReadsBlock blockOf bound) {p : Parser}
    (le : p.remaining ≤ bound) :
    Yields (functionStatement blockOf) p (Stmt.Read p.nextId) := by
  refine (yields_advance p).bind fun start q₁ moves₁ first => ?_
  refine (yields_expect _ _ _).bind fun name q₂ moves₂ ⟨taken, isIdentifier⟩ => ?_
  refine (yields_expect _ _ _).bind fun opening q₃ moves₃ _ => ?_
  refine (yields_params _).bind fun parameters q₄ moves₄ ⟨params, areNames⟩ => ?_
  refine (yields_expectClosing _ _ _ _ _).bind fun _ q₅ moves₅ _ => ?_
  refine (yields_typeAfter _ _).bind fun returnType q₆ moves₆ _ => ?_
  have to₃ := (moves₁.trans moves₂).trans moves₃
  have to₆ := to₃.trans (moves₄.trans (moves₅.trans moves₆))
  refine .depth ((h q₆ (to₆.remaining.trans le)).bind fun body q₇ moves₇ read => ?_)
  refine .ite (fun _ => ?_) fun outside => ?_
  · refine (yields_complain rfl _ _).bind fun _ q₈ _ errors => .pure fun _ => ?_
    refine ⟨.nil .., List.forall_mem_nil _, fun clean => ?_⟩
    rw [errors] at clean
    cases clean
  · refine (yields_freshId _).bind fun id q₈ moves₈ ⟨same, next, _⟩ => .pure fun _ => ?_
    have below := (params.widen to₃.nextId (moves₅.trans moves₆).nextId).append read.numbered
      to₆.nextId moves₇.nextId
    refine ⟨?_, read.last, fun clean => .inr ⟨?_, ?_⟩⟩
    · rw [next, same]
      exact below.cons_last (to₆.trans moves₇).nextId
    · rw [moves₈.blockDepth, moves₇.blockDepth]
      omega
    · exact .function (first.fit.valid.join _) (taken.fit.isName isIdentifier) areNames
        (read.wellFormed (moves₈.leads.clean clean))

theorem yields_statementForm (g : Grammar) (h : ReadsStmt inner bound) (rule : StatementRule)
    {p : Parser} (le : p.remaining ≤ bound) :
    Yields (statementForm g inner rule) p (Stmt.Read p.nextId) := by
  have blocks := readsBlock_block h
  cases rule with
  | letVar => exact (yields_letStatement g p).imp fun _ _ _ read => read.read
  | ifElse =>
    exact (yields_bounded (yields_ifStatement g blocks _ le)).imp fun _ _ _ read => read.1.read
  | whileLoop => exact (yields_whileStatement g blocks le).imp fun _ _ _ read => read.read
  | block =>
    exact .map ((blocks p le).imp fun _ _ _ read =>
      Stmt.ReadInner.read ⟨read.numbered, read.last, read.wellFormed⟩)
  | function => exact yields_functionStatement blocks le
  | ret => exact (yields_returnStatement g p).imp fun _ _ _ read => read.read

theorem yields_statementWith (g : Grammar) (h : ReadsStmt inner bound) {p : Parser}
    (le : p.remaining ≤ bound) : Yields (statementWith g inner) p (Stmt.Read p.nextId) := by
  refine .kind ?_
  split
  next rule _ => exact yields_statementForm g h rule le
  next => exact (yields_expressionStatement g p).imp fun _ _ _ read => read.read

/-! ## Recovery -/

theorem moves_synchronizeFrom :
    ∀ (fuel depth : Nat) {p : Parser}, p.Fit → p.Moves (p.synchronizeFrom fuel depth)
  | 0, _, p, fit => .refl fit
  | fuel + 1, depth, p, fit => by
    have next : ∀ depth, p.Moves (p.advance.synchronizeFrom fuel depth) := fun depth =>
      fit.advance.trans (moves_synchronizeFrom fuel depth fit.advance.fit)
    unfold Parser.synchronizeFrom
    split
    · exact .refl fit
    · split
      · exact fit.advance
      · exact next depth
    · exact next (depth + 1)
    · split
      · exact .refl fit
      · exact fit.advance
      · exact next _
    · exact next depth

/-- A parser of statements that recovers always goes on. -/
theorem recovering_read {action : Parse Stmt} {p : Parser} (fit : p.Fit)
    (h : Yields action p (Stmt.Read p.nextId)) :
    p.Moves (recovering action p).2 ∧
      (recovering action p).1.Read p.nextId (recovering action p).2 := by
  have result := h fit
  unfold recovering
  cases outcome : action p with
  | ok s q =>
    rw [outcome] at result
    exact result
  | error e q =>
    rw [outcome] at result
    obtain ⟨moves, errors⟩ := result
    have skipped := moves_synchronizeFrom ((q.report e).remaining + 1) 0 moves.fit
    have moved : (q.report e).Moves (recover p e q).2 := by
      unfold recover
      simp only
      split
      · exact skipped.trans skipped.fit.advance
      · exact skipped
    refine ⟨moves.trans moved, .nil .., List.forall_mem_nil _, fun clean => ?_⟩
    rw [moved.leads.errors errors] at clean
    cases clean

theorem readsStmt_statementOrErrorFrom (g : Grammar) :
    ∀ fuel : Nat, ReadsStmt (statementOrErrorFrom g fuel) fuel
  | 0, _, _, less => absurd less (Nat.not_lt_zero _)
  | fuel + 1, _, fit, less =>
    recovering_read fit (yields_statementWith g (readsStmt_statementOrErrorFrom g fuel)
      (Nat.le_of_lt_succ less))

/-! ## Programs -/

/-- Statements of the top level. -/
theorem topLevel_read (g : Grammar) :
    ∀ (fuel : Nat) {p : Parser}, p.Fit → p.blockDepth = 0 →
      p.Moves (topLevel g fuel p).2 ∧
        Numbered p.nextId (topLevel g fuel p).2.nextId (Stmt.idsAll (topLevel g fuel p).1) ∧
        (∀ e ∈ Stmt.exprsAll (topLevel g fuel p).1, e.DrawnLast) ∧
        ((topLevel g fuel p).2.session.hasErrors = false →
          ∀ s ∈ (topLevel g fuel p).1, s.TopWellFormed)
  | 0, p, fit, _ =>
    ⟨.refl fit, .nil .., List.forall_mem_nil _, fun _ _ mem => by cases mem⟩
  | fuel + 1, p, fit, outside => by
    rw [topLevel]
    split
    · exact ⟨.refl fit, .nil .., List.forall_mem_nil _, fun _ _ mem => by cases mem⟩
    · have asked := fit.session (Session.Leads.checkpoint p.session p.current.span).1
      simp only
      split
      · obtain ⟨moves, read⟩ := readsStmt_statementOrErrorFrom g _ _ asked.fit (Nat.lt_succ_self _)
        have depth := moves.blockDepth
        obtain ⟨moves', numbered, last, wellFormed⟩ := topLevel_read g fuel moves.fit
          (depth.trans outside)
        refine ⟨asked.trans (moves.trans moves'),
          read.numbered.append numbered moves.nextId moves'.nextId,
          List.forall_mem_append.2 ⟨read.last, last⟩, fun clean s mem => ?_⟩
        rcases List.mem_cons.1 mem with rfl | mem
        · rcases read.wellFormed (moves'.leads.clean clean) with wellFormed | ⟨-, wellFormed⟩
          · exact .inner wellFormed
          · exact wellFormed
        · exact wellFormed clean s mem
      · exact ⟨asked, .nil .., List.forall_mem_nil _, fun _ _ mem => by cases mem⟩

end Parse

/-- Nodes of a program that is parsed have numbers of their own, whether or not errors are found;
the program is well formed if none is. -/
theorem parse_read {tokens : List Delivery} (fit : ∀ d ∈ tokens, d.Fit) (s : Session) :
    s.Leads (parse tokens s).session ∧ (Stmt.idsAll (parse tokens s).program.body).Nodup ∧
      (∀ e ∈ (parse tokens s).program.exprs, e.DrawnLast) ∧
      ((parse tokens s).session.hasErrors = false →
        ∀ st ∈ (parse tokens s).program.body, st.TopWellFormed) := by
  have outside : (Parser.start tokens s).blockDepth = 0 := by cases tokens <;> rfl
  have first : s.Leads (Parser.start tokens s).session := by
    cases tokens with
    | nil => exact .refl s
    | cons d rest => exact d.leads_notify s
  obtain ⟨moves, numbered, last, wellFormed⟩ := Parse.topLevel_read .standard
    ((Parser.start tokens s).remaining + 1) (Parser.fit_start fit s) outside
  exact ⟨first.trans moves.leads, numbered.nodup, last, wellFormed⟩

end MiniLang
