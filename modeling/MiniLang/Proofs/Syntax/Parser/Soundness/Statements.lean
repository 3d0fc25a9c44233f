import MiniLang.Proofs.Syntax.Parser.Soundness.Expressions

/-!
# Which programs are read

A statement that a parser reads is derived in place from the tokens that were taken, as long as
nothing was lost on the way: either error placeholders may stand for anything, or the parser was
loud and found no error (`Parse.Faithful`). So there are two readings of one proof. With
placeholders that stand for anything, every program that is parsed is derived from a beginning of
the tokens (`parse_derives_any`); without any, the programs of valid parses are derived from all of
the tokens (`parse_sited`, `parse_derives`).
-/

set_option autoImplicit false

namespace MiniLang

namespace Parse

open MiniLang.Parser

variable {d : Dialect} {p q r : Parser}

/-- Whatever became an error placeholder between two parsers may be one. -/
def Faithful (d : Dialect) (p q : Parser) : Prop :=
  (∀ ts, d.placeholder ts) ∨ (p.Loud ∧ q.errors = p.errors)

theorem Faithful.split (h : Faithful d p r) (step : Onward p q) (step' : Onward q r) :
    Faithful d p q ∧ Faithful d q r := by
  rcases h with any | ⟨loud, same⟩
  · exact ⟨.inl any, .inl any⟩
  · have first := step.errors
    have second := step'.errors
    have unchanged : q.errors = p.errors := by omega
    exact ⟨.inr ⟨loud, unchanged⟩, .inr ⟨step.loud loud unchanged, by omega⟩⟩

/-- Some of the tokens ahead were taken, and they form something if nothing was lost. -/
def Takes (d : Dialect) (forms : List Token → Prop) (p q : Parser) : Prop :=
  q.ahead.length < p.ahead.length ∧ (Faithful d p q → Reads forms p q)

/-- Tokens form something, and the last of them is the one that was taken last. -/
def UpTo (q : Parser) (forms : List Token → Prop) (ts : List Token) : Prop :=
  forms ts ∧ ∀ before, Token.lastSpan before ts = q.previousSpan

theorem Takes.imp {forms forms' : List Token → Prop} (h : Takes d forms p q)
    (le : ∀ ts, forms ts → forms' ts) : Takes d forms' p q := by
  refine ⟨h.1, fun faithful => ?_⟩
  obtain ⟨ts, cut, form⟩ := h.2 faithful
  exact ⟨ts, cut, le ts form⟩

/-! ## Forms without blocks -/

theorem typeName_eq (p : Parser) :
    (∃ type, p.current.kind = type.name.kind ∧ typeName p = .ok type p.advance) ∨
      typeName p = .error (.unexpected "type" p.current) p := by
  unfold typeName
  split
  next kind => exact .inl ⟨⟨.int, p.current.span⟩, kind, rfl⟩
  next kind => exact .inl ⟨⟨.bool, p.current.span⟩, kind, rfl⟩
  next => exact .inr rfl

theorem pending_of_type {type : TypeName} (h : p.current.kind = type.kind) :
    p.pending = p.current :: p.advance.pending ∧ p.current.terminal = .fixed type.kind := by
  cases type <;> exact ⟨pending_of_kind h (by decide), Token.terminal_of_kind h (by decide)⟩

theorem meets_typeName : Meets typeName p fun type q =>
    Reads (fun ts => ts.map Token.terminal = [.fixed type.name.kind]) p q := by
  rcases typeName_eq p with ⟨type, kind, same⟩ | same
  · obtain ⟨cut, terminal⟩ := pending_of_type kind
    unfold Meets
    rw [same]
    exact ⟨onward_advance p, [p.current], cut, congrArg (fun t => [t]) terminal⟩
  · exact .unexpected same

theorem meets_typeAfter {sign : TokenKind} (plain : sign ≠ .identifier ∧ sign ≠ .integer)
    (more : sign ≠ .endOfInput) :
    Meets (typeAfter sign) p fun declared q =>
      Reads (fun ts => ts.map Token.terminal = typeBehind sign declared) p q := by
  refine .kind (.ite (fun is => ?_) fun _ => .pure ⟨[], rfl, rfl⟩)
  refine .advance (meets_typeName.bind fun type q _ ⟨ts, cut, terminals⟩ => .pure ?_)
  refine ⟨p.current :: ts, ?_, ?_⟩
  · rw [pending_of_kind is more, cut, List.cons_append]
  · change p.current.terminal :: ts.map Token.terminal = _
    rw [Token.terminal_of_kind is plain, terminals]
    rfl

theorem meets_letStatement (accepts : Accepts d p) (begins : p.current.kind = .kwLet) :
    Meets (letStatement .standard) p fun s q => Takes d (SitedStmt d · s) p q := by
  have start := pending_of_kind begins (by decide)
  refine .advance (.shorter (of_pending_eq_cons start).1 (.expect fun isName => ?_))
  have name := pending_of_kind isName (by decide)
  refine (meets_typeAfter (by decide) (by decide)).bind
    fun declared q step ⟨type, cut, isType⟩ => ?_
  refine .expect fun isSign => ?_
  have sign := pending_of_kind isSign (by decide)
  have before : Onward p q.advance :=
    (onward_advance p).trans ((onward_advance _).trans (step.trans (onward_advance q)))
  refine (meets_expression .default (accepts.onward before)).bind ?_
  intro value r _ ⟨⟨ts, cut', derives⟩, _⟩
  refine .expect fun isStop => .freshId fun r' _ pending _ _ => .pure fun _ =>
    ⟨_, ?_, .letVar begins isName isType isSign derives isStop⟩
  rw [start, name, cut, sign, cut', pending_of_kind isStop (by decide), pending]
  simp

theorem meets_condition (accepts : Accepts d p) :
    Meets (condition .standard) p fun e q => Reads (fun us => ∃ opening ts closing,
      us = opening :: (ts ++ [closing]) ∧ opening.kind = .openParen ∧ Sited d .assignment ts e ∧
        closing.kind = .closeParen) p q := by
  refine .expect fun opens => ?_
  refine (meets_expression .default (accepts.onward (onward_advance p))).bind ?_
  intro e q _ ⟨⟨ts, cut, derives⟩, _⟩
  refine .expectClosing fun closes => .pure ⟨_, ?_, p.current, ts, q.current, rfl, opens, derives,
    closes⟩
  rw [pending_of_kind opens (by decide), cut, pending_of_kind closes (by decide)]
  simp

theorem meets_returnStatement (accepts : Accepts d p) (begins : p.current.kind = .kwReturn) :
    Meets (returnStatement .standard) p fun s q => Takes d (SitedStmt d · s) p q := by
  have start := pending_of_kind begins (by decide)
  refine .advance (.shorter (of_pending_eq_cons start).1 ?_)
  refine .kind (.ite (fun _ => ?_) fun _ => ?_)
  · refine .expect fun isStop => .pure fun _ => ⟨_, ?_, .leave begins isStop⟩
    rw [start, pending_of_kind isStop (by decide)]
    rfl
  · have value : Meets (some <$> expression .standard .default) p.advance fun value q =>
        ∃ e, value = some e ∧ Reads (Sited d .assignment · e) p.advance q :=
      .map ((meets_expression .default (accepts.onward (onward_advance p))).imp
        fun e _ _ read => ⟨e, rfl, read.reads⟩)
    refine value.bind fun _ q _ ⟨e, same, ts, cut, derives⟩ => ?_
    subst same
    refine .expect fun isStop => .pure fun _ => ⟨_, ?_, .giveBack begins derives isStop⟩
    rw [start, cut, pending_of_kind isStop (by decide)]
    simp

theorem meets_expressionStatement (accepts : Accepts d p) :
    Meets (expressionStatement .standard) p fun s q => Takes d (SitedStmt d · s) p q := by
  refine (meets_expression .default accepts).bind fun e q _ ⟨⟨ts, cut, derives⟩, _⟩ => ?_
  refine .expect fun isStop => .pure ?_
  have whole : p.pending = (ts ++ [q.current]) ++ q.advance.pending := by
    rw [cut, pending_of_kind isStop (by decide)]
    simp
  refine ⟨?_, fun _ => ⟨_, whole, .expression derives isStop⟩⟩
  rw [length_ahead, length_ahead, whole, List.length_append, List.length_append,
    List.length_singleton]
  omega

theorem paramTerminals_cons (x : Param) {ps : List Param} (h : ps ≠ []) :
    paramTerminals (x :: ps) = x.terminals ++ .fixed .comma :: paramTerminals ps := by
  cases ps with
  | nil => exact absurd rfl h
  | cons y ps => rfl

theorem meets_commaSeparatedParams :
    ∀ (fuel : Nat) (p : Parser), p.ahead.length < fuel →
      Meets (commaSeparatedParams fuel) p fun ps q =>
        ps ≠ [] ∧ Reads (fun ts => ts.map Token.terminal = paramTerminals ps) p q
  | 0, _, less => absurd less (Nat.not_lt_zero _)
  | fuel + 1, p, less => by
    refine .expect fun isName => .expect fun isColon => ?_
    refine meets_typeName.bind fun type q step ⟨us, cut, isType⟩ => ?_
    have taken : p.pending = (p.current :: p.advance.current :: us) ++ q.pending := by
      rw [pending_of_kind isName (by decide), pending_of_kind isColon (by decide), cut]
      rfl
    have terminals : ∀ id : NodeId, (p.current :: p.advance.current :: us).map Token.terminal =
        Param.terminals ⟨id, p.current.span.join type.span, p.current.text, type⟩ := by
      intro id
      rw [List.map_cons, List.map_cons, Token.terminal_identifier isName,
        Token.terminal_of_kind isColon (by decide), isType]
      rfl
    refine .freshId fun r _ pending _ _ => .kind (.ite (fun comma => ?_) fun _ => .pure ?_)
    · have cut' := pending_of_kind comma (by decide)
      have fewer : r.advance.ahead.length < fuel := by
        rw [length_ahead, taken, ← pending, cut'] at less
        rw [length_ahead]
        simp at less
        omega
      refine .advance ((meets_commaSeparatedParams fuel _ fewer).bind ?_)
      intro ps r' _ ⟨nonempty, vs, cut'', terminals'⟩
      refine .pure ⟨List.cons_ne_nil _ _,
        p.current :: p.advance.current :: us ++ r.current :: vs, ?_, ?_⟩
      · rw [taken, ← pending, cut', cut'']
        simp
      · rw [paramTerminals_cons _ nonempty, ← terminals, ← terminals',
          ← Token.terminal_of_kind comma (by decide)]
        exact List.map_append
    · exact ⟨List.cons_ne_nil _ _, _, by rw [taken, pending], terminals _⟩

theorem meets_params : Meets params p fun ps q =>
    Reads (fun ts => ts.map Token.terminal = paramTerminals ps) p q := by
  refine .kind (.ite (fun _ => .pure ⟨[], rfl, rfl⟩) fun _ => .bounded ?_)
  exact (meets_commaSeparatedParams _ p (Nat.lt_succ_of_le p.length_ahead_le)).imp
    fun _ _ _ ⟨_, reads⟩ => reads

/-! ## Blocks and the forms around them -/

/-- Tokens form a statement inside of as many blocks. -/
def SitedAt (d : Dialect) (depth : Nat) (ts : List Token) (s : Stmt) : Prop :=
  SitedStmt d ts s ∨ depth = 0 ∧ SitedTop d ts s

/-- A parser of statements takes what is derived, as long as less than `fuel` terminals are
ahead. -/
def SoundStmt (d : Dialect) (inner : Parser → Stmt × Parser) (fuel : Nat) : Prop :=
  ∀ p : Parser, Accepts d p → p.ahead ≠ [] → p.ahead.length < fuel →
    Onward p (inner p).2 ∧ Takes d (SitedAt d p.blockDepth · (inner p).1) p (inner p).2

/-- A parser of blocks takes what is derived, as long as no more than `fuel` terminals are ahead. -/
def SoundBlock (d : Dialect) (blockOf : Parse Block) (fuel : Nat) : Prop :=
  ∀ p : Parser, Accepts d p → p.ahead.length ≤ fuel →
    Meets blockOf p fun b q => Takes d (UpTo q (SitedBlock d · b)) p q

variable {inner : Parser → Stmt × Parser} {blockOf : Parse Block} {bound : Nat}

/-- The statements of a block are read up to its end, or to that of the input. -/
theorem statements_sound (h : SoundStmt d inner bound) :
    ∀ (fuel : Nat) {p : Parser}, Accepts d p → p.ahead.length < fuel → p.ahead.length < bound →
      0 < p.blockDepth →
      Onward p (statements inner fuel p).2 ∧
        ((statements inner fuel p).2.current.kind = .closeCurly ∨
          (statements inner fuel p).2.atEnd = true) ∧
        (Faithful d p (statements inner fuel p).2 →
          Reads (SitedBody d · (statements inner fuel p).1) p (statements inner fuel p).2)
  | 0, _, _, less, _, _ => absurd less (Nat.not_lt_zero _)
  | fuel + 1, p, accepts, less, below, inside => by
    rw [statements]
    split
    next stop => exact ⟨.refl p, stop, fun _ => ⟨[], rfl, .nil⟩⟩
    next more =>
      have nonempty : p.ahead ≠ [] := fun nothing => more (.inr (atEnd_of_ahead_eq_nil nothing))
      obtain ⟨step, fewer, reads⟩ := h p accepts nonempty below
      obtain ⟨step', stop, reads'⟩ := statements_sound h fuel (accepts.onward step) (by omega)
        (by omega) (step.blockDepth ▸ inside)
      refine ⟨step.trans step', stop, fun faithful => ?_⟩
      obtain ⟨first, rest⟩ := faithful.split step step'
      obtain ⟨ts, cut, derives⟩ := reads first
      obtain ⟨us, cut', derives'⟩ := reads' rest
      rcases derives with derives | ⟨outside, -⟩
      · refine ⟨ts ++ us, ?_, .cons derives derives'⟩
        rw [cut, cut', List.append_assoc]
      · omega

theorem meets_blockBody (h : SoundStmt d inner bound) (accepts : Accepts d p)
    (below : p.ahead.length < bound) :
    Meets (blockBody inner) p fun body q =>
      (q.current.kind = .closeCurly ∨ q.atEnd = true) ∧
        (Faithful d p q → Reads (SitedBody d · body) p q) := by
  obtain ⟨step, stop, reads⟩ := statements_sound h (p.remaining + 1)
    (p := { p with blockDepth := p.blockDepth + 1 }) accepts
    (Nat.lt_succ_of_le p.length_ahead_le) below (Nat.succ_pos _)
  refine ⟨⟨step.pending, step.consumed, ?_, step.errors, step.reportedEnd, step.cancelled⟩, stop,
    ?_⟩
  · exact Nat.sub_eq_of_eq_add step.blockDepth
  · intro faithful
    refine reads (faithful.imp id fun ⟨loud, same⟩ => ⟨?_, same⟩)
    exact ⟨loud.known, loud.unreported, loud.uncancelled⟩

theorem previousSpan_advance {p : Parser} (more : p.atEnd = false) :
    p.advance.previousSpan = p.current.span := by
  cases rest : p.upcoming <;> simp [Parser.advance, more, rest]

/-- A block begins with a token of its own, so that fewer are left for the statements in it. -/
theorem soundBlock_block (h : SoundStmt d inner bound) : SoundBlock d (block inner) bound := by
  intro p accepts le
  refine .expect fun opens => ?_
  have opening := pending_of_kind opens (by decide)
  have more := (of_pending_eq_cons opening).1
  have fewer := length_ahead_advance_lt more
  refine .shorter more (.freshId fun q step pending _ _ => ?_)
  have below : q.ahead.length < bound := by
    rw [length_ahead, pending, ← length_ahead]
    omega
  have accepts' := (accepts.onward (onward_advance p)).onward step
  refine (meets_blockBody h accepts' below).bind fun body r step' ⟨stop, reads⟩ => .kind ?_
  refine .ite (fun _ => .failUnterminated) fun more => .advance (.pure fun faithful => ?_)
  have closes : r.current.kind = .closeCurly := by
    refine stop.resolve_right fun atEnd => more ?_
    exact beq_iff_eq.1 atEnd
  have closing := pending_of_kind closes (by decide)
  have middle := (onward_advance p).trans step
  obtain ⟨-, later⟩ := faithful.split middle (step'.trans (onward_advance r))
  obtain ⟨inside, -⟩ := later.split step' (onward_advance r)
  obtain ⟨ts, cut, derives⟩ := reads inside
  refine ⟨p.current :: (ts ++ [r.current]), ?_, .mk opens derives closes, fun before => ?_⟩
  · rw [opening, ← pending, cut, closing]
    simp
  · rw [previousSpan_advance (of_pending_eq_cons closing).1]
    simp [Token.lastSpan]

theorem meets_ifStatement (h : SoundBlock d blockOf bound) :
    ∀ (fuel : Nat) {p : Parser}, Accepts d p → p.ahead.length ≤ bound → p.current.kind = .kwIf →
      Meets (ifStatement .standard blockOf fuel) p fun s q =>
        Takes d (UpTo q (SitedChoice d · s)) p q
  | 0, _, _, _, _ => .unexpected rfl
  | fuel + 1, p, accepts, le, begins => by
    have start := pending_of_kind begins (by decide)
    refine .advance (.shorter (of_pending_eq_cons start).1 ?_)
    have step₁ := onward_advance p
    refine (meets_condition (accepts.onward step₁)).bind ?_
    intro test q₂ step ⟨us, cut₂, opening, ts, closing, same, opens, test', closes⟩
    subst same
    have step₂ := step₁.trans step
    refine (h q₂ (accepts.onward step₂) (step₂.length_le.trans le)).bind ?_
    intro yes q₃ toThird ⟨_, reads₃⟩
    have step₃ := step₂.trans toThird
    refine .kind (.ite (fun otherwise => ?_) fun _ => .lastSpan (.pure fun faithful => ?_))
    · have cut₄ := pending_of_kind otherwise (by decide)
      have toFourth := onward_advance q₃
      have step₄ := step₃.trans toFourth
      -- The other branch is a block or a choice again; both are put behind what was read so far.
      have close : ∀ (other : Stmt) (q : Parser), Onward q₃.advance q →
          (Faithful d q₃.advance q → Reads (UpTo q fun vs =>
            SitedChoice d vs other ∨ ∃ b, other = .block b ∧ SitedBlock d vs b) q₃.advance q) →
          Meets (do
            return Stmt.ifThenElse (p.current.span.join (← previousSpan)) test yes other) q
            fun s r => Faithful d p r → Reads (UpTo r (SitedChoice d · s)) p r := by
        intro other q toLast reads₅
        refine .lastSpan (.pure fun faithful => ?_)
        obtain ⟨before, last⟩ := faithful.split step₄ toLast
        obtain ⟨-, second⟩ := before.split step₂ (toThird.trans toFourth)
        obtain ⟨us, cut₃, yes', -⟩ := reads₃ (second.split toThird toFourth).1
        obtain ⟨vs, cut₅, other', upTo⟩ := reads₅ last
        have behind : vs <:+ opening :: (ts ++ closing :: (us ++ q₃.current :: vs)) :=
          ⟨opening :: (ts ++ closing :: (us ++ [q₃.current])), by simp⟩
        have reach : Token.reach (p.current :: opening ::
            (ts ++ closing :: (us ++ q₃.current :: vs))) = p.current.span.join q.previousSpan :=
          Token.reach_of_suffix behind upTo
        refine ⟨p.current :: opening :: (ts ++ closing :: (us ++ q₃.current :: vs)), ?_, ?_,
          fun before => ?_⟩
        · rw [start, cut₂, cut₃, cut₄, cut₅]
          simp
        · rw [← reach]
          rcases other' with other' | ⟨b, rfl, other'⟩
          · exact .elseIf begins opens test' closes yes' otherwise other'
          · exact .ifThenElse begins opens test' closes yes' otherwise other'
        · exact Token.lastSpan_of_suffix (behind.trans (List.suffix_cons ..)) upTo before
      refine .advance (.kind (.ite (fun again => ?_) fun _ => ?_))
      · have choice := meets_ifStatement h fuel (accepts.onward step₄)
          (step₄.length_le.trans le) again
        refine choice.bind fun other q toLast ⟨_, reads₅⟩ => close other q toLast fun faithful => ?_
        obtain ⟨vs, cut₅, other', upTo⟩ := reads₅ faithful
        exact ⟨vs, cut₅, .inl other', upTo⟩
      · have block := h q₃.advance (accepts.onward step₄) (step₄.length_le.trans le)
        have inner : Meets (Stmt.block <$> blockOf) q₃.advance fun other q =>
            ∃ b, other = .block b ∧
              (Faithful d q₃.advance q → Reads (UpTo q (SitedBlock d · b)) q₃.advance q) :=
          .map (block.imp fun b _ _ took => ⟨b, rfl, took.2⟩)
        refine inner.bind fun other q toLast ⟨b, same, reads₅⟩ => close other q toLast ?_
        intro faithful
        obtain ⟨vs, cut₅, other', upTo⟩ := reads₅ faithful
        exact ⟨vs, cut₅, .inr ⟨b, same, other'⟩, upTo⟩
    · obtain ⟨us, cut₃, yes', upTo⟩ := reads₃ (faithful.split step₂ toThird).2
      have behind : us <:+ opening :: (ts ++ closing :: us) :=
        ⟨opening :: (ts ++ [closing]), by simp⟩
      have reach : Token.reach (p.current :: opening :: (ts ++ closing :: us)) =
          p.current.span.join q₃.previousSpan :=
        Token.reach_of_suffix behind upTo
      refine ⟨p.current :: opening :: (ts ++ closing :: us), ?_, ?_, fun before => ?_⟩
      · rw [start, cut₂, cut₃]
        simp
      · rw [← reach]
        exact .ifThen begins opens test' closes yes'
      · exact Token.lastSpan_of_suffix (behind.trans (List.suffix_cons ..)) upTo before

theorem meets_whileStatement (h : SoundBlock d blockOf bound) (accepts : Accepts d p)
    (le : p.ahead.length ≤ bound) (begins : p.current.kind = .kwWhile) :
    Meets (whileStatement .standard blockOf) p fun s q => Takes d (SitedStmt d · s) p q := by
  have start := pending_of_kind begins (by decide)
  have step₁ := onward_advance p
  refine .advance (.shorter (of_pending_eq_cons start).1 ?_)
  refine (meets_condition (accepts.onward step₁)).bind ?_
  intro test q₂ step ⟨_, cut₂, opening, ts, closing, same, opens, test', closes⟩
  subst same
  have step₂ := step₁.trans step
  refine (h q₂ (accepts.onward step₂) (step₂.length_le.trans le)).bind ?_
  intro body q₃ toThird ⟨_, reads₃⟩
  refine .pure fun faithful => ?_
  obtain ⟨us, cut₃, body', -⟩ := reads₃ (faithful.split step₂ toThird).2
  refine ⟨_, ?_, .whileLoop begins opens test' closes body'⟩
  rw [start, cut₂, cut₃]
  simp

/-- Where an error was found, an error placeholder may stand if it was not lost. -/
theorem Faithful.error {depth : Nat} (faithful : Faithful d p q) (step : Onward p q)
    (more : p.errors < q.errors) (span : Span) : Reads (SitedAt d depth · (.error span)) p q := by
  obtain ⟨ts, cut⟩ := step.pending
  rcases faithful with any | ⟨-, same⟩
  · exact ⟨ts, cut.symm, .inl (.error (any _))⟩
  · omega

/-- A function inside of a block is an error. -/
theorem meets_functionStatement (h : SoundBlock d blockOf bound) (accepts : Accepts d p)
    (le : p.ahead.length ≤ bound) (begins : p.current.kind = .kwFn) :
    Meets (functionStatement blockOf) p fun s q => Takes d (SitedAt d p.blockDepth · s) p q := by
  have start := pending_of_kind begins (by decide)
  have outcome : Meets (functionStatement blockOf) p fun s q => q.ahead.length < p.ahead.length ∧
      ((∃ span, s = .error span) ∧ p.errors < q.errors ∨
        p.blockDepth = 0 ∧ (Faithful d p q → Reads (SitedTop d · s) p q)) := by
    refine .advance (.shorter (of_pending_eq_cons start).1 ?_)
    refine .expect fun isName => .expect fun opens => ?_
    have step₁ := (onward_advance p).trans ((onward_advance _).trans (onward_advance _))
    refine meets_params.bind fun parameters q₂ step ⟨params, cut₂, areParams⟩ => ?_
    refine .expectClosing fun closes => ?_
    have step₂ := step₁.trans (step.trans (onward_advance q₂))
    refine (meets_typeAfter (by decide) (by decide)).bind
      fun result q₃ step ⟨type, cut₃, isType⟩ => .depth ?_
    have step₃ := step₂.trans step
    refine (h q₃ (accepts.onward step₃) (step₃.length_le.trans le)).bind ?_
    intro body q₄ toFourth ⟨_, reads₄⟩
    have step₄ := step₃.trans toFourth
    refine .ite (fun _ => ?_) fun outside => ?_
    · refine .complain rfl fun q₅ more => .pure (.inl ⟨⟨_, rfl⟩, ?_⟩)
      exact step₄.errors.trans_lt more
    · have depth : p.blockDepth = 0 := by
        rw [← step₃.blockDepth]
        omega
      refine .freshId fun q₅ toLast pending _ _ => .pure (.inr ⟨depth, fun faithful => ?_⟩)
      obtain ⟨-, later⟩ := faithful.split step₃ (toFourth.trans toLast)
      obtain ⟨ts, cut₄, body', -⟩ := reads₄ (later.split toFourth toLast).1
      have isHeader : (p.current :: p.advance.current :: p.advance.advance.current ::
          (params ++ q₂.current :: type)).map Token.terminal = FunctionHeader.terminals
            ⟨q₄.nextId, p.advance.current.text, p.advance.current.span, parameters, result⟩ := by
        rw [List.map_cons, List.map_cons, List.map_cons, Token.terminal_of_kind begins (by decide),
          Token.terminal_identifier isName, Terminal.map_inParens opens closes, areParams, isType]
        rfl
      refine ⟨_, ?_, .function isHeader body'⟩
      rw [start, pending_of_kind isName (by decide), pending_of_kind opens (by decide), cut₂,
        pending_of_kind closes (by decide), cut₃, cut₄, pending]
      simp
  refine outcome.imp fun s q step ⟨fewer, result⟩ => ⟨fewer, fun faithful => ?_⟩
  rcases result with ⟨⟨span, rfl⟩, more⟩ | ⟨outside, reads⟩
  · exact faithful.error step more span
  · obtain ⟨ts, cut, derives⟩ := reads faithful
    exact ⟨ts, cut, .inr ⟨outside, derives⟩⟩

theorem meets_statementForm (h : SoundStmt d inner bound) (accepts : Accepts d p)
    (le : p.ahead.length ≤ bound) {rule : StatementRule}
    (begins : Grammar.standard.statementRule p.current.kind = some rule) :
    Meets (statementForm .standard inner rule) p fun s q =>
      Takes d (SitedAt d p.blockDepth · s) p q := by
  have blocks := soundBlock_block h
  obtain ⟨kind, is⟩ : ∃ kind, p.current.kind = kind := ⟨_, rfl⟩
  rw [is] at begins
  cases rule with
  | letVar =>
    have begins : p.current.kind = .kwLet := by cases kind <;> simp_all [Grammar.standard]
    exact (meets_letStatement accepts begins).imp fun _ _ _ took => took.imp fun _ => .inl
  | ifElse =>
    have begins : p.current.kind = .kwIf := by cases kind <;> simp_all [Grammar.standard]
    exact .bounded ((meets_ifStatement blocks _ accepts le begins).imp fun _ _ _ took =>
      took.imp fun _ choice => .inl (.choice choice.1))
  | whileLoop =>
    have begins : p.current.kind = .kwWhile := by cases kind <;> simp_all [Grammar.standard]
    exact (meets_whileStatement blocks accepts le begins).imp fun _ _ _ took =>
      took.imp fun _ => .inl
  | block =>
    exact .map ((blocks p accepts le).imp fun _ _ _ took =>
      took.imp fun _ block => .inl (.block block.1))
  | function =>
    have begins : p.current.kind = .kwFn := by cases kind <;> simp_all [Grammar.standard]
    exact meets_functionStatement blocks accepts le begins
  | ret =>
    have begins : p.current.kind = .kwReturn := by cases kind <;> simp_all [Grammar.standard]
    exact (meets_returnStatement accepts begins).imp fun _ _ _ took => took.imp fun _ => .inl

theorem meets_statementWith (h : SoundStmt d inner bound) (accepts : Accepts d p)
    (le : p.ahead.length ≤ bound) :
    Meets (statementWith .standard inner) p fun s q =>
      Takes d (SitedAt d p.blockDepth · s) p q := by
  refine .kind ?_
  split
  next rule begins => exact meets_statementForm h accepts le begins
  next =>
    exact (meets_expressionStatement accepts).imp fun _ _ _ took => took.imp fun _ => .inl

/-! ## Recovery -/

theorem onward_synchronizeFrom :
    ∀ (fuel depth : Nat) (p : Parser), Onward p (p.synchronizeFrom fuel depth)
  | 0, _, p => .refl p
  | fuel + 1, depth, p => by
    have step := onward_advance p
    have next : ∀ depth, Onward p (p.advance.synchronizeFrom fuel depth) := fun depth =>
      step.trans (onward_synchronizeFrom fuel depth p.advance)
    unfold Parser.synchronizeFrom
    split
    · exact .refl p
    · split
      · exact step
      · exact next depth
    · exact next (depth + 1)
    · split
      · exact .refl p
      · exact step
      · exact next _
    · exact next depth

/-- Recovery leaves fewer terminals ahead than there were where the statement began. -/
theorem recover_takes {e : SyntaxError} (step : Onward p (q.report e)) (nonempty : p.ahead ≠ []) :
    Onward (q.report e) (recover p e q).2 ∧ (recover p e q).2.ahead.length < p.ahead.length := by
  have skips : Onward (q.report e) (q.report e).synchronize := onward_synchronizeFrom _ 0 _
  have whole := step.trans skips
  unfold recover
  simp only
  split
  next stays =>
    have same := whole.consumed
    rw [stays] at same
    have more : (q.report e).synchronize.atEnd = false := by
      cases atEnd : (q.report e).synchronize.atEnd with
      | false => rfl
      | true =>
        rw [ahead_of_atEnd atEnd] at same
        exact absurd (List.length_eq_zero_iff.1 (by simpa using same.symm)) nonempty
    refine ⟨skips.trans (onward_advance _), ?_⟩
    have := length_ahead_advance_lt more
    omega
  next moved =>
    refine ⟨skips, ?_⟩
    have := whole.consumed
    have := whole.length_le
    omega

theorem recovering_sound {action : Parse Stmt} (nonempty : p.ahead ≠ [])
    (h : Meets action p fun s q => Takes d (SitedAt d p.blockDepth · s) p q) :
    Onward p (recovering action p).2 ∧
      Takes d (SitedAt d p.blockDepth · (recovering action p).1) p (recovering action p).2 := by
  unfold Meets at h
  unfold recovering
  cases outcome : action p with
  | ok s q =>
    rw [outcome] at h
    exact h
  | error e q =>
    rw [outcome] at h
    obtain ⟨step, found⟩ := h
    obtain ⟨onto, fewer⟩ := recover_takes step nonempty
    have whole := step.trans onto
    refine ⟨whole, fewer, fun faithful => ?_⟩
    obtain ⟨ts, cut⟩ := whole.pending
    rcases faithful with any | ⟨loud, same⟩
    · exact ⟨ts, cut.symm, .inl (.error (any _))⟩
    · have := (found loud).trans_le onto.errors
      exact absurd same this.ne'

theorem soundStmt_statementOrErrorFrom (d : Dialect) :
    ∀ fuel : Nat, SoundStmt d (statementOrErrorFrom .standard fuel) fuel
  | 0, _, _, _, less => absurd less (Nat.not_lt_zero _)
  | fuel + 1, _, accepts, nonempty, less =>
    recovering_sound nonempty (meets_statementWith (soundStmt_statementOrErrorFrom d fuel) accepts
      (Nat.le_of_lt_succ less))

/-! ## Programs -/

/-- A cancellation that a checkpoint sees is an error. -/
theorem onward_checkpoint (p : Parser) (span : Span) :
    Onward p { p with session := (p.session.checkpoint span).2 } ∧
      ((p.session.checkpoint span).1 = false → p.session.cancelled = false →
        p.errors < (p.session.checkpoint span).2.errorCount) := by
  unfold Session.checkpoint
  split
  next seen =>
    refine ⟨.refl p, fun _ unseen => ?_⟩
    rw [seen] at unseen
    cases unseen
  next unseen =>
    split
    next => exact ⟨.refl p, fun stopped => by cases stopped⟩
    next => exact ⟨onward_session le_rfl .inl, fun stopped => by cases stopped⟩
    next =>
      have more : p.errors < (p.session.report .cancelled span).errorCount := by
        rw [errorCount_report]
        exact Nat.lt_succ_self _
      exact ⟨onward_session more.le fun _ => .inr more, fun _ _ => more⟩

/-- What is read at the top level: statements that are derived if nothing was lost. A parser that
stays loud and finds no error gets to the end. -/
structure ReadsProgram (d : Dialect) (ss : List Stmt) (p q : Parser) : Prop where
  onward : Onward p q
  reads : Faithful d p q → Reads (SitedProgram d · ss) p q
  ends : p.Loud → q.errors = p.errors → q.ahead = []

theorem ReadsProgram.cons {s : Stmt} {ss : List Stmt} (step : Onward p q)
    (first : Takes d (SitedAt d p.blockDepth · s) p q)
    (rest : ReadsProgram d ss q r) : ReadsProgram d (s :: ss) p r := by
  refine ⟨step.trans rest.onward, fun faithful => ?_, fun loud same => ?_⟩
  · obtain ⟨before, after⟩ := faithful.split step rest.onward
    obtain ⟨ts, cut, derives⟩ := first.2 before
    obtain ⟨us, cut', derives'⟩ := rest.reads after
    have top : SitedTop d ts s := derives.elim .inner fun inner => inner.2
    refine ⟨ts ++ us, ?_, .cons top derives'⟩
    rw [cut, cut', List.append_assoc]
  · have before := step.errors
    have after := rest.onward.errors
    exact rest.ends (step.loud loud (by omega)) (by omega)

theorem topLevel_sound (d : Dialect) :
    ∀ (fuel : Nat) {p : Parser}, Accepts d p → p.ahead.length < fuel → p.blockDepth = 0 →
      ReadsProgram d (topLevel .standard fuel p).1 p (topLevel .standard fuel p).2
  | 0, _, _, less, _ => absurd less (Nat.not_lt_zero _)
  | fuel + 1, p, accepts, less, outside => by
    rw [topLevel]
    split
    next atEnd => exact ⟨.refl p, fun _ => ⟨[], rfl, .nil⟩, fun _ _ => ahead_of_atEnd atEnd⟩
    next more =>
      have nonempty : p.ahead ≠ [] := fun nothing => more (atEnd_of_ahead_eq_nil nothing)
      obtain ⟨asked, stopped⟩ := onward_checkpoint p p.current.span
      simp only
      split
      next passed =>
        obtain ⟨step, took⟩ := soundStmt_statementOrErrorFrom d _ _ (accepts.onward asked) nonempty
          (Nat.lt_succ_of_le (length_ahead_le _))
        have left := took.1.trans_le asked.length_le
        have rest := topLevel_sound d fuel ((accepts.onward asked).onward step)
          (left.trans_le (Nat.le_of_lt_succ less)) (step.blockDepth.trans outside)
        have later := rest.cons step took
        refine ⟨asked.trans later.onward, fun faithful => ?_, fun loud same => ?_⟩
        · exact later.reads (faithful.split asked later.onward).2
        · have before := asked.errors
          have after := later.onward.errors
          have unchanged := Nat.le_antisymm (after.trans same.le) before
          exact later.ends (asked.loud loud unchanged) (same.trans unchanged.symm)
      next failed =>
        refine ⟨asked, fun _ => ⟨[], rfl, .nil⟩, fun loud same => ?_⟩
        have found := stopped (Bool.eq_false_of_not_eq_true failed) loud.uncancelled
        exact absurd same found.ne'

end Parse

/-- A session in which no cancellation was seen, at the first of the tokens. -/
theorem Parser.onward_start {tokens : List Delivery} {s : Session} :
    (Parser.start tokens s).ahead = terminals (tokens.map Delivery.token) ∧
      (Parser.start tokens s).blockDepth = 0 ∧ (Parser.start tokens s).reportedEnd = false ∧
      (Parser.start tokens s).session.cancelled = s.cancelled ∧
      s.errorCount ≤ (Parser.start tokens s).errors := by
  cases tokens with
  | nil => exact ⟨rfl, rfl, rfl, rfl, le_rfl⟩
  | cons d rest =>
    exact ⟨rfl, rfl, rfl, Parser.cancelled_notify d s, Parser.errorCount_notify d s⟩

theorem Parser.pending_start (tokens : List Delivery) (s : Session) :
    (Parser.start tokens s).pending =
      (tokens.map Delivery.token).takeWhile (·.kind ≠ .endOfInput) := by
  cases tokens <;> rfl

/-- Whatever is parsed is derived from a beginning of the tokens, if error placeholders may stand
for anything. -/
theorem parse_derives_any (tokens : List Delivery) (s : Session) :
    ∃ ts, ts <+: terminals (tokens.map Delivery.token) ∧
      DerivesProgram ⟨Enclosed, fun _ => True⟩ ts (parse tokens s).program.body := by
  obtain ⟨ahead, outside, -⟩ := @Parser.onward_start tokens s
  have read := Parse.topLevel_sound ⟨Enclosed, fun _ => True⟩ _
    (p := Parser.start tokens s) (fun _ _ enclosed _ => enclosed)
    (Nat.lt_succ_of_le (Parser.length_ahead_le _)) outside
  obtain ⟨ts, cut, sited⟩ := read.reads (.inl fun _ => trivial)
  refine ⟨ts.map Token.terminal, ?_, sited.derives⟩
  rw [← ahead, Parser.ahead_eq_map_pending, cut, List.map_append]
  exact List.prefix_append ..

/-- What a valid parse gives is derived in place from all of the tokens. -/
theorem parse_sited {d : Dialect} {tokens : List Delivery} {s : Session}
    (known : ∀ t ∈ terminals (tokens.map Delivery.token), t.kind ≠ .unknown)
    (uncancelled : s.cancelled = false)
    (accepts : ∀ ts x, Enclosed ts x →
      ts ++ [.fixed .assignment] <:+: terminals (tokens.map Delivery.token) → d.target ts x)
    (valid : (parse tokens s).valid = true) :
    SitedProgram d ((tokens.map Delivery.token).takeWhile (·.kind ≠ .endOfInput))
      (parse tokens s).program.body := by
  obtain ⟨ahead, outside, unreported, cancelled, before⟩ :=
    @Parser.onward_start tokens s
  have loud : (Parser.start tokens s).Loud :=
    ⟨ahead ▸ known, unreported, cancelled.trans uncancelled⟩
  have read := Parse.topLevel_sound d _ (p := Parser.start tokens s)
    (fun ts x enclosed mem => accepts ts x enclosed (ahead ▸ mem))
    (Nat.lt_succ_of_le (Parser.length_ahead_le _)) outside
  have after := read.onward.errors
  have none : (parse tokens s).session.errorCount = s.errorCount := beq_iff_eq.1 valid
  have same : (parse tokens s).session.errorCount = (Parser.start tokens s).errors := by
    refine Nat.le_antisymm ?_ after
    omega
  obtain ⟨ts, cut, sited⟩ := read.reads (.inr ⟨loud, same⟩)
  have nothing : (Parse.topLevel .standard ((Parser.start tokens s).remaining + 1)
      (Parser.start tokens s)).2.pending = [] := List.map_eq_nil_iff.1 (read.ends loud same)
  rw [nothing, List.append_nil, Parser.pending_start] at cut
  rw [cut]
  exact sited

/-- What a valid parse gives is derived from all of the tokens. -/
theorem parse_derives {d : Dialect} {tokens : List Delivery} {s : Session}
    (known : ∀ t ∈ terminals (tokens.map Delivery.token), t.kind ≠ .unknown)
    (uncancelled : s.cancelled = false)
    (accepts : ∀ ts x, Enclosed ts x →
      ts ++ [.fixed .assignment] <:+: terminals (tokens.map Delivery.token) → d.target ts x)
    (valid : (parse tokens s).valid = true) :
    DerivesProgram d (terminals (tokens.map Delivery.token)) (parse tokens s).program.body :=
  (parse_sited known uncancelled accepts valid).derives

end MiniLang
