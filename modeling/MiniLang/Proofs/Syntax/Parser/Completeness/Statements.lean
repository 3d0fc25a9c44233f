import MiniLang.Proofs.Syntax.Parser.Completeness.Expressions

/-!
# Which programs are read, and as what

A parser that nobody disturbs reads every program that is derived from the tokens, up to numbers and
places, and skips what placeholders in it stand for (`DerivesProgram.parses_recovers`). If a
placeholder stands for the mark that it is printed as, then the parser complains about the first
token of the mark, and one error is recorded for each of them (`DerivesProgram.parses`).
-/

set_option autoImplicit false

namespace MiniLang

/-- Only marks stand for error placeholders. -/
def Dialect.MarksErrors (d : Dialect) : Prop := ∀ ts, d.placeholder ts → ts = errorMark

namespace Parse

open MiniLang.Parser

variable {d : Dialect} {p q : Parser} {rest : List Terminal}

/-! ## Forms without blocks -/

theorem gives_condition (names : d.NamesTargets) {ts : List Terminal} {e : Expr}
    (h : Derives d .assignment ts e) (calm : p.Calm)
    (cut : p.ahead = Terminal.inParens ts ++ rest) :
    Gives 0 (condition .standard) p (fun e' => e'.bare = e.bare) rest := by
  have cut' : p.ahead = .fixed .openParen :: (ts ++ .fixed .closeParen :: rest) := by
    simpa [Terminal.inParens] using cut
  refine .expect calm cut' rfl fun _ q ahead calm _ => ?_
  refine (h.gives names calm ahead rfl (by decide)).andThen fun e' r same ahead calm _ => ?_
  exact .expectClosing calm ahead rfl fun _ r' ahead calm _ => .pure calm ahead same

theorem gives_typeName {type : WrittenType} (calm : p.Calm)
    (cut : p.ahead = .fixed type.name.kind :: rest) :
    Gives 0 typeName p (fun type' => type'.bare = type.bare) rest := by
  have kind : p.current.kind = type.name.kind := kind_of_ahead_eq_cons cut
  have gets := gets_advance calm cut
  obtain ⟨name, span⟩ := type
  cases name with
  | int =>
    refine ⟨⟨.int, p.current.span⟩, p.advance, ?_, rfl, gets⟩
    unfold typeName
    rw [kind]
    rfl
  | bool =>
    refine ⟨⟨.bool, p.current.span⟩, p.advance, ?_, rfl, gets⟩
    unfold typeName
    rw [kind]
    rfl

/-- A type behind a sign, or nothing if the sign is not ahead. -/
theorem gives_typeAfter {sign : TokenKind} {declared : Option WrittenType} (calm : p.Calm)
    (cut : p.ahead = typeBehind sign declared ++ rest)
    (noSign : ∀ t us, rest = t :: us → t.kind ≠ sign) (more : sign ≠ .endOfInput) :
    Gives 0 (typeAfter sign) p
      (fun declared' => declared'.map WrittenType.bare = declared.map WrittenType.bare) rest := by
  cases declared with
  | none =>
    have cut : p.ahead = rest := cut
    have kind : p.current.kind ≠ sign := by
      intro is
      have present : p.atEnd = false := by simpa [atEnd, is] using more
      have first := ahead_of_not_atEnd present
      rw [cut] at first
      exact noSign _ _ first ((Token.kind_terminal _).trans is)
    refine .kind ?_
    rw [if_neg kind]
    exact .pure calm cut rfl
  | some type =>
    have cut : p.ahead = .fixed sign :: .fixed type.name.kind :: rest := cut
    have kind : p.current.kind = sign := kind_of_ahead_eq_cons cut
    refine .kind ?_
    rw [if_pos kind]
    refine .advance calm cut fun _ q ahead calm _ => ?_
    refine (gives_typeName calm ahead).andThen fun type' r same ahead calm _ => ?_
    refine .pure calm ahead ?_
    rw [Option.map_some, Option.map_some, same]

theorem gives_letStatement (names : d.NamesTargets) {ts : List Terminal} {x : String}
    {declared : Option WrittenType} {value : Expr} (h : Derives d .assignment ts value)
    (calm : p.Calm)
    (cut : p.ahead = .fixed .kwLet :: .identifier x ::
      (typeBehind .colon declared ++ .fixed .assignment :: (ts ++ .fixed .semicolon :: rest))) :
    Gives 0 (letStatement .standard) p
      (fun s => s.bare = (Stmt.letVar 0 .origin x .origin declared value).bare) rest := by
  refine .advance calm cut fun _ q₁ ahead calm _ => ?_
  refine .expect calm ahead rfl fun name q₂ ahead calm _ => ?_
  have noSign : ∀ t us, .fixed .assignment :: (ts ++ .fixed .semicolon :: rest) = t :: us →
      t.kind ≠ .colon := by
    rintro t us same
    obtain ⟨rfl, -⟩ := List.cons.inj same
    decide
  refine (gives_typeAfter calm ahead noSign (by decide)).andThen ?_
  intro declared' q₃ same ahead calm _
  refine .expect calm ahead rfl fun _ q₄ ahead calm _ => ?_
  refine (h.gives names calm ahead rfl (by decide)).andThen fun value' q₅ same' ahead calm _ => ?_
  refine .expect calm ahead rfl fun _ q₆ ahead calm _ => ?_
  refine .freshId calm fun q₇ ahead' calm _ => .pure calm (ahead'.trans ahead) ?_
  rw [Stmt.bare, Stmt.bare, Token.text_of_terminal name, same, same']

theorem gives_returnStatement (names : d.NamesTargets) {ts : List Terminal} {e : Expr}
    (h : Derives d .assignment ts e) (calm : p.Calm)
    (cut : p.ahead = .fixed .kwReturn :: (ts ++ .fixed .semicolon :: rest)) :
    Gives 0 (returnStatement .standard) p (fun s => s.bare = (Stmt.ret .origin (some e)).bare)
      rest := by
  refine .advance calm cut fun _ q₁ ahead calm _ => .kind ?_
  have kind : q₁.current.kind ≠ .semicolon := by
    obtain ⟨t, us, first, begins⟩ := h.begins names
    rw [first] at ahead
    rw [kind_of_ahead_eq_cons ahead]
    intro same
    rw [same] at begins
    exact absurd begins (by decide)
  rw [if_neg kind]
  have value : Gives 0 (some <$> expression .standard .default) q₁
      (fun value => value.map Expr.bare = some e.bare) (.fixed .semicolon :: rest) := by
    obtain ⟨e', q, result, same, gets⟩ := h.gives names calm ahead rfl (by decide)
    exact .map ⟨e', q, result, congrArg some same, gets⟩
  refine value.andThen fun value q₂ same ahead calm _ => ?_
  refine .expect calm ahead rfl fun _ q₃ ahead calm _ => .pure calm ahead ?_
  rw [Stmt.bare, Stmt.bare, same]
  rfl

theorem gives_returnNothing (calm : p.Calm)
    (cut : p.ahead = .fixed .kwReturn :: .fixed .semicolon :: rest) :
    Gives 0 (returnStatement .standard) p (fun s => s.bare = (Stmt.ret .origin none).bare)
      rest := by
  refine .advance calm cut fun _ q₁ ahead calm _ => .kind ?_
  have kind : q₁.current.kind = .semicolon := kind_of_ahead_eq_cons ahead
  rw [if_pos kind]
  exact .expect calm ahead rfl fun _ q₂ ahead calm _ => .pure calm ahead rfl

theorem gives_expressionStatement (names : d.NamesTargets) {ts : List Terminal} {e : Expr}
    (h : Derives d .assignment ts e) (calm : p.Calm)
    (cut : p.ahead = ts ++ .fixed .semicolon :: rest) :
    Gives 0 (expressionStatement .standard) p
      (fun s => s.bare = (Stmt.expression .origin e).bare) rest := by
  refine (h.gives names calm cut rfl (by decide)).andThen fun e' q₁ same ahead calm _ => ?_
  refine .expect calm ahead rfl fun _ q₂ ahead calm _ => .pure calm ahead ?_
  rw [Stmt.bare, Stmt.bare, same]

theorem gives_firstParam {x : Param} {mid : List Terminal} {rounds : Nat}
    {holds : List Param → Prop} (calm : p.Calm) (cut : p.ahead = x.terminals ++ mid)
    (h : ∀ (y : Param) (q : Parser), y.bare = x.bare → q.Calm → q.ahead = mid →
      Gives 0 (do
        if (← currentKind) = .comma then
          let _ ← advance
          return y :: (← commaSeparatedParams rounds)
        else
          return [y]) q holds rest) :
    Gives 0 (commaSeparatedParams (rounds + 1)) p holds rest := by
  have cut : p.ahead =
    .identifier x.name :: .fixed .colon :: .fixed x.type.name.kind :: mid := cut
  refine .expect calm cut rfl fun name q₁ ahead calm _ => ?_
  refine .expect calm ahead rfl fun _ q₂ ahead calm _ => ?_
  refine (gives_typeName calm ahead).andThen fun type q₃ same ahead calm _ => ?_
  refine .freshId calm fun q₄ ahead' calm _ => ?_
  refine h _ q₄ ?_ calm (ahead'.trans ahead)
  rw [Param.bare, Param.bare, Token.text_of_terminal name, same]

theorem gives_commaSeparatedParams :
    ∀ (ps : List Param) (rounds : Nat) (p : Parser), ps ≠ [] → p.Calm →
      p.ahead = paramTerminals ps ++ .fixed .closeParen :: rest → ps.length ≤ rounds →
      Gives 0 (commaSeparatedParams rounds) p
        (fun ps' => ps'.map Param.bare = ps.map Param.bare) (.fixed .closeParen :: rest)
  | [], _, _, nonempty, _, _, _ => absurd rfl nonempty
  | _ :: _, 0, _, _, _, _, enough => absurd enough (Nat.not_succ_le_zero _)
  | [x], rounds + 1, p, _, calm, cut, _ => by
    refine gives_firstParam calm cut fun y q same calm ahead => .kind ?_
    have kind : q.current.kind = .closeParen := kind_of_ahead_eq_cons ahead
    rw [kind, if_neg (by decide)]
    exact .pure calm ahead (congrArg (fun y => [y]) same)
  | x :: x' :: ps, rounds + 1, p, _, calm, cut, enough => by
    have cut : p.ahead = x.terminals ++ .fixed .comma ::
        (paramTerminals (x' :: ps) ++ .fixed .closeParen :: rest) := by
      simpa [paramTerminals] using cut
    refine gives_firstParam calm cut fun y q same calm ahead => .kind ?_
    have kind : q.current.kind = .comma := kind_of_ahead_eq_cons ahead
    rw [if_pos kind]
    refine .advance calm ahead fun _ r ahead calm _ => ?_
    refine (gives_commaSeparatedParams (x' :: ps) rounds r (List.cons_ne_nil _ _) calm ahead
      (Nat.le_of_succ_le_succ enough)).andThen fun ps' r' same' ahead calm _ => ?_
    refine .pure calm ahead ?_
    rw [List.map_cons, List.map_cons, same, same']

theorem length_le_paramTerminals : ∀ ps : List Param, ps.length ≤ (paramTerminals ps).length
  | [] => le_rfl
  | [x] => by simp [paramTerminals, Param.terminals]
  | x :: x' :: ps => by
    have := length_le_paramTerminals (x' :: ps)
    simp only [paramTerminals, Param.terminals, List.length_append, List.length_cons] at this ⊢
    omega

theorem gives_params {ps : List Param} (calm : p.Calm)
    (cut : p.ahead = paramTerminals ps ++ .fixed .closeParen :: rest) :
    Gives 0 params p (fun ps' => ps'.map Param.bare = ps.map Param.bare)
      (.fixed .closeParen :: rest) := by
  refine .kind ?_
  cases ps with
  | nil =>
    have kind : p.current.kind = .closeParen := kind_of_ahead_eq_cons cut
    rw [if_pos kind]
    exact .pure calm cut rfl
  | cons x ps =>
    have kind : p.current.kind ≠ .closeParen := by
      have first : ∃ us, p.ahead = .identifier x.name :: us := by
        cases ps <;> exact ⟨_, cut⟩
      obtain ⟨us, first⟩ := first
      rw [kind_of_ahead_eq_cons first]
      exact fun same => by cases same
    rw [if_neg kind]
    have enough := length_le_paramTerminals (x :: ps)
    have rounds := p.length_ahead_le
    rw [cut, List.length_append] at rounds
    exact gives_commaSeparatedParams (x :: ps) (p.remaining + 1) p (List.cons_ne_nil _ _) calm cut
      (by omega)

/-! ## Error placeholders -/

/-- Recovery skips a token that neither ends a statement nor belongs to a block. -/
theorem synchronizeFrom_skip {fuel depth : Nat} {kind : TokenKind} (is : p.current.kind = kind)
    (skipped : kind ∉ [.endOfInput, .semicolon, .openCurly, .closeCurly]) :
    p.synchronizeFrom (fuel + 1) depth = p.advance.synchronizeFrom fuel depth := by
  rw [Parser.synchronizeFrom.eq_def]
  simp only [is]
  cases kind <;> first | rfl | exact absurd skipped (by decide)

/-- Recovery takes all of a mark. -/
theorem synchronize_errorMark (calm : p.Calm) (cut : p.ahead = errorMark ++ rest) :
    Gets 0 p p.synchronize rest ∧ p.consumed < p.synchronize.consumed := by
  have cut₀ : p.ahead = .fixed .less :: .identifier "error" :: .fixed .greater ::
    .fixed .semicolon :: rest := cut
  have first := gets_advance calm cut₀
  have second := gets_advance first.calm first.ahead
  have third := gets_advance second.calm second.ahead
  have fourth := gets_advance third.calm third.ahead
  obtain ⟨fuel, enough⟩ : ∃ fuel, p.remaining + 1 = fuel + 4 := by
    have := p.length_ahead_le
    rw [cut₀] at this
    simp only [List.length_cons] at this
    exact ⟨p.remaining - 3, by omega⟩
  have skips : p.synchronize = p.advance.advance.advance.advance := by
    have stop : p.advance.advance.advance.current.kind = .semicolon :=
      kind_of_ahead_eq_cons third.ahead
    rw [Parser.synchronize, enough,
      synchronizeFrom_skip (kind_of_ahead_eq_cons cut₀) (by decide),
      synchronizeFrom_skip (kind_of_ahead_eq_cons first.ahead) (by decide),
      synchronizeFrom_skip (kind_of_ahead_eq_cons second.ahead) (by decide),
      Parser.synchronizeFrom, stop]
    rfl
  rw [skips]
  refine ⟨first.trans (second.trans (third.trans fourth)), ?_⟩
  have counted := ((onward_advance p).trans ((onward_advance _).trans
    ((onward_advance _).trans (onward_advance _)))).consumed
  rw [cut₀, fourth.ahead] at counted
  simp only [List.length_cons] at counted
  omega

/-- Where a mark is ahead, the statement that cannot be read is recorded as one error. -/
theorem recovering_errorMark (inner : Parser → Stmt × Parser) (calm : p.Calm)
    (cut : p.ahead = errorMark ++ rest) :
    ∃ span q, recovering (statementWith .standard inner) p = (.error span, q) ∧
      Gets 1 p q rest := by
  have kind : p.current.kind = .less := kind_of_ahead_eq_cons cut
  have stops : expression .standard .default p = .error (.unexpected "expression" p.current) p := by
    change expressionFrom .standard (p.remaining + 1) .default p = _
    rw [expressionFrom_succ, kind]
    rfl
  have fails : statementWith .standard inner p =
      .error (.unexpected "expression" p.current) p := by
    unfold statementWith
    simp only [bind, EStateM.bind, currentKind, kind, Grammar.standard]
    change EStateM.bind (expression .standard .default) _ p = _
    simp only [EStateM.bind, stops]
  have reported : Gets 1 p (p.report (.unexpected "expression" p.current)) (errorMark ++ rest) := by
    have loud : (SyntaxError.unexpected "expression" p.current).silent = false := by
      simp [SyntaxError.unexpected, kind]
    rw [Parser.report, loud, if_neg Bool.false_ne_true]
    refine ⟨cut, ⟨calm.upcoming, calm.cancelAfter, calm.uncancelled⟩, rfl, [_], rfl, rfl, ?_⟩
    intro x mem
    rw [List.mem_singleton.1 mem]
    rfl
  obtain ⟨skipped, moved⟩ := synchronize_errorMark reported.calm reported.ahead
  have counted : (p.report (.unexpected "expression" p.current)).consumed = p.consumed := by
    unfold Parser.report
    split <;> rfl
  rw [counted] at moved
  unfold recovering
  rw [fails]
  simp only [recover, if_neg moved.ne']
  exact ⟨_, _, rfl, reported.trans skipped⟩

/-! ## Blocks and the forms around them -/

/-- A parser that does not fail gives a value of which `holds` is true, and gets to where `rest` is
ahead. -/
def Leaves {α : Type} (n : Nat) (result : α × Parser) (p : Parser) (holds : α → Prop)
    (rest : List Terminal) : Prop :=
  holds result.1 ∧ Gets n p result.2 rest

theorem recovering_leaves {action : Parse Stmt} {n : Nat} {holds : Stmt → Prop}
    (h : Gives n action p holds rest) : Leaves n (recovering action p) p holds rest := by
  obtain ⟨s, q, result, value, gets⟩ := h
  unfold recovering
  rw [result]
  exact ⟨value, gets⟩

theorem gives_form {inner : Parser → Stmt × Parser} {n : Nat} {holds : Stmt → Prop}
    (rule : StatementRule) (begins : Grammar.standard.statementRule p.current.kind = some rule)
    (h : Gives n (statementForm .standard inner rule) p holds rest) :
    Gives n (statementWith .standard inner) p holds rest := by
  refine .kind ?_
  rw [begins]
  exact h

/-- No `else` follows. -/
def NoElse (rest : List Terminal) : Prop := ∀ t us, rest = t :: us → t.kind ≠ .kwElse

theorem noElse_cons {t : Terminal} (h : t.kind ≠ .kwElse) : NoElse (t :: rest) := by
  rintro t' us same
  obtain ⟨rfl, -⟩ := List.cons.inj same
  exact h

variable {inner : Parser → Stmt × Parser} {blockOf : Parse Block} {n m : Nat}

theorem gives_block {ss : List Stmt} {ts : List Terminal} (calm : p.Calm)
    (cut : p.ahead = .fixed .openCurly :: (ts ++ .fixed .closeCurly :: rest))
    (h : ∀ (rounds : Nat) (q : Parser), q.Calm → q.ahead = ts ++ .fixed .closeCurly :: rest →
      ts.length < rounds → Leaves n (statements inner rounds q) q
        (fun ss' => Stmt.bareAll ss' = Stmt.bareAll ss) (.fixed .closeCurly :: rest)) :
    Gives n (block inner) p
      (fun b => Stmt.bareBlock b = Stmt.bareBlock (.mk 0 .origin ss)) rest := by
  refine .expect calm cut rfl fun _ q ahead calm _ => ?_
  refine .freshId calm fun r ahead' calm _ => ?_
  have body : Gives n (blockBody inner) r (fun ss' => Stmt.bareAll ss' = Stmt.bareAll ss)
      (.fixed .closeCurly :: rest) := by
    have enough := r.length_ahead_le
    rw [ahead', ahead, List.length_append] at enough
    obtain ⟨same, gets⟩ := h (r.remaining + 1) { r with blockDepth := r.blockDepth + 1 }
      ⟨calm.upcoming, calm.cancelAfter, calm.uncancelled⟩ (ahead'.trans ahead) (by omega)
    refine ⟨_, _, rfl, same, gets.ahead, ?_, ?_, gets.recorded⟩
    · exact ⟨gets.calm.upcoming, gets.calm.cancelAfter, gets.calm.uncancelled⟩
    · exact Nat.sub_eq_of_eq_add gets.blockDepth
  refine body.before fun ss' r' same ahead calm _ => .kind ?_
  have kind : r'.current.kind = .closeCurly := kind_of_ahead_eq_cons ahead
  rw [kind, if_neg (by decide)]
  refine .advance calm ahead fun _ r'' ahead calm _ => .pure calm ahead ?_
  rw [Stmt.bareBlock, Stmt.bareBlock, same]

theorem gives_whileStatement (names : d.NamesTargets) {ts us : List Terminal} {e : Expr} {b : Block}
    (test : Derives d .assignment ts e) (calm : p.Calm)
    (cut : p.ahead = .fixed .kwWhile :: (Terminal.inParens ts ++ us))
    (h : ∀ q : Parser, q.Calm → q.ahead = us →
      Gives n blockOf q (fun b' => Stmt.bareBlock b' = Stmt.bareBlock b) rest) :
    Gives n (whileStatement .standard blockOf) p
      (fun s => s.bare = (Stmt.whileLoop .origin e b).bare) rest := by
  refine .advance calm cut fun _ q ahead calm _ => ?_
  refine (gives_condition names test calm ahead).andThen fun e' q₁ same ahead calm _ => ?_
  refine (h q₁ calm ahead).before fun b' q₂ same' ahead calm _ => .pure calm ahead ?_
  rw [Stmt.bare, Stmt.bare, same, same']

theorem gives_ifThen (names : d.NamesTargets) {ts us : List Terminal} {e : Expr} {b : Block}
    {rounds : Nat} (test : Derives d .assignment ts e) (calm : p.Calm)
    (cut : p.ahead = .fixed .kwIf :: (Terminal.inParens ts ++ us)) (noElse : NoElse rest)
    (h : ∀ q : Parser, q.Calm → q.ahead = us →
      Gives n blockOf q (fun b' => Stmt.bareBlock b' = Stmt.bareBlock b) rest) :
    Gives n (ifStatement .standard blockOf (rounds + 1)) p
      (fun s => s.bare = (Stmt.ifThen .origin e b).bare) rest := by
  refine .advance calm cut fun _ q ahead calm _ => ?_
  refine (gives_condition names test calm ahead).andThen fun e' q₁ same ahead calm _ => ?_
  refine (h q₁ calm ahead).before fun b' q₂ same' ahead calm _ => .kind ?_
  have kind : q₂.current.kind ≠ .kwElse := by
    intro is
    have first := ahead_of_kind is (by decide) (by decide)
    exact noElse _ _ (ahead.symm.trans first) rfl
  rw [if_neg kind]
  refine .lastSpan (.pure calm ahead ?_)
  rw [Stmt.bare, Stmt.bare, same, same']

theorem gives_ifThenElse (names : d.NamesTargets) {ts us vs : List Terminal} {e : Expr} {b : Block}
    {other : Stmt} {rounds : Nat} (test : Derives d .assignment ts e) (calm : p.Calm)
    (cut : p.ahead = .fixed .kwIf :: (Terminal.inParens ts ++ us))
    (h : ∀ q : Parser, q.Calm → q.ahead = us →
      Gives n blockOf q (fun b' => Stmt.bareBlock b' = Stmt.bareBlock b)
        (.fixed .kwElse :: vs))
    (h' : ∀ q : Parser, q.Calm → q.ahead = vs →
      Gives m (if q.current.kind = .kwIf then ifStatement .standard blockOf rounds
        else Stmt.block <$> blockOf) q (fun s => s.bare = other.bare) rest) :
    Gives (n + m) (ifStatement .standard blockOf (rounds + 1)) p
      (fun s => s.bare = (Stmt.ifThenElse .origin e b other).bare) rest := by
  refine .advance calm cut fun _ q ahead calm _ => ?_
  refine (gives_condition names test calm ahead).andThen fun e' q₁ same ahead calm _ => ?_
  refine (h q₁ calm ahead).bind fun b' q₂ same' ahead calm _ => .kind ?_
  have kind : q₂.current.kind = .kwElse := kind_of_ahead_eq_cons ahead
  rw [if_pos kind]
  refine .advance calm ahead fun _ q₃ ahead calm _ => .kind ?_
  have close : ∀ (s : Stmt) (r : Parser), s.bare = other.bare → r.ahead = rest → r.Calm →
      r.blockDepth = q₃.blockDepth → Gives 0 (do
        return Stmt.ifThenElse (p.current.span.join (← previousSpan)) e' b' s) r
        (fun s => s.bare = (Stmt.ifThenElse .origin e b other).bare) rest := by
    intro s r same'' ahead calm _
    refine .lastSpan (.pure calm ahead ?_)
    rw [Stmt.bare, Stmt.bare, same, same', same'']
  have branch := h' q₃ calm ahead
  by_cases again : q₃.current.kind = .kwIf
  · rw [if_pos again] at branch ⊢
    exact branch.before close
  · rw [if_neg again] at branch ⊢
    exact branch.before close

theorem gives_functionStatement {header : FunctionHeader} {us : List Terminal} {b : Block}
    (outside : p.blockDepth = 0) (calm : p.Calm) (cut : p.ahead = header.terminals ++ us)
    (noArrow : ∀ t vs, us = t :: vs → t.kind ≠ .arrow)
    (h : ∀ q : Parser, q.Calm → q.ahead = us →
      Gives n blockOf q (fun b' => Stmt.bareBlock b' = Stmt.bareBlock b) rest) :
    Gives n (functionStatement blockOf) p
      (fun s => s.bare = (Stmt.function .origin header b).bare) rest := by
  have cut : p.ahead = .fixed .kwFn :: .identifier header.name :: .fixed .openParen ::
      (paramTerminals header.params ++ .fixed .closeParen ::
        (typeBehind .arrow header.returnType ++ us)) := by
    simpa [FunctionHeader.terminals, Terminal.inParens] using cut
  refine .advance calm cut fun _ q₁ ahead calm depth₁ => ?_
  refine .expect calm ahead rfl fun name q₂ ahead calm depth₂ => ?_
  refine .expect calm ahead rfl fun _ q₃ ahead calm depth₃ => ?_
  refine (gives_params calm ahead).andThen fun ps q₄ same ahead calm depth₄ => ?_
  refine .expectClosing calm ahead rfl fun _ q₅ ahead calm depth₅ => ?_
  refine (gives_typeAfter calm ahead noArrow (by decide)).andThen ?_
  intro result q₆ same' ahead calm depth₆
  have depth : q₆.blockDepth = 0 := by omega
  refine .depth ((h q₆ calm ahead).before fun b' q₇ same'' ahead calm _ => ?_)
  rw [depth, if_neg (Nat.lt_irrefl 0)]
  refine .freshId calm fun q₈ ahead' calm _ => .pure calm (ahead'.trans ahead) ?_
  rw [Stmt.bare, Stmt.bare, same'', FunctionHeader.bare, FunctionHeader.bare,
    Token.text_of_terminal name, same, same']

end Parse

open Parse

variable {d : Dialect}

theorem not_mem_exprStarts {kind : TokenKind} (h : kind ∈ exprStarts) :
    kind ≠ .kwElse ∧ kind ≠ .closeCurly ∧ Grammar.standard.statementRule kind = none := by
  have all : ∀ kind ∈ exprStarts, kind ≠ .kwElse ∧ kind ≠ .closeCurly ∧
      Grammar.standard.statementRule kind = none := by decide
  exact all kind h

/-- What error placeholders stand for is skipped, and so many errors are recorded for each. -/
structure Dialect.Recovers (d : Dialect) (cost : Nat) : Prop where
  begins : ∀ ts, d.placeholder ts →
    ∃ t us, ts = t :: us ∧ t.kind ≠ .kwElse ∧ t.kind ≠ .closeCurly
  skips : ∀ ts, d.placeholder ts → ∀ (fuel : Nat) (p : Parser) (rest : List Terminal), p.Calm →
    p.ahead = ts ++ rest → ts.length ≤ fuel + 1 →
    ∃ span q, statementOrErrorFrom .standard (fuel + 1) p = (.error span, q) ∧ p.Gets cost q rest

/-- A mark is recorded as one error. -/
theorem Dialect.MarksErrors.recovers (marks : d.MarksErrors) : d.Recovers 1 where
  begins ts mark := by
    rw [marks ts mark]
    exact ⟨_, _, rfl, by decide, by decide⟩
  skips ts mark fuel p rest calm cut _ := by
    rw [marks ts mark] at cut
    exact recovering_errorMark (statementOrErrorFrom .standard fuel) calm cut

variable {cost : Nat}

theorem DerivesStmt.begins (names : d.NamesTargets) (recovers : d.Recovers cost)
    {ts : List Terminal} {s : Stmt} (h : DerivesStmt d ts s) :
    ∃ t us, ts = t :: us ∧ t.kind ≠ .kwElse ∧ t.kind ≠ .closeCurly := by
  cases h with
  | letVar _ => exact ⟨_, _, rfl, by decide, by decide⟩
  | choice h => cases h <;> exact ⟨_, _, rfl, by decide, by decide⟩
  | whileLoop _ _ => exact ⟨_, _, rfl, by decide, by decide⟩
  | block h =>
    cases h
    exact ⟨_, _, rfl, by decide, by decide⟩
  | leave => exact ⟨_, _, rfl, by decide, by decide⟩
  | giveBack _ => exact ⟨_, _, rfl, by decide, by decide⟩
  | expression h =>
    obtain ⟨t, us, rfl, begins⟩ := h.begins names
    obtain ⟨noElse, noClose, -⟩ := not_mem_exprStarts begins
    exact ⟨t, _, rfl, noElse, noClose⟩
  | error h => exact recovers.begins _ h

theorem DerivesChoice.begins {ts : List Terminal} {s : Stmt} (h : DerivesChoice d ts s) :
    ∃ us, ts = .fixed .kwIf :: us := by
  cases h <;> exact ⟨_, rfl⟩

theorem DerivesBlock.begins {ts : List Terminal} {b : Block} (h : DerivesBlock d ts b) :
    ∃ us, ts = .fixed .openCurly :: us := by
  cases h
  exact ⟨_, rfl⟩

theorem DerivesBody.noElse (names : d.NamesTargets) (recovers : d.Recovers cost)
    {ts rest : List Terminal} {ss : List Stmt} (h : DerivesBody d ts ss) :
    NoElse (ts ++ .fixed .closeCurly :: rest) := by
  cases h with
  | nil => exact noElse_cons (by decide)
  | cons first _ =>
    obtain ⟨t, us, rfl, noElse, -⟩ := first.begins names recovers
    exact noElse_cons noElse

open MiniLang.Parser (kind_of_ahead_eq_cons)

mutual

/-- A statement is read in front of anything but an `else`, and the errors are recorded for each
placeholder in it. -/
theorem DerivesStmt.reads (names : d.NamesTargets) (recovers : d.Recovers cost)
    {ts : List Terminal} {s : Stmt} (h : DerivesStmt d ts s) :
    ∀ (fuel : Nat) (p : Parser) (rest : List Terminal), p.Calm → p.ahead = ts ++ rest →
      NoElse rest → ts.length ≤ fuel + 1 →
      Leaves (cost * s.preorder.countP Stmt.isError) (statementOrErrorFrom .standard (fuel + 1) p) p
        (fun s' => s'.bare = s.bare) rest := by
  match h with
  | @DerivesStmt.letVar _ ts value id span xSpan x declared derives =>
    intro fuel p rest calm cut noElse enough
    have kind : p.current.kind = .kwLet := kind_of_ahead_eq_cons cut
    refine recovering_leaves (gives_form .letVar (by rw [kind]; rfl) ?_)
    exact gives_letStatement names derives calm (by simpa using cut)
  | @DerivesStmt.choice _ ts s choice =>
    intro fuel p rest calm cut noElse enough
    obtain ⟨us, first⟩ := choice.begins
    have kind : p.current.kind = .kwIf := kind_of_ahead_eq_cons (first ▸ cut)
    have rounds := p.length_ahead_le
    rw [cut, List.length_append] at rounds
    refine recovering_leaves (gives_form .ifElse (by rw [kind]; rfl) ?_)
    exact choice.gives names recovers fuel (p.remaining + 1) p rest calm cut noElse enough
      (by omega)
  | @DerivesStmt.whileLoop _ ts us e b span test body =>
    intro fuel p rest calm cut noElse enough
    have kind : p.current.kind = .kwWhile := kind_of_ahead_eq_cons cut
    simp only [List.length_cons, List.length_append] at enough
    rw [Stmt.preorder, List.countP_cons_of_neg Bool.false_ne_true]
    refine recovering_leaves (gives_form .whileLoop (by rw [kind]; rfl) ?_)
    refine gives_whileStatement names test calm (by simpa using cut) fun q calm ahead => ?_
    exact body.gives names recovers fuel q rest calm ahead (by omega)
  | @DerivesStmt.block _ ts b block =>
    intro fuel p rest calm cut noElse enough
    obtain ⟨us, first⟩ := block.begins
    have kind : p.current.kind = .openCurly := kind_of_ahead_eq_cons (first ▸ cut)
    rw [Stmt.preorder, List.countP_cons_of_neg Bool.false_ne_true]
    refine recovering_leaves (gives_form .block (by rw [kind]; rfl) (.map ?_))
    obtain ⟨b', q, result, same, gets⟩ := block.gives names recovers fuel p rest calm cut enough
    exact ⟨b', q, result, congrArg Stmt.block same, gets⟩
  | .leave =>
    intro fuel p rest calm cut noElse enough
    have kind : p.current.kind = .kwReturn := kind_of_ahead_eq_cons cut
    exact recovering_leaves (gives_form .ret (by rw [kind]; rfl) (gives_returnNothing calm cut))
  | @DerivesStmt.giveBack _ ts e span derives =>
    intro fuel p rest calm cut noElse enough
    have kind : p.current.kind = .kwReturn := kind_of_ahead_eq_cons cut
    refine recovering_leaves (gives_form .ret (by rw [kind]; rfl) ?_)
    exact gives_returnStatement names derives calm (by simpa using cut)
  | @DerivesStmt.expression _ ts e span derives =>
    intro fuel p rest calm cut noElse enough
    have cut' : p.ahead = ts ++ .fixed .semicolon :: rest := by simpa using cut
    have kind : Grammar.standard.statementRule p.current.kind = none := by
      obtain ⟨t, us, first, begins⟩ := derives.begins names
      rw [first] at cut'
      rw [kind_of_ahead_eq_cons cut']
      exact (not_mem_exprStarts begins).2.2
    refine recovering_leaves (.kind ?_)
    rw [kind]
    exact gives_expressionStatement names derives calm cut'
  | @DerivesStmt.error _ ts span mark =>
    intro fuel p rest calm cut noElse enough
    obtain ⟨span', q, same, gets⟩ := recovers.skips ts mark fuel p rest calm cut enough
    rw [same]
    refine ⟨rfl, ?_⟩
    change p.Gets (cost * 1) q rest
    rwa [Nat.mul_one]

theorem DerivesChoice.gives (names : d.NamesTargets) (recovers : d.Recovers cost)
    {ts : List Terminal} {s : Stmt} (h : DerivesChoice d ts s) :
    ∀ (fuel rounds : Nat) (p : Parser) (rest : List Terminal), p.Calm → p.ahead = ts ++ rest →
      NoElse rest → ts.length ≤ fuel + 1 → ts.length ≤ rounds →
      Gives (cost * s.preorder.countP Stmt.isError)
        (ifStatement .standard (block (statementOrErrorFrom .standard fuel)) rounds) p
        (fun s' => s'.bare = s.bare) rest := by
  match h with
  | @DerivesChoice.ifThen _ ts us e b span test yes =>
    intro fuel rounds p rest calm cut noElse enough enough'
    simp only [List.length_cons, List.length_append] at enough enough'
    obtain ⟨n, rfl⟩ : ∃ n, rounds = n + 1 := Nat.exists_eq_succ_of_ne_zero (by omega)
    rw [Stmt.preorder, List.countP_cons_of_neg Bool.false_ne_true]
    refine gives_ifThen names test calm (by simpa using cut) noElse fun q calm ahead => ?_
    exact yes.gives names recovers fuel q rest calm ahead (by omega)
  | @DerivesChoice.ifThenElse _ ts us vs e b b' span test yes no =>
    intro fuel rounds p rest calm cut noElse enough enough'
    simp only [List.length_cons, List.length_append] at enough enough'
    obtain ⟨n, rfl⟩ : ∃ n, rounds = n + 1 := Nat.exists_eq_succ_of_ne_zero (by omega)
    rw [Stmt.preorder, List.countP_cons_of_neg Bool.false_ne_true, List.countP_append,
      Nat.mul_add, Stmt.preorder, List.countP_cons_of_neg Bool.false_ne_true]
    have cut' : p.ahead = .fixed .kwIf :: (Terminal.inParens ts ++
      (us ++ .fixed .kwElse :: (vs ++ rest))) := by simpa using cut
    refine gives_ifThenElse names test calm cut' (fun q calm ahead => ?_)
      fun q calm (ahead : q.ahead = vs ++ rest) => ?_
    · exact yes.gives names recovers fuel q _ calm ahead (by omega)
    · obtain ⟨us, first⟩ := no.begins
      have kind : q.current.kind = .openCurly := kind_of_ahead_eq_cons (first ▸ ahead)
      rw [kind, if_neg (by decide)]
      obtain ⟨b'', r, result, same, gets⟩ :=
        no.gives names recovers fuel q rest calm ahead (by omega)
      exact .map ⟨b'', r, result, congrArg Stmt.block same, gets⟩
  | @DerivesChoice.elseIf _ ts us vs e b s span test yes no =>
    intro fuel rounds p rest calm cut noElse enough enough'
    simp only [List.length_cons, List.length_append] at enough enough'
    obtain ⟨n, rfl⟩ : ∃ n, rounds = n + 1 := Nat.exists_eq_succ_of_ne_zero (by omega)
    rw [Stmt.preorder, List.countP_cons_of_neg Bool.false_ne_true, List.countP_append,
      Nat.mul_add]
    have cut' : p.ahead = .fixed .kwIf :: (Terminal.inParens ts ++
      (us ++ .fixed .kwElse :: (vs ++ rest))) := by simpa using cut
    refine gives_ifThenElse names test calm cut' (fun q calm ahead => ?_)
      fun q calm (ahead : q.ahead = vs ++ rest) => ?_
    · exact yes.gives names recovers fuel q _ calm ahead (by omega)
    · obtain ⟨us, first⟩ := no.begins
      have kind : q.current.kind = .kwIf := kind_of_ahead_eq_cons (first ▸ ahead)
      rw [if_pos kind]
      exact no.gives names recovers fuel n q rest calm ahead noElse (by omega) (by omega)

theorem DerivesBlock.gives (names : d.NamesTargets) (recovers : d.Recovers cost)
    {ts : List Terminal} {b : Block} (h : DerivesBlock d ts b) :
    ∀ (fuel : Nat) (p : Parser) (rest : List Terminal), p.Calm → p.ahead = ts ++ rest →
      ts.length ≤ fuel + 1 →
      Gives (cost * (Stmt.inBlock b).countP Stmt.isError)
        (block (statementOrErrorFrom .standard fuel)) p
        (fun b' => Stmt.bareBlock b' = Stmt.bareBlock b) rest := by
  match h with
  | @DerivesBlock.mk _ ts ss id span body =>
    intro fuel p rest calm cut enough
    simp only [List.length_cons, List.length_append] at enough
    obtain ⟨n, rfl⟩ : ∃ n, fuel = n + 1 := Nat.exists_eq_succ_of_ne_zero (by omega)
    refine gives_block calm (by simpa using cut) fun rounds q calm ahead less => ?_
    exact body.reads names recovers n rounds q rest calm ahead (by omega) less

/-- The statements of a block are read up to the brace that closes it. -/
theorem DerivesBody.reads (names : d.NamesTargets) (recovers : d.Recovers cost)
    {ts : List Terminal} {ss : List Stmt} (h : DerivesBody d ts ss) :
    ∀ (fuel rounds : Nat) (p : Parser) (rest : List Terminal), p.Calm →
      p.ahead = ts ++ .fixed .closeCurly :: rest → ts.length ≤ fuel + 1 → ts.length < rounds →
      Leaves (cost * (Stmt.preorderAll ss).countP Stmt.isError)
        (statements (statementOrErrorFrom .standard (fuel + 1)) rounds p) p
        (fun ss' => Stmt.bareAll ss' = Stmt.bareAll ss) (.fixed .closeCurly :: rest) := by
  match h with
  | .nil =>
    intro fuel rounds p rest calm cut enough enough'
    obtain ⟨n, rfl⟩ : ∃ n, rounds = n + 1 := Nat.exists_eq_succ_of_ne_zero (by omega)
    have kind : p.current.kind = .closeCurly := kind_of_ahead_eq_cons cut
    rw [statements, if_pos (.inl kind)]
    exact ⟨rfl, .refl calm cut⟩
  | @DerivesBody.cons _ ts us s ss first others =>
    intro fuel rounds p rest calm cut enough enough'
    rw [List.length_append] at enough enough'
    obtain ⟨n, rfl⟩ : ∃ n, rounds = n + 1 := Nat.exists_eq_succ_of_ne_zero (by omega)
    obtain ⟨t, ts', start, -, noClose⟩ := first.begins names recovers
    have more : ¬(p.current.kind = .closeCurly ∨ p.atEnd = true) := by
      rw [start] at cut
      obtain ⟨present, -⟩ := MiniLang.Parser.of_ahead_eq_cons cut
      rw [kind_of_ahead_eq_cons cut, present]
      simpa using noClose
    have cut' : p.ahead = ts ++ (us ++ .fixed .closeCurly :: rest) := by simpa using cut
    obtain ⟨same, gets⟩ := first.reads names recovers fuel p _ calm cut'
      (others.noElse names recovers) (by omega)
    have shorter : us.length < n := by
      rw [start, List.length_cons] at enough'
      omega
    obtain ⟨same', gets'⟩ := others.reads names recovers fuel n _ rest gets.calm gets.ahead
      (by omega) shorter
    rw [statements, if_neg more, Stmt.preorderAll, List.countP_append, Nat.mul_add]
    exact ⟨by simp only [Stmt.bareAll, same, same'], gets.trans gets'⟩

end

/-! ## Programs -/

theorem DerivesBlock.noArrow {ts rest : List Terminal} {b : Block} (h : DerivesBlock d ts b) :
    ∀ t us, ts ++ rest = t :: us → t.kind ≠ .arrow := by
  rintro t us same
  obtain ⟨vs, rfl⟩ := h.begins
  obtain ⟨rfl, -⟩ := List.cons.inj same
  decide

theorem DerivesTop.begins (names : d.NamesTargets) (recovers : d.Recovers cost)
    {ts : List Terminal} {s : Stmt} (h : DerivesTop d ts s) :
    ∃ t us, ts = t :: us ∧ t.kind ≠ .kwElse := by
  cases h with
  | inner h =>
    obtain ⟨t, us, first, noElse, -⟩ := h.begins names recovers
    exact ⟨t, us, first, noElse⟩
  | function _ => exact ⟨_, _, rfl, by decide⟩

theorem DerivesTop.reads (names : d.NamesTargets) (recovers : d.Recovers cost)
    {ts rest : List Terminal} {s : Stmt} {p : Parser} (h : DerivesTop d ts s)
    (outside : p.blockDepth = 0) (calm : p.Calm) (cut : p.ahead = ts ++ rest)
    (noElse : NoElse rest) :
    Leaves (cost * s.preorder.countP Stmt.isError) (statementOrError .standard p) p
      (fun s' => s'.bare = s.bare) rest := by
  have enough := p.length_ahead_le
  rw [cut, List.length_append] at enough
  cases h with
  | inner h => exact h.reads names recovers p.remaining p rest calm cut noElse (by omega)
  | @function ts header body span h =>
    have kind : p.current.kind = .kwFn := kind_of_ahead_eq_cons cut
    rw [List.length_append] at enough
    rw [Stmt.preorder, List.countP_cons_of_neg Bool.false_ne_true]
    refine recovering_leaves (gives_form .function (by rw [kind]; rfl) ?_)
    refine gives_functionStatement outside calm (by simpa using cut) h.noArrow
      fun q calm ahead => ?_
    exact h.gives names recovers p.remaining q rest calm ahead (by omega)

theorem DerivesProgram.noElse (names : d.NamesTargets) (recovers : d.Recovers cost)
    {ts : List Terminal} {ss : List Stmt} (h : DerivesProgram d ts ss) : NoElse ts := by
  cases h with
  | nil => exact fun _ _ same => by cases same
  | cons first _ =>
    obtain ⟨t, us, rfl, noElse⟩ := first.begins names recovers
    exact noElse_cons noElse

theorem DerivesProgram.reads (names : d.NamesTargets) (recovers : d.Recovers cost) :
    ∀ (rounds : Nat) {ts : List Terminal} {ss : List Stmt} {p : Parser}, DerivesProgram d ts ss →
      p.blockDepth = 0 → p.Calm → p.ahead = ts → ts.length < rounds →
      Leaves (cost * (Stmt.preorderAll ss).countP Stmt.isError) (topLevel .standard rounds p) p
        (fun ss' => Stmt.bareAll ss' = Stmt.bareAll ss) []
  | 0, _, _, _, _, _, _, _, less => absurd less (Nat.not_lt_zero _)
  | rounds + 1, ts, ss, p, h, outside, calm, cut, less => by
    cases h with
    | nil =>
      rw [topLevel, if_pos (MiniLang.Parser.atEnd_of_ahead_eq_nil cut)]
      exact ⟨rfl, .refl calm cut⟩
    | @cons ts us s ss first others =>
      obtain ⟨t, ts', start, -⟩ := first.begins names recovers
      have more : ¬p.atEnd = true := by
        rw [start] at cut
        rw [(MiniLang.Parser.of_ahead_eq_cons cut).1]
        exact Bool.false_ne_true
      have passed := Session.checkpoint_of_cancelAfter_eq_none calm.cancelAfter calm.uncancelled
        p.current.span
      obtain ⟨same, gets⟩ :=
        first.reads names recovers outside calm cut (others.noElse names recovers)
      have shorter : us.length < rounds := by
        rw [start, List.length_append, List.length_cons] at less
        omega
      obtain ⟨same', gets'⟩ := others.reads names recovers rounds (gets.blockDepth.trans outside)
        gets.calm gets.ahead shorter
      rw [topLevel, if_neg more, passed, Stmt.preorderAll, List.countP_append, Nat.mul_add]
      exact ⟨by simp only [↓reduceIte, Stmt.bareAll, same, same'], gets.trans gets'⟩

/-- Deliveries that bring no problems along and request no cancellation. -/
def Quiet (tokens : List Delivery) : Prop :=
  ∀ x ∈ tokens, x.problem = none ∧ x.cancels = false

theorem Quiet.start {tokens : List Delivery} {s : Session} (quiet : Quiet tokens)
    (unasked : s.cancelAfter = none) (uncancelled : s.cancelled = false) :
    (Parser.start tokens s).Calm ∧ (Parser.start tokens s).session = s := by
  cases tokens with
  | nil => exact ⟨⟨(fun _ mem => by cases mem), unasked, uncancelled⟩, rfl⟩
  | cons x rest =>
    obtain ⟨noProblem, noCancel⟩ := quiet x List.mem_cons_self
    have same : x.notify s = s := by
      simp [Delivery.notify, Delivery.diagnostics, noProblem, noCancel, Session.recordAll_nil]
    refine ⟨⟨fun y mem => quiet y (List.mem_cons_of_mem _ mem), ?_, ?_⟩, same⟩
    · exact (congrArg Session.cancelAfter same).trans unasked
    · exact (congrArg Session.cancelled same).trans uncancelled

/-- A program that is derived from the tokens is parsed, up to numbers and places, and what the
dialect says is recorded for each placeholder in it. -/
theorem DerivesProgram.parses_recovers (names : d.NamesTargets) (recovers : d.Recovers cost)
    {tokens : List Delivery} {s : Session} {ss : List Stmt} (quiet : Quiet tokens)
    (unasked : s.cancelAfter = none) (uncancelled : s.cancelled = false)
    (h : DerivesProgram d (terminals (tokens.map Delivery.token)) ss) :
    Stmt.bareAll (parse tokens s).program.body = Stmt.bareAll ss ∧
      ∃ ds : List Diagnostic, (parse tokens s).session = s.recordAll ds ∧
        ds.length = cost * (Stmt.preorderAll ss).countP Stmt.isError ∧
        ∀ x ∈ ds, x.isError = true := by
  obtain ⟨calm, same⟩ := quiet.start unasked uncancelled
  obtain ⟨ahead, outside⟩ : (Parser.start tokens s).ahead = terminals (tokens.map Delivery.token) ∧
      (Parser.start tokens s).blockDepth = 0 := by
    cases tokens <;> exact ⟨rfl, rfl⟩
  have enough := (Parser.start tokens s).length_ahead_le
  rw [ahead] at enough
  obtain ⟨bare, gets⟩ := h.reads names recovers ((Parser.start tokens s).remaining + 1) outside calm
    ahead (by omega)
  obtain ⟨ds, recorded, length, errors⟩ := gets.recorded
  rw [same] at recorded
  exact ⟨bare, ds, recorded, length, errors⟩

/-- One error is recorded for each mark in a program. -/
theorem DerivesProgram.parses (names : d.NamesTargets) (marks : d.MarksErrors)
    {tokens : List Delivery} {s : Session} {ss : List Stmt} (quiet : Quiet tokens)
    (unasked : s.cancelAfter = none) (uncancelled : s.cancelled = false)
    (h : DerivesProgram d (terminals (tokens.map Delivery.token)) ss) :
    Stmt.bareAll (parse tokens s).program.body = Stmt.bareAll ss ∧
      ∃ ds : List Diagnostic, (parse tokens s).session = s.recordAll ds ∧
        ds.length = (Stmt.preorderAll ss).countP Stmt.isError ∧ ∀ x ∈ ds, x.isError = true := by
  have parsed := h.parses_recovers names marks.recovers quiet unasked uncancelled
  rwa [Nat.one_mul] at parsed

end MiniLang
