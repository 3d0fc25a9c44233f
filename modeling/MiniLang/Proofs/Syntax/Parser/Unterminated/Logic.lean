import MiniLang.Proofs.Syntax.Nesting
import MiniLang.Proofs.Syntax.Parser.Braces.Logic

/-!
# What is blamed for the end of the input

A parser that finds the end of the input inside something open blames the bracket that opened it,
and does so once: the error is silent if one was made before, whether that was recorded already or
is on its way (`Watch.Holds`). The bracket is one that nothing closes. `Watch.Upholds` says of an
action that it keeps this, once its error is reported; each way to put actions together has its
rule.
-/

set_option autoImplicit false

namespace MiniLang

/-! ## Brackets that nothing closes -/

/-- Whether, among brackets of two kinds, one closes what was opened before all of them. On the way
`depth` more of them are open. -/
def closes (opening closing : TokenKind) : Nat → List TokenKind → Bool
  | _, [] => false
  | depth, kind :: kinds =>
    if kind = closing then
      match depth with
      | 0 => true
      | depth + 1 => closes opening closing depth kinds
    else if kind = opening then
      closes opening closing (depth + 1) kinds
    else
      closes opening closing depth kinds

/-- A bracket that no token after it closes. -/
def Token.Unmatched (t : Token) (after : List Token) : Prop :=
  t.kind = .openCurly ∧ closes .openCurly .closeCurly 0 (after.map Token.kind) = false ∨
    t.kind = .openParen ∧ closes .openParen .closeParen 0 (after.map Token.kind) = false

/-- Terminals whose parentheses match, so that they make no difference to what closes what. -/
def Even (ts : List Terminal) : Prop :=
  ∀ depth rest, closes .openParen .closeParen depth (ts.map Terminal.kind ++ rest) =
    closes .openParen .closeParen depth rest

theorem nested_even : Nested Even where
  nil _ _ := rfl
  append := by
    intro ts us even even' depth rest
    rw [List.map_append, List.append_assoc, even, even']
  flat := by
    intro t flat depth rest
    simp only [Terminal.Flat, List.mem_cons, not_or] at flat
    obtain ⟨opens, closes', -⟩ := flat
    rw [List.map_singleton, List.singleton_append, closes.eq_def]
    simp only [opens, closes', if_false]
  parens := by
    intro ts even depth rest
    have inside := even (depth + 1) (.closeParen :: rest)
    simpa [Terminal.inParens, Terminal.kind, closes] using inside

/-- Terminals whose parentheses match close nothing that was opened before. -/
theorem Even.closes_eq_false {ts : List Terminal} (h : Even ts) :
    closes .openParen .closeParen 0 (ts.map Terminal.kind) = false := by
  have whole := h 0 []
  rwa [List.append_nil] at whole

/-- The brace that closes what was opened is the first that matches no other. -/
theorem exists_of_closes (ts : List Token) :
    ∀ depth, closes .openCurly .closeCurly depth (ts.map Token.kind) = true →
      ∃ inside close after, ts = inside ++ close :: after ∧ close.kind = .closeCurly ∧
        Token.depthAfter depth inside = some 0 := by
  induction ts with
  | nil => exact fun _ none => by cases none
  | cons t ts ih =>
    intro depth closed
    rw [List.map_cons, closes.eq_def] at closed
    by_cases isClosing : t.kind = .closeCurly
    · simp only [isClosing, if_true] at closed
      cases depth with
      | zero => exact ⟨[], t, ts, rfl, isClosing, rfl⟩
      | succ depth =>
        obtain ⟨inside, close, after, rfl, is, balanced⟩ := ih depth closed
        exact ⟨t :: inside, close, after, rfl, is,
          (Token.depthAfter_close isClosing).trans balanced⟩
    by_cases isOpening : t.kind = .openCurly
    · simp only [isOpening, if_true] at closed
      obtain ⟨inside, close, after, rfl, is, balanced⟩ := ih (depth + 1) closed
      exact ⟨t :: inside, close, after, rfl, is, (Token.depthAfter_open isOpening).trans balanced⟩
    · simp only [isClosing, isOpening, if_false] at closed
      obtain ⟨inside, close, after, rfl, is, balanced⟩ := ih depth closed
      exact ⟨t :: inside, close, after, rfl, is,
        (Token.depthAfter_plain ⟨isOpening, isClosing⟩).trans balanced⟩

/-! ## What is recorded -/

/-- Whether a problem is the end of the input inside something open. -/
def Problem.isUnterminated : Problem → Bool
  | unterminated _ => true
  | _ => false

namespace Diagnostics

/-- The places that are blamed for the end of the input inside something open. -/
def unterminated (ds : List Diagnostic) : List Span :=
  (ds.filter (·.problem.isUnterminated)).map Diagnostic.span

theorem unterminated_append (ds ds' : List Diagnostic) :
    unterminated (ds ++ ds') = unterminated ds ++ unterminated ds' := by
  simp [unterminated]

theorem unterminated_of {problem : Problem} {span : Span} (other : problem.isUnterminated = false) :
    unterminated [.of problem span] = [] := by
  simp [unterminated, Diagnostic.of, other]

end Diagnostics

/-- The places blamed for the end of the input inside something open in a session. -/
def Session.unterminated (s : Session) : List Span := Diagnostics.unterminated s.diagnostics

/-- What is known of a parse while it goes on. -/
structure Watch where
  /-- All tokens before the end of the input. -/
  tokens : List Token
  /-- What was blamed before the parse. -/
  before : List Span
  /-- More tokens than are pending. -/
  size : Nat

namespace Watch

/-- A place is that of a bracket that no token after it closes. -/
def Blames (W : Watch) (span : Span) : Prop :=
  ∃ before t after, W.tokens = before ++ t :: after ∧ t.Unmatched after ∧ t.span = span

/-- A parser has blamed nothing, or one bracket and knows it. -/
structure Holds (W : Watch) (p : Parser) : Prop where
  place : p.pending <:+ W.tokens
  size : p.pending.length < W.size
  harmless : ∀ d ∈ p.upcoming, Diagnostics.unterminated d.diagnostics = []
  blamed : ∃ spans, p.session.unterminated = W.before ++ spans ∧
    spans.length ≤ (if p.reportedEnd then 1 else 0) ∧ ∀ span ∈ spans, W.Blames span

variable {W : Watch} {p q : Parser}

namespace Holds

/-- Only the tokens, what was blamed and whether the parser knows it matter. -/
theorem congr (h : W.Holds p) (pending : q.pending = p.pending) (upcoming : q.upcoming = p.upcoming)
    (blamed : q.session.unterminated = p.session.unterminated)
    (reportedEnd : q.reportedEnd = p.reportedEnd) : W.Holds q :=
  ⟨pending ▸ h.place, pending ▸ h.size, upcoming ▸ h.harmless, by
    rw [blamed, reportedEnd]
    exact h.blamed⟩

theorem setBlockDepth (h : W.Holds p) (n : Nat) : W.Holds { p with blockDepth := n } :=
  h.congr rfl rfl rfl rfl

/-- More tokens may be pending. -/
theorem widen {size : Nat} (h : ({ W with size := size } : Watch).Holds p) (le : size ≤ W.size) :
    W.Holds p := ⟨h.place, h.size.trans_le le, h.harmless, h.blamed⟩

theorem unterminated_notify {d : Delivery} (harmless : Diagnostics.unterminated d.diagnostics = [])
    (s : Session) : (d.notify s).unterminated = s.unterminated := by
  rw [Delivery.notify, Session.unterminated, Session.diagnostics_recordAll,
    Diagnostics.unterminated_append, harmless, List.append_nil]
  split <;> rfl

/-- Taking a token. -/
theorem advance (h : W.Holds p) : W.Holds p.advance := by
  cases atEnd : p.atEnd with
  | true =>
    have same : p.advance = p := by simp [Parser.advance, atEnd]
    rwa [same]
  | false =>
    have cut := Parser.pending_of_not_atEnd atEnd
    have place : p.advance.pending <:+ W.tokens :=
      (List.suffix_cons p.current _).trans (cut ▸ h.place)
    have size : p.advance.pending.length < W.size := by
      have := h.size
      rw [cut, List.length_cons] at this
      omega
    refine ⟨place, size, ?_, ?_⟩
    · intro d mem
      refine h.harmless d ?_
      cases upcoming : p.upcoming with
      | nil => simp [Parser.advance, atEnd, upcoming] at mem
      | cons first rest =>
        simp only [Parser.advance, atEnd, upcoming] at mem
        exact List.mem_cons_of_mem _ mem
    · have blamed := h.blamed
      have harmless := h.harmless
      cases upcoming : p.upcoming with
      | nil => simpa [Parser.advance, atEnd, upcoming] using blamed
      | cons first rest =>
        have same := unterminated_notify (harmless first (upcoming ▸ List.mem_cons_self)) p.session
        simp only [Parser.advance, atEnd, upcoming, Bool.false_eq_true, ↓reduceIte, same]
        exact blamed

/-- Reporting something else. -/
theorem report {e : SyntaxError} (h : W.Holds p) (other : e.problem.isUnterminated = false) :
    W.Holds (p.report e) := by
  unfold Parser.report
  split
  · exact h
  · refine h.congr rfl rfl ?_ rfl
    rw [Session.report, Session.unterminated, Session.diagnostics_record,
      Diagnostics.unterminated_append, Diagnostics.unterminated_of other, List.append_nil]
    rfl

/-- Blaming a bracket: the error is silent if one was made before. -/
theorem unterminated {construct : String} {opening : Token} (h : W.Holds p)
    (blames : W.Blames opening.span) :
    W.Holds ((p.unterminated construct opening).2.report (p.unterminated construct opening).1) := by
  obtain ⟨spans, same, few, all⟩ := h.blamed
  unfold Parser.unterminated Parser.report
  cases reported : p.reportedEnd with
  | true =>
    rw [reported] at few
    exact ⟨h.place, h.size, h.harmless, spans, same, few, all⟩
  | false =>
    rw [reported] at few
    obtain rfl := List.length_eq_zero_iff.1 (Nat.le_zero.1 few)
    refine ⟨h.place, h.size, h.harmless, [opening.span], ?_, le_rfl,
      List.forall_mem_singleton.2 blames⟩
    simp only [Bool.false_eq_true, ↓reduceIte, Session.report, Session.unterminated,
      Session.diagnostics_record, Diagnostics.unterminated_append]
    rw [← List.append_nil W.before, ← same]
    rfl

end Holds

/-! ## Actions -/

variable {α β : Type}

/-- An action blames nothing twice and nothing wrongly, once its error is reported. -/
def Upholds (W : Watch) (action : Parse α) (p : Parser) : Prop :=
  W.Holds p →
    match action p with
    | .ok _ q => W.Holds q
    | .error e q => W.Holds (q.report e)

namespace Upholds

/-- Only what an action does at the given parser matters. -/
theorem of_eq {action action' : Parse α} (same : action p = action' p) (h : W.Upholds action' p) :
    W.Upholds action p := by
  intro holds
  rw [same]
  exact h holds

/-- The rule of sequencing. -/
theorem bind {action : Parse α} {rest : α → Parse β} (h : W.Upholds action p)
    (h' : ∀ a q, action p = .ok a q → W.Upholds (rest a) q) : W.Upholds (action >>= rest) p := by
  intro holds
  have first := h holds
  cases result : action p with
  | ok a q =>
    rw [result] at first
    rw [Parse.bind_eq_of_ok result]
    exact h' a q result first
  | error e q =>
    rw [result] at first
    rw [Parse.bind_eq_of_error result]
    exact first

theorem pure {a : α} : W.Upholds (pure a) p := id

theorem fail {e : SyntaxError} (other : e.problem.isUnterminated = false) :
    W.Upholds (throw e : Parse α) p := fun holds => holds.report other

theorem map {action : Parse α} {f : α → β} (h : W.Upholds action p) :
    W.Upholds (f <$> action) p := by
  change W.Upholds (action >>= fun a => Pure.pure (f a)) p
  exact h.bind fun _ _ _ => .pure

/-- Failing at the current token. -/
theorem unexpectedHere {expected : String} :
    W.Upholds (fun p => .error (.unexpected expected p.current) p : Parse α) p :=
  fun holds => holds.report rfl

/-- The kind of the current token is known. -/
theorem kind {rest : TokenKind → Parse β} (h : W.Upholds (rest p.current.kind) p) :
    W.Upholds (Parse.currentKind >>= rest) p := h

theorem lastSpan {rest : Span → Parse β} (h : ∀ span, W.Upholds (rest span) p) :
    W.Upholds (Parse.previousSpan >>= rest) p := h _

theorem openBlocks {rest : Nat → Parse β} (h : ∀ depth, W.Upholds (rest depth) p) :
    W.Upholds (Parse.blockDepth >>= rest) p := h _

/-- The rule of a choice by a test. -/
theorem ite {c : Prop} [Decidable c] {yes no : Parse α} (h : c → W.Upholds yes p)
    (h' : ¬c → W.Upholds no p) : W.Upholds (if c then yes else no) p := by
  by_cases test : c
  · rw [if_pos test]
    exact h test
  · rw [if_neg test]
    exact h' test

/-- Taking a token. -/
theorem advance {rest : Token → Parse β} (h : W.Upholds (rest p.current) p.advance) :
    W.Upholds (Parse.advance >>= rest) p := fun holds => h holds.advance

theorem freshId {rest : NodeId → Parse β}
    (h : ∀ id, W.Upholds (rest id) { p with nextId := p.nextId + 1 }) :
    W.Upholds (Parse.freshId >>= rest) p :=
  fun holds => h _ (holds.congr rfl rfl rfl rfl)

/-- A node is numbered when all below it is read. -/
theorem node {f : NodeId → α} : W.Upholds (do return f (← Parse.freshId)) p :=
  .freshId fun _ => .pure

theorem expect {kind : TokenKind} {expected : String} {rest : Token → Parse β}
    (h : p.current.kind = kind → W.Upholds (rest p.current) p.advance) :
    W.Upholds (Parse.expect kind expected >>= rest) p := by
  by_cases is : p.current.kind = kind
  · intro holds
    have taken : Parse.expect kind expected p = .ok p.current p.advance := if_pos is
    rw [Parse.bind_eq_of_ok taken]
    exact h is holds.advance
  · refine bind (fun holds => ?_) fun _ _ result => ?_
    · rw [Parse.expect, if_neg is]
      exact holds.report rfl
    · rw [Parse.expect, if_neg is] at result
      cases result

/-- At the end of the input the opening bracket is blamed. -/
theorem failUnterminated {construct : String} {opening : Token} (blames : W.Blames opening.span) :
    W.Upholds (Parse.failUnterminated construct opening : Parse α) p :=
  fun holds => holds.unterminated blames

theorem expectClosing {kind : TokenKind} {expected construct : String} {opening : Token}
    {rest : Token → Parse β} (blames : p.atEnd = true → W.Blames opening.span)
    (h : W.Upholds (rest p.current) p.advance) :
    W.Upholds (Parse.expectClosing kind expected construct opening >>= rest) p := by
  by_cases atEnd : p.atEnd = true
  · have same : Parse.expectClosing kind expected construct opening p =
        Parse.failUnterminated construct opening p := if_pos atEnd
    refine bind (.of_eq same (.failUnterminated (blames atEnd))) fun _ _ result => ?_
    rw [same] at result
    cases result
  · have same : (Parse.expectClosing kind expected construct opening >>= rest) p =
        (Parse.expect kind expected >>= rest) p := by
      change EStateM.bind _ rest p = EStateM.bind _ rest p
      simp only [EStateM.bind, Parse.expectClosing, if_neg atEnd]
    exact .of_eq same (.expect fun _ => h)

theorem complain {problem : Problem} {span : Span} (other : problem.isUnterminated = false) :
    W.Upholds (Parse.complain problem span) p := fun holds =>
  holds.report (e := ⟨problem, span, false⟩) other

theorem bounded {action : Nat → Parse α} (h : W.Upholds (action (p.remaining + 1)) p) :
    W.Upholds (Parse.bounded action) p := h

end Upholds

end Watch

end MiniLang
