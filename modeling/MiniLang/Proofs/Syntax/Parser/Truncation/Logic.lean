import MiniLang.Proofs.Syntax.Fronts
import MiniLang.Proofs.Syntax.Parser.Completeness.Logic
import MiniLang.Proofs.Syntax.Parser.Position
import MiniLang.Proofs.Syntax.Parser.Unterminated.Logic

/-!
# Parsers of the beginning of a text

Of two parsers one is given a whole text, the other one its beginning only (`Cut.Holds`). Up to the
cut they do the same. If the first one succeeds with what it does, then so does the other one, or it
comes to the end of its input; there it either blames the bracket that the front of its text says is
to blame, or it stops without blaming any, and then the front has none to blame but the brace around
(`Cut.Follows`). Each way to put actions together has its rule.
-/

set_option autoImplicit false

namespace MiniLang

namespace Parser

variable {p : Parser}

/-- Taking a token from quiet deliveries changes nothing else. -/
theorem Calm.advance (calm : p.Calm) : p.advance.Calm ∧ p.advance.session = p.session := by
  cases atEnd : p.atEnd with
  | true =>
    have same : p.advance = p := by simp [Parser.advance, atEnd]
    rw [same]
    exact ⟨calm, rfl⟩
  | false =>
    obtain ⟨t, cut⟩ : ∃ t, p.ahead = t :: p.advance.ahead := ⟨_, ahead_of_not_atEnd atEnd⟩
    have gets := gets_advance calm cut
    obtain ⟨ds, same, none, -⟩ := gets.recorded
    rw [List.length_eq_zero_iff.1 none, Session.recordAll_nil] at same
    exact ⟨gets.calm, same⟩

theorem reportedEnd_advance (p : Parser) : p.advance.reportedEnd = p.reportedEnd := by
  unfold Parser.advance
  split
  · rfl
  · split <;> rfl

theorem length_pending_advance_lt (more : p.atEnd = false) :
    p.advance.pending.length < p.pending.length := by
  rw [pending_of_not_atEnd more, List.length_cons]
  exact Nat.lt_succ_self _

end Parser

/-- A text that is cut off. -/
structure Cut where
  /-- What is delivered where the text ends. -/
  ending : List Delivery
  ends : ∀ d ∈ ending.head?, d.token.kind = .endOfInput
  /-- What the whole text goes on with there. -/
  more : List Delivery
  /-- The front of what is left of the text. -/
  front : Front
  /-- The session that the parse began with. -/
  session : Session

namespace Cut

/-- A parser has the whole text, another one its beginning. -/
def Continues (c : Cut) (p p' : Parser) : Prop :=
  ∃ ds, p.upcoming = ds ++ c.ending ∧ p' = { p with upcoming := ds ++ c.more }

/-- Parsers of the beginning of a text and of the whole stand at the same place, which has the given
front, and have complained about nothing. At the end of the beginning nothing is known of the other
parser. -/
structure Holds (c : Cut) (f : Front) (p p' : Parser) : Prop where
  front : f.run p.pending = c.front
  session : p.session = c.session
  unreported : p.reportedEnd = false
  calm : p.Calm
  whole : p.atEnd = false → c.Continues p p'

/-- A parser has come to the end, where it has blamed the bracket that is to blame, or none. In that
case none is to blame but, if there is one, the brace around. -/
structure Settled (c : Cut) (brace : Option Token) (p : Parser) : Prop where
  atEnd : p.atEnd = true
  blamed : (p.reportedEnd = true ∧ ∃ t, c.front.blamed = some t ∧
      p.session.unterminated = c.session.unterminated ++ [t.span]) ∨
    p.reportedEnd = false ∧ c.front.blamed = brace ∧
      p.session.unterminated = c.session.unterminated

variable {c : Cut} {brace : Option Token} {f g : Front} {p p' q : Parser}

namespace Holds

theorem atEnd_iff (h : c.Holds f p p') : p.atEnd = true → f = c.front := fun atEnd => by
  have front := h.front
  rwa [Parser.pending_of_atEnd atEnd] at front

/-- Before the end both parsers look at the same token. -/
theorem current (h : c.Holds f p p') (more : p.atEnd = false) : p'.current = p.current := by
  obtain ⟨ds, -, rfl⟩ := h.whole more
  rfl

theorem advance (h : c.Holds f p p') (more : p.atEnd = false) :
    c.Holds (f.step p.current) p.advance p'.advance := by
  obtain ⟨calm, same⟩ := h.calm.advance
  refine ⟨?_, same.trans h.session, (Parser.reportedEnd_advance p).trans h.unreported, calm, ?_⟩
  · have front := h.front
    rwa [Parser.pending_of_not_atEnd more] at front
  · intro going
    obtain ⟨ds, upcoming, rfl⟩ := h.whole more
    have notEnd : ¬p.current.kind = .endOfInput := by simpa [Parser.atEnd] using more
    cases ds with
    | nil =>
      -- behind the current token the text ends
      rw [List.nil_append] at upcoming
      have ends := c.ends
      rw [← upcoming] at ends
      cases next : p.upcoming with
      | nil => simp [Parser.advance, Parser.atEnd, notEnd, next, Token.endAt] at going
      | cons d rest =>
        have kind := ends d (by simp [next])
        simp [Parser.advance, Parser.atEnd, notEnd, next, kind] at going
    | cons d ds =>
      exact ⟨ds, by simp [Parser.advance, Parser.atEnd, notEnd, upcoming],
        by simp [Parser.advance, Parser.atEnd, notEnd, upcoming]⟩

/-- The parser of the whole text has no fewer tokens to take. -/
theorem length_pending_le (h : c.Holds f p p') : p.pending.length ≤ p'.remaining := by
  cases atEnd : p.atEnd with
  | true =>
    rw [Parser.pending_of_atEnd atEnd]
    exact Nat.zero_le _
  | false =>
    obtain ⟨ds, upcoming, rfl⟩ := h.whole atEnd
    have notEnd : ¬p.current.kind = .endOfInput := by simpa [Parser.atEnd] using atEnd
    have stops : (c.ending.map Delivery.token).takeWhile (·.kind ≠ .endOfInput) = [] := by
      have ends := c.ends
      cases ending : c.ending with
      | nil => rfl
      | cons d rest =>
        rw [ending] at ends
        simp [ends d rfl]
    have few : p.pending.length ≤ ds.length + 1 := by
      rw [Parser.pending, upcoming, List.map_append, ← List.cons_append, List.takeWhile_append]
      split
      · rw [stops]
        simp
      · exact (List.takeWhile_prefix _).length_le.trans (by simp)
    simp only [Parser.remaining, Parser.atEnd, beq_iff_eq, notEnd, ↓reduceIte, List.length_append]
    omega

/-- Counting and marking matter to neither parser. -/
theorem setNextId (h : c.Holds f p p') (n : NodeId) :
    c.Holds f { p with nextId := n } { p' with nextId := n } := by
  refine ⟨h.front, h.session, h.unreported, ⟨h.calm.upcoming, h.calm.cancelAfter,
    h.calm.uncancelled⟩, fun more => ?_⟩
  obtain ⟨ds, upcoming, rfl⟩ := h.whole more
  exact ⟨ds, upcoming, rfl⟩

theorem mapBlockDepth (h : c.Holds f p p') (next : Nat → Nat) :
    c.Holds f { p with blockDepth := next p.blockDepth }
      { p' with blockDepth := next p'.blockDepth } := by
  refine ⟨h.front, h.session, h.unreported, ⟨h.calm.upcoming, h.calm.cancelAfter,
    h.calm.uncancelled⟩, fun more => ?_⟩
  obtain ⟨ds, upcoming, rfl⟩ := h.whole more
  exact ⟨ds, upcoming, rfl⟩

/-- Stopping at the end for another reason than an open bracket. -/
theorem settled {e : SyntaxError} (h : c.Holds f p p') (atEnd : p.atEnd = true)
    (other : e.problem.isUnterminated = false) (blamed : f.blamed = brace) :
    c.Settled brace (p.report e) := by
  obtain rfl := h.atEnd_iff atEnd
  unfold Parser.report
  split
  · exact ⟨atEnd, .inr ⟨h.unreported, blamed, by rw [h.session]⟩⟩
  · refine ⟨atEnd, .inr ⟨h.unreported, blamed, ?_⟩⟩
    rw [h.session, Session.report, Session.unterminated, Session.diagnostics_record,
      Diagnostics.unterminated_append, Diagnostics.unterminated_of other, List.append_nil]
    rfl

/-- Blaming a bracket at the end. -/
theorem settled_unterminated {construct : String} {opening : Token} (h : c.Holds f p p')
    (atEnd : p.atEnd = true) (blamed : f.blamed = some opening) :
    c.Settled brace
      ((p.unterminated construct opening).2.report (p.unterminated construct opening).1) := by
  obtain rfl := h.atEnd_iff atEnd
  refine ⟨?_, .inl ⟨?_, opening, blamed, ?_⟩⟩
  · unfold Parser.report Parser.unterminated
    split <;> exact atEnd
  · unfold Parser.report Parser.unterminated
    split <;> rfl
  · simp only [Parser.unterminated, Parser.report, h.unreported, Bool.false_eq_true, ↓reduceIte,
      Session.report, Session.unterminated, Session.diagnostics_record,
      Diagnostics.unterminated_append, h.session]
    rfl

end Holds

theorem Settled.setBlockDepth (h : c.Settled brace p) (n : Nat) :
    c.Settled brace { p with blockDepth := n } := ⟨h.atEnd, h.blamed⟩

/-- Blaming the brace around at the end, where another bracket was blamed already, or none. -/
theorem Settled.unterminated {construct : String} {opening : Token} {around : Option Token}
    (h : c.Settled (some opening) p) :
    c.Settled around
      ((p.unterminated construct opening).2.report (p.unterminated construct opening).1) := by
  obtain ⟨atEnd, ⟨reported, t, blamed, recorded⟩ | ⟨unreported, blamed, none⟩⟩ := h
  · simp only [Parser.unterminated, Parser.report, reported, ↓reduceIte]
    exact ⟨atEnd, .inl ⟨rfl, t, blamed, recorded⟩⟩
  · simp only [Parser.unterminated, Parser.report, unreported, Bool.false_eq_true, ↓reduceIte]
    refine ⟨atEnd, .inl ⟨rfl, opening, blamed, ?_⟩⟩
    rw [Session.report, Session.unterminated, Session.diagnostics_record,
      Diagnostics.unterminated_append, ← none]
    rfl

/-! ## Actions -/

variable {α β : Type}

/-- If an action gives a fine value on the whole text, then on its beginning it gives the same, or
it comes to the end. -/
def Follows (c : Cut) (brace : Option Token) (fine : α → Prop) (action action' : Parse α)
    (f : Front) (p p' : Parser) (post : Front → Parser → Prop) : Prop :=
  c.Holds f p p' → (p.atEnd = false → ∃ a q, action' p' = .ok a q ∧ fine a) →
    match action p with
    | .ok a q => ∃ g q', c.Holds g q q' ∧ post g q ∧ q.pending.length ≤ p.pending.length ∧
        (q.atEnd = false → p.atEnd = false ∧ action' p' = .ok a q')
    | .error e q => c.Settled brace (q.report e)

/-- Whatever the value is. -/
def anyValue (_ : α) : Prop := True

/-- What an action that is put together gives, its parts have given. -/
theorem ok_of_bind {action : Parse α} {rest : α → Parse β} {b : β} {r : Parser}
    (h : (action >>= rest) p = .ok b r) : ∃ a q, action p = .ok a q ∧ rest a q = .ok b r := by
  cases result : action p with
  | ok a q => exact ⟨a, q, rfl, (Parse.bind_eq_of_ok result).symm.trans h⟩
  | error e q =>
    rw [Parse.bind_eq_of_error result] at h
    cases h

namespace Follows

variable {fine : α → Prop} {fine' : β → Prop} {action action' : Parse α}
  {post post' : Front → Parser → Prop}

/-- Actions that begin with a step of both parsers. -/
theorem of_step {other other' : Parse α} {q q' : Parser} (here : action p = other q)
    (there : c.Holds f p p' → q.atEnd = false → action' p' = other' q')
    (step : c.Holds f p p' → c.Holds g q q') (fewer : q.pending.length ≤ p.pending.length)
    (going : q.atEnd = false → p.atEnd = false)
    (h : c.Follows brace fine other other' g q q' post) :
    c.Follows brace fine action action' f p p' post := by
  intro holds succeeds
  have outcome := h (step holds) fun more => by
    rw [← there holds more]
    exact succeeds (going more)
  rw [here]
  cases result : other q with
  | ok a r =>
    rw [result] at outcome
    obtain ⟨g', r', holds', value, le, both⟩ := outcome
    refine ⟨g', r', holds', value, le.trans fewer, fun more => ?_⟩
    obtain ⟨more', agree⟩ := both more
    exact ⟨going more', (there holds more').trans agree⟩
  | error e r =>
    rw [result] at outcome
    exact outcome

/-- Only what the actions do at the given parsers matters. -/
theorem of_eq {other other' : Parse α} (here : action p = other p)
    (there : c.Holds f p p' → p.atEnd = false → action' p' = other' p')
    (h : c.Follows brace fine other other' f p p' post) :
    c.Follows brace fine action action' f p p' post := .of_step here there id le_rfl id h

/-- The rule of sequencing, where the first value has to be fine if the last one is. -/
theorem bindFine {rest rest' : α → Parse β} (h : c.Follows brace fine action action' f p p' post)
    (h' : ∀ a g q q', post g q → q.pending.length ≤ p.pending.length →
      c.Follows brace fine' (rest a) (rest' a) g q q' post')
    (parts : ∀ a q b r, rest' a q = .ok b r → fine' b → fine a) :
    c.Follows brace fine' (action >>= rest) (action' >>= rest') f p p' post' := by
  intro holds succeeds
  have split : p.atEnd = false → ∃ a q b r, action' p' = .ok a q ∧ rest' a q = .ok b r ∧ fine' b :=
    fun more => by
      obtain ⟨b, r, whole, good⟩ := succeeds more
      obtain ⟨a, q, first, second⟩ := ok_of_bind whole
      exact ⟨a, q, b, r, first, second, good⟩
  have outcome := h holds fun more => by
    obtain ⟨a, q, b, r, first, second, good⟩ := split more
    exact ⟨a, q, first, parts a q b r second good⟩
  cases result : action p with
  | error e q =>
    rw [result] at outcome
    rw [Parse.bind_eq_of_error result]
    exact outcome
  | ok a q =>
    rw [result] at outcome
    obtain ⟨g, q', holds', value, le, both⟩ := outcome
    have outcome' := h' a g q q' value le holds' fun more => by
      obtain ⟨going, agree⟩ := both more
      obtain ⟨a', q'', b, r, first, second, good⟩ := split going
      obtain ⟨rfl, rfl⟩ : a = a' ∧ q' = q'' := by
        rw [agree] at first
        cases first
        exact ⟨rfl, rfl⟩
      exact ⟨b, r, second, good⟩
    rw [Parse.bind_eq_of_ok result]
    cases result' : rest a q with
    | error e r =>
      rw [result'] at outcome'
      exact outcome'
    | ok b r =>
      rw [result'] at outcome'
      obtain ⟨g', r', holds'', value', le', both'⟩ := outcome'
      refine ⟨g', r', holds'', value', le'.trans le, fun more => ?_⟩
      obtain ⟨going, agree⟩ := both' more
      obtain ⟨going', agree'⟩ := both going
      exact ⟨going', (Parse.bind_eq_of_ok agree').trans agree⟩

/-- The rule of sequencing. -/
theorem bind {rest rest' : α → Parse β}
    (h : c.Follows brace anyValue action action' f p p' post)
    (h' : ∀ a g q q', post g q → q.pending.length ≤ p.pending.length →
      c.Follows brace fine' (rest a) (rest' a) g q q' post') :
    c.Follows brace fine' (action >>= rest) (action' >>= rest') f p p' post' :=
  h.bindFine h' fun _ _ _ _ _ _ => trivial

theorem pure {a : α} (h : post f p) : c.Follows brace fine (pure a) (pure a) f p p' post :=
  fun holds _ => ⟨f, p', holds, h, le_rfl, fun more => ⟨more, rfl⟩⟩

/-- Before the end of the beginning it is known that the action gives something on the whole
text. -/
theorem of_ok (more : p.atEnd = false)
    (h : ∀ a q, c.Holds f p p' → action' p' = .ok a q → fine a →
      c.Follows brace fine action action' f p p' post) :
    c.Follows brace fine action action' f p p' post := by
  intro holds succeeds
  obtain ⟨a, q, result, good⟩ := succeeds more
  exact h a q holds result good holds succeeds

/-- The rule of applying a function to the value. -/
theorem map {apply : α → β} (h : c.Follows brace fine action action' f p p' post)
    (parts : ∀ a, fine' (apply a) → fine a) :
    c.Follows brace fine' (apply <$> action) (apply <$> action') f p p' post := by
  change c.Follows brace fine' (action >>= fun a => Pure.pure (apply a))
    (action' >>= fun a => Pure.pure (apply a)) f p p' post
  refine h.bindFine (fun a g q q' value _ => .pure value) fun a q b r same good => ?_
  cases same
  exact parts a good

/-- Failing at the current token, which only the end of the text can bring about. -/
theorem unexpectedHere {expected : String} (blamed : p.atEnd = true → f.blamed = brace) :
    c.Follows brace fine (fun p => .error (.unexpected expected p.current) p : Parse α)
      (fun p => .error (.unexpected expected p.current) p) f p p' post := by
  intro holds succeeds
  cases atEnd : p.atEnd with
  | true => exact holds.settled atEnd rfl (blamed atEnd)
  | false =>
    obtain ⟨a, q, result, -⟩ := succeeds atEnd
    cases result

/-- Blaming a bracket at the end. -/
theorem failUnterminated {construct : String} {opening : Token} (atEnd : p.atEnd = true)
    (blamed : f.blamed = some opening) :
    c.Follows brace fine (Parse.failUnterminated construct opening : Parse α)
      (Parse.failUnterminated construct opening) f p p' post :=
  fun holds _ => holds.settled_unterminated atEnd blamed

/-- The kind of the current token is known. -/
theorem kind {rest rest' : TokenKind → Parse β}
    (h : c.Follows brace fine' (rest p.current.kind) (rest' p.current.kind) f p p' post) :
    c.Follows brace fine' (Parse.currentKind >>= rest) (Parse.currentKind >>= rest') f p p'
      post := by
  have here : (Parse.currentKind >>= rest) p = rest p.current.kind p := rfl
  refine of_eq here (fun holds more => ?_) h
  exact congrArg (fun t : Token => rest' t.kind p') (holds.current more)

/-- The rule of a choice by a test. -/
theorem ite {test : Prop} [Decidable test] {yes yes' no no' : Parse α}
    (h : test → c.Follows brace fine yes yes' f p p' post)
    (h' : ¬test → c.Follows brace fine no no' f p p' post) :
    c.Follows brace fine (if test then yes else no) (if test then yes' else no') f p p' post := by
  by_cases holds : test
  · rw [if_pos holds, if_pos holds]
    exact h holds
  · rw [if_neg holds, if_neg holds]
    exact h' holds

/-- Loops whose bounds are greater than the number of tokens up to the end of the beginning. -/
theorem bounded {loop loop' : Nat → Parse α}
    (h : ∀ fuel fuel', p.pending.length < fuel → p.pending.length < fuel' →
      c.Follows brace fine (loop fuel) (loop' fuel') f p p' post) :
    c.Follows brace fine (Parse.bounded loop) (Parse.bounded loop') f p p' post := by
  intro holds
  exact h _ _ (Nat.lt_succ_of_le (p.length_ahead ▸ p.length_ahead_le))
    (Nat.lt_succ_of_le holds.length_pending_le) holds

theorem lastSpan {rest rest' : Span → Parse β}
    (h : ∀ span, c.Follows brace fine' (rest span) (rest' span) f p p' post) :
    c.Follows brace fine' (Parse.previousSpan >>= rest) (Parse.previousSpan >>= rest') f p p'
      post := by
  have here : (Parse.previousSpan >>= rest) p = rest p.previousSpan p := rfl
  refine of_eq here (fun holds more => ?_) (h _)
  obtain ⟨ds, -, rfl⟩ := holds.whole more
  rfl

theorem openBlocks {rest rest' : Nat → Parse β}
    (h : ∀ depth, c.Follows brace fine' (rest depth) (rest' depth) f p p' post) :
    c.Follows brace fine' (Parse.blockDepth >>= rest) (Parse.blockDepth >>= rest') f p p' post := by
  have here : (Parse.blockDepth >>= rest) p = rest p.blockDepth p := rfl
  refine of_eq here (fun holds more => ?_) (h _)
  obtain ⟨ds, -, rfl⟩ := holds.whole more
  rfl

/-- Taking a token before the end. -/
theorem advance {rest rest' : Token → Parse β} (more : p.atEnd = false)
    (h : ∀ q', c.Follows brace fine' (rest p.current) (rest' p.current) (f.step p.current) p.advance
      q' post) :
    c.Follows brace fine' (Parse.advance >>= rest) (Parse.advance >>= rest') f p p' post := by
  have here : (Parse.advance >>= rest) p = rest p.current p.advance := rfl
  refine of_step here (fun holds _ => ?_) (fun holds => holds.advance more)
    (Parser.length_pending_advance_lt more).le (fun _ => more) (h p'.advance)
  exact congrArg (fun t : Token => rest' t p'.advance) (holds.current more)

theorem freshId {rest rest' : NodeId → Parse β}
    (h : ∀ id q', c.Follows brace fine' (rest id) (rest' id) f { p with nextId := p.nextId + 1 } q'
      post) :
    c.Follows brace fine' (Parse.freshId >>= rest) (Parse.freshId >>= rest') f p p' post := by
  have here : (Parse.freshId >>= rest) p = rest p.nextId { p with nextId := p.nextId + 1 } := rfl
  refine of_step here (fun holds more => ?_) (fun holds => holds.setNextId (p.nextId + 1)) le_rfl id
    (h p.nextId _)
  obtain ⟨ds, -, rfl⟩ := holds.whole more
  rfl

/-- A node is numbered when all below it is read. -/
theorem node {make : NodeId → α}
    (h : ∀ q : Parser, q.pending = p.pending → q.atEnd = p.atEnd → post f q) :
    c.Follows brace fine (do return make (← Parse.freshId)) (do return make (← Parse.freshId)) f p
      p' post := .freshId fun _ _ => .pure (h _ rfl rfl)

theorem expect {kind : TokenKind} {expected : String} {rest rest' : Token → Parse β}
    (present : kind ≠ .endOfInput) (blamed : p.atEnd = true → f.blamed = brace)
    (h : p.current.kind = kind → ∀ q', c.Follows brace fine' (rest p.current) (rest' p.current)
      (f.step p.current) p.advance q' post) :
    c.Follows brace fine' (Parse.expect kind expected >>= rest)
      (Parse.expect kind expected >>= rest') f p p' post := by
  by_cases is : p.current.kind = kind
  · have more : p.atEnd = false := by simp [Parser.atEnd, is, present]
    have here : Parse.expect kind expected p = .ok p.current p.advance := if_pos is
    refine .of_step (Parse.bind_eq_of_ok here) (fun holds _ => ?_)
      (fun holds => holds.advance more) (Parser.length_pending_advance_lt more).le (fun _ => more)
      (h is p'.advance)
    have same := (holds.current more).symm
    have there : Parse.expect kind expected p' = .ok p.current p'.advance := by
      rw [same] at is ⊢
      exact if_pos is
    exact Parse.bind_eq_of_ok there
  · -- this is the end, since the parser of the whole text would fail as well
    intro holds succeeds
    have here : Parse.expect kind expected p = .error (.unexpected expected p.current) p :=
      if_neg is
    rw [Parse.bind_eq_of_error here]
    cases atEnd : p.atEnd with
    | true => exact holds.settled atEnd rfl (blamed atEnd)
    | false =>
      have same := holds.current atEnd
      have there : Parse.expect kind expected p' = .error (.unexpected expected p'.current) p' :=
        if_neg (same ▸ is)
      obtain ⟨b, r, result, -⟩ := succeeds atEnd
      rw [Parse.bind_eq_of_error there] at result
      cases result

theorem expectClosing {kind : TokenKind} {expected construct : String} {opening : Token}
    {rest rest' : Token → Parse β} (present : kind ≠ .endOfInput)
    (closes : p.atEnd = true → f.blamed = some opening)
    (h : p.current.kind = kind → ∀ q', c.Follows brace fine' (rest p.current) (rest' p.current)
      (f.step p.current) p.advance q' post) :
    c.Follows brace fine' (Parse.expectClosing kind expected construct opening >>= rest)
      (Parse.expectClosing kind expected construct opening >>= rest') f p p' post := by
  cases atEnd : p.atEnd with
  | true =>
    intro holds _
    have here : Parse.expectClosing kind expected construct opening p =
        Parse.failUnterminated construct opening p := if_pos atEnd
    rw [Parse.bind_eq_of_error (here.trans rfl)]
    exact holds.settled_unterminated atEnd (closes atEnd)
  | false =>
    have same : ∀ q : Parser, q.atEnd = false → ∀ rest : Token → Parse β,
        (Parse.expectClosing kind expected construct opening >>= rest) q =
          (Parse.expect kind expected >>= rest) q := by
      intro q more rest
      have direct : Parse.expectClosing kind expected construct opening q =
          Parse.expect kind expected q := if_neg (by simp [more])
      change EStateM.bind _ rest q = EStateM.bind _ rest q
      simp only [EStateM.bind, direct]
    refine .of_eq (same p atEnd rest) (fun holds more => ?_)
      (expect present (fun ended => absurd ended (by simp [atEnd])) h)
    obtain ⟨ds, -, rfl⟩ := holds.whole more
    refine same _ ?_ rest'
    exact more

end Follows

end Cut

end MiniLang
