import MiniLang.Proofs.Session.Invariant
import MiniLang.Syntax.Parser.Statement

/-!
# What parsers keep

A parser gets its places from its tokens and puts them together, and it tells its session about
problems at these places. So what is to stay true does, whatever an action does and whether it gives
a value or fails (`Parse.Keeps`). Where the input ends without a token for its end, the parser makes
one up behind the last token; that is a place of the same kind only if some rule says so
(`Parser.Within`). Each way to put actions together has its rule.
-/

set_option autoImplicit false

namespace MiniLang

namespace Invariant

/-- A delivery brings a token at a place of the right kind, and no word of a cancellation. -/
structure Delivers (I : Invariant) (d : Delivery) : Prop where
  place : I.place d.token.span
  found : ∀ problem ∈ d.problem, problem.InProgram

/-- The end of the input has a place of the right kind: a token stands there, or it is made up. -/
def Ends (I : Invariant) (tokens : List Token) : Prop :=
  (∃ t ∈ tokens, t.kind = .endOfInput) ∨ ∀ span, I.place span → I.place span.endOf

theorem Lawful.notify {I : Invariant} (law : I.Lawful) {d : Delivery} (delivers : I.Delivers d)
    {s : Session} (h : I.session s) : I.session (d.notify s) := by
  have asked : I.session (if d.cancels then s.cancel else s) := by
    split
    · exact law.cancel h
    · exact h
  refine law.recordAll asked fun x mem => ?_
  obtain ⟨problem, there, rfl⟩ := List.mem_map.1 mem
  exact ⟨problem, _, rfl, delivers.found problem (Option.mem_toList.1 there), delivers.place⟩

end Invariant

/-- A parser of tokens at places of the right kind, with a session of which the invariant is
true. -/
structure Parser.Within (I : Invariant) (p : Parser) : Prop where
  current : I.place p.current.span
  upcoming : ∀ d ∈ p.upcoming, I.Delivers d
  previous : I.place p.previousSpan
  ends : I.Ends (p.current :: p.upcoming.map Delivery.token)
  session : I.session p.session

namespace Parser.Within

variable {I : Invariant} {p : Parser}

theorem start (law : I.Lawful) {tokens : List Delivery} {s : Session} (h : I.session s)
    (delivers : ∀ d ∈ tokens, I.Delivers d) (ends : I.Ends (tokens.map Delivery.token)) :
    (Parser.start tokens s).Within I := by
  cases tokens with
  | nil => exact ⟨law.origin, delivers, law.origin, .inl ⟨_, List.mem_cons_self, rfl⟩, h⟩
  | cons d rest =>
    obtain ⟨first, others⟩ := List.forall_mem_cons.1 delivers
    exact ⟨first.place, others, law.origin, ends, law.notify first h⟩

theorem advance (law : I.Lawful) (h : p.Within I) : p.advance.Within I := by
  unfold Parser.advance
  split
  · exact h
  next going =>
    have later : ∀ {t : Token}, t ∈ p.current :: p.upcoming.map Delivery.token →
        t.kind = .endOfInput → t ∈ p.upcoming.map Delivery.token := by
      intro t mem is
      rcases List.mem_cons.1 mem with rfl | mem
      · exact absurd (beq_iff_eq.2 is) going
      · exact mem
    split
    next none =>
      have made : I.place p.current.span.endOf := by
        rcases h.ends with ⟨t, mem, is⟩ | closed
        · have behind := later mem is
          rw [none] at behind
          cases behind
        · exact closed _ h.current
      exact ⟨made, h.upcoming, h.current, .inl ⟨_, List.mem_cons_self, rfl⟩, h.session⟩
    next d rest more =>
      obtain ⟨first, others⟩ := List.forall_mem_cons.1 (more ▸ h.upcoming)
      refine ⟨first.place, others, h.current, ?_, law.notify first h.session⟩
      rcases h.ends with ⟨t, mem, is⟩ | closed
      · have behind := later mem is
        rw [more] at behind
        exact .inl ⟨t, behind, is⟩
      · exact .inr closed

/-- Another session of which the invariant is true. -/
theorem withSession (h : p.Within I) {s : Session} (h' : I.session s) :
    Within I { p with session := s } :=
  ⟨h.current, h.upcoming, h.previous, h.ends, h'⟩

end Parser.Within

namespace Invariant

/-- A syntax error about the program, at a place of the right kind. -/
structure Fails (I : Invariant) (e : SyntaxError) : Prop where
  place : I.place e.span
  found : e.problem.InProgram

theorem Fails.unexpected {I : Invariant} {t : Token} (h : I.place t.span) (expected : String) :
    I.Fails (.unexpected expected t) := ⟨h, nofun⟩

end Invariant

theorem Parser.Within.report {I : Invariant} {p : Parser} (law : I.Lawful) (h : p.Within I)
    {e : SyntaxError} (fails : I.Fails e) : (p.report e).Within I := by
  unfold Parser.report
  split
  · exact h
  · exact h.withSession (law.report h.session fails.found fails.place)

namespace Parse

variable {I : Invariant} {α β : Type}

/-- An action keeps what is to stay true, and gives a value of which `post` holds or fails with an
error about the program. -/
def Keeps (I : Invariant) (action : Parse α) (post : α → Prop) : Prop :=
  ∀ p : Parser, p.Within I →
    match action p with
    | .ok a q => q.Within I ∧ post a
    | .error e q => q.Within I ∧ I.Fails e

namespace Keeps

variable {action : Parse α} {post : α → Prop} {after : β → Prop}

/-- The rule of sequencing. -/
theorem bind {rest : α → Parse β} (h : Keeps I action post)
    (h' : ∀ a, post a → Keeps I (rest a) after) : Keeps I (action >>= rest) after := by
  intro p within
  have first := h p within
  change match EStateM.bind action rest p with
    | .ok b q => _
    | .error e q => _
  unfold EStateM.bind
  cases result : action p with
  | ok a q =>
    rw [result] at first
    exact h' a first.2 q first.1
  | error e q =>
    rw [result] at first
    exact first

theorem pure {a : α} (h : post a) : Keeps I (pure a) post := fun _ within => ⟨within, h⟩

theorem imp {post' : α → Prop} (h : Keeps I action post) (le : ∀ a, post a → post' a) :
    Keeps I action post' := by
  intro p within
  have first := h p within
  cases result : action p with
  | ok a q =>
    rw [result] at first
    exact ⟨first.1, le a first.2⟩
  | error e q =>
    rw [result] at first
    exact first

/-- The rule of applying a function to the value. -/
theorem map {f : α → β} (h : Keeps I action fun a => after (f a)) :
    Keeps I (f <$> action) after := by
  change Keeps I (action >>= fun a => Pure.pure (f a)) after
  exact h.bind fun _ ready => .pure ready

/-- The rule of a choice by a test. -/
theorem ite {c : Prop} [Decidable c] {yes no : Parse α} (h : Keeps I yes post)
    (h' : Keeps I no post) : Keeps I (if c then yes else no) post := by
  split
  · exact h
  · exact h'

/-- The rule of failing. -/
theorem fail {e : SyntaxError} (h : I.Fails e) : Keeps I (throw e : Parse α) post :=
  fun _ within => ⟨within, h⟩

/-- Failing at the current token. -/
theorem unexpectedHere {expected : String} :
    Keeps I (fun p => .error (.unexpected expected p.current) p : Parse α) post :=
  fun _ within => ⟨within, .unexpected within.current expected⟩

/-- The kind of the current token may be looked at. -/
theorem kind {rest : TokenKind → Parse β} (h : ∀ kind, Keeps I (rest kind) after) :
    Keeps I (currentKind >>= rest) after := fun p within => h p.current.kind p within

/-- The rule of loops whose rounds are bounded by the tokens that are left. -/
theorem bounded {rounds : Nat → Parse α} (h : ∀ fuel, Keeps I (rounds fuel) post) :
    Keeps I (Parse.bounded rounds) post := fun p within => h (p.remaining + 1) p within

end Keeps

theorem keeps_advance (law : I.Lawful) : Keeps I advance fun t => I.place t.span :=
  fun _ within => ⟨within.advance law, within.current⟩

theorem keeps_freshId : Keeps I freshId fun _ => True :=
  fun _ within => ⟨⟨within.current, within.upcoming, within.previous, within.ends, within.session⟩,
    trivial⟩

theorem keeps_previousSpan : Keeps I previousSpan I.place :=
  fun _ within => ⟨within, within.previous⟩

theorem keeps_blockDepth : Keeps I blockDepth fun _ => True := fun _ within => ⟨within, trivial⟩

theorem keeps_expect (law : I.Lawful) (kind : TokenKind) (expected : String) :
    Keeps I (expect kind expected) fun t => I.place t.span := by
  intro p within
  unfold expect
  by_cases is : p.current.kind = kind
  · rw [if_pos is]
    exact keeps_advance law p within
  · rw [if_neg is]
    exact ⟨within, .unexpected within.current expected⟩

theorem keeps_failUnterminated {post : α → Prop} (construct : String) {opening : Token}
    (here : I.place opening.span) :
    Keeps I (failUnterminated construct opening : Parse α) post :=
  fun _ within => ⟨⟨within.current, within.upcoming, within.previous, within.ends,
    within.session⟩, here, nofun⟩

theorem keeps_expectClosing (law : I.Lawful) (kind : TokenKind) (expected construct : String)
    {opening : Token} (here : I.place opening.span) :
    Keeps I (expectClosing kind expected construct opening) fun t => I.place t.span := by
  intro p within
  unfold expectClosing
  cases p.atEnd with
  | true =>
    have fails : Keeps I (failUnterminated construct opening : Parse Token) fun t =>
        I.place t.span := keeps_failUnterminated construct here
    exact fails p within
  | false => exact keeps_expect law kind expected p within

theorem keeps_complain (law : I.Lawful) {problem : Problem} (found : problem.InProgram)
    {span : Span} (here : I.place span) : Keeps I (complain problem span) fun _ => True :=
  fun _ within => ⟨within.withSession (law.report within.session found here), trivial⟩

end Parse

end MiniLang
