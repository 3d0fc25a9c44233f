import MiniLang.Proofs.Diagnostic.Blame
import MiniLang.Proofs.Syntax.Spans
import MiniLang.Proofs.Token.Lexed
import MiniLang.Syntax.Parser.Statement

/-!
# Parsers go through a text in order

A parser takes tokens in the order in which they stand in the text (`Parser.InOrder`). What it finds
on its way therefore stands between where it began and where it got to, and nothing is found twice
(`Parser.Went`). An action that fails may have found something at the very token that it left to be
looked at. `Parse.Lays` says this of actions, along with what is true of their values; each way to
put actions together has its rule.
-/

set_option autoImplicit false

namespace MiniLang

/-- What is found from one place of the text on and before another: nothing twice, and only errors
of syntax. A parser that is stuck may have found something at the second place too. -/
structure Found (stuck : Prop) (lo hi : Nat) (ds : List Diagnostic) : Prop where
  nodup : (ds.map Diagnostic.blame).Nodup
  syntactic : ∀ d ∈ ds, d.problem.category = .syntactic
  within : ∀ d ∈ ds, lo ≤ d.span.start ∧ (d.span.start < hi ∨ stuck ∧ d.span.start = hi)

namespace Found

variable {stuck stuck' : Prop} {lo mid hi : Nat} {ds ds' : List Diagnostic}

theorem nil (stuck : Prop) (lo hi : Nat) : Found stuck lo hi [] :=
  ⟨List.nodup_nil, List.forall_mem_nil _, List.forall_mem_nil _⟩

theorem single {problem : Problem} {span : Span} (syntactic : problem.category = .syntactic)
    (le : lo ≤ span.start) (ge : span.start < hi ∨ stuck ∧ span.start = hi) :
    Found stuck lo hi [.of problem span] :=
  ⟨List.nodup_singleton _, List.forall_mem_singleton.2 syntactic,
    List.forall_mem_singleton.2 ⟨le, ge⟩⟩

theorem imp (h : Found stuck lo hi ds) (le : stuck → stuck') : Found stuck' lo hi ds :=
  ⟨h.nodup, h.syntactic, fun d mem => (h.within d mem).imp_right fun place =>
    place.imp_right fun here => ⟨le here.1, here.2⟩⟩

theorem perm (h : Found stuck lo hi ds) (turned : ds.Perm ds') : Found stuck lo hi ds' :=
  ⟨(turned.map _).nodup_iff.1 h.nodup, fun d mem => h.syntactic d (turned.symm.subset mem),
    fun d mem => h.within d (turned.symm.subset mem)⟩

/-- A parser that gets away from where it is stuck leaves behind what it found there. -/
theorem leave {hi' : Nat} (h : Found stuck lo hi ds) (lt : hi < hi') : Found stuck' lo hi' ds := by
  refine ⟨h.nodup, h.syntactic, fun d mem => ?_⟩
  obtain ⟨le, before | ⟨-, here⟩⟩ := h.within d mem
  · exact ⟨le, .inl (by omega)⟩
  · exact ⟨le, .inl (by omega)⟩

theorem append (h : Found False lo mid ds) (h' : Found stuck mid hi ds') (le : lo ≤ mid)
    (ge : mid ≤ hi) : Found stuck lo hi (ds ++ ds') := by
  have before : ∀ d ∈ ds, lo ≤ d.span.start ∧ d.span.start < mid := fun d mem =>
    (h.within d mem).imp_right fun place => place.resolve_right fun here => here.1
  refine ⟨?_, fun d mem => (List.mem_append.1 mem).elim (h.syntactic d) (h'.syntactic d),
    fun d mem => ?_⟩
  · rw [List.map_append, List.nodup_append]
    refine ⟨h.nodup, h'.nodup, fun b mem b' mem' same => ?_⟩
    obtain ⟨d, there, rfl⟩ := List.mem_map.1 mem
    obtain ⟨d', there', rfl⟩ := List.mem_map.1 mem'
    have spans : d.span = d'.span := (Prod.mk.inj same).2
    have first := (before d there).2
    have second := (h'.within d' there').1
    rw [spans] at first
    omega
  · rcases List.mem_append.1 mem with mem | mem
    · have inside := before d mem
      exact ⟨inside.1, .inl (by omega)⟩
    · obtain ⟨behind, upTo⟩ := h'.within d mem
      exact ⟨by omega, upTo⟩

end Found

/-- A token as texts have them: only the end of the input is empty, a number has a value, and what
closes a block is a brace. -/
structure Token.Regular (t : Token) : Prop where
  le : t.span.start ≤ t.span.stop
  nonempty : t.kind ≠ .endOfInput → t.span.start < t.span.stop
  hasValue : t.HasValue
  brace : t.kind = .closeCurly → t.text = "\x7d"

namespace Parser

/-- Where the current token begins. -/
def here (p : Parser) : Nat := p.current.span.start

/-- A parser of regular tokens in the order of the text, which were read before. -/
structure InOrder (p : Parser) : Prop where
  regular : ∀ t ∈ p.current :: p.upcoming.map Delivery.token, t.Regular
  inOrder : (p.current :: p.upcoming.map Delivery.token).IsChain fun t u =>
    t.span.stop ≤ u.span.start
  previous : p.previousSpan.stop ≤ p.here
  silent : ∀ d ∈ p.upcoming, ∀ s, d.notify s = s

/-- A parser stands where another one does. -/
structure StandsAt (p q : Parser) : Prop where
  upcoming : q.upcoming = p.upcoming
  current : q.current = p.current
  previousSpan : q.previousSpan = p.previousSpan
  consumed : q.consumed = p.consumed

/-- A parser has taken tokens, perhaps none. -/
structure Passed (p q : Parser) : Prop where
  inOrder : q.InOrder
  previous : p.previousSpan.stop ≤ q.previousSpan.stop
  consumed : p.consumed ≤ q.consumed
  stayed : q.consumed = p.consumed → q.current = p.current
  took : p.consumed < q.consumed →
    p.here < p.current.span.stop ∧ p.current.span.stop ≤ q.previousSpan.stop

/-- What a parser found while it took tokens stands between its two places. -/
structure Went (stuck : Prop) (p q : Parser) : Prop extends Passed p q where
  found : ∃ ds, q.session = p.session.recordAll ds ∧ Found stuck p.here q.here ds

variable {stuck stuck' : Prop} {p q r : Parser}

theorem StandsAt.refl (p : Parser) : p.StandsAt p := ⟨rfl, rfl, rfl, rfl⟩

theorem StandsAt.inOrder (same : p.StandsAt q) (h : p.InOrder) : q.InOrder := by
  obtain ⟨upcoming, current, previousSpan, -⟩ := same
  refine ⟨?_, ?_, ?_, ?_⟩
  · rw [upcoming, current]
    exact h.regular
  · rw [upcoming, current]
    exact h.inOrder
  · rw [here, current, previousSpan]
    exact h.previous
  · rw [upcoming]
    exact h.silent

namespace InOrder

theorem current (h : p.InOrder) : p.current.Regular := h.regular _ List.mem_cons_self

theorem nonempty (h : p.InOrder) (more : p.atEnd = false) : p.here < p.current.span.stop :=
  h.current.nonempty (by simpa [atEnd] using more)

/-- What taking a token does before the end of the input. -/
theorem advance_eq (h : p.InOrder) (more : p.atEnd = false) :
    p.advance.previousSpan = p.current.span ∧ p.advance.consumed = p.consumed + 1 ∧
      p.advance.session = p.session := by
  cases upcoming : p.upcoming with
  | nil => simp [advance, more, upcoming]
  | cons d rest =>
    have silent := h.silent d (upcoming ▸ List.mem_cons_self) p.session
    simp [advance, more, upcoming, silent]

theorem session_advance (h : p.InOrder) : p.advance.session = p.session := by
  cases more : p.atEnd with
  | true => simp [Parser.advance, more]
  | false => exact (h.advance_eq more).2.2

theorem advance (h : p.InOrder) : p.advance.InOrder := by
  cases more : p.atEnd with
  | true => simpa [Parser.advance, more] using h
  | false =>
    have inOrder := h.inOrder
    have regular := h.regular
    cases upcoming : p.upcoming with
    | nil =>
      simp only [Parser.advance, more, upcoming]
      refine ⟨?_, .singleton _, Nat.le_refl _, List.forall_mem_nil _⟩
      refine List.forall_mem_singleton.2 ⟨Nat.le_refl _, (fun going => absurd rfl going),
        Token.hasValue_endAt _, fun is => by cases is⟩
    | cons d rest =>
      rw [upcoming, List.map_cons] at inOrder regular
      simp only [Parser.advance, more, upcoming]
      exact ⟨fun t mem => regular t (List.mem_cons_of_mem _ mem), inOrder.tail, inOrder.rel,
        fun d mem => h.silent d (upcoming ▸ List.mem_cons_of_mem _ mem)⟩

end InOrder

namespace Passed

theorem here_le (h : p.Passed q) : p.here ≤ q.here := by
  rcases Nat.eq_or_lt_of_le h.consumed with same | more
  · exact Nat.le_of_eq (congrArg (fun t => t.span.start) (h.stayed same.symm)).symm
  · have took := h.took more
    have behind := h.inOrder.previous
    omega

/-- Who takes a token gets on. -/
theorem here_lt (h : p.Passed q) (more : p.consumed < q.consumed) : p.here < q.here := by
  have took := h.took more
  have behind := h.inOrder.previous
  omega

theorem refl (inOrder : p.InOrder) : p.Passed p :=
  ⟨inOrder, Nat.le_refl _, Nat.le_refl _, fun _ => rfl, fun less => absurd less (Nat.lt_irrefl _)⟩

theorem trans (h : p.Passed q) (h' : q.Passed r) : p.Passed r := by
  refine ⟨h'.inOrder, h.previous.trans h'.previous, h.consumed.trans h'.consumed, fun same => ?_,
    fun less => ?_⟩
  · have first := h.consumed
    have second := h'.consumed
    rw [h'.stayed (by omega), h.stayed (by omega)]
  · rcases Nat.eq_or_lt_of_le h.consumed with same | more
    · have current := h.stayed same.symm
      have took := h'.took (same ▸ less)
      rwa [here, current] at took
    · have took := h.took more
      exact ⟨took.1, took.2.trans h'.previous⟩

/-- Only fields that have nothing to do with the text were changed. -/
theorem standsAt (h : p.Passed q) (same : q.StandsAt r) : p.Passed r := by
  refine ⟨same.inOrder h.inOrder, ?_, ?_, ?_, ?_⟩
  · rw [same.previousSpan]
    exact h.previous
  · rw [same.consumed]
    exact h.consumed
  · rw [same.consumed, same.current]
    exact h.stayed
  · rw [same.consumed, same.previousSpan]
    exact h.took

theorem advance (inOrder : p.InOrder) : p.Passed p.advance := by
  cases more : p.atEnd with
  | true =>
    have same : p.advance = p := by simp [Parser.advance, more]
    rw [same]
    exact refl inOrder
  | false =>
    obtain ⟨previousSpan, consumed, -⟩ := inOrder.advance_eq more
    have behind := inOrder.previous
    have nonempty := inOrder.nonempty more
    refine ⟨inOrder.advance, ?_, ?_, fun same => ?_, fun _ => ⟨nonempty, ?_⟩⟩
    · rw [previousSpan]
      omega
    · omega
    · omega
    · rw [previousSpan]

end Passed

namespace Went

/-- Another parser stands where this one went, with a record of its own. -/
theorem recorded (h : p.Went stuck q) (same : q.StandsAt r) {ds : List Diagnostic}
    (session : r.session = p.session.recordAll ds) (found : Found stuck' p.here q.here ds) :
    p.Went stuck' r := by
  have place : r.here = q.here := congrArg (fun t => t.span.start) same.current
  exact ⟨h.toPassed.standsAt same, ds, session, place ▸ found⟩

/-- Only fields that have nothing to do with the text were changed. -/
theorem standsAt (h : p.Went stuck q) (same : q.StandsAt r) (session : r.session = q.session) :
    p.Went stuck r := by
  obtain ⟨ds, recorded, found⟩ := h.found
  exact h.recorded same (session.trans recorded) found

/-- The same for where the parser began. -/
theorem beganAt {p' : Parser} (h : p'.Went stuck q) (same : p.StandsAt p')
    (session : p'.session = p.session) : p.Went stuck q := by
  obtain ⟨⟨inOrder, previous, consumed, stayed, took⟩, found⟩ := h
  rw [here, same.current] at took found
  rw [same.previousSpan] at previous
  rw [same.consumed] at consumed stayed took
  rw [same.current] at stayed
  rw [session] at found
  exact ⟨⟨inOrder, previous, consumed, stayed, took⟩, found⟩

theorem imp (h : p.Went stuck q) (le : stuck → stuck') : p.Went stuck' q := by
  obtain ⟨ds, recorded, found⟩ := h.found
  exact ⟨h.toPassed, ds, recorded, found.imp le⟩

/-- Nothing was found. -/
theorem quiet (h : p.Passed q) (session : q.session = p.session) : p.Went stuck q :=
  ⟨h, [], session.trans (Session.recordAll_nil _).symm, .nil ..⟩

theorem refl (inOrder : p.InOrder) : p.Went stuck p := .quiet (.refl inOrder) rfl

theorem trans (h : p.Went False q) (h' : q.Went stuck r) : p.Went stuck r := by
  obtain ⟨ds, recorded, found⟩ := h.found
  obtain ⟨ds', recorded', found'⟩ := h'.found
  refine ⟨h.toPassed.trans h'.toPassed, ds ++ ds', ?_, found.append found' h.here_le h'.here_le⟩
  rw [recorded', recorded]
  simp [Session.recordAll]

/-! ### Reports -/

/-- An error that is silent if it was reported before. -/
theorem report {e : SyntaxError} (h : p.Went True q)
    (loud : p.Went True { q with session := q.session.report e.problem e.span }) :
    p.Went True (q.report e) := by
  unfold Parser.report
  split
  · exact h
  · exact loud

/-- Something is found at the current token. -/
theorem reportHere (h : p.Went False q) {problem : Problem}
    (syntactic : problem.category = .syntactic) :
    p.Went True { q with session := q.session.report problem q.current.span } := by
  obtain ⟨ds, recorded, found⟩ := h.found
  have here : Found True q.here q.here [.of problem q.current.span] :=
    .single syntactic (Nat.le_refl _) (.inr ⟨trivial, rfl⟩)
  refine h.recorded ⟨rfl, rfl, rfl, rfl⟩ ?_ (found.append here h.here_le (Nat.le_refl _))
  change (q.session.report problem q.current.span) = _
  rw [recorded]
  simp [Session.report, Session.record, Session.recordAll]

/-- Something is found on the way before anything else was. -/
theorem reportFirst (h : p.Went False q) (silent : q.session = p.session) {problem : Problem}
    {span : Span} (syntactic : problem.category = .syntactic) (le : p.here ≤ span.start)
    (ge : span.start ≤ q.here) :
    p.Went True { q with session := q.session.report problem span } := by
  have found : Found True p.here q.here [.of problem span] := by
    refine .single syntactic le ?_
    rcases Nat.eq_or_lt_of_le ge with here | before
    · exact .inr ⟨trivial, here⟩
    · exact .inl before
  refine h.recorded ⟨rfl, rfl, rfl, rfl⟩ ?_ found
  change q.session.report problem span = _
  rw [silent]
  rfl

end Went

/-- A token was taken. -/
structure Took (p : Parser) (t : Token) (q : Parser) : Prop where
  token : t = p.current
  went : p.Went False q
  session : q.session = p.session
  consumed : q.consumed = p.consumed + 1
  previousSpan : q.previousSpan = t.span
  nonempty : t.span.start < t.span.stop

namespace Took

variable {t : Token}

theorem here (h : Took p t q) : p.here = t.span.start := by
  rw [h.token]
  rfl

/-- A token that was taken stands between the two places. -/
theorem places (h : Took p t q) : p.here = t.span.start ∧ t.span.start < t.span.stop ∧
    q.previousSpan.stop = t.span.stop ∧ t.span.stop ≤ q.here := by
  have stop : q.previousSpan.stop = t.span.stop := by rw [h.previousSpan]
  exact ⟨h.here, h.nonempty, stop, stop ▸ h.went.inOrder.previous⟩

end Took

theorem InOrder.took (h : p.InOrder) (more : p.atEnd = false) : p.Took p.current p.advance := by
  obtain ⟨previousSpan, consumed, session⟩ := h.advance_eq more
  exact ⟨rfl, .quiet (.advance h) session, session, consumed, previousSpan, h.nonempty more⟩

/-- A parser takes tokens without finding anything, and leaves behind what it found before, unless
it is still stuck. -/
theorem Went.skip (h : p.Went stuck q) (on : q.Passed r) (session : r.session = q.session)
    (still : r.consumed = q.consumed → stuck → stuck') : p.Went stuck' r := by
  obtain ⟨ds, recorded, found⟩ := h.found
  refine ⟨h.toPassed.trans on, ds, session.trans recorded, ?_⟩
  rcases Nat.eq_or_lt_of_le on.consumed with same | more
  · have place : r.here = q.here := congrArg (fun t => t.span.start) (on.stayed same.symm)
    rw [place]
    exact found.imp (still same.symm)
  · exact found.leave (on.here_lt more)

/-- A parser that was stuck takes a token. -/
theorem Went.leave {t : Token} (h : p.Went stuck q) (took : q.Took t r) : p.Went stuck' r :=
  h.skip took.went.toPassed took.session fun same _ => by
    have := took.consumed
    omega

/-- Something is found at a token that was taken on the way. -/
theorem Went.reportBetween {q' : Parser} {t : Token} (before : p.Went False q)
    (took : q.Took t q') (behind : q'.Went stuck r) (problem : Problem)
    (syntactic : problem.category = .syntactic) :
    p.Went stuck { r with session := r.session.report problem t.span } := by
  obtain ⟨ds, recorded, found⟩ := before.found
  obtain ⟨ds', recorded', found'⟩ := behind.found
  obtain ⟨start, nonempty, -, behindIt⟩ := took.places
  have between : Found False q.here q'.here [.of problem t.span] :=
    .single syntactic (Nat.le_of_eq start) (.inl (by omega))
  have onward := behind.here_le
  have all := found.append (between.append found' (by omega) onward) before.here_le (by omega)
  have turned : (ds ++ ([Diagnostic.of problem t.span] ++ ds')).Perm
      (ds ++ ds' ++ [.of problem t.span]) := by
    rw [List.append_assoc]
    exact List.perm_append_comm.append_left ds
  refine (before.trans (took.went.trans behind)).recorded ⟨rfl, rfl, rfl, rfl⟩ ?_ (all.perm turned)
  change r.session.report problem t.span = _
  rw [recorded', took.session, recorded]
  simp [Session.report, Session.record, Session.recordAll]

end Parser

namespace Parse

open MiniLang.Parser

variable {α β : Type} {p₀ p q : Parser}

/-- Whatever an action does, a parser that went from `p₀` to where the action begins goes on; the
value is as `post` says. An error that the action fails with counts as found. -/
def Lays (p₀ : Parser) (action : Parse α) (p : Parser) (post : α → Parser → Prop) : Prop :=
  p₀.Went False p →
    match action p with
    | .ok a q => p₀.Went False q ∧ post a q
    | .error e q => p₀.Went True (q.report e)

namespace Lays

variable {post post' : α → Parser → Prop}

/-- Only what an action does at the given parser matters. -/
theorem of_eq {action action' : Parse α} (same : action p = action' p)
    (h : Lays p₀ action' p post) : Lays p₀ action p post := by
  intro went
  rw [same]
  exact h went

/-- What is known about the parser at which an action begins may be used. -/
theorem went {action : Parse α} (h : p₀.Went False p → Lays p₀ action p post) :
    Lays p₀ action p post := fun went => h went went

/-- The rule of sequencing, for a first action that looks back no further than to where it
begins. -/
theorem bind {action : Parse α} {rest : α → Parse β} {after : β → Parser → Prop}
    (h : Lays p action p post)
    (h' : ∀ a q, p.Went False q → post a q → Lays p₀ (rest a) q after) :
    Lays p₀ (action >>= rest) p after := by
  intro went
  have first := h (.refl went.inOrder)
  change match EStateM.bind action rest p with
    | .ok b r => _
    | .error e r => _
  unfold EStateM.bind
  cases result : action p with
  | ok a q =>
    rw [result] at first
    exact h' a q first.1 first.2 (went.trans first.1)
  | error e q =>
    rw [result] at first
    exact went.trans first

/-- The rule of sequencing, for a first action that may blame what came before it. -/
theorem bindFrom {action : Parse α} {rest : α → Parse β} {after : β → Parser → Prop}
    (h : Lays p₀ action p post) (h' : ∀ a q, post a q → Lays p₀ (rest a) q after) :
    Lays p₀ (action >>= rest) p after := by
  intro went
  have first := h went
  change match EStateM.bind action rest p with
    | .ok b r => _
    | .error e r => _
  unfold EStateM.bind
  cases result : action p with
  | ok a q =>
    rw [result] at first
    exact h' a q first.2 first.1
  | error e q =>
    rw [result] at first
    exact first

theorem imp {action : Parse α} (h : Lays p₀ action p post)
    (le : ∀ a q, p₀.Went False q → post a q → post' a q) : Lays p₀ action p post' := by
  intro went
  have first := h went
  cases result : action p with
  | ok a q =>
    rw [result] at first
    exact ⟨first.1, le a q first.1 first.2⟩
  | error e q =>
    rw [result] at first
    exact first

theorem pure {a : α} (h : p₀.Went False p → post a p) : Lays p₀ (pure a) p post :=
  fun went => ⟨went, h went⟩

/-- The rule of applying a function to the value. -/
theorem map {action : Parse α} {f : α → β} {after : β → Parser → Prop}
    (h : Lays p action p fun a q => after (f a) q) : Lays p (f <$> action) p after := by
  change Lays p (action >>= fun a => Pure.pure (f a)) p after
  exact bind h fun _ _ _ ready => .pure fun _ => ready

/-- The kind of the current token is known. -/
theorem kind {rest : TokenKind → Parse β} {after : β → Parser → Prop}
    (h : Lays p₀ (rest p.current.kind) p after) : Lays p₀ (currentKind >>= rest) p after := h

/-- Where the token taken last stands is known. -/
theorem lastSpan {rest : Span → Parse β} {after : β → Parser → Prop}
    (h : Lays p₀ (rest p.previousSpan) p after) : Lays p₀ (previousSpan >>= rest) p after := h

/-- How many blocks are open is known. -/
theorem depth {rest : Nat → Parse β} {after : β → Parser → Prop}
    (h : Lays p₀ (rest p.blockDepth) p after) : Lays p₀ (blockDepth >>= rest) p after := h

/-- The rule of a choice by a test. -/
theorem ite {c : Prop} [Decidable c] {yes no : Parse α} (h : c → Lays p₀ yes p post)
    (h' : ¬c → Lays p₀ no p post) : Lays p₀ (if c then yes else no) p post := by
  by_cases test : c
  · rw [if_pos test]
    exact h test
  · rw [if_neg test]
    exact h' test

/-- The rule of failing at a place on the way, if nothing was found yet. -/
theorem fail {e : SyntaxError} (silent : p.session = p₀.session)
    (syntactic : e.problem.category = .syntactic) (le : p₀.here ≤ e.span.start)
    (ge : e.span.start ≤ p.here) : Lays p₀ (throw e : Parse α) p post :=
  fun went => (went.imp False.elim).report (went.reportFirst silent syntactic le ge)

/-- Failing at the current token. -/
theorem unexpectedHere {action : Parse α} {expected : String}
    (same : action p = .error (.unexpected expected p.current) p) : Lays p₀ action p post := by
  intro went
  rw [same]
  exact (went.imp False.elim).report (went.reportHere rfl)

end Lays

theorem lays_advance (more : p.atEnd = false) : Lays p advance p (Took p) := by
  intro went
  have took := went.inOrder.took more
  exact ⟨took.went, took⟩

theorem atEnd_eq_false_of_kind {kind : TokenKind} (is : p.current.kind = kind)
    (going : kind ≠ .endOfInput) : p.atEnd = false := by
  rw [Parser.atEnd, is]
  exact beq_false_of_ne going

theorem lays_expect {kind : TokenKind} (going : kind ≠ .endOfInput) (expected : String)
    (p : Parser) : Lays p (expect kind expected) p (Took p) := by
  by_cases is : p.current.kind = kind
  · have same : expect kind expected p = advance p := if_pos is
    exact (lays_advance (atEnd_eq_false_of_kind is going)).of_eq same
  · have same : expect kind expected p = .error (.unexpected expected p.current) p := if_neg is
    exact .unexpectedHere same

/-- A new number says nothing about the text. -/
theorem lays_freshId (p : Parser) : Lays p freshId p fun _ q =>
    q.previousSpan = p.previousSpan ∧ q.session = p.session ∧ q.here = p.here :=
  fun went => ⟨went.standsAt ⟨rfl, rfl, rfl, rfl⟩ rfl, rfl, rfl, rfl⟩

/-- Taking the token that closes what `opening` began, if nothing was found since. -/
theorem lays_expectClosing {kind : TokenKind} (going : kind ≠ .endOfInput)
    (expected construct : String) {opening : Token} (silent : p.session = p₀.session)
    (le : p₀.here ≤ opening.span.start) (ge : opening.span.start ≤ p.here) :
    Lays p₀ (expectClosing kind expected construct opening) p (Took p) := by
  cases atEnd : p.atEnd with
  | true =>
    have same : expectClosing kind expected construct opening p =
        failUnterminated construct opening p := if_pos atEnd
    refine .of_eq same fun went => ?_
    have later : p₀.Went False { p with reportedEnd := true } :=
      went.standsAt ⟨rfl, rfl, rfl, rfl⟩ rfl
    exact (later.imp False.elim).report (later.reportFirst silent rfl le ge)
  | false =>
    have same : expectClosing kind expected construct opening p = expect kind expected p :=
      if_neg (by simp [atEnd])
    refine .of_eq same fun went => ?_
    have first := lays_expect going expected p (.refl went.inOrder)
    cases result : expect kind expected p with
    | ok t q =>
      rw [result] at first
      exact ⟨went.trans first.1, first.2⟩
    | error e q =>
      rw [result] at first
      exact went.trans first

/-- The rule of loops whose rounds are bounded by the tokens that are left. -/
theorem lays_bounded {action : Nat → Parse α} {post : α → Parser → Prop}
    (h : Lays p₀ (action (p.remaining + 1)) p post) : Lays p₀ (bounded action) p post := h

end Parse

end MiniLang
