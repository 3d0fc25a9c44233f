import MiniLang.Proofs.Syntax.Parser.Ahead

/-!
# Parsers that nobody disturbs

Where the tokens ahead bring no problems along and nobody cancels the work (`Parser.Calm`), what an
action does depends on the terminals ahead alone. `Parse.Gives` says that an action succeeds, which
terminals it leaves ahead, and how many errors it records. Each way to put actions together has its
rule.
-/

set_option autoImplicit false

namespace MiniLang

namespace Parser

/-- Nothing on the way to a parser records a problem or cancels it. -/
structure Calm (p : Parser) : Prop where
  upcoming : ∀ d ∈ p.upcoming, d.problem = none ∧ d.cancels = false
  cancelAfter : p.session.cancelAfter = none
  uncancelled : p.session.cancelled = false

/-- A parser has got to where `rest` is ahead, and `n` errors were recorded on the way. -/
structure Gets (n : Nat) (p q : Parser) (rest : List Terminal) : Prop where
  ahead : q.ahead = rest
  calm : q.Calm
  blockDepth : q.blockDepth = p.blockDepth
  recorded : ∃ ds : List Diagnostic, q.session = p.session.recordAll ds ∧ ds.length = n ∧
    ∀ x ∈ ds, x.isError = true

variable {p q r : Parser} {n m : Nat} {rest mid : List Terminal}

theorem Gets.refl (calm : p.Calm) (cut : p.ahead = rest) : Gets 0 p p rest :=
  ⟨cut, calm, rfl, [], (Session.recordAll_nil _).symm, rfl, fun _ mem => by cases mem⟩

theorem Gets.trans (h : Gets n p q mid) (h' : Gets m q r rest) : Gets (n + m) p r rest := by
  obtain ⟨ds, same, length, errors⟩ := h.recorded
  obtain ⟨es, same', length', errors'⟩ := h'.recorded
  refine ⟨h'.ahead, h'.calm, h'.blockDepth.trans h.blockDepth, ds ++ es, ?_, ?_, ?_⟩
  · rw [same', same]
    simp [Session.recordAll]
  · rw [List.length_append, length, length']
  · intro x mem
    exact (List.mem_append.1 mem).elim (errors x) (errors' x)

/-- Taking a token. -/
theorem gets_advance {t : Terminal} (calm : p.Calm) (cut : p.ahead = t :: rest) :
    Gets 0 p p.advance rest := by
  obtain ⟨atEnd, -, ahead⟩ := of_ahead_eq_cons cut
  cases more : p.upcoming with
  | nil =>
    have same : p.advance.session = p.session := by simp [advance, atEnd, more]
    refine ⟨ahead, ⟨?_, ?_, ?_⟩, ?_, [], ?_, rfl, fun _ mem => by cases mem⟩
    · simp [advance, atEnd, more]
    · rw [same, calm.cancelAfter]
    · rw [same, calm.uncancelled]
    · simp [advance, atEnd, more]
    · rw [same, Session.recordAll_nil]
  | cons d others =>
    obtain ⟨noProblem, quiet⟩ := calm.upcoming d (more ▸ List.mem_cons_self)
    have same : p.advance.session = p.session := by
      simp [advance, atEnd, more, Delivery.notify, Delivery.diagnostics, noProblem, quiet,
        Session.recordAll_nil]
    refine ⟨ahead, ⟨fun x mem => ?_, ?_, ?_⟩, ?_, [], ?_, rfl, fun _ mem => by cases mem⟩
    · refine calm.upcoming x (more ▸ List.mem_cons_of_mem _ ?_)
      simpa [advance, atEnd, more] using mem
    · rw [same, calm.cancelAfter]
    · rw [same, calm.uncancelled]
    · simp [advance, atEnd, more]
    · rw [same, Session.recordAll_nil]

end Parser

namespace Parse

open MiniLang.Parser

variable {α β : Type} {p q : Parser} {n m : Nat} {rest mid : List Terminal}

/-- An action gives a value of which `holds` is true, and gets to where `rest` is ahead. -/
def Gives (n : Nat) (action : Parse α) (p : Parser) (holds : α → Prop) (rest : List Terminal) :
    Prop :=
  ∃ a q, action p = .ok a q ∧ holds a ∧ Gets n p q rest

namespace Gives

variable {holds : α → Prop} {holds' : β → Prop}

theorem of_eq {action action' : Parse α} (same : action p = action' p)
    (h : Gives n action' p holds rest) : Gives n action p holds rest := by
  obtain ⟨a, q, result, value, gets⟩ := h
  exact ⟨a, q, same.trans result, value, gets⟩

theorem bind {action : Parse α} {after : α → Parse β} (h : Gives n action p holds mid)
    (h' : ∀ a q, holds a → q.ahead = mid → q.Calm → q.blockDepth = p.blockDepth →
      Gives m (after a) q holds' rest) :
    Gives (n + m) (action >>= after) p holds' rest := by
  obtain ⟨a, q, result, value, gets⟩ := h
  obtain ⟨b, r, result', value', gets'⟩ := h' a q value gets.ahead gets.calm gets.blockDepth
  refine ⟨b, r, ?_, value', gets.trans gets'⟩
  change EStateM.bind action after p = _
  simp only [EStateM.bind, result, result']

/-- Sequencing behind an action that records nothing. -/
theorem andThen {action : Parse α} {after : α → Parse β} (h : Gives 0 action p holds mid)
    (h' : ∀ a q, holds a → q.ahead = mid → q.Calm → q.blockDepth = p.blockDepth →
      Gives m (after a) q holds' rest) :
    Gives m (action >>= after) p holds' rest := by
  have whole := h.bind h'
  rwa [Nat.zero_add] at whole

/-- Sequencing in front of an action that records nothing. -/
theorem before {action : Parse α} {after : α → Parse β} (h : Gives n action p holds mid)
    (h' : ∀ a q, holds a → q.ahead = mid → q.Calm → q.blockDepth = p.blockDepth →
      Gives 0 (after a) q holds' rest) :
    Gives n (action >>= after) p holds' rest := h.bind h'

theorem pure {a : α} (calm : p.Calm) (cut : p.ahead = rest) (h : holds a) :
    Gives 0 (pure a) p holds rest := ⟨a, p, rfl, h, .refl calm cut⟩

theorem map {action : Parse α} {f : α → β} (h : Gives n action p (fun a => holds' (f a)) rest) :
    Gives n (f <$> action) p holds' rest := by
  change Gives (n + 0) (action >>= fun a => Pure.pure (f a)) p holds' rest
  exact h.bind fun a q value ahead calm _ => .pure calm ahead value

theorem kind {after : TokenKind → Parse β} (h : Gives n (after p.current.kind) p holds' rest) :
    Gives n (currentKind >>= after) p holds' rest := h

theorem lastSpan {after : Span → Parse β} (h : Gives n (after p.previousSpan) p holds' rest) :
    Gives n (previousSpan >>= after) p holds' rest := h

theorem depth {after : Nat → Parse β} (h : Gives n (after p.blockDepth) p holds' rest) :
    Gives n (blockDepth >>= after) p holds' rest := h

theorem advance {after : Token → Parse β} {t : Terminal} (calm : p.Calm)
    (cut : p.ahead = t :: mid)
    (h : p.current.terminal = t → ∀ q : Parser, q.ahead = mid → q.Calm →
      q.blockDepth = p.blockDepth → Gives n (after p.current) q holds' rest) :
    Gives n (advance >>= after) p holds' rest := by
  have gets := gets_advance calm cut
  obtain ⟨-, same, -⟩ := of_ahead_eq_cons cut
  have first : Gives 0 Parse.advance p (fun t => t = p.current) mid := ⟨_, _, rfl, rfl, gets⟩
  refine first.andThen fun a q is ahead calm depth => ?_
  rw [is]
  exact h same q ahead calm depth

theorem freshId {after : NodeId → Parse β} (calm : p.Calm)
    (h : ∀ q : Parser, q.ahead = p.ahead → q.Calm → q.blockDepth = p.blockDepth →
      Gives n (after p.nextId) q holds' rest) :
    Gives n (freshId >>= after) p holds' rest := by
  have gets : Gets 0 p { p with nextId := p.nextId + 1 } p.ahead :=
    ⟨rfl, ⟨calm.upcoming, calm.cancelAfter, calm.uncancelled⟩, rfl, [],
      (Session.recordAll_nil _).symm, rfl, fun _ mem => by cases mem⟩
  have first : Gives 0 Parse.freshId p (fun id => id = p.nextId) p.ahead := ⟨_, _, rfl, rfl, gets⟩
  refine first.andThen fun id q is ahead calm depth => ?_
  rw [is]
  exact h q ahead calm depth

theorem expect {kind : TokenKind} {expected : String} {after : Token → Parse β} {t : Terminal}
    (calm : p.Calm) (cut : p.ahead = t :: mid) (is : t.kind = kind)
    (h : p.current.terminal = t → ∀ q : Parser, q.ahead = mid → q.Calm →
      q.blockDepth = p.blockDepth → Gives n (after p.current) q holds' rest) :
    Gives n (expect kind expected >>= after) p holds' rest := by
  have same : Parse.expect kind expected p = Parse.advance p :=
    if_pos ((kind_of_ahead_eq_cons cut).trans is)
  refine of_eq ?_ (advance calm cut h)
  change EStateM.bind _ after p = EStateM.bind _ after p
  simp only [EStateM.bind, same]

theorem expectClosing {kind : TokenKind} {expected construct : String} {opening : Token}
    {after : Token → Parse β} {t : Terminal} (calm : p.Calm) (cut : p.ahead = t :: mid)
    (is : t.kind = kind)
    (h : p.current.terminal = t → ∀ q : Parser, q.ahead = mid → q.Calm →
      q.blockDepth = p.blockDepth → Gives n (after p.current) q holds' rest) :
    Gives n (expectClosing kind expected construct opening >>= after) p holds' rest := by
  obtain ⟨atEnd, -⟩ := of_ahead_eq_cons cut
  have same : Parse.expectClosing kind expected construct opening p =
      Parse.expect kind expected p := if_neg (by simp [atEnd])
  have direct : Gives n (Parse.expect kind expected >>= after) p holds' rest :=
    expect calm cut is h
  refine of_eq ?_ direct
  change EStateM.bind _ after p = EStateM.bind _ after p
  simp only [EStateM.bind, same]

end Gives

end Parse

end MiniLang
