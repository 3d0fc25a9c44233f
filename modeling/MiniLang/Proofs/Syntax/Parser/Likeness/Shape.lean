import MiniLang.Proofs.Syntax.Parser.Likeness.Programs
import MiniLang.Proofs.Syntax.Parser.Statements

/-!
# The shape of what is parsed

What a parser makes of its tokens has a shape that depends on the kinds of the tokens and the
numbers among them, but not on their names and places (`Comparison.shape`). So whatever the tokens
are, they can be exchanged for tokens that a text could have (`Delivery.standIn`) without a change
of shape, and what is known of the nodes of such a program is true of all
(`nodup_ids_parse`).
-/

set_option autoImplicit false

namespace MiniLang

/-- Tokens of one kind; numbers have the same text. -/
structure Token.SameShape (t t' : Token) : Prop where
  kind : t.kind = t'.kind
  integer : t.kind = .integer → t.text = t'.text

/-- Deliveries of such tokens that cancel alike. -/
structure Delivery.SameShape (d d' : Delivery) : Prop where
  token : d.token.SameShape d'.token
  cancels : d.cancels = d'.cancels

/-- Sessions that are cancelled alike. -/
structure Session.SameShape (s s' : Session) : Prop where
  cancelAfter : s.cancelAfter = s'.cancelAfter
  cancelled : s.cancelled = s'.cancelled

/-- Parsers that do the same, apart from names and places. -/
structure Parser.SameShape (p q : Parser) : Prop where
  upcoming : List.Forall₂ Delivery.SameShape p.upcoming q.upcoming
  current : p.current.SameShape q.current
  consumed : p.consumed = q.consumed
  session : p.session.SameShape q.session
  nextId : p.nextId = q.nextId
  blockDepth : p.blockDepth = q.blockDepth
  reportedEnd : p.reportedEnd = q.reportedEnd

namespace Session.SameShape

variable {s s' : Session}

theorem recordAll (h : s.SameShape s') (ds ds' : List Diagnostic) :
    (s.recordAll ds).SameShape (s'.recordAll ds') := ⟨h.cancelAfter, h.cancelled⟩

theorem notify (h : s.SameShape s') {d d' : Delivery} (same : d.SameShape d') :
    (d.notify s).SameShape (d'.notify s') := by
  unfold Delivery.notify
  rw [same.cancels]
  split
  · exact ⟨rfl, h.cancelled⟩
  · exact h.recordAll _ _

/-- A checkpoint sees a cancellation in both or in neither. -/
theorem checkpoint (h : s.SameShape s') (span span' : Span) :
    (s.checkpoint span).1 = (s'.checkpoint span').1 ∧
      (s.checkpoint span).2.SameShape (s'.checkpoint span').2 := by
  unfold Session.checkpoint
  rw [h.cancelled, h.cancelAfter]
  split
  · exact ⟨rfl, h⟩
  · split
    · exact ⟨rfl, h⟩
    · exact ⟨rfl, rfl, rfl⟩
    · exact ⟨rfl, h.cancelAfter, rfl⟩

end Session.SameShape

namespace Parser.SameShape

variable {p q : Parser}

theorem atEnd (h : p.SameShape q) : p.atEnd = q.atEnd := by
  rw [Parser.atEnd, Parser.atEnd, h.current.kind]

theorem remaining (h : p.SameShape q) : p.remaining = q.remaining := by
  rw [Parser.remaining, Parser.remaining, h.atEnd, h.upcoming.length_eq]

theorem advance (h : p.SameShape q) : p.advance.SameShape q.advance := by
  have moved : p.consumed + 1 = q.consumed + 1 := congrArg (· + 1) h.consumed
  have ended : ∀ span span' : Span, (Token.endAt span).SameShape (Token.endAt span') :=
    fun _ _ => ⟨rfl, fun is => by cases is⟩
  unfold Parser.advance
  rw [h.atEnd]
  split
  · exact h
  · have upcoming := h.upcoming
    cases here : p.upcoming with
    | nil =>
      rw [here, List.forall₂_nil_left_iff] at upcoming
      rw [upcoming]
      exact ⟨.nil, ended _ _, moved, h.session, h.nextId, h.blockDepth, h.reportedEnd⟩
    | cons d rest =>
      rw [here] at upcoming
      cases there : q.upcoming with
      | nil =>
        rw [there] at upcoming
        cases upcoming
      | cons d' rest' =>
        rw [there] at upcoming
        obtain ⟨first, others⟩ := List.forall₂_cons.1 upcoming
        exact ⟨others, first.token, moved, h.session.notify first, h.nextId, h.blockDepth,
          h.reportedEnd⟩

theorem start {tokens tokens' : List Delivery}
    (same : List.Forall₂ Delivery.SameShape tokens tokens') (s : Session) :
    (start tokens s).SameShape (start tokens' s) := by
  have session : s.SameShape s := ⟨rfl, rfl⟩
  cases same with
  | nil => exact ⟨.nil, ⟨rfl, fun _ => rfl⟩, rfl, session, rfl, rfl, rfl⟩
  | cons first rest => exact ⟨rest, first.token, rfl, session.notify first, rfl, rfl, rfl⟩

end Parser.SameShape

namespace Comparison

/-- How parsers of tokens of the same kinds are compared. -/
def shape : Comparison where
  toView := .shape
  token := Token.SameShape
  problem _ _ := True
  state := Parser.SameShape

theorem lawful_shape : shape.Lawful where
  join _ _ := rfl
  kind h := h.kind
  tokenSpan _ := rfl
  name _ := rfl
  integer h is := by rw [h.integer is]
  overflow _ _ _ := trivial
  unexpected _ _ := trivial
  unterminated _ := trivial
  target := trivial
  nested _ := trivial
  current h := h.current
  previousSpan _ := rfl
  consumed h := h.consumed
  nextId h := h.nextId
  blockDepth h := h.blockDepth
  reportedEnd h := h.reportedEnd
  remaining h := h.remaining
  advance h := h.advance
  setNextId h _ :=
    ⟨h.upcoming, h.current, h.consumed, h.session, rfl, h.blockDepth, h.reportedEnd⟩
  setBlockDepth h _ :=
    ⟨h.upcoming, h.current, h.consumed, h.session, h.nextId, rfl, h.reportedEnd⟩
  setReportedEnd h :=
    ⟨h.upcoming, h.current, h.consumed, h.session, h.nextId, h.blockDepth, rfl⟩
  report h _ _ _ _ _ _ :=
    ⟨h.upcoming, h.current, h.consumed, h.session.recordAll [_] [_], h.nextId, h.blockDepth,
      h.reportedEnd⟩

theorem passesTogether_shape : shape.PassesTogether := by
  intro p q together
  have asked := together.session.checkpoint p.current.span q.current.span
  exact ⟨asked.1, together.upcoming, together.current, together.consumed, asked.2,
    together.nextId, together.blockDepth, together.reportedEnd⟩

end Comparison

/-! ## Tokens that a text could have -/

/-- A delivery of a token of the same kind that a text could have. -/
def Delivery.standIn (d : Delivery) : Delivery where
  token := ⟨d.token.kind, if d.token.kind = .identifier then "x" else d.token.text, .origin⟩
  problem := some (.illegalCharacter 'x')
  cancels := d.cancels

theorem Delivery.sameShape_standIn (d : Delivery) : d.SameShape d.standIn := by
  refine ⟨⟨rfl, fun is => ?_⟩, rfl⟩
  unfold standIn
  rw [if_neg]
  rw [is]
  decide

theorem Delivery.fit_standIn (d : Delivery) : d.standIn.Fit := by
  refine ⟨⟨?_, fun is => ?_⟩, fun _ => ?_⟩
  · change Span.origin.Valid
    decide
  · have isName : IsName "x" := ⟨'x', [], rfl, rfl, List.all_eq_true.1 rfl, rfl⟩
    have name : d.standIn.token.text = "x" := if_pos is
    rw [name]
    exact isName
  · rfl

/-- Whatever the tokens are, a program of the same shape can be read from tokens that a text could
have. -/
theorem exists_fit_sameShape (tokens : List Delivery) (s : Session) :
    ∃ fit : List Delivery, (∀ d ∈ fit, d.Fit) ∧
      Stmt.viewAll .shape (parse tokens s).program.body =
        Stmt.viewAll .shape (parse fit s).program.body := by
  have alike : List.Forall₂ Delivery.SameShape tokens (tokens.map Delivery.standIn) := by
    rw [List.forall₂_map_right_iff, List.forall₂_same]
    exact fun d _ => d.sameShape_standIn
  refine ⟨tokens.map Delivery.standIn, fun d mem => ?_,
    Comparison.lawful_shape.sameStmts_parse Comparison.passesTogether_shape (.start alike s)⟩
  obtain ⟨d, -, rfl⟩ := List.mem_map.1 mem
  exact d.fit_standIn

/-- The nodes of a program have numbers of their own, whatever the tokens are that it is parsed
from. -/
theorem nodup_ids_parse (tokens : List Delivery) (s : Session) :
    (Stmt.idsAll (parse tokens s).program.body).Nodup := by
  obtain ⟨_, fit, same⟩ := exists_fit_sameShape tokens s
  have distinct := (parse_read fit s).2.1
  rw [← Stmt.idsAll_view .shape, ← same, Stmt.idsAll_view] at distinct
  exact distinct

/-- The number of an expression was drawn after those below it, whatever the tokens are. -/
theorem drawnLast_parse (tokens : List Delivery) (s : Session) :
    ∀ e ∈ (parse tokens s).program.exprs, e.DrawnLast := by
  obtain ⟨_, fit, same⟩ := exists_fit_sameShape tokens s
  have last := (parse_read fit s).2.2.1
  intro e mem
  have seen := List.mem_map_of_mem (f := Expr.view .shape) mem
  rw [Program.exprs, ← Stmt.exprsAll_view, same, Stmt.exprsAll_view] at seen
  obtain ⟨e', mem', alike⟩ := List.mem_map.1 seen
  rw [← Expr.drawnLast_view .shape, ← alike, Expr.drawnLast_view]
  exact last e' mem'

end MiniLang
