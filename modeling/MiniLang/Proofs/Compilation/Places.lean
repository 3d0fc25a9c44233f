import MiniLang.Proofs.Compilation.Cancellation
import MiniLang.Proofs.Syntax.Parser.Order.Programs

/-!
# Places are nested and true

The tokens of a text are pieces of it, and what two pieces enclose is a piece again, so all places
of the program that is parsed and of everything that any stage finds are pieces of the text
(`standsIn_parse`, `Invariant.lawful_blames`). The statements that are read stand in the order of
the text, also if a cancellation leaves some out, because those that are read are read in the same
way without it (`laidOut_parse`).
-/

set_option autoImplicit false

namespace MiniLang

open MiniLang.Parser

/-- All places are those of pieces of a text. -/
abbrev Invariant.pieces (source : List Char) : Invariant := .blames (Span.StandsIn source)

theorem Invariant.lawful_pieces (source : List Char) : (pieces source).Lawful :=
  lawful_blames (Span.standsIn_origin source) fun _ _ => Span.StandsIn.join

/-- Tokens are pieces of the text, whether or not somebody asks to stop. -/
theorem delivers_cancelAt (source : List Char) (n : Nat) :
    ∀ d ∈ Delivery.cancelAt n (deliveries source), (Invariant.pieces source).Delivers d := by
  intro d mem
  obtain ⟨early, late, whole, span, -⟩ :=
    (reads_deliveries source).piece d.unasked (unasked_mem_deliveries mem)
  exact ⟨⟨early, _, late, whole, span⟩, fun problem there =>
    .of_lexical (lexical_cancelAt source n d mem problem there)⟩

/-- Tokens are the same whether or not somebody asks to stop. -/
theorem tokens_cancelAt (source : List Char) (n : Nat) :
    (Delivery.cancelAt n (deliveries source)).map Delivery.token =
      (deliveries source).map Delivery.token := by
  have same := congrArg (List.map Delivery.token)
    ((map_unasked_cancelAt n (deliveries source)).trans (map_unasked_deliveries source))
  rwa [List.map_map] at same

/-- The tokens of a text end with one that stands at its end. -/
theorem ends_cancelAt (source : List Char) (n : Nat) :
    (Invariant.pieces source).Ends
      ((Delivery.cancelAt n (deliveries source)).map Delivery.token) := by
  obtain ⟨front, tokens, -⟩ := (reads_deliveries source).ending_last
  rw [tokens_cancelAt, tokens]
  exact .inl ⟨_, List.mem_append_right _ List.mem_cons_self, rfl⟩

/-- Everything that is parsed of a text, and that is found meanwhile, is a piece of it. -/
theorem standsIn_parse (source : List Char) (n : Nat) (moment : Option Nat) :
    let parsed := parse (Delivery.cancelAt n (deliveries source)) { cancelAfter := moment }
    (Invariant.pieces source).session parsed.session ∧
      (Invariant.pieces source).All parsed.program.spans :=
  keeps_parse (Invariant.lawful_pieces source) (delivers_cancelAt source n)
    (ends_cancelAt source n) (List.forall_mem_nil _)

/-- The statements that are read of a text in some first rounds stand in its order. -/
theorem topLevel_laidOut (source : List Char) (rounds : Nat) :
    let start := Parser.start (deliveries source) .fresh
    let run := Parse.topLevel .standard rounds start
    Span.InOrder start.here run.2.here (run.1.map Stmt.span) ∧ Stmt.AllLaidOut run.1 := by
  intro start run
  have before := ReadsAhead.start (lexed_deliveries source) (isChain_deliveries source)
    uncancelled_fresh
  obtain ⟨t, same, -⟩ := topLevel_readAhead_rounds before rounds
  have inOrder := Parser.inOrder_start (regular_deliveries source) (inOrder_deliveries source)
    (Session.fresh.recordAll ((deliveries source).flatMap Delivery.diagnostics))
  rw [start_readAhead] at inOrder
  obtain ⟨-, -, -, parts, laidOut⟩ := Parse.topLevel_found rounds inOrder
    (uncancelled_fresh.recordAll _)
  rw [same] at parts laidOut
  exact ⟨parts, laidOut⟩

/-- What is parsed of a text is laid out in its order. -/
theorem laidOut_parse (source : List Char) (n : Nat) (moment : Option Nat) :
    let parsed := parse (Delivery.cancelAt n (deliveries source)) { cancelAfter := moment }
    parsed.program.LaidOut := by
  intro parsed
  generalize begins : Parser.start (Delivery.cancelAt n (deliveries source))
    { cancelAfter := moment } = p
  have unasked : Parser.start (deliveries source) .fresh = p.unasked := by
    rw [← begins, ← start_unasked, map_unasked_cancelAt, map_unasked_deliveries]
    rfl
  have unseen : p.session.cancelled = false := by
    rw [← begins]
    exact cancelled_start _ _
  have within : p.Within (.pieces source) := by
    rw [← begins]
    exact .start (Invariant.lawful_pieces source) (List.forall_mem_nil _)
      (delivers_cancelAt source n) (ends_cancelAt source n)
  have last := (Parse.topLevel_kept (Invariant.lawful_pieces source) .standard (p.remaining + 1)
    within).1
  obtain ⟨rounds, stop, same, here⟩ := Parse.topLevel_stopped (g := .standard) (p.remaining + 1)
    unseen
  obtain ⟨parts, laidOut⟩ := topLevel_laidOut source rounds
  rw [unasked, same] at parts laidOut
  simp only [parsed, parse, begins]
  refine ⟨parts.widen (Nat.le_refl _) ?_, laidOut⟩
  calc stop.here = (Parse.topLevel .standard (p.remaining + 1) p).2.current.span.start := by
        rw [Parser.here, here]
    _ ≤ (Parse.topLevel .standard (p.remaining + 1) p).2.current.span.stop :=
        last.current.trueTo.ordered
    _ ≤ _ := Span.le_join_stop_right ..

/-- All that has a place has one that is true to a text: all parts of the program that was parsed,
error placeholders included, and everything that any stage finds. Every part of the program covers
the parts below it, which stand in the order of the text without overlap. -/
structure Parsed.Placed (source : List Char) (parsed : Parsed) : Prop where
  laidOut : parsed.program.LaidOut
  parts : ∀ span ∈ parsed.program.spans, span.TrueTo source
  found : ∀ d ∈ parsed.session.diagnostics, d.span.TrueTo source
  resolving : ∀ d ∈ (resolve parsed.program parsed.session).2.diagnostics, d.span.TrueTo source
  typing :
    let (resolution, s) := resolve parsed.program parsed.session
    ∀ d ∈ (typeCheck parsed.program resolution s).2.diagnostics, d.span.TrueTo source

/-- Places of programs and diagnostics are nested and true to the text, wherever somebody asks to
stop. A request behind the last token is none (`Delivery.cancelAt_of_length_le`), so this is also
said of the parse that nobody cancels. -/
theorem placed_parse (source : List Char) (n : Nat) (moment : Option Nat) :
    (parse (Delivery.cancelAt n (deliveries source)) { cancelAfter := moment }).Placed source := by
  have law := Invariant.lawful_pieces source
  obtain ⟨afterParse, program⟩ := standsIn_parse source n moment
  have afterResolve := keeps_resolve law program afterParse
  have afterTyping := fun resolution => keeps_typeCheck law resolution program afterResolve
  exact {
    laidOut := laidOut_parse source n moment
    parts := fun span mem => (program span mem).trueTo
    found := fun d mem => (afterParse d mem).trueTo
    resolving := fun d mem => (afterResolve d mem).trueTo
    typing := fun d mem => (afterTyping _ d mem).trueTo }

end MiniLang
