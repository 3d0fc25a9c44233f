import MiniLang.Proofs.Syntax.Parser.Segments.Statements

/-!
# Programs that are segments

A semicolon outside of braces separates what is before it from what is behind: each segment of a
program gives one statement, the one that it gives when it is parsed alone, up to the numbers of the
nodes, and brings the same diagnostics (`parse_segments`).
-/

set_option autoImplicit false

namespace MiniLang

/-- Deliveries up to a semicolon, with no other semicolon, no brace and no end of the input, none of
which cancels the work. -/
structure Segment where
  deliveries : List Delivery
  isSegment : IsSegment (deliveries.map Delivery.token)
  quiet : ∀ d ∈ deliveries, d.cancels = false

/-- Nothing, or the end of the input first, which brings nothing along. -/
def Ending (ds : List Delivery) : Prop :=
  ∀ d ∈ ds.head?, d.token.kind = .endOfInput ∧ d.problem = none ∧ d.cancels = false

instance (ds : List Delivery) : Decidable (Ending ds) :=
  inferInstanceAs (Decidable (∀ d ∈ ds.head?, _))

namespace Segment

/-- A segment parsed alone, in front of the end of the input. -/
def parsed (segment : Segment) (ending : List Delivery) : Parsed :=
  parse (segment.deliveries ++ ending) .fresh

/-- A statement is the one that a segment gives alone, up to the numbers of the nodes. -/
def Gives (ending : List Delivery) (s : Stmt) (segment : Segment) : Prop :=
  ∃ n alone, (segment.parsed ending).program.body = [alone] ∧ s = alone.shift n

end Segment

namespace Parse

open Neighbours

variable {p : Parser} {s : Session} {ending ending' : List Delivery}

theorem faces_start (ds : List Delivery) (s : Session) :
    Parser.Faces ds s (Parser.start ds s) := by
  cases ds with
  | nil => exact ⟨rfl, rfl⟩
  | cons d rest => exact ⟨rfl, rfl, rfl⟩

theorem faces_ending (faces : Parser.Faces ending s p) (ends : Ending ending) :
    p.atEnd = true ∧ p.session = s := by
  cases ending with
  | nil => exact faces
  | cons d rest =>
    obtain ⟨current, -, session⟩ := faces
    obtain ⟨kind, noProblem, quiet⟩ := ends d rfl
    constructor
    · simp [Parser.atEnd, current, kind]
    · simp [session, Delivery.notify, Delivery.diagnostics, noProblem, quiet]

/-- Two parsers in front of one segment, with something else behind it. -/
theorem beside_of_faces (segment : Segment) {q : Parser} {s' : Session} {more more' : List Delivery}
    (faces : Parser.Faces (segment.deliveries ++ more) s p)
    (faces' : Parser.Faces (segment.deliveries ++ more') s' q) (zero : q.nextId = 0) :
    ∃ n, (⟨p.nextId, more, more', s, s'⟩ : Neighbours).Beside n p q := by
  obtain ⟨deliveries, isSegment, quiet⟩ := segment
  cases deliveries with
  | nil => cases isSegment
  | cons d rest =>
    obtain ⟨current, upcoming, session⟩ := faces
    obtain ⟨current', upcoming', session'⟩ := faces'
    have silent := quiet d List.mem_cons_self
    refine ⟨rest.length, current.trans current'.symm, ⟨rest, rfl, upcoming, upcoming', ?_, ?_⟩, ?_,
      d.diagnostics, ?_, ?_⟩
    · rw [current']
      exact isSegment
    · exact fun x mem => quiet x (List.mem_cons_of_mem _ mem)
    · rw [zero, Nat.zero_add]
    · simp [session, Delivery.notify, silent]
    · simp [session', Delivery.notify, silent]

/-- A parser in front of a segment reads what the segment gives alone, and is in front of what
follows the segment then. -/
theorem statementOrError_segment (segment : Segment) {more : List Delivery}
    (faces : Parser.Faces (segment.deliveries ++ more) s p) (uncancelled : s.Uncancelled)
    (ends : Ending ending) :
    p.atEnd = false ∧ p.session.Uncancelled ∧
      segment.Gives ending (statementOrError .standard p).1 ∧
      Parser.Faces more (s.recordAll (segment.parsed ending).session.diagnostics)
        (statementOrError .standard p).2 := by
  have alone := faces_start (segment.deliveries ++ ending) .fresh
  have zero : (Parser.start (segment.deliveries ++ ending) .fresh).nextId = 0 := by
    cases segment.deliveries ++ ending <;> rfl
  obtain ⟨n, beside⟩ := beside_of_faces segment faces alone zero
  obtain ⟨here, there⟩ := beside.atEnd
  obtain ⟨ds, same, same'⟩ := beside.recorded
  obtain ⟨renumbered, behind⟩ := behind_statementOrError beside
  obtain ⟨es, faces', faces''⟩ := behind.recorded
  obtain ⟨atEnd, session⟩ := faces_ending faces'' ends
  have whole := topLevel_succ (Parser.start (segment.deliveries ++ ending) .fresh).remaining there
    (same' ▸ Session.Uncancelled.recordAll ⟨rfl, rfl⟩ ds)
  rw [topLevel_of_atEnd _ atEnd] at whole
  refine ⟨here, same ▸ uncancelled.recordAll ds, ⟨p.nextId, _, congrArg Prod.fst whole, renumbered⟩,
    ?_⟩
  have recorded : (segment.parsed ending).session = Session.fresh.recordAll es :=
    (congrArg (fun result => Parser.session result.2) whole).trans session
  rw [recorded]
  exact faces'

/-- Segments are read one after the other. -/
theorem topLevel_segments (ends : Ending ending) (ends' : Ending ending') :
    ∀ (segments : List Segment) (fuel : Nat) {p : Parser} {s : Session},
      Parser.Faces (segments.flatMap Segment.deliveries ++ ending) s p → s.Uncancelled →
      segments.length ≤ fuel →
      List.Forall₂ (Segment.Gives ending') (topLevel .standard fuel p).1 segments ∧
        (topLevel .standard fuel p).2.session =
          s.recordAll (segments.flatMap fun segment =>
            (segment.parsed ending').session.diagnostics)
  | [], fuel, p, s, faces, _, _ => by
    obtain ⟨atEnd, session⟩ := faces_ending faces ends
    rw [topLevel_of_atEnd fuel atEnd]
    exact ⟨.nil, session.trans (Session.recordAll_nil s).symm⟩
  | _ :: _, 0, _, _, _, _, less => absurd less (Nat.not_succ_le_zero _)
  | segment :: segments, fuel + 1, p, s, faces, uncancelled, enough => by
    rw [List.flatMap_cons, List.append_assoc] at faces
    obtain ⟨more, calm, gives, next⟩ := statementOrError_segment segment faces uncancelled ends'
    obtain ⟨others, session⟩ := topLevel_segments ends ends' segments fuel next
      (uncancelled.recordAll _) (Nat.le_of_succ_le_succ enough)
    rw [topLevel_succ fuel more calm]
    refine ⟨.cons gives others, session.trans ?_⟩
    simp [Session.recordAll]

end Parse

/-- What a program of segments is and what is recorded while it is parsed. -/
structure Parsed.InSegments (result : Parsed) (segments : List Segment) (ending : List Delivery)
    (s : Session) : Prop where
  /-- Each segment gives one statement, the one that it gives alone, up to the numbers of nodes. -/
  statements : List.Forall₂ (Segment.Gives ending) result.program.body segments
  /-- Each segment brings the diagnostics that it brings alone. -/
  session : result.session =
    s.recordAll (segments.flatMap fun segment => (segment.parsed ending).session.diagnostics)

/-- Parsing segments one after the other is parsing each of them alone. What ends the whole and what
ends each of them alone may differ. -/
theorem parse_segments (segments : List Segment) {ending ending' : List Delivery}
    (ends : Ending ending) (ends' : Ending ending') (s : Session) (uncancelled : s.Uncancelled) :
    (parse (segments.flatMap Segment.deliveries ++ ending) s).InSegments segments ending' s := by
  let start := Parser.start (segments.flatMap Segment.deliveries ++ ending) s
  have same := (Parse.unlimited start).program (segments.length + start.ahead.length + 1) (by omega)
  obtain ⟨statements, session⟩ := Parse.topLevel_segments ends ends' segments
    (segments.length + start.ahead.length + 1) (Parse.faces_start _ s) uncancelled (by omega)
  rw [same] at statements session
  exact ⟨statements, session⟩

/-- An operand that is missing, an unknown character, a function without a body, and a statement. -/
def garbage : List Segment :=
  [⟨(deliveries "1 + ;".toList).dropLast, by decide +kernel, by decide +kernel⟩,
    ⟨(deliveries "x = ? 3;".toList).dropLast, by decide +kernel, by decide +kernel⟩,
    ⟨(deliveries "fn f(a: int);".toList).dropLast, by decide +kernel, by decide +kernel⟩,
    ⟨(deliveries "f(a, -1);".toList).dropLast, by decide +kernel, by decide +kernel⟩]

theorem parse_segments_garbage :
    (parse (garbage.flatMap Segment.deliveries ++ deliveries []) .fresh).InSegments garbage []
        .fresh ∧
      (parse (garbage.flatMap Segment.deliveries ++ deliveries []) .fresh).session.diagnostics.map
          Diagnostic.problem =
        [.unexpectedToken "expression" ";", .illegalCharacter '?',
          .unexpectedToken "`\x7b`" ";"] :=
  ⟨parse_segments garbage (by decide +kernel) (by decide +kernel) .fresh ⟨rfl, rfl⟩,
    by decide +kernel⟩

end MiniLang
