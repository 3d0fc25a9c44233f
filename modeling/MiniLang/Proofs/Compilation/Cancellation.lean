import MiniLang.Proofs.Scope.Invariant
import MiniLang.Proofs.Syntax.Parser.Likeness.Unasked
import MiniLang.Proofs.Token.Lexed
import MiniLang.Proofs.Typing.Invariant
import MiniLang.Syntax.Parser.Source

/-!
# Cancellation

A parse that somebody cancels is the beginning of the parse that nobody does: the same statements up
to some place and the same diagnostics, and then one about the cancellation; if it gets to the end
before a checkpoint notices, it is the same parse (`parse_asked`). A session that has recorded a
cancellation has seen it (`Stage.tally_runAll`), so no stage that works on it afterwards does
anything at its top level, and none records another (`cancellation_truncates`).
-/

set_option autoImplicit false

namespace MiniLang

/-! ## One parse -/

namespace Parser

theorem cancelled_start (tokens : List Delivery) (s : Session) :
    (start tokens s).session.cancelled = s.cancelled := by
  cases tokens with
  | nil => rfl
  | cons d rest =>
    obtain ⟨token, problem, cancels⟩ := d
    cases cancels <;> rfl

/-- Nothing but problems of tokens comes with deliveries. -/
theorem found_start {tokens : List Delivery}
    (found : ∀ d ∈ tokens, ∀ problem ∈ d.problem, problem.InProgram) (s : Session) :
    ∀ d ∈ (start tokens s).upcoming, ∀ problem ∈ d.problem, problem.InProgram := by
  cases tokens with
  | nil => exact found
  | cons d rest => exact fun x mem => found x (List.mem_cons_of_mem d mem)

end Parser

open MiniLang.Parser

/-- A parse that may be cancelled gives what the parse without a cancellation gives, or the
beginning of it and a diagnostic about the cancellation. -/
theorem parse_asked {tokens : List Delivery}
    (found : ∀ d ∈ tokens, ∀ problem ∈ d.problem, problem.InProgram) {s : Session}
    (unseen : s.cancelled = false) :
    let cut := parse tokens s
    let whole := parse (tokens.map Delivery.unasked) s.unasked
    (cut.session.cancelled = false ∧ cut.program = whole.program ∧ cut.valid = whole.valid ∧
      cut.session.diagnostics = whole.session.diagnostics) ∨
    (cut.session.cancelled = true ∧ cut.program.body <+: whole.program.body ∧
      ∃ ds span, ds <+: whole.session.diagnostics ∧
        cut.session.diagnostics = ds ++ [.of .cancelled span]) := by
  intro cut whole
  have start : Parser.start (tokens.map Delivery.unasked) s.unasked =
      (Parser.start tokens s).unasked := start_unasked tokens s
  have unseen' := (cancelled_start tokens s).trans unseen
  have found' : ∀ d ∈ (Parser.start tokens s).unasked.upcoming, ∀ problem ∈ d.problem,
      problem.InProgram := by
    intro d mem
    obtain ⟨d, there, rfl⟩ := List.mem_map.1 mem
    exact found_start found s d there
  simp only [cut, whole, parse]
  rw [start, remaining_unasked]
  rcases Parse.topLevel_asked (g := .standard) ((Parser.start tokens s).remaining + 1) unseen' with
    ⟨never, same⟩ | ⟨noticed, rounds, le, stop, same, -, last⟩
  · rw [same]
    exact .inl ⟨never, rfl, rfl, rfl⟩
  · obtain ⟨body, recorded⟩ := Parse.topLevel_rounds (g := .standard) le found'
    rw [same] at body recorded
    exact .inr ⟨noticed, body, _, _, recorded, last⟩

/-! ## Stages on one session -/

/-- A stage that works on a session. Tokens bring along what was found while they were read. -/
inductive Stage where
  | parse (tokens : List Delivery)
      (lexical : ∀ d ∈ tokens, ∀ problem ∈ d.problem, problem.category = .lexical)
  | resolve (p : Program)
  | typeCheck (p : Program) (r : Resolution)

namespace Stage

/-- The session after a stage. -/
def run : Stage → Session → Session
  | parse tokens _, s => (MiniLang.parse tokens s).session
  | resolve p, s => (MiniLang.resolve p s).2
  | typeCheck p r, s => (MiniLang.typeCheck p r s).2

/-- The session after several stages. -/
def runAll (stages : List Stage) (s : Session) : Session :=
  stages.foldl (fun s stage => stage.run s) s

variable {I : Invariant} {s : Session}

/-- What is to stay true of the session does in each stage. -/
theorem kept (law : I.Lawful) (everywhere : ∀ span, I.place span) (stage : Stage)
    (h : I.session s) : I.session (stage.run s) := by
  have all (spans : List Span) : I.All spans := fun span _ => everywhere span
  cases stage with
  | parse tokens lexical =>
    have delivers : ∀ d ∈ tokens, I.Delivers d := fun d mem =>
      ⟨everywhere _, fun problem there => .of_lexical (lexical d mem problem there)⟩
    exact (keeps_parse law delivers (.inr fun span _ => everywhere _) h).1
  | resolve p => exact keeps_resolve law (all _) h
  | typeCheck p r => exact keeps_typeCheck law r (all _) h

theorem runAll_kept (law : I.Lawful) (everywhere : ∀ span, I.place span) (stages : List Stage)
    (h : I.session s) : I.session (runAll stages s) :=
  List.foldlRecOn (motive := I.session) stages (fun s stage => stage.run s) h
    fun _ kept stage _ => stage.kept law everywhere kept

/-- In every history a cancellation is recorded exactly if it was seen, and then once. -/
theorem tally_runAll (moment : Option Nat) (stages : List Stage) :
    (runAll stages { cancelAfter := moment }).Tally :=
  runAll_kept Invariant.lawful_tally (fun _ => trivial) stages rfl

end Stage

/-! ### Stages after a cancellation -/

section

variable {s : Session} (seen : s.cancelled = true)

include seen

/-- No statement of the top level is parsed. -/
theorem parse_of_cancelled (tokens : List Delivery) :
    (parse tokens s).program.body = [] ∧
      (parse tokens s).session = (Parser.start tokens s).session := by
  have stops := Session.checkpoint_of_cancelled ((cancelled_start tokens s).trans seen)
    (Parser.start tokens s).current.span
  have run : Parse.topLevel .standard ((Parser.start tokens s).remaining + 1)
      (Parser.start tokens s) = ([], Parser.start tokens s) := by
    rw [Parse.topLevel, stops]
    split
    · rfl
    · rfl
  simp only [parse, run, and_self]

/-- No statement of the top level is resolved; only the names of its functions are declared. -/
theorem resolve_of_cancelled (p : Program) :
    resolve p s =
      (((Resolver.start s).hoist globalScope p.body).resolution,
        ((Resolver.start s).hoist globalScope p.body).session) := by
  have everywhere : Invariant.stopped.All (Stmt.spansAll p.body) := fun _ _ => trivial
  have still := Resolver.keeps_hoist (r := Resolver.start s) Invariant.lawful_stopped globalScope
    everywhere seen
  have run : Resolver.resolveTopLevel p.body ((Resolver.start s).hoist globalScope p.body) =
      (Resolver.start s).hoist globalScope p.body := by
    generalize (Resolver.start s).hoist globalScope p.body = r at still
    cases p.body with
    | nil => rfl
    | cons st ss =>
      have stops := Session.checkpoint_of_cancelled still st.span
      rw [Resolver.resolveTopLevel, Resolver.checkpoint, stops]
      rfl
  simp only [resolve, run]

/-- No statement of the top level is typed. -/
theorem typeCheck_of_cancelled (p : Program) (r : Resolution) :
    typeCheck p r s = (⟨p.span, [], r.tree⟩, s) := by
  have run : Typing.typeTopLevel false p.body (.start r s) = ([], .start r s) := by
    cases p.body with
    | nil => rfl
    | cons st ss =>
      have stops := Session.checkpoint_of_cancelled seen st.span
      rw [Typing.typeTopLevel, Typing.Checker.checkpoint, Typing.Checker.start, stops]
      rfl
  rw [typeCheck, run]
  rfl

end

/-! ## Both -/

/-- A cancellation was recorded. -/
def Session.RecordsCancelled (s : Session) : Prop := ∃ d ∈ s.diagnostics, d.problem = .cancelled

theorem Session.Tally.recordsCancelled_iff {s : Session} (h : s.Tally) :
    s.RecordsCancelled ↔ s.cancelled = true := by
  have positive : 0 < s.cancellations ↔ s.RecordsCancelled := by
    rw [cancellations, List.countP_pos_iff]
    simp only [beq_iff_eq]
    rfl
  rw [← positive, h]
  cases s.cancelled <;> simp

/-- Behind the last delivery nobody is asked to stop. -/
theorem Delivery.cancelAt_of_length_le {n : Nat} {tokens : List Delivery}
    (h : tokens.length ≤ n) : cancelAt n tokens = tokens := by
  fun_induction cancelAt n tokens with
  | case1 => rfl
  | case2 d ds => exact absurd h (Nat.not_succ_le_zero _)
  | case3 n d ds ih => rw [ih (Nat.le_of_succ_le_succ h)]

/-- A request to stop is all that was added to the deliveries. -/
theorem map_unasked_cancelAt (n : Nat) (tokens : List Delivery) :
    (Delivery.cancelAt n tokens).map Delivery.unasked = tokens.map Delivery.unasked := by
  fun_induction Delivery.cancelAt n tokens with
  | case1 => rfl
  | case2 d ds => rfl
  | case3 n d ds ih => rw [List.map_cons, List.map_cons, ih]

theorem Delivery.Lexed.unasked {d : Delivery} (h : d.Lexed) : d.unasked = d := by
  have uncancelled := h.uncancelled
  obtain ⟨token, problem, cancels⟩ := d
  obtain rfl : cancels = false := uncancelled
  rfl

theorem map_unasked_deliveries (source : List Char) :
    (deliveries source).map Delivery.unasked = deliveries source :=
  (List.map_congr_left fun d mem => (lexed_deliveries source d mem).unasked).trans (List.map_id _)

/-- What is delivered with a request to stop somewhere in a text is delivered without it. -/
theorem unasked_mem_deliveries {source : List Char} {n : Nat} {d : Delivery}
    (mem : d ∈ Delivery.cancelAt n (deliveries source)) : d.unasked ∈ deliveries source := by
  have there := List.mem_map_of_mem (f := Delivery.unasked) mem
  rwa [map_unasked_cancelAt, map_unasked_deliveries] at there

/-- Tokens of a text bring along only what was found while they were read. -/
theorem lexical_cancelAt (source : List Char) (n : Nat) :
    ∀ d ∈ Delivery.cancelAt n (deliveries source), ∀ problem ∈ d.problem,
      problem.category = .lexical := fun _ mem =>
  (lexed_deliveries source _ (unasked_mem_deliveries mem)).lexical

/-- The parse of a text with a request to stop, in comparison to that without. -/
theorem parse_cancelAt (source : List Char) (n : Nat) (moment : Option Nat) :
    let cut := parse (Delivery.cancelAt n (deliveries source)) { cancelAfter := moment }
    let whole := parseSource source .fresh
    cut.session.Tally ∧
    ((cut.session.cancelled = false ∧ cut.program = whole.program ∧ cut.valid = whole.valid ∧
      cut.session.diagnostics = whole.session.diagnostics) ∨
    (cut.session.cancelled = true ∧ cut.program.body <+: whole.program.body ∧
      ∃ ds span, ds <+: whole.session.diagnostics ∧
        cut.session.diagnostics = ds ++ [.of .cancelled span])) := by
  intro cut whole
  have lexical := lexical_cancelAt source n
  have begins : Session.Tally { cancelAfter := moment } := rfl
  have outcome := parse_asked (s := { cancelAfter := moment }) (fun d mem problem there =>
    .of_lexical (lexical d mem problem there)) rfl
  rw [map_unasked_cancelAt, map_unasked_deliveries] at outcome
  exact ⟨(Stage.parse _ lexical).kept Invariant.lawful_tally (fun _ => trivial) begins, outcome⟩

/-- Before the last diagnostic, which is about the cancellation, there is none about it. -/
theorem Session.Tally.once {s : Session} (h : s.Tally) (seen : s.cancelled = true)
    {ds : List Diagnostic} {span : Span}
    (recorded : s.diagnostics = ds ++ [.of .cancelled span]) :
    ∀ d ∈ ds, d.problem ≠ .cancelled := by
  rw [Tally, seen, if_pos rfl, cancellations, recorded, List.countP_append] at h
  have none : ds.countP (·.problem == .cancelled) = 0 := Nat.succ.inj h
  intro d mem same
  exact List.countP_eq_zero.1 none d mem (beq_iff_eq.2 same)

/-- A parse that is cancelled while its tokens are taken or at some checkpoint gives a beginning of
the statements and of the diagnostics of the parse that is not, and then one diagnostic about the
cancellation; without such a diagnostic it gives the same. After a session has recorded a
cancellation, whatever works on it, no second one is recorded, and no statement of the top level is
parsed, resolved or typed any more. -/
theorem cancellation_truncates :
    (∀ (source : List Char) (n : Nat) (moment : Option Nat),
      let whole := parseSource source .fresh
      let cut := parse (Delivery.cancelAt n (deliveries source)) { cancelAfter := moment }
      (cut.session.RecordsCancelled → cut.program.body <+: whole.program.body ∧
        ∃ ds span, ds <+: whole.session.diagnostics ∧ (∀ d ∈ ds, d.problem ≠ .cancelled) ∧
          cut.session.diagnostics = ds ++ [.of .cancelled span]) ∧
      (¬cut.session.RecordsCancelled → cut.program = whole.program ∧
        cut.session.diagnostics = whole.session.diagnostics)) ∧
    ∀ (moment : Option Nat) (before after : List Stage),
      let s := Stage.runAll before { cancelAfter := moment }
      let t := Stage.runAll after s
      s.RecordsCancelled →
        t.cancellations = 1 ∧
        (∀ tokens, (parse tokens t).program.body = []) ∧
        (∀ p, let r := (Resolver.start t).hoist globalScope p.body
          resolve p t = (r.resolution, r.session)) ∧
        ∀ p r, typeCheck p r t = (⟨p.span, [], r.tree⟩, t) := by
  refine ⟨fun source n moment => ?_, fun moment before after => ?_⟩
  · intro whole cut
    obtain ⟨tally, outcome⟩ := parse_cancelAt source n moment
    rcases outcome with
      ⟨never, program, -, diagnostics⟩ | ⟨noticed, body, ds, span, begins, recorded⟩
    · refine ⟨fun records => ?_, fun _ => ⟨program, diagnostics⟩⟩
      have noticed := tally.recordsCancelled_iff.1 records
      rw [never] at noticed
      cases noticed
    · exact ⟨fun _ => ⟨body, ds, span, begins, tally.once noticed recorded, recorded⟩,
        fun silent => absurd (tally.recordsCancelled_iff.2 noticed) silent⟩
  · intro s t recorded
    have tally : s.Tally := Stage.tally_runAll moment before
    have seen : t.cancelled = true := Stage.runAll_kept Invariant.lawful_stopped
      (fun _ => trivial) after (tally.recordsCancelled_iff.1 recorded)
    have once : t.Tally := Stage.runAll_kept Invariant.lawful_tally (fun _ => trivial) after tally
    refine ⟨?_, fun tokens => (parse_of_cancelled seen tokens).1, resolve_of_cancelled seen,
      typeCheck_of_cancelled seen⟩
    rw [once, seen]
    rfl

theorem cancellation_truncates_secondStatement :
    let source := "let a = 1; let b = 2;".toList
    let cut := parse (Delivery.cancelAt 5 (deliveries source)) .fresh
    cut.session.RecordsCancelled ∧ cut.program.body.length = 1 ∧
      cut.program.body <+: (parseSource source .fresh).program.body ∧
      (parse (Delivery.cancelAt 5 (deliveries source)) cut.session).session.cancellations = 1 := by
  have records : (parse (Delivery.cancelAt 5 (deliveries "let a = 1; let b = 2;".toList))
      .fresh).session.RecordsCancelled := by
    unfold Session.RecordsCancelled
    decide +kernel
  have first : (parse (Delivery.cancelAt 5 (deliveries "let a = 1; let b = 2;".toList))
      .fresh).program.body.length = 1 := by
    decide +kernel
  have lexical := lexical_cancelAt "let a = 1; let b = 2;".toList 5
  exact ⟨records, first, ((cancellation_truncates.1 _ 5 none).1 records).1,
    (cancellation_truncates.2 none [.parse _ lexical] [.parse _ lexical] records).1⟩

end MiniLang
