import MiniLang.Proofs.Syntax.Parser.Recovery.Statements
import MiniLang.Proofs.Syntax.Recognition

/-!
# Programs with an unknown token

If an unknown token stands in place of an integer of a program, then the statement that holds the
integer becomes an error placeholder, everything else is read as before, and nothing is recorded
(`parse_spoilt`): the complaint about the token is the only one. An `else` behind the condition that
the integer stands in is an exception, it is left over.
-/

set_option autoImplicit false

namespace MiniLang

open Terminal (spoil)
open Dialect (plain_standard)

/-- What statements are spoilt to is skipped, and no error is recorded. -/
theorem spoilt_recovers : Dialect.spoilt.Recovers 0 where
  begins us mark := by
    obtain ⟨k, ts, s, derives, -, -, -, rfl⟩ := mark
    obtain ⟨t, ts, rfl, noElse, noClose⟩ :=
      derives.begins plain_standard.target Dialect.standard_recovers
    obtain ⟨t', ts', spoilt, same⟩ := Terminal.spoil_cons k t ts
    refine ⟨t', ts', spoilt, ?_⟩
    rcases same with same | same
    · exact same ▸ ⟨noElse, noClose⟩
    · rw [same]
      decide
  skips us mark fuel p rest calm cut enough := by
    obtain ⟨k, ts, s, derives, -, holds, noElse, rfl⟩ := mark
    rw [Terminal.length_spoil] at enough
    obtain ⟨mid, skips, stops⟩ := derives.stops k holds noElse fuel calm cut enough
    refine Parse.recovering_stops stops skips ?_
    obtain ⟨t, ts, rfl, -⟩ := derives.begins plain_standard.target Dialect.standard_recovers
    rw [cut, List.length_append, Terminal.length_spoil, List.length_cons]
    omega

/-! ## Tokens -/

theorem Token.integers_terminal (tokens : List Token) :
    Terminal.integers (tokens.map Token.terminal) = tokens.countP (·.kind = .integer) := by
  rw [Terminal.integers, List.countP_map]
  refine List.countP_congr fun t _ => ?_
  unfold Function.comp Token.terminal
  cases kind : t.kind <;> simp [Terminal.isInteger]

/-- Putting an unknown token in place of an integer spoils it. -/
theorem Token.spoil_terminal {before after : List Token} {t u : Token} (integer : t.kind = .integer)
    (unknown : u.kind = .unknown) :
    spoil (before.countP (·.kind = .integer)) ((before ++ t :: after).map Token.terminal) =
      (before ++ u :: after).map Token.terminal := by
  have taken : t.terminal = .integer t.text := by rw [Token.terminal, integer]
  have put : u.terminal = .fixed .unknown := by rw [Token.terminal, unknown]
  rw [← Token.integers_terminal, List.map_append, (Terminal.spoil_append_right _ le_rfl).1,
    Nat.sub_self, List.map_cons, taken, List.map_append, List.map_cons, put]
  rfl

/-- With an unknown token in place of an integer that stands in no condition with an `else` behind
it, a program is read as before, apart from an error placeholder for the statement that holds the
integer. Nothing is recorded. -/
theorem parse_spoilt {before after ending : List Token} {t u : Token} {ss : List Stmt}
    {s : Session}
    (derives : DerivesProgram .standard ((before ++ t :: after).map Token.terminal) ss)
    (integer : t.kind = .integer) (unknown : u.kind = .unknown)
    (noElse : Stmt.beforeElseAll (before.countP (·.kind = .integer)) ss = false)
    (ends : ∀ t ∈ ending.head?, t.kind = .endOfInput) (unasked : s.cancelAfter = none)
    (uncancelled : s.cancelled = false) :
    (parse (deliveriesOf (before ++ u :: after ++ ending)) s).session = s ∧
      Stmt.bareAll (parse (deliveriesOf (before ++ u :: after ++ ending)) s).program.body =
        Stmt.bareAll (Stmt.spoilAll (before.countP (·.kind = .integer)) ss) := by
  have held : before.countP (·.kind = .integer) < Stmt.integersAll ss := by
    rw [← derives.integers, Token.integers_terminal, List.countP_append,
      List.countP_cons_of_pos (by simpa using integer)]
    omega
  have going : ∀ x ∈ before ++ u :: after, x.kind ≠ .endOfInput := by
    have all := derives.noEnd
    simp only [List.mem_append, List.mem_cons] at all ⊢
    rintro x (mem | rfl | mem)
    · exact all x (.inl mem)
    · rw [unknown]
      decide
    · exact all x (.inr (.inr mem))
  have spoilt := derives.spoilt _ held noElse
  rw [Token.spoil_terminal integer unknown, ← terminals_append_ending going ends,
    ← map_token_deliveriesOf (before ++ u :: after ++ ending)] at spoilt
  have names : Dialect.spoilt.NamesTargets := plain_standard.target
  obtain ⟨bare, ds, recorded, length, -⟩ := spoilt.parses_recovers names spoilt_recovers
    (quiet_deliveriesOf _) unasked uncancelled
  rw [Nat.zero_mul, List.length_eq_zero_iff] at length
  rw [length, Session.recordAll_nil] at recorded
  exact ⟨recorded, bare⟩

/-- The tokens of `{ f(7); }`. -/
def blockOfCall : List Token :=
  [⟨.openCurly, "\x7b", .origin⟩, ⟨.identifier, "f", .origin⟩, ⟨.openParen, "(", .origin⟩,
    ⟨.integer, "7", .origin⟩, ⟨.closeParen, ")", .origin⟩, ⟨.semicolon, ";", .origin⟩,
    ⟨.closeCurly, "\x7d", .origin⟩]

/-- The statement that these tokens form. -/
def blockOfCallTree : Stmt :=
  .block (.mk 0 .origin [.expression .origin (.call 0 .origin "f" .origin
    [.literal 0 .origin (.int 7)])])

theorem derives_blockOfCall :
    DerivesProgram .standard (blockOfCall.map Token.terminal) [blockOfCallTree] := by
  have seven : Derives .standard .primary [.integer "7"] (.literal 0 .origin (.int 7)) :=
    .integer (by decide)
  have call : Derives .standard .primary (.identifier "f" :: Terminal.inParens [.integer "7"])
      (.call 0 .origin "f" .origin [.literal 0 .origin (.int 7)]) :=
    .call (.some (.last (seven.loosen (by decide))))
  exact .cons (.inner (.block (.mk (.cons (.expression (call.loosen (by decide))) .nil)))) .nil

/-- What stands for an integer that is out of range. -/
def outOfRange : Token := ⟨.unknown, "99999999999999999999", .origin⟩

/-- In a block, the statement is a placeholder and the block is read. -/
theorem parse_spoilt_blockOfCall :
    DerivesProgram .standard
        ((blockOfCall.take 3 ++ ⟨.integer, "7", .origin⟩ :: blockOfCall.drop 4).map Token.terminal)
        [blockOfCallTree] ∧
      Stmt.beforeElseAll ((blockOfCall.take 3).countP (·.kind = .integer)) [blockOfCallTree] =
        false ∧
      (parse (deliveriesOf (blockOfCall.take 3 ++ outOfRange :: blockOfCall.drop 4 ++
        [.endAt .origin])) .fresh).session = .fresh ∧
      Stmt.bareAll (parse (deliveriesOf (blockOfCall.take 3 ++ outOfRange :: blockOfCall.drop 4 ++
        [.endAt .origin])) .fresh).program.body =
        Stmt.bareAll (Stmt.spoilAll ((blockOfCall.take 3).countP (·.kind = .integer))
          [blockOfCallTree]) :=
  ⟨derives_blockOfCall, by decide,
    parse_spoilt derives_blockOfCall rfl rfl (by decide) (by decide) rfl rfl⟩

/-- The tokens of `if (t) { } else { }`. -/
def choiceOn (t : Token) : List Token :=
  [⟨.kwIf, "if", .origin⟩, ⟨.openParen, "(", .origin⟩, t, ⟨.closeParen, ")", .origin⟩,
    ⟨.openCurly, "\x7b", .origin⟩, ⟨.closeCurly, "\x7d", .origin⟩, ⟨.kwElse, "else", .origin⟩,
    ⟨.openCurly, "\x7b", .origin⟩, ⟨.closeCurly, "\x7d", .origin⟩]

/-- The tokens of `if (a) { } else if (t) { }`. -/
def chainOn (t : Token) : List Token :=
  [⟨.kwIf, "if", .origin⟩, ⟨.openParen, "(", .origin⟩, ⟨.identifier, "a", .origin⟩,
    ⟨.closeParen, ")", .origin⟩, ⟨.openCurly, "\x7b", .origin⟩, ⟨.closeCurly, "\x7d", .origin⟩,
    ⟨.kwElse, "else", .origin⟩, ⟨.kwIf, "if", .origin⟩, ⟨.openParen, "(", .origin⟩, t,
    ⟨.closeParen, ")", .origin⟩, ⟨.openCurly, "\x7b", .origin⟩, ⟨.closeCurly, "\x7d", .origin⟩]

/-- In a condition with an `else` behind it, the unknown token makes the parser complain about the
`else`. Behind an `else`, the placeholder stands for the whole chain, not just for the `if` that
holds the integer. -/
theorem parse_unknown_conditions :
    (DerivesProgram .standard ((choiceOn ⟨.integer, "7", .origin⟩).map Token.terminal)
        [.ifThenElse .origin (.literal 0 .origin (.int 7)) (.mk 0 .origin [])
          (.block (.mk 0 .origin []))] ∧
      (parse (deliveriesOf (choiceOn outOfRange ++ [.endAt .origin]))
        .fresh).session.diagnostics.map (fun d => d.problem.category) = [.syntactic]) ∧
    (DerivesProgram .standard ((chainOn ⟨.integer, "7", .origin⟩).map Token.terminal)
        [.ifThenElse .origin (.var 0 .origin "a") (.mk 0 .origin [])
          (.ifThen .origin (.literal 0 .origin (.int 7)) (.mk 0 .origin []))] ∧
      (parse (deliveriesOf (chainOn outOfRange ++ [.endAt .origin])) .fresh).program.body.map
        Stmt.isError = [true]) := by
  have seven : Derives .standard .primary [.integer "7"] (.literal 0 .origin (.int 7)) :=
    .integer (by decide)
  have name : Derives .standard .primary [.identifier "a"] (.var 0 .origin "a") := .name
  have test := seven.loosen (l := .assignment) (by decide)
  have test' := name.loosen (l := .assignment) (by decide)
  have empty : DerivesBlock .standard [.fixed .openCurly, .fixed .closeCurly]
      (.mk 0 .origin []) := .mk .nil
  refine ⟨⟨?_, by decide +kernel⟩, ?_, by decide +kernel⟩
  · exact .cons (.inner (.choice (.ifThenElse test empty empty))) .nil
  · exact .cons (.inner (.choice (.elseIf test' empty (.ifThen test empty)))) .nil

end MiniLang
