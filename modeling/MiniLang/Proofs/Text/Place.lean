import Mathlib.Tactic
import MiniLang.Text.Line
import MiniLang.Text.Span

/-!
# Places in a text

A cut of a text into what comes before, a piece, and what comes after says at once where the piece
stands: the bytes before it, the newlines before it and the characters since the last of them
(`Span.over`). Cutting at byte offsets finds such a cut again (`splitAtByte?_byteLength`,
`sliceBytes?_byteLength`), and a newline is where the count of columns starts anew
(`lastLine_append_newline`). What two pieces of a text enclose is a piece of it again
(`Span.StandsIn.join`), and the span of a piece is true to the text (`Span.StandsIn.trueTo`).

Spans can stand one after the other between two places (`Span.InOrder`), and a span can cover
others, which stand in it one after the other and of which none is all of it (`Span.Holds`).
-/

set_option autoImplicit false

namespace MiniLang

/-! ## Pieces of a text -/

namespace Text

variable {before inside after : List Char} {c : Char}

theorem byteLength_pos (nonempty : inside ≠ []) : 0 < byteLength inside := by
  obtain ⟨c, cs, rfl⟩ := List.exists_cons_of_ne_nil nonempty
  exact Nat.add_pos_left c.utf8Size_pos _

theorem splitAtByte?_byteLength (before after : List Char) :
    splitAtByte? (before ++ after) (byteLength before) = some (before, after) := by
  induction before with
  | nil => simp [splitAtByte?]
  | cons c before ih =>
    obtain ⟨n, h⟩ : ∃ n, byteLength (c :: before) = n + 1 :=
      Nat.exists_eq_succ_of_ne_zero (byteLength_pos (List.cons_ne_nil c before)).ne'
    have fits : c.utf8Size ≤ n + 1 := by
      rw [← h]
      exact Nat.le_add_right ..
    rw [h, List.cons_append, splitAtByte?, if_pos fits, ← h, byteLength_cons,
      Nat.add_sub_cancel_left, ih]
    rfl

theorem sliceBytes?_byteLength (before inside after : List Char) :
    sliceBytes? (before ++ inside ++ after) (byteLength before)
      (byteLength before + byteLength inside) = some inside := by
  have ordered : ¬ byteLength before + byteLength inside < byteLength before := by omega
  simp [sliceBytes?, ordered, splitAtByte?_byteLength]

@[simp] theorem lastLine_nil : lastLine [] = [] := rfl

/-- Whatever fails a test ends the run of characters that pass it. -/
theorem takeWhile_append_cons {test : Char → Bool} (fails : test c = false)
    (before after : List Char) :
    (before ++ c :: after).takeWhile test = before.takeWhile test := by
  induction before with
  | nil => simp [fails]
  | cons d before ih => rw [List.cons_append, List.takeWhile_cons, List.takeWhile_cons, ih]

/-- A newline begins a line. -/
theorem lastLine_append_newline (before after : List Char) :
    lastLine (before ++ '\n' :: after) = lastLine after := by
  simp only [lastLine, List.reverse_append, List.reverse_cons, List.append_assoc,
    List.singleton_append]
  rw [takeWhile_append_cons (by simp)]

/-- Any other character makes the line longer. -/
theorem lastLine_append_singleton (before : List Char) (h : c ≠ '\n') :
    lastLine (before ++ [c]) = lastLine before ++ [c] := by
  simp [lastLine, h]

end Text

/-- The span of a piece of text that stands behind `before`. -/
def Span.over (before inside : List Char) : Span where
  start := Text.byteLength before
  stop := Text.byteLength before + Text.byteLength inside
  line := 1 + before.count '\n'
  column := 1 + (Text.lastLine before).length

namespace Span

variable {source : List Char} {a b s : Span}

/-- A span is that of a piece of a text. -/
def StandsIn (source : List Char) (s : Span) : Prop :=
  ∃ before inside after, source = before ++ inside ++ after ∧ s = .over before inside

/-- A span is true to a text: its ends are ends of characters of the text, in this order, and its
line and column are those of where it starts. -/
structure TrueTo (source : List Char) (s : Span) : Prop where
  ordered : s.start ≤ s.stop
  within : s.stop ≤ Text.byteLength source
  stops : (Text.splitAtByte? source s.stop).isSome = true
  starts : ∃ before after, Text.splitAtByte? source s.start = some (before, after) ∧
    s.line = 1 + before.count '\n' ∧ s.column = 1 + (Text.lastLine before).length

/-- Spans of pieces of a text are true to it. -/
theorem StandsIn.trueTo (h : s.StandsIn source) : s.TrueTo source := by
  obtain ⟨before, inside, after, rfl, rfl⟩ := h
  have stop : (Span.over before inside).stop = Text.byteLength (before ++ inside) :=
    (Text.byteLength_append before inside).symm
  refine ⟨Nat.le_add_right .., ?_, ?_, before, inside ++ after, ?_, rfl, rfl⟩
  · rw [stop, Text.byteLength_append (before ++ inside)]
    exact Nat.le_add_right ..
  · rw [stop, Text.splitAtByte?_byteLength]
    rfl
  · rw [List.append_assoc]
    exact Text.splitAtByte?_byteLength ..

theorem standsIn_origin (source : List Char) : origin.StandsIn source := ⟨[], [], source, rfl, rfl⟩

/-- Of two beginnings of a text the one that takes fewer bytes is a beginning of the other. -/
theorem prefix_of_byteLength_le {first second : List Char} (h : first <+: source)
    (h' : second <+: source) (le : Text.byteLength first ≤ Text.byteLength second) :
    first <+: second := by
  rcases List.prefix_or_prefix_of_prefix h h' with before | behind
  · exact before
  · obtain ⟨rest, rfl⟩ := behind
    rw [Text.byteLength_append] at le
    have nothing : rest = [] := by
      by_contra nonempty
      have := Text.byteLength_pos nonempty
      omega
    rw [nothing, List.append_nil]

/-- What two pieces of a text enclose is a piece of it. -/
theorem StandsIn.join (h : a.StandsIn source) (h' : b.StandsIn source) :
    (a.join b).StandsIn source := by
  obtain ⟨before, inside, after, whole, rfl⟩ := h
  obtain ⟨before', inside', after', whole', rfl⟩ := h'
  rcases Nat.le_total (Span.over before' inside').stop (Span.over before inside).stop with le | le
  · refine ⟨before, inside, after, whole, ?_⟩
    rw [Span.join, Nat.max_eq_right le]
  · -- the second piece ends behind the first, so what is before the first begins all up to there
    have shorter : before <+: before' ++ inside' := by
      refine prefix_of_byteLength_le ⟨inside ++ after, ?_⟩ ⟨after', whole'.symm⟩ ?_
      · rw [whole, List.append_assoc]
      · rw [Text.byteLength_append]
        exact (Nat.le_add_right ..).trans le
    obtain ⟨between, same⟩ := shorter
    refine ⟨before, between, after', by rw [same, whole'], ?_⟩
    have stop : (Span.over before' inside').stop = (Span.over before between).stop := by
      change Text.byteLength before' + Text.byteLength inside' =
        Text.byteLength before + Text.byteLength between
      rw [← Text.byteLength_append, ← Text.byteLength_append, same]
    rw [Span.join, Nat.max_eq_left le, stop]
    rfl

end Span

/-! ## Spans in order -/

namespace Span

@[simp] theorem join_stop (a b : Span) : (a.join b).stop = max b.stop a.stop := rfl

/-- Spans stand one after the other between two places, none of them empty. -/
def InOrder (lo hi : Nat) : List Span → Prop
  | [] => lo ≤ hi
  | s :: ss => lo ≤ s.start ∧ s.start < s.stop ∧ InOrder s.stop hi ss

/-- The given parts stand within a span, one after the other, and none of them is all of it. -/
structure Holds (s : Span) (parts : List Span) : Prop where
  nonempty : s.start < s.stop
  inOrder : InOrder s.start s.stop parts
  proper : ∀ part ∈ parts, s.start < part.start ∨ part.stop < s.stop

namespace InOrder

variable {lo mid hi : Nat} {ss ss' : List Span}

theorem le : ∀ {lo : Nat} {ss : List Span}, InOrder lo hi ss → lo ≤ hi
  | _, [], h => h
  | _, s :: ss, ⟨first, nonempty, rest⟩ => by
    have := rest.le
    omega

theorem append : ∀ {lo : Nat} {ss : List Span}, InOrder lo mid ss → InOrder mid hi ss' →
    InOrder lo hi (ss ++ ss')
  | _, [], h, h' => by
    cases ss' with
    | nil => exact Nat.le_trans h h'
    | cons s ss' => exact ⟨Nat.le_trans h h'.1, h'.2⟩
  | _, _ :: _, ⟨first, nonempty, rest⟩, h' => ⟨first, nonempty, rest.append h'⟩

theorem widen {lo' hi' : Nat} (h : InOrder lo hi ss) (le : lo' ≤ lo) (ge : hi ≤ hi') :
    InOrder lo' hi' ss := by
  have first : InOrder lo' lo [] := le
  have last : InOrder hi hi' [] := ge
  have whole := (first.append h).append last
  rwa [List.nil_append, List.append_nil] at whole

theorem singleton {s : Span} (le : lo ≤ s.start) (nonempty : s.start < s.stop)
    (ge : s.stop ≤ hi) : InOrder lo hi [s] := ⟨le, nonempty, ge⟩

/-- Some of the spans. -/
theorem sublist {ss' : List Span} (sub : ss'.Sublist ss) :
    ∀ {lo : Nat}, InOrder lo hi ss → InOrder lo hi ss' := by
  induction sub with
  | slnil => exact id
  | cons s _ ih =>
    intro lo ⟨first, nonempty, rest⟩
    exact (ih rest).widen (by omega) (Nat.le_refl _)
  | cons_cons s _ ih => exact fun ⟨first, nonempty, rest⟩ => ⟨first, nonempty, ih rest⟩

/-- Every one of the spans stands between the two places. -/
theorem within : ∀ {lo : Nat} {ss : List Span}, InOrder lo hi ss →
    ∀ s ∈ ss, lo ≤ s.start ∧ s.start < s.stop ∧ s.stop ≤ hi
  | _, [], _ => List.forall_mem_nil _
  | _, s :: ss, ⟨first, nonempty, rest⟩ => by
    refine List.forall_mem_cons.2 ⟨⟨first, nonempty, rest.le⟩, fun t mem => ?_⟩
    obtain ⟨later, inside⟩ := rest.within t mem
    exact ⟨by omega, inside⟩

end InOrder

theorem Holds.leaf {s : Span} (nonempty : s.start < s.stop) : s.Holds [] :=
  ⟨nonempty, Nat.le_of_lt nonempty, List.forall_mem_nil _⟩

/-- Some of the parts. -/
theorem Holds.sublist {s : Span} {parts parts' : List Span} (h : s.Holds parts)
    (sub : parts'.Sublist parts) : s.Holds parts' :=
  ⟨h.nonempty, h.inOrder.sublist sub, fun part mem => h.proper part (sub.subset mem)⟩

/-- Parts behind whose first or before whose last there is more of the span. -/
theorem Holds.of_lt {s : Span} {parts : List Span} {lo hi : Nat} (inOrder : InOrder lo hi parts)
    (le : s.start ≤ lo) (ge : hi ≤ s.stop) (lt : s.start < lo ∨ hi < s.stop) : s.Holds parts := by
  have ends := inOrder.le
  refine ⟨by omega, inOrder.widen le ge, fun part mem => ?_⟩
  obtain ⟨after, -, before⟩ := inOrder.within part mem
  omega

/-- The parts of what two spans enclose, if there is more of it before or behind them. -/
theorem Holds.join {a b : Span} {parts : List Span} {lo hi : Nat} (inOrder : InOrder lo hi parts)
    (le : a.start ≤ lo) (ge : hi ≤ b.stop) (lt : a.start < lo ∨ hi < b.stop) :
    (a.join b).Holds parts := by
  have stop := Nat.le_max_left b.stop a.stop
  refine .of_lt inOrder le (ge.trans stop) ?_
  rw [join_start, join_stop]
  omega

/-- What two spans enclose, one behind the other. -/
theorem Holds.pair {a b : Span} (first : a.start < a.stop) (apart : a.stop ≤ b.start)
    (second : b.start < b.stop) : (a.join b).Holds [a, b] := by
  have inOrder : InOrder a.start b.stop [a, b] :=
    ⟨Nat.le_refl _, first, apart, second, Nat.le_refl _⟩
  have stop := Nat.le_max_left b.stop a.stop
  refine ⟨?_, inOrder.widen (Nat.le_refl _) stop, ?_⟩
  · rw [join_start, join_stop]
    omega
  · rw [join_start, join_stop, List.forall_mem_cons, List.forall_mem_singleton]
    omega

end Span

end MiniLang
