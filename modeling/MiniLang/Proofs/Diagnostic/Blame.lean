import MiniLang.Diagnostic.Basic
import MiniLang.Proofs.Text.Place

/-!
# What is blamed, and where

Two diagnostics are the same to a reader if they have the same problem and the same place. Where
the diagnostics of the parts of a text are put together, they stay different from each other as
long as the parts stand apart (`Spread`).
-/

set_option autoImplicit false

namespace MiniLang

/-- A problem and its place. -/
abbrev Blame := Problem × Span

/-- What a diagnostic is about. -/
def Diagnostic.blame (d : Diagnostic) : Blame := (d.problem, d.span)

@[simp] theorem Diagnostic.blame_of (problem : Problem) (span : Span) :
    (Diagnostic.of problem span).blame = (problem, span) := rfl

/-- Problems of one category are none of those of others. -/
theorem Diagnostic.blame_notMem {ds ds' : List Diagnostic} {category : Category}
    (one : ∀ d ∈ ds, d.problem.category = category)
    (others : ∀ d ∈ ds', d.problem.category ≠ category) :
    ∀ b ∈ ds.map blame, b ∉ ds'.map blame := by
  intro b mem mem'
  obtain ⟨d, there, rfl⟩ := List.mem_map.1 mem
  obtain ⟨d', there', same⟩ := List.mem_map.1 mem'
  have problem : d'.problem = d.problem := (Prod.mk.inj same).1
  apply others d' there'
  rw [problem, one d there]

/-- What is blamed is blamed once, and stands between two places of the text. -/
structure Spread (lo hi : Nat) (bs : List Blame) : Prop where
  nodup : bs.Nodup
  within : ∀ b ∈ bs, lo ≤ b.2.start ∧ b.2.start < b.2.stop ∧ b.2.stop ≤ hi

namespace Spread

variable {lo mid hi : Nat} {bs bs' : List Blame}

theorem nil (lo hi : Nat) : Spread lo hi [] := ⟨List.nodup_nil, List.forall_mem_nil _⟩

theorem single {problem : Problem} {span : Span} (le : lo ≤ span.start)
    (nonempty : span.start < span.stop) (ge : span.stop ≤ hi) : Spread lo hi [(problem, span)] :=
  ⟨List.nodup_singleton _, List.forall_mem_singleton.2 ⟨le, nonempty, ge⟩⟩

theorem widen {lo' hi' : Nat} (h : Spread lo hi bs) (le : lo' ≤ lo) (ge : hi ≤ hi') :
    Spread lo' hi' bs := by
  refine ⟨h.nodup, fun b mem => ?_⟩
  have inside := h.within b mem
  omega

theorem perm (h : Spread lo hi bs) (turned : bs.Perm bs') : Spread lo hi bs' :=
  ⟨turned.nodup_iff.1 h.nodup, fun b mem => h.within b (turned.symm.subset mem)⟩

theorem sublist (h : Spread lo hi bs) (sub : bs'.Sublist bs) : Spread lo hi bs' :=
  ⟨h.nodup.sublist sub, fun b mem => h.within b (sub.subset mem)⟩

/-- Nothing is blamed in both lists. -/
theorem union (h : Spread lo hi bs) (h' : Spread lo hi bs') (apart : ∀ b ∈ bs, b ∉ bs') :
    Spread lo hi (bs ++ bs') :=
  ⟨List.nodup_append'.2 ⟨h.nodup, h'.nodup, fun b mem mem' => apart b mem mem'⟩,
    fun b mem => (List.mem_append.1 mem).elim (h.within b) (h'.within b)⟩

/-- What is blamed in one part of the text and what is blamed behind it. -/
theorem append (h : Spread lo mid bs) (h' : Spread mid hi bs') (le : lo ≤ mid) (ge : mid ≤ hi) :
    Spread lo hi (bs ++ bs') := by
  refine (h.widen (Nat.le_refl lo) ge).union (h'.widen le (Nat.le_refl hi)) ?_
  intro b mem mem'
  have before := h.within b mem
  have behind := h'.within b mem'
  omega

/-- What is blamed in each of some spans that stand in order. -/
theorem flatten {spans : List Span} {parts : List (List Blame)}
    (each : List.Forall₂ (fun s bs => Spread s.start s.stop bs) spans parts) :
    ∀ {lo : Nat}, Span.InOrder lo hi spans → Spread lo hi parts.flatten := by
  induction each with
  | nil => exact fun _ => .nil ..
  | cons first _ ih =>
    intro lo ⟨start, nonempty, rest⟩
    have here := first.widen start (Nat.le_refl _)
    exact here.append (ih rest) (by omega) rest.le

/-- What is blamed in the parts of a span is none of it blamed at the whole span. -/
theorem proper {span : Span} {spans : List Span} {parts : List (List Blame)}
    (each : List.Forall₂ (fun s bs => Spread s.start s.stop bs) spans parts) :
    (∀ s ∈ spans, span.start < s.start ∨ s.stop < span.stop) → ∀ b ∈ parts.flatten, b.2 ≠ span := by
  induction each with
  | nil => exact fun _ => List.forall_mem_nil _
  | cons first _ ih =>
    intro proper b mem same
    obtain ⟨here, others⟩ := List.forall_mem_cons.1 proper
    rcases List.mem_append.1 mem with mem | mem
    · have inside := first.within b mem
      rw [same] at inside
      omega
    · exact ih others b mem same

end Spread

end MiniLang
