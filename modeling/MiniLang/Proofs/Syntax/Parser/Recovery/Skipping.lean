import MiniLang.Proofs.Syntax.Nesting
import MiniLang.Proofs.Syntax.Parser.Completeness.Statements

/-!
# What recovery leaves

Where recovery stops depends on the terminals ahead alone (`Terminal.skip`, `gets_synchronize`). It
passes the rest of an expression, and a block as a whole, whatever is in it.
-/

set_option autoImplicit false

namespace MiniLang

namespace Terminal

/-- What is left of some terminals when the rest of a statement is skipped, inside of so many blocks
that were opened on the way. -/
def skip : Nat → List Terminal → List Terminal
  | _, [] => []
  | depth, t :: ts =>
    match t.kind with
    | .semicolon => if depth = 0 then ts else skip depth ts
    | .openCurly => skip (depth + 1) ts
    | .closeCurly =>
      match depth with
      | 0 => t :: ts
      | 1 => ts
      | depth + 2 => skip (depth + 1) ts
    | _ => skip depth ts

/-- Neither the end of a statement nor of a block, nor the beginning of one. -/
def Skipped (t : Terminal) : Prop := t.kind ∉ [.endOfInput, .semicolon, .openCurly, .closeCurly]

instance (t : Terminal) : Decidable t.Skipped := inferInstanceAs (Decidable (_ ∉ _))

variable {depth : Nat} {ts us : List Terminal}

theorem skip_of_skipped {t : Terminal} (h : t.Skipped) : skip depth (t :: ts) = skip depth ts := by
  unfold Skipped at h
  rw [skip.eq_def]
  cases kind : t.kind <;> simp_all

theorem skip_append (h : ∀ t ∈ ts, t.Skipped) : skip depth (ts ++ us) = skip depth us := by
  induction ts with
  | nil => rfl
  | cons t ts ih =>
    obtain ⟨first, rest⟩ := List.forall_mem_cons.1 h
    exact (skip_of_skipped first).trans (ih rest)

/-- Inside of a block that was opened on the way, the terminals are skipped. -/
def Passed (ts : List Terminal) : Prop :=
  ∀ depth us, skip (depth + 1) (ts ++ us) = skip (depth + 1) us

theorem nested_skipped : Nested fun ts => ∀ t ∈ ts, t.Skipped where
  nil := List.forall_mem_nil _
  append h h' := List.forall_mem_append.2 ⟨h, h'⟩
  flat {t} flat := List.forall_mem_singleton.2 fun mem => by
    simp only [List.mem_cons, List.not_mem_nil, or_false] at mem
    rcases mem with is | is | is | is <;> simp [Flat, is] at flat
  parens {ts} h := by
    have last : ∀ t ∈ [fixed .closeParen], t.Skipped := List.forall_mem_singleton.2 (by decide)
    exact List.forall_mem_cons.2 ⟨by decide, List.forall_mem_append.2 ⟨h, last⟩⟩

theorem nestedInBlocks_passed : NestedInBlocks Passed where
  nil _ _ := rfl
  append h h' depth us := by rw [List.append_assoc, h, h']
  flat flat depth us := skip_of_skipped (nested_skipped.flat flat _ List.mem_cons_self)
  parens {ts} h depth us := by
    have inside : inParens ts ++ us = .fixed .openParen :: (ts ++ .fixed .closeParen :: us) := by
      simp [inParens]
    rw [inside, skip_of_skipped (by decide), h, skip_of_skipped (by decide)]
  semicolon depth us := rfl
  braces {ts} h depth us := by
    have inside : inBraces ts ++ us = .fixed .openCurly :: (ts ++ .fixed .closeCurly :: us) := by
      simp [inBraces]
    rw [inside]
    exact (h (depth + 1) _).trans rfl

end Terminal

open Terminal (skip Skipped Passed)

/-- Behind an expression, or a part of it, the end of the statement is found. -/
theorem Derives.skipped {l : Stratum} {ts : List Terminal} {e : Expr}
    (h : Derives .standard l ts e) : ∀ t ∈ ts, t.Skipped :=
  h.nested Terminal.nested_skipped Dialect.plain_standard.target

/-- A block is skipped as a whole. -/
theorem DerivesBlock.skip {ts rest : List Terminal} {b : Block} (h : DerivesBlock .standard ts b) :
    skip 0 (ts ++ rest) = rest := by
  cases h with
  | @mk ts ss id span body =>
    have passed := body.nested Terminal.nestedInBlocks_passed Dialect.plain_standard 0
      (.fixed .closeCurly :: rest)
    rw [List.cons_append, List.append_assoc]
    exact passed

namespace Parser

variable {p : Parser}

theorem gets_synchronizeFrom : ∀ (fuel depth : Nat) {p : Parser} {ts : List Terminal}, p.Calm →
    p.ahead = ts → ts.length < fuel →
    Gets 0 p (p.synchronizeFrom fuel depth) (skip depth ts)
  | 0, _, _, _, _, _, less => absurd less (Nat.not_lt_zero _)
  | fuel + 1, depth, p, ts, calm, cut, less => by
    cases ts with
    | nil =>
      have ends : p.current.kind = .endOfInput := beq_iff_eq.1 (atEnd_of_ahead_eq_nil cut)
      have stays : p.synchronizeFrom (fuel + 1) depth = p := by
        rw [synchronizeFrom.eq_def]
        simp only [ends]
      rw [stays]
      exact .refl calm cut
    | cons t ts =>
      have first := gets_advance calm cut
      have next : ∀ depth, Gets 0 p (p.advance.synchronizeFrom fuel depth) (skip depth ts) :=
        fun depth => first.trans (gets_synchronizeFrom fuel depth first.calm first.ahead
          (Nat.lt_of_succ_lt_succ less))
      unfold synchronizeFrom skip
      rw [kind_of_ahead_eq_cons cut]
      cases kind : t.kind with
      | endOfInput =>
        have ends := (kind_of_ahead_eq_cons cut).trans kind
        have more := (of_ahead_eq_cons cut).1
        rw [atEnd, ends] at more
        cases more
      | semicolon =>
        by_cases outside : depth = 0
        · simpa only [if_pos outside] using first
        · simpa only [if_neg outside] using next depth
      | openCurly => exact next _
      | closeCurly =>
        rcases depth with _ | _ | depth
        · exact .refl calm cut
        · exact first
        · exact next _
      | _ => exact next _

/-- Recovery stops where the terminals ahead say. -/
theorem gets_synchronize (calm : p.Calm) : Gets 0 p p.synchronize (skip 0 p.ahead) :=
  gets_synchronizeFrom _ 0 calm rfl (Nat.lt_succ_of_le p.length_ahead_le)

end Parser

end MiniLang
