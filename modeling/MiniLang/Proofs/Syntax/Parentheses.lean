import MiniLang.Proofs.Syntax.Nesting

/-!
# Parentheses that match

Whether the parentheses of some tokens match is seen by counting those that are open
(`parensMatch`). Those of an expression do (`Derives.parensMatch`). So where parentheses at its
beginning or at its end are left out, the others do not match any more
(`Token.eq_nil_of_parensMatch_front`, `Token.eq_nil_of_parensMatch_back`).
-/

set_option autoImplicit false

namespace MiniLang

/-- Whether all parentheses match, when so many are still open from before. -/
def parensMatch : Nat → List TokenKind → Bool
  | depth, [] => depth == 0
  | depth, .openParen :: kinds => parensMatch (depth + 1) kinds
  | 0, .closeParen :: _ => false
  | depth + 1, .closeParen :: kinds => parensMatch depth kinds
  | depth, _ :: kinds => parensMatch depth kinds

section Counting

variable {kinds rest : List TokenKind}

@[simp] theorem parensMatch_nil (n : Nat) : parensMatch n [] = (n == 0) := by
  cases n <;> rfl

@[simp] theorem parensMatch_openParen (n : Nat) :
    parensMatch n (.openParen :: kinds) = parensMatch (n + 1) kinds := by
  cases n <;> rfl

@[simp] theorem parensMatch_closeParen_zero : parensMatch 0 (.closeParen :: kinds) = false := rfl

@[simp] theorem parensMatch_closeParen_succ (n : Nat) :
    parensMatch (n + 1) (.closeParen :: kinds) = parensMatch n kinds := rfl

theorem parensMatch_cons {kind : TokenKind} (noOpen : kind ≠ .openParen)
    (noClose : kind ≠ .closeParen) (n : Nat) :
    parensMatch n (kind :: kinds) = parensMatch n kinds := by
  cases kind <;> first | contradiction | cases n <;> rfl

/-- Behind parentheses that match, none is open. -/
theorem parensMatch_append {n : Nat} (all : parensMatch n kinds = true) :
    parensMatch n (kinds ++ rest) = parensMatch 0 rest := by
  induction kinds generalizing n with
  | nil =>
    obtain rfl : n = 0 := by simpa using all
    rfl
  | cons kind kinds ih =>
    rw [List.cons_append]
    by_cases opens : kind = .openParen
    · subst opens
      rw [parensMatch_openParen] at all ⊢
      exact ih all
    by_cases closes : kind = .closeParen
    · subst closes
      cases n with
      | zero => cases all
      | succ n => exact ih all
    · rw [parensMatch_cons opens closes] at all ⊢
      exact ih all

/-- Without parentheses that were opened before, the others do not match, whatever comes behind
them. -/
theorem parensMatch_of_fewer {n more : Nat} (positive : 0 < more)
    (all : parensMatch (n + more) kinds = true) : parensMatch n (kinds ++ rest) = false := by
  induction kinds generalizing n with
  | nil =>
    have none : n + more = 0 := by simpa using all
    omega
  | cons kind kinds ih =>
    rw [List.cons_append]
    by_cases opens : kind = .openParen
    · subst opens
      rw [parensMatch_openParen] at all ⊢
      exact ih (Nat.add_right_comm n more 1 ▸ all)
    by_cases closes : kind = .closeParen
    · subst closes
      cases n with
      | zero => rfl
      | succ n =>
        rw [Nat.add_right_comm] at all
        exact ih all
    · rw [parensMatch_cons opens closes] at all ⊢
      exact ih all

end Counting

/-! ## Parentheses of expressions -/

theorem nested_parensMatch : Nested fun ts : List Terminal => ∀ n rest,
    parensMatch n (ts.map Terminal.kind ++ rest) = parensMatch n rest where
  nil _ _ := rfl
  append h h' n rest := by rw [List.map_append, List.append_assoc, h, h']
  flat flat n rest := by
    simp only [Terminal.Flat, List.mem_cons, not_or] at flat
    exact parensMatch_cons flat.1 flat.2.1 n
  parens {ts} h n rest := by
    have cut : (Terminal.inParens ts).map Terminal.kind ++ rest =
        .openParen :: (ts.map Terminal.kind ++ .closeParen :: rest) := by
      simp [Terminal.inParens, Terminal.kind]
    rw [cut, parensMatch_openParen, h, parensMatch_closeParen_succ]

namespace Token

/-- The parentheses of tokens match. -/
def ParensMatch (run : List Token) : Prop := parensMatch 0 (run.map Token.kind) = true

instance (run : List Token) : Decidable (ParensMatch run) := inferInstanceAs (Decidable (_ = true))

end Token

/-- The parentheses of tokens that are derived as an expression match. -/
theorem Derives.parensMatch {d : Dialect} (names : ∀ ts x, d.target ts x → Enclosed ts x)
    {l : Stratum} {ts : List Token} {e : Expr} (h : Derives d l (ts.map Token.terminal) e) :
    Token.ParensMatch ts := by
  have passed := h.nested nested_parensMatch names 0 []
  have kinds : (ts.map Token.terminal).map Terminal.kind = ts.map Token.kind := by
    rw [List.map_map]
    exact List.map_congr_left fun t _ => t.kind_terminal
  rwa [List.append_nil, kinds] at passed

/-! ## Parentheses that are left out -/

namespace Token

variable {opens run closes rest : List Token}

theorem parensMatch_opens (all : ∀ t ∈ opens, t.kind = .openParen) (n : Nat) :
    parensMatch n (opens.map Token.kind ++ rest.map Token.kind) =
      parensMatch (n + opens.length) (rest.map Token.kind) := by
  induction opens generalizing n with
  | nil => rfl
  | cons t opens ih =>
    obtain ⟨first, others⟩ := List.forall_mem_cons.1 all
    rw [List.map_cons, List.cons_append, first, parensMatch_openParen, ih others,
      List.length_cons, Nat.add_assoc, Nat.add_comm 1]

/-- Parentheses that are closed in what follows them are missed there. -/
theorem eq_nil_of_parensMatch_front (all : ∀ t ∈ opens, t.kind = .openParen)
    (whole : ParensMatch (opens ++ run)) (part : ParensMatch (run ++ rest)) : opens = [] := by
  rw [ParensMatch, List.map_append, parensMatch_opens all] at whole
  rw [ParensMatch, List.map_append] at part
  by_contra some
  rw [parensMatch_of_fewer (List.length_pos_iff.2 some) whole] at part
  cases part

/-- Parentheses that close others in front of them are missed there. -/
theorem eq_nil_of_parensMatch_back (all : ∀ t ∈ closes, t.kind = .closeParen)
    (whole : ParensMatch (run ++ closes)) (part : ParensMatch run) : closes = [] := by
  rw [ParensMatch, List.map_append, parensMatch_append part] at whole
  cases closes with
  | nil => rfl
  | cons t closes =>
    rw [List.map_cons, all t List.mem_cons_self] at whole
    cases whole

end Token

end MiniLang
