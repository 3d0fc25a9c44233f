import MiniLang.Proofs.Syntax.Dialects

/-!
# Integers that are spoilt

An integer of a program may turn out to be out of range, so that an unknown token stands in its
place (`Terminal.spoil`). Integers are counted from the left, in tokens and in trees alike
(`DerivesProgram.integers`). The statement that holds the integer is spoilt then, and an error
placeholder stands for it (`Stmt.spoilAll`). What stands behind an `else` is no statement of its
own in this respect, it belongs to the statement in front of the `else`.

With a placeholder for every such statement, the grammar derives the spoilt tokens
(`DerivesProgram.spoilt`), unless the integer stands in a condition that an `else` follows
(`Stmt.beforeElse`): then it is not clear from the tokens up to there that the `else` belongs to
what is spoilt.
-/

set_option autoImplicit false

namespace MiniLang

/-! ## Integers among terminals -/

namespace Terminal

def isInteger : Terminal → Bool
  | integer _ => true
  | _ => false

/-- How many integers are among the terminals. -/
def integers (ts : List Terminal) : Nat := ts.countP isInteger

/-- The terminals with an unknown one in place of the integer that has `k` others before it. -/
def spoil : Nat → List Terminal → List Terminal
  | _, [] => []
  | 0, integer _ :: ts => fixed .unknown :: ts
  | k + 1, integer text :: ts => integer text :: spoil k ts
  | k, identifier x :: ts => identifier x :: spoil k ts
  | k, fixed kind :: ts => fixed kind :: spoil k ts

/-- What stands behind the integer that has `k` others before it. -/
def behind : Nat → List Terminal → List Terminal
  | _, [] => []
  | 0, integer _ :: ts => ts
  | k + 1, integer _ :: ts => behind k ts
  | k, identifier _ :: ts => behind k ts
  | k, fixed _ :: ts => behind k ts

variable {k : Nat} {ts us : List Terminal}

@[simp] theorem integers_nil : integers [] = 0 := rfl

@[simp] theorem integers_integer (text : String) :
    integers (integer text :: ts) = integers ts + 1 := List.countP_cons_of_pos rfl

@[simp] theorem integers_identifier (x : String) :
    integers (identifier x :: ts) = integers ts := rfl

@[simp] theorem integers_fixed (kind : TokenKind) :
    integers (fixed kind :: ts) = integers ts := rfl

@[simp] theorem integers_append : integers (ts ++ us) = integers ts + integers us :=
  List.countP_append

@[simp] theorem integers_inParens : integers (inParens ts) = integers ts := by simp [inParens]

@[simp] theorem spoil_identifier (k : Nat) (x : String) :
    spoil k (identifier x :: ts) = identifier x :: spoil k ts := by cases k <;> rfl

@[simp] theorem spoil_fixed (k : Nat) (kind : TokenKind) :
    spoil k (fixed kind :: ts) = fixed kind :: spoil k ts := by cases k <;> rfl

@[simp] theorem behind_identifier (k : Nat) (x : String) :
    behind k (identifier x :: ts) = behind k ts := by cases k <;> rfl

@[simp] theorem behind_fixed (k : Nat) (kind : TokenKind) :
    behind k (fixed kind :: ts) = behind k ts := by cases k <;> rfl

/-- Integers on the left are counted first. -/
theorem spoil_append_left (us : List Terminal) (less : k < integers ts) :
    spoil k (ts ++ us) = spoil k ts ++ us ∧ behind k (ts ++ us) = behind k ts ++ us := by
  induction ts generalizing k with
  | nil => exact absurd less (Nat.not_lt_zero _)
  | cons t ts ih =>
    cases t with
    | identifier x =>
      obtain ⟨spoilt, rest⟩ := ih less
      simp [spoilt, rest]
    | fixed kind =>
      obtain ⟨spoilt, rest⟩ := ih less
      simp [spoilt, rest]
    | integer text =>
      cases k with
      | zero => exact ⟨rfl, rfl⟩
      | succ k =>
        rw [integers_integer] at less
        obtain ⟨spoilt, rest⟩ := ih (Nat.lt_of_succ_lt_succ less)
        simp [spoil, behind, spoilt, rest]

/-- Integers on the right have all those on the left before them. -/
theorem spoil_append_right (us : List Terminal) (le : integers ts ≤ k) :
    spoil k (ts ++ us) = ts ++ spoil (k - integers ts) us ∧
      behind k (ts ++ us) = behind (k - integers ts) us := by
  induction ts generalizing k with
  | nil => exact ⟨rfl, rfl⟩
  | cons t ts ih =>
    cases t with
    | identifier x =>
      obtain ⟨spoilt, rest⟩ := ih le
      simp [spoilt, rest]
    | fixed kind =>
      obtain ⟨spoilt, rest⟩ := ih le
      simp [spoilt, rest]
    | integer text =>
      rw [integers_integer] at le
      obtain ⟨k, rfl⟩ := Nat.exists_eq_succ_of_ne_zero (Nat.ne_zero_of_lt le)
      obtain ⟨spoilt, rest⟩ := ih (Nat.le_of_succ_le_succ le)
      simp [spoil, behind, spoilt, rest]

theorem spoil_inParens (less : k < integers ts) :
    spoil k (inParens ts) = inParens (spoil k ts) ∧
      behind k (inParens ts) = behind k ts ++ [fixed .closeParen] := by
  obtain ⟨spoilt, rest⟩ := spoil_append_left [fixed .closeParen] less
  simp [inParens, spoilt, rest]

/-- The first terminal stays, unless it is spoilt itself. -/
theorem spoil_cons (k : Nat) (t : Terminal) (ts : List Terminal) :
    ∃ t' ts', spoil k (t :: ts) = t' :: ts' ∧ (t'.kind = t.kind ∨ t'.kind = .unknown) := by
  cases t with
  | identifier x => exact ⟨_, _, spoil_identifier k x, .inl rfl⟩
  | fixed kind => exact ⟨_, _, spoil_fixed k kind, .inl rfl⟩
  | integer text =>
    cases k with
    | zero => exact ⟨_, _, rfl, .inr rfl⟩
    | succ k => exact ⟨_, _, rfl, .inl rfl⟩

@[simp] theorem length_spoil (k : Nat) (ts : List Terminal) : (spoil k ts).length = ts.length := by
  induction ts generalizing k with
  | nil => cases k <;> rfl
  | cons t ts ih => cases t <;> cases k <;> simp [spoil, ih]

theorem behind_suffix (k : Nat) (ts : List Terminal) : behind k ts <:+ ts := by
  induction ts generalizing k with
  | nil => cases k <;> exact List.suffix_refl _
  | cons t ts ih =>
    have shorter : ∀ k, behind k ts <:+ t :: ts := fun k => (ih k).trans (List.suffix_cons t ts)
    cases t with
    | identifier x => simpa using shorter k
    | fixed kind => simpa using shorter k
    | integer text =>
      cases k with
      | zero => exact List.suffix_cons _ ts
      | succ k => exact shorter k

end Terminal

open Terminal (spoil)

@[simp] theorem integers_typeBehind (sign : TokenKind) (declared : Option WrittenType) :
    Terminal.integers (typeBehind sign declared) = 0 := by cases declared <;> rfl

@[simp] theorem integers_paramTerminals :
    ∀ ps : List Param, Terminal.integers (paramTerminals ps) = 0
  | [] => rfl
  | [_] => rfl
  | _ :: y :: ps => integers_paramTerminals (y :: ps)

@[simp] theorem FunctionHeader.integers_terminals (f : FunctionHeader) :
    Terminal.integers f.terminals = 0 := by simp [FunctionHeader.terminals]

/-! ## Integers in trees -/

namespace Expr

mutual

/-- How many integers are written out in an expression. -/
def integers : Expr → Nat
  | literal _ _ (.int _) => 1
  | literal _ _ (.bool _) => 0
  | var _ _ _ => 0
  | binary _ _ _ left right => integers left + integers right
  | unary _ _ _ operand => integers operand
  | call _ _ _ _ arguments => integersAll arguments
  | assignment _ _ _ _ value => integers value

def integersAll : List Expr → Nat
  | [] => 0
  | e :: es => integers e + integersAll es

end

end Expr

namespace Stmt

mutual

/-- How many integers are written out in a statement. -/
def integers : Stmt → Nat
  | letVar _ _ _ _ _ value => value.integers
  | ifThen _ test yes => test.integers + integersIn yes
  | ifThenElse _ test yes no => test.integers + integersIn yes + integers no
  | whileLoop _ test body => test.integers + integersIn body
  | block b => integersIn b
  | expression _ value => value.integers
  | function _ _ body => integersIn body
  | ret _ none => 0
  | ret _ (some value) => value.integers
  | error _ => 0

def integersIn : Block → Nat
  | .mk _ _ body => integersAll body

def integersAll : List Stmt → Nat
  | [] => 0
  | s :: ss => integers s + integersAll ss

end

/-- Whether a statement holds its integer `k` itself, not a statement in one of its blocks. -/
def holds : Nat → Stmt → Bool
  | k, letVar _ _ _ _ _ value => k < value.integers
  | k, ifThen _ test _ => k < test.integers
  | k, ifThenElse _ test yes no =>
    if k < test.integers + integersIn yes then k < test.integers
    else holds (k - (test.integers + integersIn yes)) no
  | k, whileLoop _ test _ => k < test.integers
  | k, expression _ value => k < value.integers
  | k, ret _ (some value) => k < value.integers
  | _, _ => false

mutual

/-- Whether integer `k` of a statement stands in a condition that an `else` follows. -/
def beforeElse : Nat → Stmt → Bool
  | k, ifThen _ test yes => test.integers ≤ k && beforeElseIn (k - test.integers) yes
  | k, ifThenElse _ test yes no =>
    if k < test.integers then true
    else if k < test.integers + integersIn yes then beforeElseIn (k - test.integers) yes
    else beforeElse (k - (test.integers + integersIn yes)) no
  | k, whileLoop _ test body => test.integers ≤ k && beforeElseIn (k - test.integers) body
  | k, block b => beforeElseIn k b
  | k, function _ _ body => beforeElseIn k body
  | _, _ => false

def beforeElseIn : Nat → Block → Bool
  | k, .mk _ _ body => beforeElseAll k body

def beforeElseAll : Nat → List Stmt → Bool
  | _, [] => false
  | k, s :: ss => if k < integers s then beforeElse k s else beforeElseAll (k - integers s) ss

end

mutual

/-- A statement with integer `k` spoilt, which stands in one of its blocks. -/
def spoilInside : Nat → Stmt → Stmt
  | k, ifThen span test yes => ifThen span test (spoilBlock (k - test.integers) yes)
  | k, ifThenElse span test yes no =>
    if k < test.integers + integersIn yes then
      ifThenElse span test (spoilBlock (k - test.integers) yes) no
    else
      ifThenElse span test yes (spoilInside (k - (test.integers + integersIn yes)) no)
  | k, whileLoop span test body => whileLoop span test (spoilBlock (k - test.integers) body)
  | k, block b => block (spoilBlock k b)
  | k, function span header body => function span header (spoilBlock k body)
  | _, s => s

def spoilBlock : Nat → Block → Block
  | k, .mk id span body => .mk id span (spoilAll k body)

/-- Statements with integer `k` spoilt: an error placeholder stands for the statement, among these
or in one of their blocks, that holds it. -/
def spoilAll : Nat → List Stmt → List Stmt
  | _, [] => []
  | k, s :: ss =>
    if k < integers s then (if holds k s then error s.span else spoilInside k s) :: ss
    else s :: spoilAll (k - integers s) ss

end

/-- A statement with integer `k` spoilt, or the error placeholder that stands for it. -/
def spoil (k : Nat) (s : Stmt) : Stmt := if holds k s then error s.span else spoilInside k s

end Stmt

/-! ## Integers of derivations -/

mutual

theorem Derives.integers {l : Stratum} {ts : List Terminal} {e : Expr}
    (h : Derives .standard l ts e) : Terminal.integers ts = e.integers := by
  match h with
  | .assignment target value =>
    obtain rfl := target
    simp [Expr.integers, value.integers]
  | .tighter h => exact h.integers
  | .binary _ left right => simp [Expr.integers, left.integers, right.integers]
  | .unary _ operand => simp [Expr.integers, operand.integers]
  | .integer _ | .yes | .no | .name => rfl
  | .call arguments => simp [Expr.integers, arguments.integers]
  | .group inside => simp [inside.integers]

theorem DerivesArguments.integers {ts : List Terminal} {es : List Expr}
    (h : DerivesArguments .standard ts es) : Terminal.integers ts = Expr.integersAll es := by
  match h with
  | .none => rfl
  | .some separated => exact separated.integers

theorem DerivesSeparated.integers {ts : List Terminal} {es : List Expr}
    (h : DerivesSeparated .standard ts es) : Terminal.integers ts = Expr.integersAll es := by
  match h with
  | .last only => simp [Expr.integersAll, only.integers]
  | .cons first rest => simp [Expr.integersAll, first.integers, rest.integers]

end

mutual

theorem DerivesStmt.integers {ts : List Terminal} {s : Stmt} (h : DerivesStmt .standard ts s) :
    Terminal.integers ts = s.integers := by
  match h with
  | .letVar value => simp [Stmt.integers, value.integers]
  | .choice choice => exact choice.integers
  | .whileLoop test body => simp [Stmt.integers, test.integers, body.integers]
  | .block block => exact block.integers
  | .leave => rfl
  | .giveBack value => simp [Stmt.integers, value.integers]
  | .expression value => simp [Stmt.integers, value.integers]
  | .error placeholder => exact placeholder.elim

theorem DerivesChoice.integers {ts : List Terminal} {s : Stmt}
    (h : DerivesChoice .standard ts s) : Terminal.integers ts = s.integers := by
  match h with
  | .ifThen test yes => simp [Stmt.integers, test.integers, yes.integers]
  | .ifThenElse test yes no =>
    simp [Stmt.integers, test.integers, yes.integers, no.integers, Nat.add_assoc]
  | .elseIf test yes no =>
    simp [Stmt.integers, test.integers, yes.integers, no.integers, Nat.add_assoc]

theorem DerivesBlock.integers {ts : List Terminal} {b : Block}
    (h : DerivesBlock .standard ts b) : Terminal.integers ts = Stmt.integersIn b := by
  match h with
  | .mk body => simp [Stmt.integersIn, body.integers]

theorem DerivesBody.integers {ts : List Terminal} {ss : List Stmt}
    (h : DerivesBody .standard ts ss) : Terminal.integers ts = Stmt.integersAll ss := by
  match h with
  | .nil => rfl
  | .cons first rest => simp [Stmt.integersAll, first.integers, rest.integers]

end

theorem DerivesTop.integers {ts : List Terminal} {s : Stmt} (h : DerivesTop .standard ts s) :
    Terminal.integers ts = s.integers := by
  cases h with
  | inner stmt => exact stmt.integers
  | function body => simp [Stmt.integers, body.integers]

theorem DerivesProgram.integers {ts : List Terminal} {ss : List Stmt}
    (h : DerivesProgram .standard ts ss) : Terminal.integers ts = Stmt.integersAll ss := by
  induction h with
  | nil => rfl
  | cons first _ ih => simp [Stmt.integersAll, first.integers, ih]

/-! ## Derivations of what is spoilt -/

/-- What a statement is spoilt to that holds an integer itself, unless an `else` follows it. -/
def SpoiltStmt (us : List Terminal) : Prop :=
  ∃ k ts s, DerivesStmt .standard ts s ∧ k < s.integers ∧ s.holds k = true ∧
    s.beforeElse k = false ∧ us = spoil k ts

/-- The language with placeholders for statements that are spoilt. -/
def Dialect.spoilt : Dialect := ⟨fun ts x => ts = [.identifier x], SpoiltStmt⟩

theorem Dialect.standard_within_spoilt : Dialect.standard.Within .spoilt :=
  ⟨fun _ _ => id, fun _ => False.elim⟩

theorem Stmt.spoil_of_holds {k : Nat} {s : Stmt} (h : s.holds k = true) :
    s.spoil k = .error s.span := if_pos h

theorem Stmt.spoil_of_not_holds {k : Nat} {s : Stmt} (h : s.holds k = false) :
    s.spoil k = s.spoilInside k := if_neg (by simp [h])

/-- Of some statements either the first one is spoilt, or one of the others. -/
theorem Stmt.spoilAll_cons {k : Nat} {ts : List Terminal} {s : Stmt} {ss : List Stmt}
    (h : Terminal.integers ts = s.integers) (us : List Terminal)
    (less : k < integersAll (s :: ss)) (noElse : beforeElseAll k (s :: ss) = false) :
    (k < s.integers ∧ s.beforeElse k = false ∧
        Terminal.spoil k (ts ++ us) = Terminal.spoil k ts ++ us ∧
        spoilAll k (s :: ss) = s.spoil k :: ss) ∨
      ∃ n, n < integersAll ss ∧ beforeElseAll n ss = false ∧
        Terminal.spoil k (ts ++ us) = ts ++ Terminal.spoil n us ∧
        spoilAll k (s :: ss) = s :: spoilAll n ss := by
  rw [beforeElseAll] at noElse
  by_cases here : k < s.integers
  · rw [if_pos here] at noElse
    exact .inl ⟨here, noElse, (Terminal.spoil_append_left us (h ▸ here)).1, if_pos here⟩
  · have le : Terminal.integers ts ≤ k := h ▸ Nat.not_lt.1 here
    rw [if_neg here] at noElse
    rw [integersAll] at less
    refine .inr ⟨k - s.integers, by omega, noElse, ?_, if_neg here⟩
    rw [(Terminal.spoil_append_right us le).1, h]

/-- In a condition in parentheses. -/
theorem Terminal.spoil_test {k : Nat} {ts us : List Terminal} {e : Expr} {kind : TokenKind}
    (h : Derives .standard .assignment ts e) (less : k < e.integers) :
    spoil k (.fixed kind :: (inParens ts ++ us)) =
      .fixed kind :: (inParens (spoil k ts) ++ us) := by
  rw [← h.integers] at less
  rw [spoil_fixed, (spoil_append_left _ (integers_inParens.symm ▸ less)).1, (spoil_inParens less).1]

/-- Behind a condition in parentheses. -/
theorem Terminal.spoil_behind_test {k : Nat} {ts us : List Terminal} {e : Expr} {kind : TokenKind}
    (h : Derives .standard .assignment ts e) (le : e.integers ≤ k) :
    spoil k (.fixed kind :: (inParens ts ++ us)) =
      .fixed kind :: (inParens ts ++ spoil (k - e.integers) us) := by
  rw [← h.integers, ← integers_inParens] at le ⊢
  rw [spoil_fixed, (spoil_append_right _ le).1]

/-- Behind the block in front of an `else`. -/
theorem Terminal.spoil_behind_else {k n : Nat} {us vs : List Terminal} {b : Block}
    (h : DerivesBlock .standard us b) (le : n + Stmt.integersIn b ≤ k) :
    spoil (k - n) (us ++ .fixed .kwElse :: vs) =
      us ++ .fixed .kwElse :: spoil (k - (n + Stmt.integersIn b)) vs := by
  rw [← h.integers] at le ⊢
  rw [(spoil_append_right _ (by omega)).1, spoil_fixed, Nat.sub_sub]

theorem Stmt.beforeElse_ifThenElse {k : Nat} {span : Span} {e : Expr} {b : Block} {s : Stmt}
    (h : (ifThenElse span e b s).beforeElse k = false) :
    e.integers ≤ k ∧
      (k < e.integers + integersIn b → beforeElseIn (k - e.integers) b = false) ∧
      (¬k < e.integers + integersIn b →
        s.beforeElse (k - (e.integers + integersIn b)) = false) := by
  rw [beforeElse] at h
  split at h
  next => cases h
  next ge =>
    refine ⟨Nat.not_lt.1 ge, fun here => ?_, fun there => ?_⟩
    · rwa [if_pos here] at h
    · rwa [if_neg there] at h

theorem Stmt.holds_ifThenElse {k : Nat} {span : Span} {e : Expr} {b : Block} {s : Stmt}
    (h : (ifThenElse span e b s).holds k = true) (le : e.integers ≤ k) :
    e.integers + integersIn b ≤ k ∧ s.holds (k - (e.integers + integersIn b)) = true := by
  rw [holds] at h
  split at h
  next => exact absurd (of_decide_eq_true h) (Nat.not_lt.2 le)
  next ge => exact ⟨Nat.not_lt.1 ge, h⟩

open Dialect (standard_within_spoilt)

mutual

/-- A statement is derived from what it is spoilt to, or a placeholder for it is. -/
theorem DerivesStmt.spoilt {ts : List Terminal} {s : Stmt} (h : DerivesStmt .standard ts s)
    (k : Nat) (less : k < s.integers) (noElse : s.beforeElse k = false) :
    DerivesStmt .spoilt (spoil k ts) (s.spoil k) := by
  cases holds : s.holds k with
  | true =>
    rw [Stmt.spoil_of_holds holds]
    exact .error ⟨k, ts, s, h, less, holds, noElse, rfl⟩
  | false =>
    rw [Stmt.spoil_of_not_holds holds]
    match h with
    | .letVar _ | .giveBack _ | .expression _ =>
      exact absurd less (of_decide_eq_false holds)
    | .leave => exact absurd less (Nat.not_lt_zero _)
    | .error placeholder => exact placeholder.elim
    | .choice choice => exact .choice (choice.spoilt k less noElse holds)
    | .block block => exact .block (block.spoilt k less noElse)
    | @DerivesStmt.whileLoop _ ts us e b span test body =>
      have le : e.integers ≤ k := Nat.not_lt.1 (of_decide_eq_false holds)
      rw [Stmt.integers] at less
      simp only [Stmt.beforeElse, le, decide_true, Bool.true_and] at noElse
      rw [Terminal.spoil_behind_test test le]
      exact .whileLoop (test.mono standard_within_spoilt.target)
        (body.spoilt _ (by omega) noElse)

/-- A statement with a condition that does not hold the integer itself. -/
theorem DerivesChoice.spoilt {ts : List Terminal} {s : Stmt} (h : DerivesChoice .standard ts s)
    (k : Nat) (less : k < s.integers) (noElse : s.beforeElse k = false)
    (holds : s.holds k = false) : DerivesChoice .spoilt (spoil k ts) (s.spoilInside k) := by
  match h with
  | @DerivesChoice.ifThen _ ts us e b span test yes =>
    have le : e.integers ≤ k := Nat.not_lt.1 (of_decide_eq_false holds)
    rw [Stmt.integers] at less
    simp only [Stmt.beforeElse, le, decide_true, Bool.true_and] at noElse
    rw [Terminal.spoil_behind_test test le]
    exact .ifThen (test.mono standard_within_spoilt.target) (yes.spoilt _ (by omega) noElse)
  | @DerivesChoice.ifThenElse _ ts us vs e b b' span test yes no =>
    obtain ⟨le, inside⟩ := Stmt.beforeElse_ifThenElse noElse
    rw [Terminal.spoil_behind_test test le]
    by_cases here : k < e.integers + Stmt.integersIn b
    · have less' : k - e.integers < Stmt.integersIn b := by omega
      rw [Stmt.spoilInside, if_pos here, (Terminal.spoil_append_left _ (yes.integers ▸ less')).1]
      exact .ifThenElse (test.mono standard_within_spoilt.target)
        (yes.spoilt _ less' (inside.1 here)) (no.mono standard_within_spoilt)
    · rw [Stmt.spoilInside, if_neg here,
        Terminal.spoil_behind_else yes (Nat.not_lt.1 here)]
      rw [Stmt.integers, Stmt.integers] at less
      exact .ifThenElse (test.mono standard_within_spoilt.target) (yes.mono standard_within_spoilt)
        (no.spoilt _ (by omega) (inside.2 here))
  | @DerivesChoice.elseIf _ ts us vs e b s span test yes no =>
    obtain ⟨le, inside⟩ := Stmt.beforeElse_ifThenElse noElse
    rw [Terminal.spoil_behind_test test le]
    by_cases here : k < e.integers + Stmt.integersIn b
    · have less' : k - e.integers < Stmt.integersIn b := by omega
      rw [Stmt.spoilInside, if_pos here, (Terminal.spoil_append_left _ (yes.integers ▸ less')).1]
      exact .elseIf (test.mono standard_within_spoilt.target)
        (yes.spoilt _ less' (inside.1 here)) (no.mono standard_within_spoilt)
    · rw [Stmt.spoilInside, if_neg here,
        Terminal.spoil_behind_else yes (Nat.not_lt.1 here)]
      rw [Stmt.integers] at less
      rw [Stmt.holds, if_neg here] at holds
      exact .elseIf (test.mono standard_within_spoilt.target) (yes.mono standard_within_spoilt)
        (no.spoilt _ (by omega) (inside.2 here) holds)

theorem DerivesBlock.spoilt {ts : List Terminal} {b : Block} (h : DerivesBlock .standard ts b)
    (k : Nat) (less : k < Stmt.integersIn b) (noElse : Stmt.beforeElseIn k b = false) :
    DerivesBlock .spoilt (spoil k ts) (Stmt.spoilBlock k b) := by
  match h with
  | .mk body =>
    rw [Terminal.spoil_fixed, (Terminal.spoil_append_left _ (body.integers ▸ less)).1]
    exact .mk (body.spoilt k less noElse)

theorem DerivesBody.spoilt {ts : List Terminal} {ss : List Stmt} (h : DerivesBody .standard ts ss)
    (k : Nat) (less : k < Stmt.integersAll ss) (noElse : Stmt.beforeElseAll k ss = false) :
    DerivesBody .spoilt (spoil k ts) (Stmt.spoilAll k ss) := by
  match h with
  | .nil => exact absurd less (Nat.not_lt_zero _)
  | @DerivesBody.cons _ ts us s ss first rest =>
    rcases Stmt.spoilAll_cons first.integers us less noElse with
      ⟨here, noElse, spoilt, tree⟩ | ⟨n, there, noElse, spoilt, tree⟩
    · rw [spoilt, tree]
      exact .cons (first.spoilt k here noElse) (rest.mono standard_within_spoilt)
    · rw [spoilt, tree]
      exact .cons (first.mono standard_within_spoilt) (rest.spoilt n there noElse)

end

theorem DerivesTop.spoilt {ts : List Terminal} {s : Stmt} (h : DerivesTop .standard ts s) (k : Nat)
    (less : k < s.integers) (noElse : s.beforeElse k = false) :
    DerivesTop .spoilt (spoil k ts) (s.spoil k) := by
  cases h with
  | inner stmt => exact .inner (stmt.spoilt k less noElse)
  | @function ts header body span block =>
    have none : Terminal.integers header.terminals ≤ k := by simp
    rw [Stmt.spoil_of_not_holds rfl, (Terminal.spoil_append_right _ none).1,
      header.integers_terminals, Nat.sub_zero]
    exact .function (block.spoilt k less noElse)

/-- A spoilt program is derived with error placeholders. -/
theorem DerivesProgram.spoilt {ts : List Terminal} {ss : List Stmt}
    (h : DerivesProgram .standard ts ss) (k : Nat) (less : k < Stmt.integersAll ss)
    (noElse : Stmt.beforeElseAll k ss = false) :
    DerivesProgram .spoilt (spoil k ts) (Stmt.spoilAll k ss) := by
  induction h generalizing k with
  | nil => exact absurd less (Nat.not_lt_zero _)
  | @cons ts us s ss first rest ih =>
    rcases Stmt.spoilAll_cons first.integers us less noElse with
      ⟨here, noElse, spoilt, tree⟩ | ⟨n, there, noElse, spoilt, tree⟩
    · rw [spoilt, tree]
      exact .cons (first.spoilt k here noElse) (rest.mono standard_within_spoilt)
    · rw [spoilt, tree]
      exact .cons (first.mono standard_within_spoilt) (ih n there noElse)

end MiniLang
