import MiniLang.Proofs.Syntax.Parser.Position

/-!
# Reasoning about braces

Between a brace and the one that matches it a parser may find anything. `Enclosure.Holds` says that
it stands between the two, and `Enclosure.Stays` that an action leaves it there, whether it gives a
value or fails. Taking a token that is no brace does; so does every way to put such actions
together. The skipping that follows a failure counts braces on its own (`synchronize_holds`).
-/

set_option autoImplicit false

namespace MiniLang

namespace Token

/-- How many braces are open behind some tokens when so many are before them, unless one of the
tokens closes a brace that is not open. -/
def depthAfter : Nat → List Token → Option Nat
  | depth, [] => some depth
  | depth, t :: ts =>
    if t.kind = .openCurly then depthAfter (depth + 1) ts
    else if t.kind = .closeCurly then
      match depth with
      | 0 => none
      | depth + 1 => depthAfter depth ts
    else depthAfter depth ts

/-- Every brace among the tokens has the one that matches it among them. -/
def Balanced (ts : List Token) : Prop := depthAfter 0 ts = some 0

/-- No brace. -/
def Plain (t : Token) : Prop := t.kind ≠ .openCurly ∧ t.kind ≠ .closeCurly

variable {t : Token} {ts : List Token} {depth : Nat}

theorem depthAfter_plain (plain : t.Plain) : depthAfter depth (t :: ts) = depthAfter depth ts := by
  rw [depthAfter.eq_def]
  exact (if_neg plain.1).trans (if_neg plain.2)

theorem depthAfter_open (opens : t.kind = .openCurly) :
    depthAfter depth (t :: ts) = depthAfter (depth + 1) ts := by
  rw [depthAfter.eq_def]
  exact if_pos opens

theorem depthAfter_close (closes : t.kind = .closeCurly) :
    depthAfter (depth + 1) (t :: ts) = depthAfter depth ts := by
  rw [depthAfter, if_neg (by rw [closes]; decide), if_pos closes]

theorem depthAfter_close_zero (closes : t.kind = .closeCurly) : depthAfter 0 (t :: ts) = none := by
  rw [depthAfter, if_neg (by rw [closes]; decide), if_pos closes]

/-- If so many braces more are open than `depth` and all get closed, then one of them is the first
after which no more than `depth` are open. -/
theorem exists_close (depth : Nat) (ts : List Token) :
    ∀ above : Nat, depthAfter (above + depth + 1) ts = some 0 →
      ∃ inner close after, ts = inner ++ close :: after ∧ close.kind = .closeCurly ∧
        depthAfter above inner = some 0 ∧ depthAfter depth after = some 0 := by
  induction ts with
  | nil => exact fun above ends => by cases ends
  | cons t ts ih =>
    intro above ends
    by_cases opens : t.kind = .openCurly
    · rw [depthAfter_open opens, Nat.add_right_comm (above + depth),
        Nat.add_right_comm above] at ends
      obtain ⟨inner, close, after, rfl, closes, inside, outside⟩ := ih (above + 1) ends
      exact ⟨t :: inner, close, after, rfl, closes, (depthAfter_open opens).trans inside, outside⟩
    by_cases closes : t.kind = .closeCurly
    · rw [depthAfter_close closes] at ends
      cases above with
      | zero => exact ⟨[], t, ts, rfl, closes, rfl, by rwa [Nat.zero_add] at ends⟩
      | succ above =>
        rw [Nat.add_right_comm above] at ends
        obtain ⟨inner, close, after, rfl, closes', inside, outside⟩ := ih above ends
        exact ⟨t :: inner, close, after, rfl, closes', (depthAfter_close closes).trans inside,
          outside⟩
    · rw [depthAfter_plain ⟨opens, closes⟩] at ends
      obtain ⟨inner, close, after, rfl, closes', inside, outside⟩ := ih above ends
      exact ⟨t :: inner, close, after, rfl, closes',
        (depthAfter_plain ⟨opens, closes⟩).trans inside, outside⟩

/-- A brace among balanced tokens is matched by another one. -/
theorem Balanced.of_open (opens : t.kind = .openCurly) (balanced : Balanced (t :: ts)) :
    ∃ inner close after, ts = inner ++ close :: after ∧ close.kind = .closeCurly ∧
      Balanced inner ∧ Balanced after := by
  refine exists_close 0 ts 0 ?_
  rwa [Balanced, depthAfter_open opens] at balanced

end Token

/-- What is around a parser between two braces that match. -/
structure Enclosure where
  /-- The brace that closes it. -/
  closing : Token
  closes : closing.kind = .closeCurly
  /-- The tokens behind that brace. -/
  after : List Token
  /-- How many blocks are open. -/
  depth : Nat
  /-- How many tokens are pending, at most. -/
  size : Nat

namespace Enclosure

open Token

/-- With so many braces open on the way, a parser has only matching ones before the brace that
closes the enclosure. -/
structure HoldsAt (E : Enclosure) (braces : Nat) (p : Parser) : Prop where
  inside : ∃ inside, p.pending = inside ++ E.closing :: E.after ∧ depthAfter braces inside = some 0
  size : p.pending.length ≤ E.size
  blockDepth : p.blockDepth = E.depth

/-- A parser stands between the braces, and between no others. -/
abbrev Holds (E : Enclosure) (p : Parser) : Prop := E.HoldsAt 0 p

variable {E : Enclosure} {braces : Nat} {p q : Parser}

namespace HoldsAt

theorem atEnd (h : E.HoldsAt braces p) : p.atEnd = false := by
  obtain ⟨inside, whole, -⟩ := h.inside
  cases atEnd : p.atEnd with
  | false => rfl
  | true =>
    rw [Parser.pending_of_atEnd atEnd] at whole
    cases inside <;> cases whole

/-- Only what is pending and how many blocks are open matters. -/
theorem congr (h : E.HoldsAt braces p) (pending : q.pending = p.pending)
    (blockDepth : q.blockDepth = p.blockDepth) : E.HoldsAt braces q :=
  ⟨pending ▸ h.inside, pending ▸ h.size, blockDepth.trans h.blockDepth⟩

theorem blockDepth_advance (p : Parser) : p.advance.blockDepth = p.blockDepth := by
  unfold Parser.advance
  split
  · rfl
  · split <;> rfl

/-- Taking a token, when it is known how many braces are open behind it. -/
theorem advance {braces' : Nat} (h : E.HoldsAt braces p)
    (more : ∀ ts, depthAfter braces (p.current :: ts) = some 0 → depthAfter braces' ts = some 0)
    (inner : p.current.kind = .closeCurly → braces ≠ 0) : E.HoldsAt braces' p.advance := by
  obtain ⟨inside, whole, ends⟩ := h.inside
  have cut := Parser.pending_of_not_atEnd h.atEnd
  have size := h.size
  rw [cut] at whole size
  cases inside with
  | nil =>
    obtain ⟨here, -⟩ := List.cons.inj whole
    cases ends
    exact absurd rfl (inner (here ▸ E.closes))
  | cons t inside =>
    obtain ⟨rfl, left⟩ := List.cons.inj whole
    refine ⟨⟨inside, left, more inside ends⟩, ?_, (blockDepth_advance p).trans h.blockDepth⟩
    exact (Nat.le_succ _).trans size

theorem advance_plain (h : E.HoldsAt braces p) (plain : p.current.Plain) :
    E.HoldsAt braces p.advance :=
  h.advance (fun _ ends => by rwa [depthAfter_plain plain] at ends)
    fun closes => absurd closes plain.2

theorem advance_open (h : E.HoldsAt braces p) (opens : p.current.kind = .openCurly) :
    E.HoldsAt (braces + 1) p.advance :=
  h.advance (fun _ ends => by rwa [depthAfter_open opens] at ends) fun closes => by
    rw [opens] at closes
    cases closes

theorem advance_close (h : E.HoldsAt (braces + 1) p) (closes : p.current.kind = .closeCurly) :
    E.HoldsAt braces p.advance :=
  h.advance (fun _ ends => by rwa [depthAfter_close closes] at ends) fun _ =>
    Nat.succ_ne_zero braces

/-- A closing brace that matches none inside is the one that closes the enclosure. -/
theorem pending_of_close (h : E.Holds p) (closes : p.current.kind = .closeCurly) :
    p.pending = E.closing :: E.after := by
  obtain ⟨inside, whole, ends⟩ := h.inside
  rw [whole]
  rw [Parser.pending_of_not_atEnd h.atEnd] at whole
  cases inside with
  | nil => rfl
  | cons t inside =>
    obtain ⟨rfl, -⟩ := List.cons.inj whole
    rw [depthAfter_close_zero closes] at ends
    cases ends

end HoldsAt

/-! ## Actions -/

variable {α β : Type}

/-- An action leaves a parser between the braces, whether it gives a value or fails. -/
def Stays (E : Enclosure) (action : Parse α) (p : Parser) : Prop :=
  E.Holds p →
    match action p with
    | .ok _ q => E.Holds q
    | .error _ q => E.Holds q

namespace Stays

/-- Only what an action does at the given parser matters. -/
theorem of_eq {action action' : Parse α} (same : action p = action' p) (h : E.Stays action' p) :
    E.Stays action p := by
  intro holds
  rw [same]
  exact h holds

/-- The rule of sequencing. -/
theorem bind {action : Parse α} {rest : α → Parse β} (h : E.Stays action p)
    (h' : ∀ a q, action p = .ok a q → E.Stays (rest a) q) : E.Stays (action >>= rest) p := by
  intro holds
  have first := h holds
  cases result : action p with
  | ok a q =>
    rw [result] at first
    rw [Parse.bind_eq_of_ok result]
    exact h' a q result first
  | error e q =>
    rw [result] at first
    rw [Parse.bind_eq_of_error result]
    exact first

theorem pure {a : α} : E.Stays (pure a) p := id

theorem fail {e : SyntaxError} : E.Stays (throw e : Parse α) p := id

theorem map {action : Parse α} {f : α → β} (h : E.Stays action p) : E.Stays (f <$> action) p := by
  change E.Stays (action >>= fun a => Pure.pure (f a)) p
  exact h.bind fun _ _ _ => .pure

/-- Failing at the current token. -/
theorem unexpectedHere {expected : String} :
    E.Stays (fun p => .error (.unexpected expected p.current) p : Parse α) p := id

/-- The kind of the current token is known. -/
theorem kind {rest : TokenKind → Parse β} (h : E.Stays (rest p.current.kind) p) :
    E.Stays (Parse.currentKind >>= rest) p := h

theorem lastSpan {rest : Span → Parse β} (h : ∀ span, E.Stays (rest span) p) :
    E.Stays (Parse.previousSpan >>= rest) p := h _

theorem openBlocks {rest : Nat → Parse β} (h : ∀ depth, E.Stays (rest depth) p) :
    E.Stays (Parse.blockDepth >>= rest) p := h _

/-- The rule of a choice by a test. -/
theorem ite {c : Prop} [Decidable c] {yes no : Parse α} (h : c → E.Stays yes p)
    (h' : ¬c → E.Stays no p) : E.Stays (if c then yes else no) p := by
  by_cases test : c
  · rw [if_pos test]
    exact h test
  · rw [if_neg test]
    exact h' test

/-- Taking a token that is no brace. -/
theorem advance {rest : Token → Parse β} (plain : p.current.Plain)
    (h : E.Stays (rest p.current) p.advance) : E.Stays (Parse.advance >>= rest) p :=
  fun holds => h (holds.advance_plain plain)

theorem freshId {rest : NodeId → Parse β}
    (h : ∀ id, E.Stays (rest id) { p with nextId := p.nextId + 1 }) :
    E.Stays (Parse.freshId >>= rest) p :=
  fun holds => h _ (holds.congr rfl rfl)

/-- A node is numbered when all below it is read. -/
theorem node {f : NodeId → α} : E.Stays (do return f (← Parse.freshId)) p := .freshId fun _ => .pure

theorem expect {kind : TokenKind} {expected : String} {rest : Token → Parse β}
    (plain : kind ≠ .openCurly ∧ kind ≠ .closeCurly)
    (h : E.Stays (rest p.current) p.advance) : E.Stays (Parse.expect kind expected >>= rest) p := by
  by_cases is : p.current.kind = kind
  · have same : (Parse.expect kind expected >>= rest) p = (Parse.advance >>= rest) p := by
      change EStateM.bind _ rest p = EStateM.bind _ rest p
      simp only [EStateM.bind, Parse.expect, is, ↓reduceIte, Parse.advance]
    exact of_eq same (.advance (by rwa [Plain, is]) h)
  · refine bind (fun holds => ?_) fun _ _ result => ?_
    · rw [Parse.expect, if_neg is]
      exact holds
    · rw [Parse.expect, if_neg is] at result
      cases result

/-- There is no end of the input between the braces. -/
theorem expectClosing {kind : TokenKind} {expected construct : String} {opening : Token}
    {rest : Token → Parse β} (plain : kind ≠ .openCurly ∧ kind ≠ .closeCurly)
    (h : E.Stays (rest p.current) p.advance) :
    E.Stays (Parse.expectClosing kind expected construct opening >>= rest) p := by
  intro holds
  have more : ¬ p.atEnd = true := by simp [holds.atEnd]
  have same : (Parse.expectClosing kind expected construct opening >>= rest) p =
      (Parse.expect kind expected >>= rest) p := by
    change EStateM.bind _ rest p = EStateM.bind _ rest p
    simp only [EStateM.bind, Parse.expectClosing, if_neg more]
  exact of_eq same (.expect plain h) holds

theorem complain {problem : Problem} {span : Span} : E.Stays (Parse.complain problem span) p :=
  fun holds => holds.congr rfl rfl

theorem bounded {action : Nat → Parse α} (h : E.Stays (action (p.remaining + 1)) p) :
    E.Stays (Parse.bounded action) p := h

end Stays

/-! ## Skipping -/

theorem length_pending_le (p : Parser) : p.pending.length ≤ p.remaining := by
  rw [← p.length_ahead]
  exact p.length_ahead_le

/-- Skipping tokens from between braces leads to between the outermost of them. -/
theorem synchronizeFrom_holds :
    ∀ (fuel braces : Nat) {p : Parser}, E.HoldsAt braces p → p.pending.length < fuel →
      E.Holds (p.synchronizeFrom fuel braces)
  | 0, _, _, _, less => absurd less (Nat.not_lt_zero _)
  | fuel + 1, braces, p, holds, less => by
    have shorter : p.advance.pending.length < fuel := by
      rw [Parser.pending_of_not_atEnd holds.atEnd, List.length_cons] at less
      omega
    unfold Parser.synchronizeFrom
    split
    next ends =>
      have more := holds.atEnd
      rw [Parser.atEnd, ends] at more
      cases more
    next semicolon =>
      have next := holds.advance_plain (by rw [Plain, semicolon]; decide)
      split
      next outermost =>
        subst outermost
        exact next
      next => exact synchronizeFrom_holds fuel braces next shorter
    next opens => exact synchronizeFrom_holds fuel (braces + 1) (holds.advance_open opens) shorter
    next closes =>
      split
      · exact holds
      · exact holds.advance_close closes
      next braces =>
        exact synchronizeFrom_holds fuel (braces + 1) (holds.advance_close closes) shorter
    next other other' =>
      exact synchronizeFrom_holds fuel braces (holds.advance_plain ⟨other, other'⟩) shorter

theorem synchronize_holds (holds : E.Holds p) : E.Holds p.synchronize :=
  synchronizeFrom_holds _ 0 holds (Nat.lt_succ_of_le (length_pending_le p))

end Enclosure

end MiniLang
