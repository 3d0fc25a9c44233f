import MiniLang.Proofs.Ir.WellFormed
import MiniLang.Proofs.Lowering.Emission

/-!
# Temporaries of generated code

Generated code writes its temporaries in the order of their numbers, jumps to its own labels only,
and reads no temporary that may not be there (`lowerExpr_orderly`, `lowerStmt_orderly`). For the
last of these it has to be said which temporaries are there at a label. At all labels of a construct
these are the ones that were there before the construct, so that one set for each label number is
enough. The sets are chosen from the inside to the outside: a piece of code fixes those for the
numbers that were handed out for it, and leaves the others open (`Assignable`).
-/

set_option autoImplicit false

namespace MiniLang.Lowering

open Ir

/-- What is there at a label, if `K` says what is there at the labels with a given number. -/
def known (K : Nat → Set Temp) (name : String) : Set Temp :=
  {t | ∀ text n, name = numbered text n → t ∈ K n}

theorem known_numbered (K : Nat → Set Temp) (text : String) (n : Nat) :
    known K (numbered text n) = K n := by
  ext t
  constructor
  · intro there
    exact there text n rfl
  · rintro there text' n' same
    obtain ⟨-, rfl⟩ := numbered_inj.1 same
    exact there

/-- Sets for the numbers from `lo` up to `hi` can be chosen so that, whatever the others are,
something is true. -/
def Assignable (lo hi : Nat) (P : (Nat → Set Temp) → Prop) : Prop :=
  ∃ K : Nat → Set Temp, ∀ K', (∀ n, lo ≤ n → n < hi → K' n = K n) → P K'

namespace Assignable

variable {lo mid hi : Nat} {P Q : (Nat → Set Temp) → Prop}

theorem of_forall (h : ∀ K, P K) : Assignable lo hi P :=
  ⟨fun _ => ∅, fun K' _ => h K'⟩

theorem imp (h : Assignable lo hi P) (weaker : ∀ K, P K → Q K) : Assignable lo hi Q := by
  obtain ⟨K, holds⟩ := h
  exact ⟨K, fun K' agrees => weaker K' (holds K' agrees)⟩

/-- Choices for numbers that follow each other do not get in each other's way. -/
theorem and (h : Assignable lo mid P) (h' : Assignable mid hi Q) (le : lo ≤ mid)
    (le' : mid ≤ hi) : Assignable lo hi fun K => P K ∧ Q K := by
  obtain ⟨K, holds⟩ := h
  obtain ⟨K₁, holds₁⟩ := h'
  refine ⟨fun n => if n < mid then K n else K₁ n, fun K' agrees => ⟨holds K' ?_, holds₁ K' ?_⟩⟩
  · intro n above below
    exact (agrees n above (by omega)).trans (if_pos below)
  · intro n above below
    exact (agrees n (by omega) below).trans (if_neg (by omega))

/-- The set for one more number can be any. -/
theorem own (h : Assignable (lo + 1) hi P) (le : lo + 1 ≤ hi) (D : Set Temp) :
    Assignable lo hi fun K => K lo = D ∧ P K := by
  have here : Assignable lo (lo + 1) fun K => K lo = D :=
    ⟨fun _ => D, fun K' agrees => agrees lo le_rfl (by omega)⟩
  exact here.and h (by omega) le

end Assignable

/-- The labels that a piece of code may jump to. -/
def targetsOf (code : List Instr) : List String := code.flatMap Instr.targets

/-- The temporaries that a piece of code writes. -/
def destsOf (code : List Instr) : List Temp := code.filterMap Instr.dest?

section

variable (i : Instr) (code before after : List Instr)

@[simp] theorem targetsOf_nil : targetsOf [] = [] := rfl

@[simp] theorem targetsOf_cons : targetsOf (i :: code) = i.targets ++ targetsOf code := rfl

@[simp] theorem targetsOf_append :
    targetsOf (before ++ after) = targetsOf before ++ targetsOf after := by simp [targetsOf]

@[simp] theorem destsOf_nil : destsOf [] = [] := rfl

@[simp] theorem destsOf_cons : destsOf (i :: code) = i.dest?.toList ++ destsOf code := by
  cases h : i.dest? <;> simp [destsOf, h]

@[simp] theorem destsOf_append : destsOf (before ++ after) = destsOf before ++ destsOf after :=
  List.filterMap_append

end

/-- What code generation promises about code besides `Emits`: the temporaries in `there` have
values after it. -/
structure Orderly (f : Fresh) (code : List Instr) (f' : Fresh) (there : Set Temp) : Prop extends
    Emits f code f' where
  dests : List.range f.temp ++ destsOf code = List.range f'.temp
  targets : targetsOf code ⊆ labelsOf code
  flows : ∀ D, Assignable f.label f'.label fun K => Flows (known K) D code (D ∪ there)

namespace Orderly

variable {f f₁ f' : Fresh} {code before after : List Instr} {there there' : Set Temp} {i : Instr}

/-- No code leaves everything as it is. -/
theorem nil (f : Fresh) : Orderly f [] f ∅ where
  toEmits := .of_noLabels le_rfl rfl rfl
  dests := by simp
  targets := List.nil_subset _
  flows D := .of_forall fun K => .done (by simp)

theorem append (h : Orderly f before f₁ there) (h' : Orderly f₁ after f' there') :
    Orderly f (before ++ after) f' (there ∪ there') where
  toEmits := h.toEmits.append h'.toEmits
  dests := by rw [destsOf_append, ← List.append_assoc, h.dests, h'.dests]
  targets := by
    rw [targetsOf_append, labelsOf_append]
    exact List.append_subset.2 ⟨List.subset_append_of_subset_left _ h.targets,
      List.subset_append_of_subset_right _ h'.targets⟩
  flows D := by
    refine ((h.flows D).and (h'.flows (D ∪ there)) h.numbers h'.numbers).imp ?_
    rintro K ⟨first, second⟩
    rw [← Set.union_assoc]
    exact first.append second

/-- Less may be said about what is there. -/
theorem narrow (h : Orderly f code f' there) (less : there' ⊆ there) :
    Orderly f code f' there' where
  toEmits := h.toEmits
  dests := h.dests
  targets := h.targets
  flows D := (h.flows D).imp fun _ flows => flows.narrow (Set.union_subset_union_right D less)

/-- An instruction that writes nothing may follow if it reads what is there. -/
theorem snoc (h : Orderly f code f' there) (reads : ∀ t ∈ i.uses, t ∈ there)
    (goesOn : i.fallsThrough = true) (noLabel : i.label? = none) (noDest : i.dest? = none) :
    Orderly f (code ++ [i]) f' there where
  toEmits := h.toEmits.snoc (by simp [labelsOf, noLabel])
  dests := by simpa [noDest] using h.dests
  targets := by simpa [labelsOf_cons, noLabel, Instr.targets_eq_nil goesOn] using h.targets
  flows D := (h.flows D).imp fun K flows => flows.append
    (.on (fun t mem => .inr (reads t mem)) goesOn noLabel (.done Set.subset_union_left))

/-- An instruction that writes the next temporary may follow if it reads what is there. -/
theorem snoc_dest (h : Orderly f code f' there) (reads : ∀ t ∈ i.uses, t ∈ there)
    (goesOn : i.fallsThrough = true) (noLabel : i.label? = none) (dest : i.dest? = some f'.temp) :
    Orderly f (code ++ [i]) { f' with temp := f'.temp + 1 } {t | t ∈ [f'.temp]} where
  toEmits := (h.toEmits.snoc (by simp [labelsOf, noLabel])).moreTemps 1
  dests := by
    rw [List.range_succ, ← h.dests]
    simp [dest]
  targets := by simpa [labelsOf_cons, noLabel, Instr.targets_eq_nil goesOn] using h.targets
  flows D := (h.flows D).imp fun K flows => flows.append
    (.on (fun t mem => .inr (reads t mem)) goesOn noLabel (.done (by
      rintro t (mem | mem)
      · exact .inl (.inl mem)
      · obtain rfl := List.mem_singleton.1 mem
        exact .inr dest)))

/-- A `return` may follow if it reads what is there; nobody gets behind it. -/
theorem snoc_ret (h : Orderly f code f' there) (value : Option Operand)
    (reads : ∀ t ∈ (Instr.ret value).uses, t ∈ there) (there' : Set Temp) :
    Orderly f (code ++ [.ret value]) f' there' where
  toEmits := h.toEmits.snoc rfl
  dests := by simpa [Instr.dest?] using h.dests
  targets := by simpa [labelsOf_cons, Instr.label?, Instr.targets] using h.targets
  flows D := (h.flows D).imp fun K flows => flows.append
    (.away (fun t mem => .inr (reads t mem)) rfl (fun l mem => by cases mem) (.done subset_rfl))

/-- The code of a function is as orderly as that of its body. -/
theorem closed (h : Orderly f code f' there) : Orderly f (closed code) f' ∅ := by
  rw [closed_eq]
  split
  · exact h.narrow (Set.empty_subset _)
  · exact h.snoc_ret none (fun t mem => by cases mem) ∅

end Orderly

/-! ## Constructs with labels of their own -/

/-- The temporaries in which a value is found. -/
def Value.temps (v : Value) : Set Temp := {t | t ∈ v.operand.temps}

theorem targets_skipping {op : BinaryOp} {number : Nat} {left : Operand} {target : String}
    (h : target ∈ (skipping op number left).targets) :
    target = label (shortName op) "rhs" number ∨ target = label (shortName op) "end" number := by
  unfold skipping at h
  split at h
  · simpa [Instr.targets] using h
  · simpa [Instr.targets, or_comm] using h

theorem dest?_skipping (op : BinaryOp) (number : Nat) (left : Operand) :
    (skipping op number left).dest? = none := by
  unfold skipping
  split <;> rfl

theorem uses_skipping (op : BinaryOp) (number : Nat) (left : Operand) :
    (skipping op number left).uses = left.temps := by
  unfold skipping
  split <;> rfl

theorem fallsThrough_skipping (op : BinaryOp) (number : Nat) (left : Operand) :
    (skipping op number left).fallsThrough = false := by
  unfold skipping
  split <;> rfl

theorem targetsOf_shortCircuit (op : BinaryOp) (number : Nat) (l r : Value) (dest : Temp) :
    targetsOf (shortCircuit op number l r dest).code = targetsOf l.code ++
      (skipping op number l.operand).targets ++ targetsOf r.code ++
        [label (shortName op) "end" number] := by
  rw [shortCircuit_code]
  have none (name : String) : (Instr.label name).targets = [] := rfl
  simp only [targetsOf_append, targetsOf_cons, targetsOf_nil, none, List.append_nil]
  rfl

theorem destsOf_shortCircuit (op : BinaryOp) (number : Nat) (l r : Value) (dest : Temp) :
    destsOf (shortCircuit op number l r dest).code = destsOf (l.code ++ r.code) ++ [dest] := by
  rw [shortCircuit_code]
  simp only [destsOf_append, destsOf_cons, destsOf_nil, dest?_skipping, List.append_assoc]
  rfl

section

variable {number : Nat} {c : Value} {yes no body : List Instr}
  (hc : targetsOf c.code ⊆ labelsOf c.code)

include hc

theorem targets_choice (hy : targetsOf yes ⊆ labelsOf yes) :
    targetsOf (choice number c yes) ⊆ labelsOf (choice number c yes) := by
  simp [choice, labelsOf_cons, Instr.label?, Instr.targets]
  grind

theorem targets_choiceElse (hy : targetsOf yes ⊆ labelsOf yes) (hn : targetsOf no ⊆ labelsOf no) :
    targetsOf (choiceElse number c yes no) ⊆ labelsOf (choiceElse number c yes no) := by
  simp [choiceElse, labelsOf_cons, Instr.label?, Instr.targets]
  grind

theorem targets_loop (hb : targetsOf body ⊆ labelsOf body) :
    targetsOf (loop number c body) ⊆ labelsOf (loop number c body) := by
  simp [loop, labelsOf_cons, Instr.label?, Instr.targets]
  grind

end

section

variable {known : String → Set Temp} {D E : Set Temp} {number : Nat} {l r c : Value}
  {yes no body : List Instr} (own : ∀ construct part, known (label construct part number) = D)

include own

theorem flows_label (construct part : String) :
    Flows known D [.label (label construct part number)] D :=
  .label (own construct part).subset (.done (own construct part).superset)

/-- Control leaves one part of a construct and gets to another by a label of the construct. -/
theorem flows_turn {i : Instr} (construct part : String) (leaves : i.fallsThrough = false)
    (reads : ∀ t ∈ i.uses, t ∈ E)
    (targets : ∀ l ∈ i.targets, ∃ construct part, l = label construct part number)
    (less : D ⊆ E) : Flows known E [i, .label (label construct part number)] D := by
  refine .away reads leaves ?_ (flows_label own construct part)
  intro l mem
  obtain ⟨construct, part, rfl⟩ := targets l mem
  rw [own]
  exact less

theorem flows_jump (less : D ⊆ E) (construct there part : String) :
    Flows known E
      [.jump (label construct there number), .label (label construct part number)] D := by
  refine flows_turn own construct part rfl (by simp [Instr.uses]) ?_ less
  intro l mem
  obtain rfl := List.mem_singleton.1 mem
  exact ⟨_, _, rfl⟩

theorem flows_branch (construct yes no : String) :
    Flows known (D ∪ c.temps) [.branch c.operand (label construct yes number)
      (label construct no number), .label (label construct yes number)] D := by
  refine flows_turn own construct yes rfl (fun t mem => .inr mem) ?_ Set.subset_union_left
  intro l mem
  simp only [Instr.targets, List.mem_cons, List.not_mem_nil, or_false] at mem
  rcases mem with rfl | rfl <;> exact ⟨_, _, rfl⟩

theorem flows_shortCircuit {op : BinaryOp} {dest : Temp} (hl : Flows known D l.code (D ∪ l.temps))
    (hr : Flows known D r.code (D ∪ r.temps)) :
    Flows known D (shortCircuit op number l r dest).code (D ∪ {t | t ∈ [dest]}) := by
  have test : Flows known (D ∪ l.temps) [.store (slot op number) l.operand,
      skipping op number l.operand, .label (label (shortName op) "rhs" number)] D := by
    refine .on (fun t mem => .inr mem) rfl rfl (flows_turn own _ _ ?_ ?_ ?_ ?_)
    · exact fallsThrough_skipping ..
    · rw [uses_skipping]
      exact fun t mem => .inl (.inr mem)
    · intro target mem
      rcases targets_skipping mem with rfl | rfl <;> exact ⟨_, _, rfl⟩
    · exact fun t mem => .inl (.inl mem)
  have join : Flows known (D ∪ r.temps) [.store (slot op number) r.operand,
      .jump (label (shortName op) "end" number), .label (label (shortName op) "end" number)] D :=
    .on (fun t mem => .inr mem) rfl rfl
      (flows_jump own (fun t mem => .inl (.inl mem)) (shortName op) "end" "end")
  have result : Flows known D [.load dest (slot op number)] (D ∪ {t | t ∈ [dest]}) := by
    refine .on (by simp [Instr.uses]) rfl rfl (.done ?_)
    simp [Instr.dest?, eq_comm]
  have whole := ((hl.append test).append hr).append (join.append result)
  simpa [shortCircuit_code] using whole

theorem flows_choice (hc : Flows known D c.code (D ∪ c.temps)) (hy : Flows known D yes D) :
    Flows known D (choice number c yes) D :=
  ((((flows_label own "if" "cond").append hc).append (flows_branch own "if" "then" "end")).append
    hy).append (flows_jump own subset_rfl "if" "end" "end")

theorem flows_choiceElse (hc : Flows known D c.code (D ∪ c.temps)) (hy : Flows known D yes D)
    (hn : Flows known D no D) : Flows known D (choiceElse number c yes no) D :=
  ((((((flows_label own "if" "cond").append hc).append
    (flows_branch own "if" "then" "else")).append hy).append
    (flows_jump own subset_rfl "if" "end" "else")).append hn).append
    (flows_jump own subset_rfl "if" "end" "end")

theorem flows_loop (hc : Flows known D c.code (D ∪ c.temps)) (hb : Flows known D body D) :
    Flows known D (loop number c body) D :=
  ((((flows_label own "while" "cond").append hc).append
    (flows_branch own "while" "body" "end")).append hb).append
    (flows_jump own subset_rfl "while" "cond" "end")

end

section

variable {f fl fr fy : Fresh} {l r c : Value} {yes no body : List Instr}

theorem known_own {K : Nat → Set Temp} {n : Nat} {D : Set Temp} (own : K n = D)
    (construct part : String) : known K (label construct part n) = D :=
  (known_numbered K _ n).trans own

theorem orderly_shortCircuit {op : BinaryOp}
    (hl : Orderly { f with label := f.label + 1 } l.code fl l.temps)
    (hr : Orderly fl r.code fr r.temps) :
    Orderly f (shortCircuit op f.label l r fr.temp).code { fr with temp := fr.temp + 1 }
      {t | t ∈ [fr.temp]} where
  toEmits := (emits_shortCircuit hl.toEmits hr.toEmits).moreTemps 1
  dests := by
    rw [destsOf_shortCircuit, ← List.append_assoc, List.range_succ]
    exact congrArg (· ++ [fr.temp]) (hl.append hr).dests
  targets := by
    intro t mem
    rw [targetsOf_shortCircuit] at mem
    rw [labelsOf_shortCircuit]
    have left := @hl.targets t
    have right := @hr.targets t
    have test := @targets_skipping op f.label l.operand t
    grind
  flows D := by
    refine (((hl.flows D).and (hr.flows D) hl.numbers hr.numbers).own
      (hl.numbers.trans hr.numbers) D).imp ?_
    rintro K ⟨own, left, right⟩
    exact flows_shortCircuit (known_own own) left right

theorem orderly_choice (hc : Orderly { f with label := f.label + 1 } c.code fl c.temps)
    (hy : Orderly fl yes fr ∅) : Orderly f (choice f.label c yes) fr ∅ where
  toEmits := emits_choice hc.toEmits hy.toEmits
  dests := by simpa [choice, Instr.dest?] using (hc.append hy).dests
  targets := targets_choice hc.targets hy.targets
  flows D := by
    refine (((hc.flows D).and (hy.flows D) hc.numbers hy.numbers).own
      (hc.numbers.trans hy.numbers) D).imp ?_
    rintro K ⟨own, condition, yes⟩
    rw [Set.union_empty] at yes ⊢
    exact flows_choice (known_own own) condition yes

theorem orderly_choiceElse (hc : Orderly { f with label := f.label + 1 } c.code fl c.temps)
    (hy : Orderly fl yes fy ∅) (hn : Orderly fy no fr ∅) :
    Orderly f (choiceElse f.label c yes no) fr ∅ where
  toEmits := emits_choiceElse hc.toEmits hy.toEmits hn.toEmits
  dests := by simpa [choiceElse, Instr.dest?] using ((hc.append hy).append hn).dests
  targets := targets_choiceElse hc.targets hy.targets hn.targets
  flows D := by
    have inner := (((hc.flows D).and (hy.flows D) hc.numbers hy.numbers).and (hn.flows D)
      (hc.numbers.trans hy.numbers) hn.numbers)
    refine (inner.own ((hc.numbers.trans hy.numbers).trans hn.numbers) D).imp ?_
    rintro K ⟨own, ⟨condition, yes⟩, no⟩
    rw [Set.union_empty] at yes no ⊢
    exact flows_choiceElse (known_own own) condition yes no

theorem orderly_loop (hc : Orderly { f with label := f.label + 1 } c.code fl c.temps)
    (hb : Orderly fl body fr ∅) : Orderly f (loop f.label c body) fr ∅ where
  toEmits := emits_loop hc.toEmits hb.toEmits
  dests := by simpa [loop, Instr.dest?] using (hc.append hb).dests
  targets := targets_loop hc.targets hb.targets
  flows D := by
    refine (((hc.flows D).and (hb.flows D) hc.numbers hb.numbers).own
      (hc.numbers.trans hb.numbers) D).imp ?_
    rintro K ⟨own, condition, body⟩
    rw [Set.union_empty] at body ⊢
    exact flows_loop (known_own own) condition body

end

/-! ## Expressions and statements -/

mutual

theorem lowerExpr_orderly {folding : Bool} :
    ∀ (t : Typed.Expr) {f f' : Fresh} {v : Value}, lowerExpr folding t f = .ok (v, f') →
      Orderly f v.code f' v.temps
  | .literal info value, f, f', v, h => by
    obtain ⟨-, rfl, rfl⟩ := lowerExpr_literal.1 h
    exact (Orderly.nil f').narrow (fun t mem => by cases mem)
  | .var info name symbol, f, f', v, h => by
    obtain ⟨-, place, -, rfl, rfl⟩ := lowerExpr_var.1 h
    exact (Orderly.nil f).snoc_dest (fun t mem => by cases mem) rfl rfl rfl
  | .binary info op left right, f, f', v, h => by
    cases folded : folded? folding op left right with
    | some value =>
      obtain ⟨-, rfl, rfl⟩ := (lowerExpr_binary_folded folded).1 h
      exact (Orderly.nil f').narrow (fun t mem => by cases mem)
    | none =>
      cases logical : op.isLogical with
      | false =>
        obtain ⟨-, l, fl, r, fr, hl, hr, rfl, rfl⟩ :=
          (lowerExpr_binary_strict folded logical).1 h
        have operands := (lowerExpr_orderly left hl).append (lowerExpr_orderly right hr)
        exact operands.snoc_dest (fun t mem => List.mem_append.1 mem) rfl rfl rfl
      | true =>
        obtain ⟨-, l, fl, r, fr, hl, hr, rfl, rfl⟩ :=
          (lowerExpr_binary_logical folded logical).1 h
        exact orderly_shortCircuit (lowerExpr_orderly left hl) (lowerExpr_orderly right hr)
  | .unary info op operand, f, f', v, h => by
    obtain ⟨-, o, fo, ho, rfl, rfl⟩ := lowerExpr_unary.1 h
    exact (lowerExpr_orderly operand ho).snoc_dest (fun t mem => mem) rfl rfl rfl
  | .call info callee symbol arguments, f, f', v, h => by
    by_cases unit : info.type = .unit
    · obtain ⟨-, vs, hs, rfl⟩ := (lowerExpr_call_unit unit).1 h
      have call := (lowerExprs_orderly arguments hs).snoc
        (i := .call none callee (vs.map Value.operand)) (fun t mem => mem) rfl rfl rfl
      exact call.narrow (fun t mem => by cases mem)
    · obtain ⟨-, -, vs, fs, hs, rfl, rfl⟩ := (lowerExpr_call_value unit).1 h
      exact (lowerExprs_orderly arguments hs).snoc_dest (fun t mem => mem) rfl rfl rfl
  | .assignment info target symbol value, f, f', v, h => by
    obtain ⟨-, o, place, ho, -, rfl⟩ := lowerExpr_assignment.1 h
    exact (lowerExpr_orderly value ho).snoc (fun t mem => mem) rfl rfl rfl

theorem lowerExprs_orderly {folding : Bool} :
    ∀ (ts : List Typed.Expr) {f f' : Fresh} {vs : List Value},
      lowerExprs folding ts f = .ok (vs, f') →
        Orderly f (vs.flatMap Value.code) f'
          {t | t ∈ (vs.map Value.operand).flatMap Operand.temps}
  | [], f, f', vs, h => by
    obtain ⟨rfl, rfl⟩ := lowerExprs_nil.1 h
    exact (Orderly.nil f').narrow (fun t mem => by cases mem)
  | t :: ts, f, f', vs, h => by
    obtain ⟨v, f₁, rest, hv, hrest, rfl⟩ := lowerExprs_cons.1 h
    rw [List.flatMap_cons]
    refine ((lowerExpr_orderly t hv).append (lowerExprs_orderly ts hrest)).narrow ?_
    intro t mem
    exact List.mem_append.1 mem

end

mutual

theorem lowerStmt_orderly {folding : Bool} :
    ∀ (t : Typed.Stmt) {f f' : Fresh} {code : List Instr},
      lowerStmt folding t f = .ok (code, f') → Orderly f code f' ∅
  | .letVar span name symbol type value, f, f', code, h => by
    obtain ⟨-, v, place, hv, -, rfl⟩ := lowerStmt_letVar.1 h
    have store := (lowerExpr_orderly value hv).snoc (i := .store place v.operand)
      (fun t mem => mem) rfl rfl rfl
    exact store.narrow (Set.empty_subset _)
  | .ifThen span condition thenBlock, f, f', code, h => by
    obtain ⟨-, c, fc, yes, hc, hy, rfl⟩ := lowerStmt_ifThen.1 h
    exact orderly_choice (lowerExpr_orderly condition hc) (lowerBlock_orderly thenBlock hy)
  | .ifThenElse span condition thenBlock elseBranch, f, f', code, h => by
    obtain ⟨-, c, fc, yes, fy, no, hc, hy, hn, rfl⟩ := lowerStmt_ifThenElse.1 h
    exact orderly_choiceElse (lowerExpr_orderly condition hc) (lowerBlock_orderly thenBlock hy)
      (lowerStmt_orderly elseBranch hn)
  | .whileLoop span condition body, f, f', code, h => by
    obtain ⟨-, c, fc, round, hc, hb, rfl⟩ := lowerStmt_whileLoop.1 h
    exact orderly_loop (lowerExpr_orderly condition hc) (lowerBlock_orderly body hb)
  | .block b, f, f', code, h => lowerBlock_orderly b (lowerStmt_block.1 h).2
  | .expression span value, f, f', code, h => by
    obtain ⟨-, v, hv, rfl⟩ := lowerStmt_expression.1 h
    exact (lowerExpr_orderly value hv).narrow (Set.empty_subset _)
  | .function span header body, f, f', code, h => by
    obtain ⟨-, rfl, rfl⟩ := lowerStmt_function.1 h
    exact .nil f'
  | .ret span none, f, f', code, h => by
    obtain ⟨-, rfl, rfl⟩ := lowerStmt_ret_none.1 h
    exact (Orderly.nil f').snoc_ret none (fun t mem => by cases mem) ∅
  | .ret span (some value), f, f', code, h => by
    obtain ⟨-, v, hv, rfl⟩ := lowerStmt_ret_some.1 h
    exact (lowerExpr_orderly value hv).snoc_ret (some v.operand) (fun t mem => mem) ∅
  | .error span, f, f', code, h => absurd h lowerStmt_error

theorem lowerBlock_orderly {folding : Bool} :
    ∀ (t : Typed.Block) {f f' : Fresh} {code : List Instr},
      lowerBlock folding t f = .ok (code, f') → Orderly f code f' ∅
  | .mk scope span body, f, f', code, h => by
    rw [lowerBlock_eq] at h
    exact lowerAll_orderly body h

theorem lowerAll_orderly {folding : Bool} :
    ∀ (ts : List Typed.Stmt) {f f' : Fresh} {code : List Instr},
      lowerAll folding ts f = .ok (code, f') → Orderly f code f' ∅
  | [], f, f', code, h => by
    obtain ⟨rfl, rfl⟩ := lowerAll_nil.1 h
    exact .nil f'
  | t :: ts, f, f', code, h => by
    obtain ⟨first, f₁, rest, hfirst, hrest, rfl⟩ := lowerAll_cons.1 h
    exact ((lowerStmt_orderly t hfirst).append (lowerAll_orderly ts hrest)).narrow
      (Set.empty_subset _)

end

end MiniLang.Lowering
