import MiniLang.Proofs.Syntax.Frames
import MiniLang.Proofs.Syntax.Nodes
import MiniLang.Proofs.Syntax.Validity

/-!
# The text of a node

Every node of a program that is parsed was read from tokens that follow each other in the text
(`Expr.ReadFrom`, `Stmt.ReadFrom`), and its span shows those of them that it reaches over
(`parseSource_spelt`). An expression whose text is read by itself, as an expression
(`expressionOf?`), is given back exactly if the parentheses in that text match.
-/

set_option autoImplicit false

namespace MiniLang

variable {d : Dialect}

/-! ## The tokens of a node -/

/-- Some of the tokens, one behind the other, are read as the expression. -/
def Expr.ReadFrom (d : Dialect) (ts : List Token) (e : Expr) : Prop :=
  ∃ run, run <:+: ts ∧ Sited d .assignment run e

/-- Some of the tokens, one behind the other, are read as the statement. -/
def Stmt.ReadFrom (d : Dialect) (ts : List Token) (s : Stmt) : Prop :=
  ∃ run, run <:+: ts ∧ SitedTop d run s

section Widen

variable {ts us before after : List Token}

theorem Expr.ReadFrom.widen {e : Expr} (h : e.ReadFrom d ts) (part : ts <:+: us) :
    e.ReadFrom d us := by
  obtain ⟨run, inner, sited⟩ := h
  exact ⟨run, inner.trans part, sited⟩

theorem Stmt.ReadFrom.widen {s : Stmt} (h : s.ReadFrom d ts) (part : ts <:+: us) :
    s.ReadFrom d us := by
  obtain ⟨run, inner, sited⟩ := h
  exact ⟨run, inner.trans part, sited⟩

end Widen

mutual

/-- All expressions below an expression are read from some of its tokens. -/
theorem Sited.readFrom_nodes {l : Stratum} {ts : List Token} {e : Expr} (h : Sited d l ts e) :
    ∀ sub ∈ e.nodes, sub.ReadFrom d ts := by
  have self : e.ReadFrom d ts := ⟨ts, List.infix_rfl, h.loosest⟩
  match h with
  | .tighter h => exact h.readFrom_nodes
  | .integer .. | .yes _ | .no _ | .name _ => exact List.forall_mem_singleton.2 self
  | @Sited.group _ opening closing _ _ _ inside _ =>
    exact fun sub mem => (inside.readFrom_nodes sub mem).widen ⟨[opening], [closing], by simp⟩
  | @Sited.call _ f opening closing _ _ _ _ _ arguments _ =>
    exact List.forall_mem_cons.2 ⟨self, fun sub mem =>
      (arguments.readFrom_nodes sub mem).widen ⟨[f, opening], [closing], by simp⟩⟩
  | .unary _ operand =>
    exact List.forall_mem_cons.2 ⟨self, fun sub mem =>
      (operand.readFrom_nodes sub mem).widen (List.suffix_cons ..).isInfix⟩
  | @Sited.binary _ _ _ ts us sign _ _ _ _ left right =>
    refine List.forall_mem_cons.2 ⟨self, List.forall_mem_append.2 ⟨fun sub mem => ?_,
      fun sub mem => ?_⟩⟩
    · exact (left.readFrom_nodes sub mem).widen (List.prefix_append ..).isInfix
    · exact (right.readFrom_nodes sub mem).widen ⟨ts ++ [sign], [], by simp⟩
  | @Sited.assignment _ _ ts us sign _ _ _ _ _ _ _ _ value =>
    exact List.forall_mem_cons.2 ⟨self, fun sub mem =>
      (value.readFrom_nodes sub mem).widen ⟨ts ++ [sign], [], by simp⟩⟩

theorem SitedArguments.readFrom_nodes {ts : List Token} {es : List Expr}
    (h : SitedArguments d ts es) :
    ∀ sub ∈ Expr.nodesAll es, sub.ReadFrom d ts := by
  match h with
  | .none => exact List.forall_mem_nil _
  | .some h => exact h.readFrom_nodes

theorem SitedSeparated.readFrom_nodes {ts : List Token} {es : List Expr}
    (h : SitedSeparated d ts es) :
    ∀ sub ∈ Expr.nodesAll es, sub.ReadFrom d ts := by
  match h with
  | .last h =>
    rw [Expr.nodesAll, Expr.nodesAll, List.append_nil]
    exact h.readFrom_nodes
  | @SitedSeparated.cons _ ts _ comma _ _ first _ rest =>
    refine List.forall_mem_append.2 ⟨fun sub mem => ?_, fun sub mem => ?_⟩
    · exact (first.readFrom_nodes sub mem).widen (List.prefix_append ..).isInfix
    · exact (rest.readFrom_nodes sub mem).widen ⟨ts ++ [comma], [], by simp⟩

end

mutual

theorem SitedStmt.readFrom_preorder {ts : List Token} {s : Stmt} (h : SitedStmt d ts s) :
    ∀ sub ∈ s.preorder, sub.ReadFrom d ts := by
  have self : s.ReadFrom d ts := ⟨ts, List.infix_rfl, .inner h⟩
  match h with
  | .choice h => exact h.readFrom_preorder
  | .letVar .. | .leave .. | .giveBack .. | .expression .. | .error _ =>
    exact List.forall_mem_singleton.2 self
  | @SitedStmt.whileLoop _ start opening closing ts _ _ _ _ _ _ _ body =>
    exact List.forall_mem_cons.2 ⟨self, fun sub mem =>
      (body.readFrom_inBlock sub mem).widen ⟨start :: opening :: (ts ++ [closing]), [], by simp⟩⟩
  | .block h => exact List.forall_mem_cons.2 ⟨self, h.readFrom_inBlock⟩

theorem SitedChoice.readFrom_preorder {ts : List Token} {s : Stmt} (h : SitedChoice d ts s) :
    ∀ sub ∈ s.preorder, sub.ReadFrom d ts := by
  have self : s.ReadFrom d ts := ⟨ts, List.infix_rfl, .inner (.choice h)⟩
  match h with
  | @SitedChoice.ifThen _ start opening closing ts _ _ _ _ _ _ _ yes =>
    exact List.forall_mem_cons.2 ⟨self, fun sub mem =>
      (yes.readFrom_inBlock sub mem).widen ⟨start :: opening :: (ts ++ [closing]), [], by simp⟩⟩
  | @SitedChoice.ifThenElse _ start opening closing other ts us vs _ _ _ _ _ _ _ yes _ no =>
    have whole : Stmt.ReadFrom d vs (.block _) := ⟨vs, List.infix_rfl, .inner (.block no)⟩
    refine List.forall_mem_cons.2 ⟨self, List.forall_mem_append.2 ⟨fun sub mem => ?_,
      fun sub mem => ?_⟩⟩
    · exact (yes.readFrom_inBlock sub mem).widen
        ⟨start :: opening :: (ts ++ [closing]), other :: vs, by simp⟩
    · have inner := List.forall_mem_cons.2 ⟨whole, no.readFrom_inBlock⟩ sub mem
      exact inner.widen ⟨start :: opening :: (ts ++ closing :: us ++ [other]), [], by simp⟩
  | @SitedChoice.elseIf _ start opening closing other ts us vs _ _ _ _ _ _ _ yes _ no =>
    refine List.forall_mem_cons.2 ⟨self, List.forall_mem_append.2 ⟨fun sub mem => ?_,
      fun sub mem => ?_⟩⟩
    · exact (yes.readFrom_inBlock sub mem).widen
        ⟨start :: opening :: (ts ++ [closing]), other :: vs, by simp⟩
    · exact (no.readFrom_preorder sub mem).widen
        ⟨start :: opening :: (ts ++ closing :: us ++ [other]), [], by simp⟩

theorem SitedBlock.readFrom_inBlock {ts : List Token} {b : Block} (h : SitedBlock d ts b) :
    ∀ sub ∈ Stmt.inBlock b, sub.ReadFrom d ts := by
  match h with
  | @SitedBlock.mk _ opening closing _ _ _ _ body _ =>
    exact fun sub mem => (body.readFrom_preorderAll sub mem).widen ⟨[opening], [closing], by simp⟩

theorem SitedBody.readFrom_preorderAll {ts : List Token} {ss : List Stmt} (h : SitedBody d ts ss) :
    ∀ sub ∈ Stmt.preorderAll ss, sub.ReadFrom d ts := by
  match h with
  | .nil => exact List.forall_mem_nil _
  | .cons first rest =>
    refine List.forall_mem_append.2 ⟨fun sub mem => ?_, fun sub mem => ?_⟩
    · exact (first.readFrom_preorder sub mem).widen (List.prefix_append ..).isInfix
    · exact (rest.readFrom_preorderAll sub mem).widen (List.suffix_append ..).isInfix

end

/-- All statements of a program are read from some of its tokens. -/
theorem SitedProgram.readFrom_preorderAll {ts : List Token} {ss : List Stmt}
    (h : SitedProgram d ts ss) : ∀ sub ∈ Stmt.preorderAll ss, sub.ReadFrom d ts := by
  induction h with
  | nil => exact List.forall_mem_nil _
  | @cons ts us s ss first _ ih =>
    refine List.forall_mem_append.2 ⟨fun sub mem => ?_, fun sub mem => ?_⟩
    · refine Stmt.ReadFrom.widen ?_ (List.prefix_append ts us).isInfix
      cases first with
      | inner h => exact h.readFrom_preorder sub mem
      | function isHeader h =>
        rcases List.mem_cons.1 mem with rfl | mem
        · exact ⟨_, List.infix_rfl, .function isHeader h⟩
        · refine (h.readFrom_inBlock sub mem).widen ?_
          exact ((List.suffix_append ..).trans (List.suffix_cons ..)).isInfix
    · exact (ih sub mem).widen (List.suffix_append ..).isInfix

theorem Sited.readFrom {l : Stratum} {ts us : List Token} {e : Expr} (h : Sited d l ts e)
    (part : ts <:+: us) : ∀ x ∈ [e], x.ReadFrom d us :=
  List.forall_mem_singleton.2 ⟨ts, part, h.loosest⟩

/-- The expressions that a statement holds itself are read from some of its tokens. -/
theorem SitedTop.readFrom_ownExprs {ts : List Token} {s : Stmt} (h : SitedTop d ts s) :
    ∀ e ∈ s.ownExprs, e.ReadFrom d ts := by
  cases h with
  | function => exact List.forall_mem_nil _
  | inner h =>
    cases h with
    | @letVar start name sign stop type _ _ _ _ _ _ _ _ value =>
      exact value.readFrom ⟨start :: name :: (type ++ [sign]), [stop], by simp⟩
    | choice h =>
      cases h with
      | @ifThen start opening closing _ us _ _ _ _ test =>
        exact test.readFrom ⟨[start, opening], closing :: us, by simp⟩
      | @ifThenElse start opening closing other _ us vs _ _ _ _ _ test =>
        exact test.readFrom ⟨[start, opening], closing :: (us ++ other :: vs), by simp⟩
      | @elseIf start opening closing other _ us vs _ _ _ _ _ test =>
        exact test.readFrom ⟨[start, opening], closing :: (us ++ other :: vs), by simp⟩
    | @whileLoop start opening closing _ us _ _ _ _ test =>
      exact test.readFrom ⟨[start, opening], closing :: us, by simp⟩
    | @giveBack start stop _ _ _ value => exact value.readFrom ⟨[start], [stop], by simp⟩
    | expression value => exact value.readFrom (List.prefix_append ..).isInfix
    | block | leave | error => exact List.forall_mem_nil _

/-- All expressions of a program are read from some of its tokens. -/
theorem SitedProgram.readFrom_exprsAll {ts : List Token} {ss : List Stmt}
    (h : SitedProgram d ts ss) : ∀ e ∈ Stmt.exprsAll ss, e.ReadFrom d ts := by
  intro e mem
  rw [Stmt.exprsAll_eq_flatMap] at mem
  obtain ⟨s, below, mem⟩ := List.mem_flatMap.1 mem
  obtain ⟨root, own, mem⟩ := List.mem_flatMap.1 mem
  obtain ⟨run, part, top⟩ := h.readFrom_preorderAll s below
  obtain ⟨run', part', sited⟩ := top.readFrom_ownExprs root own
  exact (sited.readFrom_nodes e mem).widen (part'.trans part)

/-! ## Texts that are expressions -/

/-- The expression that a text is, if it is one from its beginning to its end. -/
def expressionOf? (source : List Char) : Option Expr :=
  match Parse.expression .standard .default (Parser.start (deliveries source) .fresh) with
  | .ok e p => if p.atEnd then some e else none
  | .error _ _ => none

theorem expressionOf?_eq_some {source : List Char} {e : Expr} (h : expressionOf? source = some e) :
    ∃ p, Parse.expression .standard .default (Parser.start (deliveries source) .fresh) = .ok e p ∧
      p.atEnd = true := by
  unfold expressionOf? at h
  split at h
  next e' p read =>
    split at h
    next atEnd =>
      cases h
      exact ⟨p, read, atEnd⟩
    · cases h
  · cases h

/-- A text that is an expression is derived as one. -/
theorem derives_of_expressionOf? {source : List Char} {e : Expr}
    (h : expressionOf? source = some e) :
    Derives .lenient .assignment (terminals ((deliveries source).map Delivery.token)) e := by
  obtain ⟨p, read, atEnd⟩ := expressionOf?_eq_some h
  have sound := Parse.meets_expression (d := .lenient)
    (p := Parser.start (deliveries source) .fresh) .default fun _ _ enclosed _ => enclosed
  rw [Parse.Meets, read] at sound
  obtain ⟨-, ⟨run, cut, sited⟩, -⟩ := sound
  obtain ⟨ahead, -⟩ := @Parser.onward_start (deliveries source) .fresh
  rw [← ahead, Parser.ahead_eq_map_pending, cut, Parser.pending_of_atEnd atEnd, List.append_nil]
  exact sited.derives

/-- A text that is derived as an expression is that expression, up to numbers and places. -/
theorem expressionOf?_of_derives {source : List Char} {e : Expr}
    (h : Derives .lenient .assignment (terminals ((deliveries source).map Delivery.token)) e) :
    (expressionOf? source).map Expr.bare = some e.bare := by
  have quiet : Quiet (deliveries source) := by
    rw [← deliveriesOf_map_token (h.known Dialect.known_lenient)]
    exact quiet_deliveriesOf _
  obtain ⟨calm, -⟩ := quiet.start (s := .fresh) rfl rfl
  have ahead := (@Parser.onward_start (deliveries source) .fresh).1
  rw [← ahead] at h
  have ends : Stratum.assignment.Ends [] := ⟨Nat.zero_le _, fun _ same => by cases same⟩
  have reached := h.heads lenient_namesTargets (Parser.start (deliveries source) .fresh).remaining
    .default _ [] (by decide) calm (List.append_nil _).symm ends
    (Nat.le_succ_of_le (Parser.length_ahead_le _))
  obtain ⟨e', q, read, same, gets⟩ := reached.done ends.assignment_le
  have read : Parse.expression .standard .default (Parser.start (deliveries source) .fresh) =
      .ok e' q := read
  have atEnd := Parser.atEnd_of_ahead_eq_nil gets.ahead
  simp only [expressionOf?, read, atEnd, if_true, Option.map_some, same]

/-! ## The spans of a program -/

/-- The span of an expression in a text shows the tokens that it was read from, but for parentheses
at both ends. By itself, what stands there is the same expression if its parentheses match, and no
expression otherwise. -/
def Expr.SpeltIn (source : List Char) (e : Expr) : Prop :=
  ∃ opens core closes text,
    opens ++ (core ++ closes) <:+: tokensOf source ∧
    Sited .lenient .assignment (opens ++ (core ++ closes)) e ∧
    (∀ t ∈ opens, t.kind = .openParen) ∧ (∀ t ∈ closes, t.kind = .closeParen) ∧
    e.span.Shows source core text ∧
    (expressionOf? text).map Expr.bare = if Token.ParensMatch core then some e.bare else none

/-- The span of a statement in a text shows the tokens that it was read from, but for parentheses at
the beginning of an expression. -/
def Stmt.SpeltIn (source : List Char) (s : Stmt) : Prop :=
  ∃ run text, run <:+: tokensOf source ∧ SitedTop .lenient run s ∧
    s.span.Shows source (s.spanned run) text

theorem Stmt.spanned_infix (s : Stmt) (run : List Token) : s.spanned run <:+: run := by
  cases s with
  | expression => exact (List.dropWhile_suffix _).isInfix
  | _ => exact List.infix_rfl

theorem Expr.ReadFrom.speltIn {source : List Char} {e : Expr}
    (h : e.ReadFrom .lenient (tokensOf source)) : e.SpeltIn source := by
  obtain ⟨run, part, sited⟩ := h
  have ordered : Token.InOrder run := (inOrder_tokensOf source).sublist part.sublist
  obtain ⟨opens, core, closes, rfl, framed⟩ := sited.framed lenient_namesTargets ordered
  have inner : core <:+: tokensOf source := List.IsInfix.trans ⟨opens, closes, by simp⟩ part
  obtain ⟨text, shown⟩ := framed.reaches.shows inner
  refine ⟨opens, core, closes, text, part, sited, framed.opens, framed.closes, shown, ?_⟩
  split
  next all =>
    have derives := (framed.sited all).derives
    rw [← shown.read] at derives
    exact expressionOf?_of_derives derives
  next unmatched =>
    refine Option.map_eq_none_iff.2 (Option.eq_none_iff_forall_ne_some.2 fun e' found => ?_)
    have derives := derives_of_expressionOf? found
    rw [shown.read] at derives
    exact unmatched (derives.parensMatch lenient_namesTargets)

theorem Stmt.ReadFrom.speltIn {source : List Char} {s : Stmt}
    (h : s.ReadFrom .lenient (tokensOf source)) : s.SpeltIn source := by
  obtain ⟨run, part, top⟩ := h
  have ordered : Token.InOrder run := (inOrder_tokensOf source).sublist part.sublist
  have reaches := top.reaches lenient_namesTargets (fun _ => id) ordered
  obtain ⟨text, shown⟩ := reaches.shows ((s.spanned_infix run).trans part)
  exact ⟨run, text, part, top, shown⟩

/-- A valid parse derives the program from all tokens of the text, each node in its place. -/
theorem parseSource_sited {source : List Char} (valid : (parseSource source .fresh).valid = true) :
    SitedProgram .lenient (tokensOf source) (parseSource source .fresh).program.body := by
  have clean := (diagnostics_eq_nil_iff_noErrorNodes source).1
    ((valid_iff_diagnostics_eq_nil source).1 valid)
  have derives := (parseSource_derives source uncancelled_fresh).strict clean
  exact parse_sited (derives.known Dialect.known_lenient) rfl (fun _ _ enclosed _ => enclosed) valid

/-- In a text that is parsed without an error, the program is put together from all tokens in their
places. The span of a statement is that of its tokens, from the first through the last, except that
a statement that is an expression starts behind the parentheses it begins with. The span of an
expression leaves out parentheses at both ends; what it shows is read as this expression again if
its parentheses match, and otherwise it is no expression. -/
theorem parseSource_spelt (source : List Char) (valid : (parseSource source .fresh).valid = true) :
    SitedProgram .lenient (tokensOf source) (parseSource source .fresh).program.body ∧
      (∀ s ∈ (parseSource source .fresh).program.statements, s.SpeltIn source) ∧
      ∀ e ∈ (parseSource source .fresh).program.exprs, e.SpeltIn source := by
  have sited := parseSource_sited valid
  exact ⟨sited, fun s mem => (sited.readFrom_preorderAll s mem).speltIn,
    fun e mem => (sited.readFrom_exprsAll e mem).speltIn⟩

/-- A declaration and a call in parentheses. -/
def declarationAndCall : List Char := "let x = -(1 + 2);\n((print(x)));".toList

/-- The sum is read back, its negation is not, and the call starts behind two parentheses. -/
theorem parseSource_spelt_declarationAndCall :
    (parseSource declarationAndCall .fresh).valid = true ∧
      (∀ s ∈ (parseSource declarationAndCall .fresh).program.statements,
        s.SpeltIn declarationAndCall) ∧
      ∀ e ∈ (parseSource declarationAndCall .fresh).program.exprs,
        e.SpeltIn declarationAndCall := by
  have valid : (parseSource declarationAndCall .fresh).valid = true := by decide +kernel
  exact ⟨valid, (parseSource_spelt _ valid).2⟩

/-- A product whose first factor is a sum in parentheses. -/
def productOfSum : List Char := "(1 + 2) * 3;".toList

/-- All tokens are read as one statement, but its span does not reach over the parenthesis at its
beginning. Neither does that of the product, and what it shows, `1 + 2) * 3`, is no expression. -/
theorem parseSource_productOfSum :
    (parseSource productOfSum .fresh).valid = true ∧
      (∃ s, (parseSource productOfSum .fresh).program.body = [s] ∧
        SitedTop .lenient (tokensOf productOfSum) s ∧ ¬s.span.Reaches (tokensOf productOfSum)) ∧
      ∃ e ∈ (parseSource productOfSum .fresh).program.exprs, ∃ text,
        Text.sliceBytes? productOfSum e.span.start e.span.stop = some text ∧
          expressionOf? text = none := by
  have valid : (parseSource productOfSum .fresh).valid = true := by decide +kernel
  refine ⟨valid, ?_, ?_⟩
  · have places : (parseSource productOfSum .fresh).program.body.map Stmt.span =
        [⟨1, 12, 1, 2⟩] := by decide +kernel
    have first : (tokensOf productOfSum).head?.map (·.span.start) = some 0 := by decide +kernel
    obtain ⟨s, one, span⟩ := List.map_eq_singleton_iff.1 places
    refine ⟨s, one, SitedProgram.singleton (one ▸ parseSource_sited valid), fun reaches => ?_⟩
    obtain ⟨t, mem, start, -⟩ := reaches.start
    rw [mem] at first
    have early : t.span.start = 0 := Option.some.inj first
    rw [early, span] at start
    cases start
  · have places : (parseSource productOfSum .fresh).program.exprs.head?.map Expr.span =
        some ⟨1, 11, 1, 2⟩ := by decide +kernel
    obtain ⟨e, head, span⟩ := Option.map_eq_some_iff.1 places
    refine ⟨e, List.mem_of_head? head, "1 + 2) * 3".toList, ?_, ?_⟩
    · rw [span]
      decide +kernel
    · exact Option.isNone_iff_eq_none.1 (by decide +kernel)

end MiniLang
