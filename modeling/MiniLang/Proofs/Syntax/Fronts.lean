import MiniLang.Syntax.Grammar

/-!
# What the beginning of a text leaves open

Read from left to right, tokens open brackets and close them again; what is open after some tokens,
and whether the last of them completes something, is their front (`Front.after`). From a front one
can tell what a parser blames if the text ends there (`Front.blamed`): the innermost bracket, unless
this is a parenthesis and the last token asks for more. In that case it is the brace around it.
-/

set_option autoImplicit false

namespace MiniLang

/-- A bracket that is open. -/
structure Bracket where
  token : Token
  /-- Parameters of a function are declared in it. -/
  parameters : Bool

/-- What the last token says of what is next to it. -/
inductive Recent where
  /-- It begins the declaration of a function. -/
  | declaring
  /-- It is the name of a function that is declared. -/
  | declared
  /-- It completes something: an operand, or a parameter. -/
  | complete
  /-- It asks for more, or it begins or ends a statement. -/
  | other
  deriving DecidableEq

/-- Which brackets are open, the innermost first, and what the last token says. -/
structure Front where
  opened : List Bracket
  recent : Recent

namespace Front

/-- Whether parameters are declared here. -/
def inParameters (f : Front) : Bool := f.opened.head?.any Bracket.parameters

/-- The front behind another token. -/
def step (f : Front) (t : Token) : Front :=
  match t.kind with
  | .openParen => ⟨⟨t, f.recent = .declared⟩ :: f.opened, .other⟩
  | .openCurly => ⟨⟨t, false⟩ :: f.opened, .other⟩
  | .closeParen => ⟨f.opened.tail, .complete⟩
  | .closeCurly => ⟨f.opened.tail, .other⟩
  | .kwFn => ⟨f.opened, .declaring⟩
  | .identifier =>
    ⟨f.opened,
      if f.recent = .declaring then .declared else if f.inParameters then .other else .complete⟩
  | .integer | .kwTrue | .kwFalse | .kwInt | .kwBool => ⟨f.opened, .complete⟩
  | _ => ⟨f.opened, .other⟩

/-- The front behind some more tokens. -/
def run (f : Front) (ts : List Token) : Front := ts.foldl step f

/-- The front behind all tokens of a text. -/
def after (ts : List Token) : Front := run ⟨[], .other⟩ ts

/-- The innermost brace among some brackets. -/
def braceOf (opened : List Bracket) : Option Token :=
  (opened.map Bracket.token).find? (·.kind = .openCurly)

/-- The bracket that is blamed for the end of the input: the innermost one if it is a brace or
could be closed here, otherwise the brace around it. -/
def blamed (f : Front) : Option Token :=
  match f.opened with
  | [] => none
  | b :: _ =>
    if b.token.kind = .openCurly ∨ f.recent = .complete then some b.token else braceOf f.opened

@[simp] theorem run_nil (f : Front) : f.run [] = f := rfl

@[simp] theorem run_cons (f : Front) (t : Token) (ts : List Token) :
    f.run (t :: ts) = (f.step t).run ts := rfl

/-- Where nothing is complete, the innermost brace is blamed. -/
theorem blamed_of_incomplete {f : Front} (incomplete : f.recent ≠ .complete) :
    f.blamed = braceOf f.opened := by
  obtain ⟨opened, recent⟩ := f
  cases opened with
  | nil => rfl
  | cons b opened =>
    by_cases brace : b.token.kind = .openCurly
    · simp [blamed, braceOf, brace]
    · have recent : ¬recent = .complete := incomplete
      simp [blamed, brace, recent]

theorem blamed_of_complete {b : Bracket} {opened : List Bracket} :
    (⟨b :: opened, .complete⟩ : Front).blamed = some b.token := by simp [blamed]

end Front

/-- Some brackets are those of a block, or there are none. The brace of the block is known. -/
inductive InBlock : Option Token → List Bracket → Prop
  | outside : InBlock none []
  | inside {t : Token} {opened : List Bracket} (brace : t.kind = .openCurly) :
      InBlock (some t) (⟨t, false⟩ :: opened)

/-- The innermost brace among some brackets is known, and the innermost bracket is not that of
parameters. -/
structure AmongOperands (brace : Option Token) (opened : List Bracket) : Prop where
  brace : Front.braceOf opened = brace
  operands : ∀ recent, (⟨opened, recent⟩ : Front).inParameters = false

variable {brace : Option Token} {opened : List Bracket}

/-- In a block the brace is blamed, whatever the last token says. -/
theorem InBlock.blamed (h : InBlock brace opened) (recent : Recent) :
    (⟨opened, recent⟩ : Front).blamed = brace := by
  cases h with
  | outside => rfl
  | inside brace => simp [Front.blamed, brace]

theorem InBlock.amongOperands (h : InBlock brace opened) : AmongOperands brace opened := by
  cases h with
  | outside => exact ⟨rfl, fun _ => rfl⟩
  | inside brace => exact ⟨by simp [Front.braceOf, brace], fun _ => rfl⟩

/-- A parenthesis hides no brace. -/
theorem Front.braceOf_paren {t : Token} (paren : t.kind = .openParen) (parameters : Bool) :
    Front.braceOf (⟨t, parameters⟩ :: opened) = Front.braceOf opened := by
  simp [Front.braceOf, paren]

theorem AmongOperands.paren {t : Token} (h : AmongOperands brace opened)
    (paren : t.kind = .openParen) : AmongOperands brace (⟨t, false⟩ :: opened) :=
  ⟨(Front.braceOf_paren paren false).trans h.brace, fun _ => rfl⟩

/-- Where an operand is missing, the innermost brace is blamed. -/
theorem AmongOperands.blamed (h : AmongOperands brace opened) :
    (⟨opened, .other⟩ : Front).blamed = brace :=
  (Front.blamed_of_incomplete (by simp)).trans h.brace

namespace Front

variable {recent : Recent} {t : Token}

/-! ## Single steps -/

theorem step_openParen (is : t.kind = .openParen) (ne : recent ≠ .declared) :
    (⟨opened, recent⟩ : Front).step t = ⟨⟨t, false⟩ :: opened, .other⟩ := by
  simp [step, is, ne]

theorem step_parameters (is : t.kind = .openParen) :
    (⟨opened, .declared⟩ : Front).step t = ⟨⟨t, true⟩ :: opened, .other⟩ := by
  simp [step, is]

theorem step_openCurly (f : Front) (is : t.kind = .openCurly) :
    f.step t = ⟨⟨t, false⟩ :: f.opened, .other⟩ := by simp [step, is]

theorem step_closeParen {b : Bracket} (is : t.kind = .closeParen) :
    (⟨b :: opened, recent⟩ : Front).step t = ⟨opened, .complete⟩ := by simp [step, is]

theorem step_closeCurly {b : Bracket} (is : t.kind = .closeCurly) :
    (⟨b :: opened, recent⟩ : Front).step t = ⟨opened, .other⟩ := by simp [step, is]

theorem step_kwFn (f : Front) (is : t.kind = .kwFn) : f.step t = ⟨f.opened, .declaring⟩ := by
  simp [step, is]

/-- A name among operands is one. -/
theorem step_identifier (is : t.kind = .identifier) (among : AmongOperands brace opened)
    (ne : recent ≠ .declaring) :
    (⟨opened, recent⟩ : Front).step t = ⟨opened, .complete⟩ := by
  simp [step, is, ne, among.operands]

/-- A written-out value or a type completes something. -/
theorem step_complete (f : Front)
    (is : t.kind ∈ [TokenKind.integer, .kwTrue, .kwFalse, .kwInt, .kwBool]) :
    f.step t = ⟨f.opened, .complete⟩ := by
  simp only [List.mem_cons, List.not_mem_nil, or_false] at is
  rcases is with is | is | is | is | is <;> simp [step, is]

/-- Most tokens ask for more. -/
theorem step_other (f : Front) {kind : TokenKind} (is : t.kind = kind)
    (other : kind ∉ [TokenKind.openParen, .openCurly, .closeParen, .closeCurly, .kwFn, .identifier,
      .integer, .kwTrue, .kwFalse, .kwInt, .kwBool]) : f.step t = ⟨f.opened, .other⟩ := by
  rw [step, is]
  cases kind <;> first | rfl | exact absurd other (by decide)

end Front

end MiniLang
