import MiniLang.Syntax.Printer

/-!
# Trees up to numbers and places

Two trees are the same up to the numbers of their nodes and the places that these were read from if
nothing is left that tells them apart once every number and place is forgotten (`Program.bare`). The
printed text of a program and its error placeholders do not depend on what is forgotten.
-/

set_option autoImplicit false

namespace MiniLang

namespace Expr

mutual

/-- An expression without the numbers and places of its nodes. -/
def bare : Expr → Expr
  | literal _ _ value => literal 0 .origin value
  | var _ _ name => var 0 .origin name
  | binary _ _ op left right => binary 0 .origin op (bare left) (bare right)
  | unary _ _ op operand => unary 0 .origin op (bare operand)
  | call _ _ callee _ arguments => call 0 .origin callee .origin (bareAll arguments)
  | assignment _ _ target _ value => assignment 0 .origin target .origin (bare value)

def bareAll : List Expr → List Expr
  | [] => []
  | e :: es => bare e :: bareAll es

end

mutual

@[simp] theorem text_bare : ∀ e : Expr, e.bare.text = e.text
  | literal .. => rfl
  | var .. => rfl
  | binary _ _ op left right => by rw [bare, text, text, text_bare left, text_bare right]
  | unary _ _ op operand => by rw [bare, text, text, text_bare operand]
  | call _ _ callee _ arguments => by rw [bare, text, text, texts_bareAll arguments]
  | assignment _ _ target _ value => by rw [bare, text, text, text_bare value]

theorem texts_bareAll : ∀ es : List Expr, texts (bareAll es) = texts es
  | [] => rfl
  | e :: es => by rw [bareAll, texts, texts, text_bare e, texts_bareAll es]

end

end Expr

namespace WrittenType

def bare (t : WrittenType) : WrittenType := ⟨t.name, .origin⟩

end WrittenType

namespace Param

def bare (p : Param) : Param := ⟨0, .origin, p.name, p.type.bare⟩

@[simp] theorem text_bare (p : Param) : p.bare.text = p.text := rfl

end Param

namespace FunctionHeader

def bare (f : FunctionHeader) : FunctionHeader :=
  ⟨0, f.name, .origin, f.params.map Param.bare, f.returnType.map WrittenType.bare⟩

@[simp] theorem text_bare (f : FunctionHeader) : f.bare.text = f.text := by
  have params : (f.params.map Param.bare).map Param.text = f.params.map Param.text := by
    rw [List.map_map]
    rfl
  unfold bare text
  rw [params]
  cases f.returnType <;> rfl

end FunctionHeader

namespace Stmt

mutual

/-- A statement without the numbers and places of its nodes. -/
def bare : Stmt → Stmt
  | letVar _ _ name _ declared value =>
    letVar 0 .origin name .origin (declared.map WrittenType.bare) value.bare
  | ifThen _ condition thenBlock => ifThen .origin condition.bare (bareBlock thenBlock)
  | ifThenElse _ condition thenBlock elseBranch =>
    ifThenElse .origin condition.bare (bareBlock thenBlock) (bare elseBranch)
  | whileLoop _ condition body => whileLoop .origin condition.bare (bareBlock body)
  | block b => block (bareBlock b)
  | expression _ value => expression .origin value.bare
  | function _ header body => function .origin header.bare (bareBlock body)
  | ret _ value => ret .origin (value.map Expr.bare)
  | error _ => error .origin

def bareBlock : Block → Block
  | .mk _ _ body => .mk 0 .origin (bareAll body)

def bareAll : List Stmt → List Stmt
  | [] => []
  | s :: ss => bare s :: bareAll ss

end

mutual

@[simp] theorem textAt_bare (depth : Nat) : ∀ s : Stmt, s.bare.textAt depth = s.textAt depth
  | letVar _ _ name _ declared value => by
    simp only [bare, textAt, Expr.text_bare]
    cases declared <;> rfl
  | ifThen _ condition thenBlock => by
    rw [bare, textAt, textAt, Expr.text_bare, blockAt_bareBlock depth thenBlock]
  | ifThenElse _ condition thenBlock elseBranch => by
    rw [bare, textAt, textAt, Expr.text_bare, blockAt_bareBlock depth thenBlock,
      textAt_bare depth elseBranch]
  | whileLoop _ condition body => by
    rw [bare, textAt, textAt, Expr.text_bare, blockAt_bareBlock depth body]
  | block b => by
    simp only [bare, textAt]
    exact blockAt_bareBlock depth b
  | expression _ value => by rw [bare, textAt, textAt, Expr.text_bare]
  | function _ header body => by
    rw [bare, textAt, textAt, FunctionHeader.text_bare, blockAt_bareBlock depth body]
  | ret _ none => rfl
  | ret _ (some value) => by rw [bare, Option.map_some, textAt, textAt, Expr.text_bare]
  | error _ => rfl

theorem blockAt_bareBlock (depth : Nat) : ∀ b : Block, blockAt depth (bareBlock b) = blockAt depth b
  | .mk _ _ [] => rfl
  | .mk _ _ (s :: ss) => by
    rw [bareBlock, bareAll, blockAt, blockAt, textAt_bare (depth + 1) s,
      linesAt_bareAll (depth + 1) ss]

theorem linesAt_bareAll (depth : Nat) :
    ∀ ss : List Stmt, linesAt depth (bareAll ss) = linesAt depth ss
  | [] => rfl
  | s :: ss => by rw [bareAll, linesAt, linesAt, textAt_bare depth s, linesAt_bareAll depth ss]

end

end Stmt

namespace Program

/-- A program without the numbers and places of its nodes. -/
def bare (p : Program) : Program := ⟨.origin, Stmt.bareAll p.body⟩

/-- Programs that are the same up to numbers and places have the same text. -/
theorem text_bare (p : Program) : p.bare.text = p.text := Stmt.linesAt_bareAll 0 p.body

end Program

end MiniLang
