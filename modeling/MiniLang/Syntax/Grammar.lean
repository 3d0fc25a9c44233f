import MiniLang.Token.Basic

/-!
# The grammar as tables

Which tokens begin a statement or an expression, which stand between operands, and how tightly
these bind. `Grammar.standard` is the language's own grammar; `Grammar.empty` knows no form at all.
-/

set_option autoImplicit false

namespace MiniLang

/-- How tightly operators bind their operands, the loosest first. -/
inductive BindingPower where
  | default
  | assignment
  | logicalOr
  | logicalAnd
  | equality
  | relational
  | additive
  | multiplicative
  | unary
  | primary
  deriving DecidableEq, Repr, Inhabited

namespace BindingPower

/-- The place of a binding power in the order from loose to tight. -/
def level : BindingPower → Nat
  | default => 0
  | assignment => 1
  | logicalOr => 2
  | logicalAnd => 3
  | equality => 4
  | relational => 5
  | additive => 6
  | multiplicative => 7
  | unary => 8
  | primary => 9

/-- The name of a binding power. -/
def name : BindingPower → String
  | default => "Default"
  | assignment => "Assignment"
  | logicalOr => "LogicalOr"
  | logicalAnd => "LogicalAnd"
  | equality => "Equality"
  | relational => "Relational"
  | additive => "Additive"
  | multiplicative => "Multiplicative"
  | unary => "Unary"
  | primary => "Primary"

/-- All binding powers, the loosest first. -/
def all : List BindingPower :=
  [default, assignment, logicalOr, logicalAnd, equality, relational, additive, multiplicative,
   unary, primary]

/-- The binding power of a given name. -/
def ofName? (text : String) : Option BindingPower := all.find? (·.name == text)

/-- Binding powers of one level are the same. -/
theorem level_injective {a b : BindingPower} (h : a.level = b.level) : a = b := by
  cases a <;> cases b <;> first | rfl | exact absurd h (by decide)

end BindingPower

/-- The forms that begin an expression. -/
inductive PrefixRule where
  /-- A written-out value. -/
  | literal
  /-- A name, or a call if a parenthesis follows it. -/
  | name
  /-- An operator before its operand. -/
  | operator
  /-- An expression in parentheses. -/
  | grouping
  /-- Text that forms no token. -/
  | unknown
  deriving DecidableEq, Repr

/-- The forms that continue an expression after its left operand. -/
inductive InfixRule where
  /-- An operator and its right operand. -/
  | operator
  /-- The sign of an assignment and the value. -/
  | assignment
  deriving DecidableEq, Repr

/-- The statements that a token of their own begins. -/
inductive StatementRule where
  | letVar
  | ifElse
  | whileLoop
  | block
  | function
  | ret
  deriving DecidableEq, Repr

/-- What each kind of tokens begins or continues. -/
structure Grammar where
  prefixRule : TokenKind → Option PrefixRule
  infixRule : TokenKind → Option (BindingPower × InfixRule)
  statementRule : TokenKind → Option StatementRule

namespace Grammar

/-- The grammar without any form. -/
def empty : Grammar := ⟨fun _ => none, fun _ => none, fun _ => none⟩

/-- The grammar of the language. -/
def standard : Grammar where
  prefixRule
    | .integer | .kwTrue | .kwFalse => some .literal
    | .identifier => some .name
    | .dash | .not => some .operator
    | .openParen => some .grouping
    | .unknown => some .unknown
    | _ => none
  infixRule
    | .assignment => some (.assignment, .assignment)
    | .or => some (.logicalOr, .operator)
    | .and => some (.logicalAnd, .operator)
    | .equals | .notEquals => some (.equality, .operator)
    | .less | .lessEquals | .greater | .greaterEquals => some (.relational, .operator)
    | .plus | .dash => some (.additive, .operator)
    | .star | .slash | .percent => some (.multiplicative, .operator)
    | _ => none
  statementRule
    | .kwLet => some .letVar
    | .kwIf => some .ifElse
    | .kwWhile => some .whileLoop
    | .openCurly => some .block
    | .kwFn => some .function
    | .kwReturn => some .ret
    | _ => none

/-- How tightly a kind of tokens binds what stands before it; kinds that continue nothing bind
loosest. -/
def bindingPower (g : Grammar) (kind : TokenKind) : BindingPower :=
  match g.infixRule kind with
  | some (power, _) => power
  | none => .default

end Grammar

end MiniLang
