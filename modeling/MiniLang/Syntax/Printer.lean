import MiniLang.Syntax.Stmt
import MiniLang.Text.Join

/-!
# Printing programs

A program is printed in one canonical form. Every operator with its operands stands in
parentheses, so that the text has the shape of the tree; statements stand on lines of their own,
indented by four blanks for each block around them. An error placeholder is printed as a mark that
is no statement.
-/

set_option autoImplicit false

namespace MiniLang

/-- A text between parentheses. -/
def parenthesized (text : String) : String := "(" ++ text ++ ")"

namespace Literal

/-- A value as it is written. -/
def text : Literal → String
  | int value => toString value
  | bool value => if value then "true" else "false"

end Literal

namespace Expr

mutual

/-- The text of an expression. -/
def text : Expr → String
  | literal _ _ value => value.text
  | var _ _ name => name
  | binary _ _ op left right =>
    parenthesized (text left ++ " " ++ op.symbol ++ " " ++ text right)
  | unary _ _ op operand => parenthesized (op.symbol ++ text operand)
  | call _ _ callee _ arguments => callee ++ parenthesized (Text.joinWith ", " (texts arguments))
  | assignment _ _ target _ value => parenthesized (target ++ " = " ++ text value)

/-- The texts of expressions. -/
def texts : List Expr → List String
  | [] => []
  | e :: es => text e :: texts es

end

theorem texts_eq_map (es : List Expr) : texts es = es.map text := by
  induction es with
  | nil => rfl
  | cons e es ih => simp [texts, ih]

end Expr

namespace Param

/-- The text of a parameter. -/
def text (p : Param) : String := p.name ++ ": " ++ p.type.name.text

end Param

namespace FunctionHeader

/-- The text of a function up to its body. -/
def text (f : FunctionHeader) : String :=
  "fn " ++ f.name ++ parenthesized (Text.joinWith ", " (f.params.map Param.text)) ++
    match f.returnType with
    | some type => " -> " ++ type.name.text
    | none => ""

end FunctionHeader

/-- The blanks before a line inside `depth` blocks. -/
def indentation : Nat → String
  | 0 => ""
  | depth + 1 => "    " ++ indentation depth

namespace Stmt

mutual

/-- The text of a statement inside `depth` blocks, without the blanks before it. -/
def textAt (depth : Nat) : Stmt → String
  | letVar _ _ name _ declared value =>
    "let " ++ name ++
      (match declared with
        | some type => ": " ++ type.name.text
        | none => "") ++
      " = " ++ value.text ++ ";"
  | ifThen _ condition thenBlock =>
    "if " ++ parenthesized condition.text ++ " " ++ blockAt depth thenBlock
  | ifThenElse _ condition thenBlock elseBranch =>
    "if " ++ parenthesized condition.text ++ " " ++ blockAt depth thenBlock ++ " else " ++
      textAt depth elseBranch
  | whileLoop _ condition body =>
    "while " ++ parenthesized condition.text ++ " " ++ blockAt depth body
  | block b => blockAt depth b
  | expression _ value => value.text ++ ";"
  | function _ header body => header.text ++ " " ++ blockAt depth body
  | ret _ (some value) => "return " ++ value.text ++ ";"
  | ret _ none => "return;"
  | error _ => "<error>;"

/-- The text of a block inside `depth` blocks, from its opening brace to its closing one. -/
def blockAt (depth : Nat) : Block → String
  | .mk _ _ [] => "\x7b\x7d"
  | .mk _ _ (s :: ss) =>
    "\x7b\n" ++ indentation (depth + 1) ++ textAt (depth + 1) s ++ "\n" ++
      linesAt (depth + 1) ss ++ indentation depth ++ "\x7d"

/-- The texts of statements inside `depth` blocks, each on lines of its own. -/
def linesAt (depth : Nat) : List Stmt → String
  | [] => ""
  | s :: ss => indentation depth ++ textAt depth s ++ "\n" ++ linesAt depth ss

end

end Stmt

namespace Program

/-- The canonical text of a program. -/
def text (p : Program) : String := Stmt.linesAt 0 p.body

end Program

end MiniLang
