import Workflow.Expr.Basic
import Workflow.Text.Quoted

/-!
# Printing expressions

An expression is printed with spaces around its operators and parentheses only where the levels ask
for them: the left operand of a chain may be of the chain's own level, the right one has to bind
tighter.
-/

namespace Workflow

/-- The text of a literal: strings are quoted, other values print as themselves. -/
def Value.literalText : Value → List Char
  | .string s => Text.quote s.toList
  | v => v.display

/-- Puts a text in parentheses if asked to. -/
def parenthesize (wanted : Bool) (cs : List Char) : List Char :=
  if wanted then '(' :: cs ++ [')'] else cs

/-- What is written between two operands.  Before a comma there is no space. -/
def BinaryOp.separator (op : BinaryOp) : List Char :=
  match op with
  | .sequence => ", ".toList
  | op => ' ' :: op.symbol.toList ++ [' ']

namespace Expr

/-- The text of an expression at a place that asks for at least the level `context`. -/
def printAt (context : Nat) : Expr → List Char
  | .literal v => parenthesize (literalLevel < context) v.literalText
  | .unary op e =>
    parenthesize (unaryLevel < context) (op.symbol.toList ++ printAt unaryLevel e)
  | .binary op l r =>
    parenthesize (op.level < context)
      (printAt op.level l ++ op.separator ++ printAt (op.level + 1) r)

/-- The text of an expression. -/
def print (e : Expr) : String :=
  String.ofList (printAt 0 e)

end Expr
end Workflow
