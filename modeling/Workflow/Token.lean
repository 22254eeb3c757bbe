import Workflow.Expr.Printer

/-!
# Tokens

The lexemes of expressions.  The same symbol may stand for an operator on one operand and for one on
two, so tokens carry symbols and leave it to the grammar which operator is meant.
-/

namespace Workflow

/-- The fixed symbols of expressions. -/
inductive Symbol where
  | plus
  | minus
  | star
  | slash
  | less
  | greater
  | lessEqual
  | greaterEqual
  | equal
  | strictEqual
  | notEqual
  | strictNotEqual
  | bang
  | and
  | or
  | openParen
  | closeParen
  | comma
deriving DecidableEq, Repr

/-- A token of an expression. -/
inductive Token where
  | number (x : Float)
  | string (s : String)
  | ident (name : String)
  | symbol (s : Symbol)
deriving DecidableEq, Repr

namespace Symbol

/-- How the symbol is written. -/
def text : Symbol → String
  | .plus => "+"
  | .minus => "-"
  | .star => "*"
  | .slash => "/"
  | .less => "<"
  | .greater => ">"
  | .lessEqual => "<="
  | .greaterEqual => ">="
  | .equal => "=="
  | .strictEqual => "==="
  | .notEqual => "!="
  | .strictNotEqual => "!=="
  | .bang => "!"
  | .and => "&&"
  | .or => "||"
  | .openParen => "("
  | .closeParen => ")"
  | .comma => ","

/-- The operator that the symbol stands for before an operand. -/
def unaryOp? : Symbol → Option UnaryOp
  | .bang => some .not
  | .minus => some .minus
  | .plus => some .plus
  | _ => none

end Symbol

namespace Token

/-- The text by which a message names a token. -/
def display : Token → List Char
  | .number x => Value.numberText x
  | .string s => Text.quote s.toList
  | .ident name => name.toList
  | .symbol s => s.text.toList

end Token
end Workflow
