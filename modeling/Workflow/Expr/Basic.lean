import Workflow.Value

/-!
# Expressions

The trees that conditions are written for: literals, three operators on one operand and fifteen on
two.  Every operator has a level, the higher the tighter it binds; the levels of the operators on
two operands are those of the grammar, from the comma at 0 to `*` and `/` at 6.

* `UnaryOp.apply` and `BinaryOp.apply` say what an operator makes of its operands.
* `BinaryOp.isDecidedBy` says when the left operand alone decides.
* `Expr.value` is the value of a tree.
* `Expr.height` and `Expr.nodeCount` measure a tree.
-/

namespace Workflow

/-! ## Operators -/

/-- The operators on one operand. -/
inductive UnaryOp where
  | not
  | minus
  | plus
deriving DecidableEq, Repr

/-- The operators on two operands. -/
inductive BinaryOp where
  | sequence
  | or
  | and
  | equal
  | notEqual
  | strictEqual
  | strictNotEqual
  | less
  | greater
  | lessEqual
  | greaterEqual
  | add
  | subtract
  | multiply
  | divide
deriving DecidableEq, Repr

namespace UnaryOp

/-- How the operator is written. -/
def symbol : UnaryOp → String
  | .not => "!"
  | .minus => "-"
  | .plus => "+"

/-- What the operator makes of its operand. -/
def apply : UnaryOp → Value → Value
  | .not, v => .bool !v.isTruthy
  | .minus, v => .number (-v.toNumber)
  | .plus, v => .number v.toNumber

end UnaryOp

namespace BinaryOp

/-- How the operator is written. -/
def symbol : BinaryOp → String
  | .sequence => ","
  | .or => "||"
  | .and => "&&"
  | .equal => "=="
  | .notEqual => "!="
  | .strictEqual => "==="
  | .strictNotEqual => "!=="
  | .less => "<"
  | .greater => ">"
  | .lessEqual => "<="
  | .greaterEqual => ">="
  | .add => "+"
  | .subtract => "-"
  | .multiply => "*"
  | .divide => "/"

/-- How tightly the operator binds. -/
def level : BinaryOp → Nat
  | .sequence => 0
  | .or => 1
  | .and => 2
  | .equal | .notEqual | .strictEqual | .strictNotEqual => 3
  | .less | .greater | .lessEqual | .greaterEqual => 4
  | .add | .subtract => 5
  | .multiply | .divide => 6

/-- Whether the left operand decides, so that the right one is left alone. -/
def isDecidedBy : BinaryOp → Value → Bool
  | .and, left => !left.isTruthy
  | .or, left => left.isTruthy
  | _, _ => false

/-- What the operator makes of its operands.  The two connectives give back one of them. -/
def apply : BinaryOp → Value → Value → Value
  | .sequence, _, b => b
  | .or, a, b => if a.isTruthy then a else b
  | .and, a, b => if a.isTruthy then b else a
  | .equal, a, b => .bool (a.looseEq b)
  | .notEqual, a, b => .bool !a.looseEq b
  | .strictEqual, a, b => .bool (a.strictEq b)
  | .strictNotEqual, a, b => .bool !a.strictEq b
  | .less, a, b => .bool ((a.compare? b).any (· = .lt))
  | .greater, a, b => .bool ((a.compare? b).any (· = .gt))
  | .lessEqual, a, b => .bool ((a.compare? b).any (· ≠ .gt))
  | .greaterEqual, a, b => .bool ((a.compare? b).any (· ≠ .lt))
  | .add, a, b => a.add b
  | .subtract, a, b => .number (a.toNumber - b.toNumber)
  | .multiply, a, b => .number (a.toNumber * b.toNumber)
  | .divide, a, b => .number (a.toNumber / b.toNumber)

end BinaryOp

/-- The level of the operators on one operand. -/
def unaryLevel : Nat := 7

/-- The level of literals, above every operator. -/
def literalLevel : Nat := 8

theorem BinaryOp.level_lt_unaryLevel (op : BinaryOp) : op.level < unaryLevel := by
  cases op <;> decide

/-! ## Trees -/

/-- An expression. -/
inductive Expr where
  | literal (v : Value)
  | unary (op : UnaryOp) (operand : Expr)
  | binary (op : BinaryOp) (left right : Expr)
deriving DecidableEq, Repr, Inhabited

namespace Expr

/-- How tightly the outermost operator binds. -/
def level : Expr → Nat
  | .literal _ => literalLevel
  | .unary .. => unaryLevel
  | .binary op .. => op.level

/-- The number of operators and literals. -/
def nodeCount : Expr → Nat
  | .literal _ => 1
  | .unary _ e => 1 + e.nodeCount
  | .binary _ l r => 1 + l.nodeCount + r.nodeCount

/-- The number of operators on the longest path to a literal. -/
def height : Expr → Nat
  | .literal _ => 0
  | .unary _ e => e.height + 1
  | .binary _ l r => max l.height r.height + 1

/-- The value of an expression.  The left operand comes first, and where it decides the right one is
not looked at. -/
def value : Expr → Value
  | .literal v => v
  | .unary op e => op.apply e.value
  | .binary op l r =>
    let left := l.value
    if op.isDecidedBy left then left else op.apply left r.value

end Expr
end Workflow
