import Workflow.Expr.Printer

/-!
# Evaluation traces

A trace is an expression with the outcome written at every operator.  It has the shape of the
expression it came from, except that the right operand of a connective which the left one decided is
marked as not evaluated.

* `Expr.trace` evaluates an expression and keeps what it saw.
* `Trace.level` is how tightly a node binds, which a trace reads off its symbol.
* `Trace.explain` prints a trace: every operator is followed by its outcome in brackets, and a
  decided connective by nothing, as only its left operand is shown.
-/

namespace Workflow

/-- What an evaluation saw. -/
inductive Trace where
  | leaf (v : Value)
  | unary (symbol : String) (operand : Trace) (outcome : Value)
  | binary (symbol : String) (left right : Trace) (outcome : Value)
  | notEvaluated
deriving DecidableEq, Repr, Inhabited

namespace Trace

/-- The value that a trace ends in; what was not evaluated counts as null. -/
def outcome : Trace → Value
  | .leaf v => v
  | .unary _ _ v => v
  | .binary _ _ _ v => v
  | .notEvaluated => .null

/-- How tightly the operator with a symbol binds between two operands.  A symbol that is no
operator's binds like a comma. -/
def levelOfSymbol : String → Nat
  | "," => 0
  | "||" => 1
  | "&&" => 2
  | "==" | "!=" | "===" | "!==" => 3
  | ">" | ">=" | "<" | "<=" => 4
  | "+" | "-" => 5
  | "*" | "/" => 6
  | _ => 0

/-- How tightly the outermost operator binds. -/
def level : Trace → Nat
  | .binary symbol .. => levelOfSymbol symbol
  | .unary .. => 7
  | .leaf _ | .notEvaluated => 8

/-- An outcome as it stands after an operator. -/
def outcomeText (v : Value) : List Char :=
  " [".toList ++ v.literalText ++ [']']

/-- The text of a trace at a place that asks for at least the level `context`. -/
def explainAt (context : Nat) (t : Trace) : List Char :=
  parenthesize (t.level < context)
    (match t with
    | .leaf v => v.literalText
    | .notEvaluated => []
    | .unary symbol operand v => symbol.toList ++ explainAt t.level operand ++ outcomeText v
    | .binary _ l .notEvaluated _ => explainAt t.level l
    | .binary symbol l r v =>
      explainAt t.level l ++ ' ' :: symbol.toList ++ ' ' :: explainAt (t.level + 1) r ++
        outcomeText v)

/-- The text of a trace. -/
def explain (t : Trace) : String :=
  String.ofList (explainAt 0 t)

end Trace

/-- Evaluates an expression, left operand first, and keeps every outcome. -/
def Expr.trace : Expr → Trace
  | .literal v => .leaf v
  | .unary op e =>
    let t := e.trace
    .unary op.symbol t (op.apply t.outcome)
  | .binary op l r =>
    let left := l.trace
    if op.isDecidedBy left.outcome then
      .binary op.symbol left .notEvaluated left.outcome
    else
      let right := r.trace
      .binary op.symbol left right (op.apply left.outcome right.outcome)

/-- A trace ends in the value of its expression. -/
theorem Expr.outcome_trace (e : Expr) : e.trace.outcome = e.value := by
  induction e with
  | literal v => rfl
  | unary op e ih => exact congrArg op.apply ih
  | binary op l r ihl ihr =>
    simp only [Expr.trace, Expr.value, ihl, ihr]
    split <;> rfl

end Workflow
