import Workflow.Expr.Lexer

/-!
# Parsing expressions

The grammar has seven levels of chains, each of operands of the next level joined from the left by
the operators of its own, then operators before an operand, then literals and parentheses.  What is
still open when a token is read, that is every parenthesis, every operator before an operand and
every operator of an unfinished chain, counts against `maxDepth`.

* `chainOperators` are the operators of each level.
* `parseLevel`, `parseChain`, `parseUnary` and `parsePrimary` read the front of a token list at a
  given depth and give back the tokens they leave.
* `parseTokens` reads a whole list, `parseExpr` a text.

Every call hands down a greater depth or asks for a tighter level, so the recursion ends because the
depth is limited.
-/

namespace Workflow

/-- What a parser gives back: a tree and the tokens after it, or a fault. -/
abbrev Parsed := Except ExprError (Expr × List Token)

/-- The literal that a name stands for. -/
def keyword? (name : String) : Option Value :=
  if name = "true" then some (.bool true)
  else if name = "false" then some (.bool false)
  else if name = "null" ∨ name = "undefined" then some .null
  else if name = "NaN" then some (.number Value.nan)
  else if name = "Infinity" then some (.number Value.infinity)
  else none

/-- The operators that the chains of a level are joined by, with the symbols they are read from. -/
def chainOperators : Nat → List (Symbol × BinaryOp)
  | 0 => [(.comma, .sequence)]
  | 1 => [(.or, .or)]
  | 2 => [(.and, .and)]
  | 3 =>
    [(.equal, .equal), (.notEqual, .notEqual), (.strictEqual, .strictEqual),
      (.strictNotEqual, .strictNotEqual)]
  | 4 =>
    [(.less, .less), (.greater, .greater), (.lessEqual, .lessEqual),
      (.greaterEqual, .greaterEqual)]
  | 5 => [(.plus, .add), (.minus, .subtract)]
  | 6 => [(.star, .multiply), (.slash, .divide)]
  | _ => []

/-- The operator of a level at the front of a token list, and what follows it. -/
def operatorAt? (level : Nat) : List Token → Option (BinaryOp × List Token)
  | .symbol s :: rest => ((chainOperators level).lookup s).map (·, rest)
  | _ => none

/-- Reads the parenthesis that ends a group. -/
def closeGroup (e : Expr) : List Token → Parsed
  | .symbol .closeParen :: rest => .ok (e, rest)
  | token :: _ => .error (.unexpectedToken token .closeParen)
  | [] => .error (.unexpectedEnd .closeParen)

mutual

/-- Reads a chain of the given level; levels past the last chain are operators before an operand. -/
def parseLevel (level depth : Nat) (tokens : List Token) : Parsed :=
  if level < unaryLevel then
    match parseLevel (level + 1) depth tokens with
    | .error fault => .error fault
    | .ok (left, rest) => parseChain level depth left rest
  else parseUnary depth tokens
termination_by (maxDepth - depth, 2 + (unaryLevel - level))

/-- Goes on with a chain whose operands so far are `left`. -/
def parseChain (level depth : Nat) (left : Expr) (tokens : List Token) : Parsed :=
  match operatorAt? level tokens with
  | none => .ok (left, tokens)
  | some (op, rest) =>
    if depth < maxDepth then
      match parseLevel (level + 1) (depth + 1) rest with
      | .error fault => .error fault
      | .ok (right, rest) => parseChain level (depth + 1) (.binary op left right) rest
    else .error .tooDeep
termination_by (maxDepth - depth, 0)

/-- Reads operators before an operand, and the operand. -/
def parseUnary (depth : Nat) (tokens : List Token) : Parsed :=
  match tokens with
  | .symbol s :: rest =>
    match s.unaryOp? with
    | some op =>
      if depth < maxDepth then
        match parseUnary (depth + 1) rest with
        | .error fault => .error fault
        | .ok (operand, rest) => .ok (.unary op operand, rest)
      else .error .tooDeep
    | none => parsePrimary depth tokens
  | _ => parsePrimary depth tokens
termination_by (maxDepth - depth, 1)

/-- Reads a literal or a group. -/
def parsePrimary (depth : Nat) (tokens : List Token) : Parsed :=
  match tokens with
  | .number x :: rest => .ok (.literal (.number x), rest)
  | .string s :: rest => .ok (.literal (.string s), rest)
  | .ident name :: rest =>
    match keyword? name with
    | some v => .ok (.literal v, rest)
    | none => .error (.unknownIdentifier name)
  | .symbol .openParen :: rest =>
    if depth < maxDepth then
      match parseLevel 0 (depth + 1) rest with
      | .error fault => .error fault
      | .ok (e, rest) => closeGroup e rest
    else .error .tooDeep
  | token :: _ => .error (.unexpectedToken token .operand)
  | [] => .error (.unexpectedEnd .operand)
termination_by (maxDepth - depth, 0)

end

/-- Reads a list of tokens that is one expression. -/
def parseTokens (tokens : List Token) : Except ExprError Expr :=
  match parseLevel 0 0 tokens with
  | .error fault => .error fault
  | .ok (e, []) => .ok e
  | .ok (_, token :: _) => .error (.unexpectedToken token .endOfExpression)

/-- Reads a text that is one expression. -/
def parseExpr (source : String) : Except ExprError Expr :=
  match tokenize source with
  | .error fault => .error fault
  | .ok tokens => parseTokens tokens

end Workflow
