import Workflow.Token

/-!
# What can be wrong with an expression

Four faults belong to the characters of a text and three to the order of its tokens.
-/

namespace Workflow

/-- What the grammar asks for at some point. -/
inductive Expectation where
  | closeParen
  | operand
  | endOfExpression
deriving DecidableEq, Repr

/-- A fault in the text of an expression.  Offsets count the bytes of the text in UTF-8. -/
inductive ExprError where
  | unexpectedCharacter (found : Char) (offset : Nat)
  | unterminatedString (offset : Nat)
  | invalidNumber (text : String)
  | unexpectedToken (found : Token) (expected : Expectation)
  | unexpectedEnd (expected : Expectation)
  | unknownIdentifier (name : String)
  | tooDeep
deriving DecidableEq, Repr

/-- How deep the operators of an expression may be nested while it is read. -/
def maxDepth : Nat := 64

/-- How a message names what was asked for. -/
def Expectation.text : Expectation → String
  | .closeParen => "')'"
  | .operand => "an operand"
  | .endOfExpression => "end of expression"

/-- The message for a fault. -/
def ExprError.message : ExprError → String
  | .unexpectedCharacter c offset => s!"Unexpected character '{c}' at offset {offset}"
  | .unterminatedString offset => s!"Unterminated string literal starting at offset {offset}"
  | .invalidNumber text => s!"Invalid number literal '{text}'"
  | .unexpectedToken found expected =>
    let token := String.ofList found.display
    s!"Unexpected token '{token}', expected {expected.text}"
  | .unexpectedEnd expected => s!"Unexpected end of expression, expected {expected.text}"
  | .unknownIdentifier name => s!"Identifier '{name}' is not defined"
  | .tooDeep => s!"Expression nesting exceeds the maximum depth of {maxDepth}"

end Workflow
