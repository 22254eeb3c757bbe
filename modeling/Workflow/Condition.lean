import Workflow.Context
import Workflow.Expr.Parser
import Workflow.Expr.Trace
import Workflow.Text.Word

/-!
# Conditions

A condition is a text that is evaluated in three stages.  First the variables of the context are put
in as text: every whole word that is the name of a variable gives way to the variable's JSON text.
Then the text is screened: it may hold letters, digits, blanks and the characters of the operators,
and nothing else.  Then it is parsed and evaluated.  A condition that does not come through counts
as true.

* `Context.substitute` is the first stage, `isPermitted` the second.
* `evaluateCondition` does all three and says how far it came.

A name is looked for as a pattern, a word boundary before it and one after it, in which no character
of the name is special.  Every such pattern is taken to compile.  A variable whose pattern does not,
because its name is too long for one, would be passed over; there is no such variable here.
-/

namespace Workflow

/-- Puts the variables of a context in the place of their names, one variable after the other in the
order of the context; so a value that holds the name of a later variable is not the last word. -/
def Context.substituteChars (c : Context) (cs : List Char) : List Char :=
  c.entries.foldl (fun cs (name, s) => Text.replaceWhole name.toList s.literal cs) cs

/-- Puts the variables of a context in the place of their names. -/
def Context.substitute (c : Context) (source : String) : String :=
  String.ofList (c.substituteChars source.toList)

/-- A character that a condition may hold. -/
def isPermittedChar (c : Char) : Bool :=
  c.isAlphanum || Text.isBlank c || "+-*/<>=!&|().,\"'".toList.contains c

/-- Whether a condition holds permitted characters only. -/
def isPermitted (source : String) : Bool :=
  source.toList.all isPermittedChar

/-- How a condition came to its result. -/
inductive Resolution where
  /-- There was nothing but blanks. -/
  | empty
  | evaluated (substituted : String) (trace : Trace)
  | rejected (substituted : String)
  | failed (substituted : String) (fault : ExprError)
deriving DecidableEq, Repr

/-- The result: false only for a condition that was evaluated and came out false. -/
def Resolution.result : Resolution → Bool
  | .evaluated _ trace => trace.outcome.isTruthy
  | _ => true

/-- Evaluates a condition against a context. -/
def evaluateCondition (source : String) (c : Context) : Resolution :=
  if Text.trim source.toList = [] then .empty
  else
    let substituted := c.substitute source
    if isPermitted substituted then
      match parseExpr substituted with
      | .ok e => .evaluated substituted e.trace
      | .error fault => .failed substituted fault
    else .rejected substituted

end Workflow
