import Workflow.Json.Diagnosis
import Workflow.Json.Reader
import Workflow.Json.Writer
import Workflow.OrderedMap
import Workflow.Value

/-!
# Contexts

The variables that conditions are evaluated against: an insertion-ordered map from names to scalars,
which is written and read as a JSON object.  Arrays and objects are no values of a variable.

* `Context.insert?` sets a variable to a JSON value, if that is a scalar.
* `Context.parse` reads a context, `Context.text` writes one.
* `Context.value?` is what a variable counts as in an expression.
-/

namespace Workflow

/-- A value of a variable. -/
inductive Scalar where
  | null
  | bool (b : Bool)
  | number (n : JsonNumber)
  | string (s : String)
deriving DecidableEq

namespace Scalar

/-- The scalar that a JSON value is, if it is one. -/
def ofJson? : Json → Option Scalar
  | .null => some .null
  | .bool b => some (.bool b)
  | .number n => some (.number n)
  | .string s => some (.string s)
  | _ => none

/-- A scalar as a JSON value. -/
def toJson : Scalar → Json
  | .null => .null
  | .bool b => .bool b
  | .number n => .number n
  | .string s => .string s

/-- What a scalar counts as in an expression. -/
def toValue : Scalar → Value
  | .null => .null
  | .bool b => .bool b
  | .number n => .number n.toFloat
  | .string s => .string s

/-- The JSON text of a scalar, which is also what a condition sees in the place of a variable. -/
def literal (s : Scalar) : List Char :=
  s.toJson.write

/-- A natural number as a scalar. -/
def ofNat (n : Nat) : Scalar :=
  .number (.natural (UInt64.ofNat n))

end Scalar

/-- The variables of a run, in the order of their insertion. -/
abbrev Context := OrderedMap Scalar

/-- Why there is no context. -/
inductive ContextError where
  /-- The value of this variable is an array or an object. -/
  | nonScalar (name : String)
  | notAnObject
  | malformed (fault : Json.Fault)
deriving DecidableEq, Repr

/-- The message for a context that cannot be had. -/
def ContextError.message : ContextError → String
  | .nonScalar name => s!"Context variable '{name}' must be a number, boolean, string or null"
  | .notAnObject => "Execution context must be a JSON object"
  | .malformed fault => "Failed to parse context JSON: " ++ fault.message

namespace Context

/-- The variables that a run has if it is given none. -/
def demo : Context :=
  ((OrderedMap.empty.insert "value" (.ofNat 15)).insert "count" (.ofNat 3)).insert "x" (.ofNat 10)

/-- Sets a variable, unless the value is an array or an object. -/
def insert? (c : Context) (name : String) (j : Json) : Except ContextError Context :=
  match Scalar.ofJson? j with
  | some s => .ok (c.insert name s)
  | none => .error (.nonScalar name)

/-- Sets variables one after the other. -/
def insertAll? (c : Context) : List (String × Json) → Except ContextError Context
  | [] => .ok c
  | (name, j) :: rest => do insertAll? (← c.insert? name j) rest

/-- The context of a list of members; of a name that stands twice the last value counts, at the
first place. -/
def ofMembers? (members : List (String × Json)) : Except ContextError Context :=
  insertAll? .empty (OrderedMap.ofList members).entries

/-- The context that a usable JSON value describes. -/
def ofJson? (j : Json) : Except ContextError Context :=
  match j with
  | .object members => ofMembers? members
  | _ => .error .notAnObject

/-- Reads a context. -/
def parse (source : String) : Except ContextError Context :=
  match (Json.parse? source).filter Json.isUsable with
  | some j => ofJson? j
  | none => .error (.malformed (Json.faultOf .any source))

/-- A context as a JSON value. -/
def toJson (c : Context) : Json :=
  .object (c.entries.map fun (name, s) => (name, s.toJson))

/-- The JSON text of a context. -/
def text (c : Context) : String :=
  c.toJson.text

/-- What a variable counts as in an expression. -/
def value? (c : Context) (name : String) : Option Value :=
  (c.get? name).map Scalar.toValue

end Context
end Workflow
