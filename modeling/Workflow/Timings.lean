import Workflow.Json.Diagnosis
import Workflow.Json.Reader
import Workflow.Json.Record
import Workflow.Json.Writer

/-!
# Timings

How long a run pauses, in milliseconds.  A timings record may be written with any of its fields left
out; those keep their defaults, which pace a run so that a viewer can follow it.
-/

namespace Workflow

/-- The pauses of a run, in milliseconds. -/
structure Timings where
  /-- After a step is entered. -/
  stepEnter : UInt64 := 300
  /-- After a step is left. -/
  stepExit : UInt64 := 200
  entry : UInt64 := 500
  condition : UInt64 := 800
  /-- Between the request of a call and its payload. -/
  callRequest : UInt64 := 600
  /-- Between the payload of a call and its response. -/
  callResponse : UInt64 := 400
  log : UInt64 := 500
  terminal : UInt64 := 500
  /-- The longest that a wait may last. -/
  maxWait : UInt64 := 5000
deriving DecidableEq, Repr

namespace Timings

/-- The reference timings. -/
def reference : Timings := {}

/-- No pauses at all. -/
def instant : Timings := ⟨0, 0, 0, 0, 0, 0, 0, 0, 0⟩

/-- The names of the fields, in order. -/
def fieldNames : List String :=
  ["step_enter_ms", "step_exit_ms", "entry_ms", "condition_ms", "call_request_ms",
    "call_response_ms", "log_ms", "terminal_ms", "max_wait_ms"]

/-- The values of the fields, in order. -/
def fieldValues (t : Timings) : List UInt64 :=
  [t.stepEnter, t.stepExit, t.entry, t.condition, t.callRequest, t.callResponse, t.log,
    t.terminal, t.maxWait]

/-- Reads a timings record from a JSON value. -/
def ofJson? (j : Json) : Option Timings :=
  let field (default : UInt64) := Json.defaulted default Json.natural?
  match j.slots? (fieldNames.map ([·])) with
  | some [enter, exit, entry, condition, request, response, log, terminal, wait] => do
    return {
      stepEnter := ← field reference.stepEnter enter
      stepExit := ← field reference.stepExit exit
      entry := ← field reference.entry entry
      condition := ← field reference.condition condition
      callRequest := ← field reference.callRequest request
      callResponse := ← field reference.callResponse response
      log := ← field reference.log log
      terminal := ← field reference.terminal terminal
      maxWait := ← field reference.maxWait wait }
  | _ => none

/-- A timings record as a JSON value, all of its fields given. -/
def toJson (t : Timings) : Json :=
  .object (fieldNames.zip (t.fieldValues.map fun n => .number (.natural n)))

/-- Reads a timings record. -/
def parse? (source : String) : Option Timings :=
  (Json.parse? source).bind ofJson?

/-- The shape of a timings record. -/
def shape : Json.Shape :=
  .ofFields "ExecutionTimings" (fieldNames.map ([·])) (fieldNames.map fun _ => (false, .natural))

/-- Reads a timings record, or says what is wrong. -/
def parse (source : String) : Except Json.Fault Timings :=
  match parse? source with
  | some t => .ok t
  | none => .error (Json.faultOf shape source)

/-- The JSON text of a timings record. -/
def text (t : Timings) : String :=
  t.toJson.text

end Timings
end Workflow
