import Workflow.Instant
import Workflow.Json.Reader
import Workflow.Json.Record
import Workflow.Json.Writer
import Workflow.Step

/-!
# The log

A run reports what it does in log lines.  A line belongs to a step or to the run as a whole, in which
case its step id is empty.  Once delivered it is an entry, with an id of its own and the instant of
its delivery.

* `LogLine.ofStep` and `LogLine.ofRun` make lines.
* `LogEntry.text` writes an entry as JSON, `LogEntry.parse?` reads one.
-/

namespace Workflow

/-- How a line should be presented. -/
inductive Severity where
  | info
  | success
  | warning
  | error
deriving DecidableEq, Repr

/-- The name of a severity. -/
def Severity.name : Severity → String
  | .info => "info"
  | .success => "success"
  | .warning => "warning"
  | .error => "error"

/-- The severities by name. -/
def Severity.names : List (String × Severity) :=
  [("info", .info), ("success", .success), ("warning", .warning), ("error", .error)]

/-- What a run says at one point. -/
structure LogLine where
  stepId : String
  stepKind : String
  stepLabel : String
  message : String
  severity : Severity
deriving DecidableEq, Repr

namespace LogLine

/-- A line of a step. -/
def ofStep (s : Step) (message : String) (severity : Severity) : LogLine where
  stepId := s.id
  stepKind := s.kind.name
  stepLabel := s.label
  message := message
  severity := severity

/-- A line of the run as a whole, put down to a kind of step. -/
def ofRun (stepKind message : String) (severity : Severity) : LogLine where
  stepId := ""
  stepKind := stepKind
  stepLabel := "System"
  message := message
  severity := severity

/-- A line as a JSON value, with the id and the text of the instant that its entry has. -/
def toJson (l : LogLine) (id timestamp : String) : Json :=
  .object [("id", .string id), ("timestamp", .string timestamp), ("step_id", .string l.stepId),
    ("step_kind", .string l.stepKind), ("step_label", .string l.stepLabel),
    ("message", .string l.message), ("severity", .string l.severity.name)]

end LogLine

/-- A line as it was delivered. -/
structure LogEntry extends LogLine where
  id : String
  timestamp : Instant
deriving DecidableEq, Repr

namespace LogEntry

/-- The names of the fields, in order. -/
def fieldNames : List String :=
  ["id", "timestamp", "step_id", "step_kind", "step_label", "message", "severity"]

/-- Reads an instant from a JSON value. -/
def instant? (j : Json) : Option Instant :=
  j.string?.bind fun s => (Instant.parse s).toOption

/-- Reads an entry from a JSON value. -/
def ofJson? (j : Json) : Option LogEntry :=
  let text := Json.required Json.string?
  match j.slots? (fieldNames.map ([·])) with
  | some [id, timestamp, stepId, stepKind, stepLabel, message, severity] => do
    return {
      id := ← text id
      timestamp := ← Json.required instant? timestamp
      stepId := ← text stepId
      stepKind := ← text stepKind
      stepLabel := ← text stepLabel
      message := ← text message
      severity := ← Json.required (Json.choice? Severity.names) severity }
  | _ => none

/-- An entry as a JSON value. -/
def toJson (e : LogEntry) : Json :=
  e.toLogLine.toJson e.id e.timestamp.text

/-- Reads an entry. -/
def parse? (source : String) : Option LogEntry :=
  (Json.parse? source).bind ofJson?

/-- The JSON text of an entry. -/
def text (e : LogEntry) : String :=
  e.toJson.text

end LogEntry
end Workflow
