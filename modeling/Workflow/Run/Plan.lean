import Workflow.Event
import Workflow.Run.Visits
import Workflow.Timings

/-!
# The plan of a run

What a run will do is settled before it starts: its graph, context and timings determine every
notification and every pause.  A plan is the list of these actions.  It opens with two lines on the
run as a whole, goes on with one block for every visit, and closes with a line and the notification
of completion; without an entry step it only says so.

* `durationMs` and `payloadPreview` are what waits and calls need.
* `StepKind.utterances` is what a kind of step says, and how long it pauses after each line.
* `Setup.plan` is the whole plan.
-/

namespace Workflow

/-! ## Waits and calls -/

/-- The longest wait, in milliseconds, that is simulated. -/
def maxSimulatedMs : UInt64 := 5000

/-- The length of a wait in milliseconds; one that is negative or not finite has none.  Waits in
seconds are cut at `maxSimulatedMs`. -/
def durationMs (duration : Float) (unit : DurationUnit) : UInt64 :=
  let length := if duration.isFinite && 0 < duration then duration else 0
  match unit with
  | .seconds => min (length * 1000).toUInt64 maxSimulatedMs
  | .minutes => (length * 60000).toUInt64
  | .hours => (length * 3600000).toUInt64

/-- The length of a wait that a run shows. -/
def simulatedMs (duration : Float) (unit : DurationUnit) : UInt64 :=
  min (durationMs duration unit) maxSimulatedMs

/-- The text of a duration, which keeps the sign of a negative zero. -/
def durationText (duration : Float) : String :=
  if duration.isNaN then "NaN"
  else if duration.isInf then if duration < 0 then "-inf" else "inf"
  else String.ofList (Value.numberLayout.text duration)

/-- How much of a payload is shown, in characters. -/
def previewLength : Nat := 50

/-- The front of a payload, with three dots if something is cut. -/
def payloadPreview (payload : String) : String :=
  let cs := payload.toList
  if previewLength < cs.length then String.ofList (cs.take previewLength ++ "...".toList)
  else payload

/-! ## What a step says -/

/-- Something that a step says, and the pause after it in milliseconds. -/
structure Utterance where
  message : String
  severity : Severity
  pause : Nat
deriving DecidableEq, Repr

/-- What a condition says. -/
def conditionMessage (expression : String) (result : Bool) : String :=
  let shown := if expression = "" then "empty" else expression
  let verdict := if result then "TRUE" else "FALSE"
  s!"Evaluating: \"{shown}\" → {verdict}"

/-- What a wait says when it begins. -/
def waitMessage (duration : Float) (unit : DurationUnit) : String :=
  let simulated := (simulatedMs duration unit).toNat
  s!"Waiting {durationText duration} {unit.name}... (simulated: {simulated}ms)"

/-- What a kind of step says. -/
def StepKind.utterances (c : Context) (t : Timings) : StepKind → List Utterance
  | .entry => [⟨"Workflow started", .success, t.entry.toNat⟩]
  | .condition expression =>
    let result := conditionResult c expression
    let severity : Severity := if result then .success else .warning
    [⟨conditionMessage expression result, severity, t.condition.toNat⟩]
  | .wait duration unit =>
    [⟨waitMessage duration unit, .info, (min (simulatedMs duration unit) t.maxWait).toNat⟩,
      ⟨"Delay completed", .success, 0⟩]
  | .call url payload =>
    [⟨"Calling webhook: " ++ url, .info, t.callRequest.toNat⟩,
      ⟨"Payload: " ++ payloadPreview payload, .info, t.callResponse.toNat⟩,
      ⟨"Webhook called successfully (simulated)", .success, 0⟩]
  | .log message => [⟨"LOG: " ++ message, .info, t.log.toNat⟩]
  | .terminal => [⟨"Workflow completed", .success, t.terminal.toNat⟩]
  | .unknown name => [⟨"Unknown node type: " ++ name, .warning, 0⟩]

/-! ## Plans -/

/-- An action of a run. -/
inductive Action where
  | notify (e : Event)
  | pause (ms : Nat)
deriving DecidableEq, Repr

/-- What a run is given. -/
structure Setup where
  graph : Graph
  context : Context := .demo
  timings : Timings := .reference

namespace Setup

/-- The actions of one utterance. -/
def utter (s : Step) (u : Utterance) : List Action :=
  [.notify (.log (.ofStep s u.message u.severity)), .pause u.pause]

/-- The actions of a visit. -/
def block (r : Setup) (s : Step) : List Action :=
  [.notify (.enter s.id), .pause r.timings.stepEnter.toNat] ++
    (s.kind.utterances r.context r.timings).flatMap (utter s) ++
    [.notify (.exit s.id), .pause r.timings.stepExit.toNat]

/-- The lines before the first visit. -/
def opening (r : Setup) : List LogLine :=
  [.ofRun "entry" "Starting workflow execution..." .info,
    .ofRun "entry" ("Context variables: " ++ r.context.text) .info]

/-- The line after the last visit. -/
def closing : LogLine :=
  .ofRun "terminal" "Execution finished" .success

/-- The only line of a run that has nowhere to start. -/
def noEntry : LogLine :=
  .ofRun "entry" "No Start node found in workflow" .error

/-- The actions of a line of the run as a whole. -/
def announce (line : LogLine) : Action :=
  .notify (.log line)

/-- The actions of a run, if nobody cancels it. -/
def plan (r : Setup) : List Action :=
  match r.graph.entry? with
  | none => [announce noEntry, .notify .complete]
  | some _ =>
    r.opening.map announce ++ (r.graph.visits r.context).flatMap r.block ++
      [announce closing, .notify .complete]

end Setup
end Workflow
