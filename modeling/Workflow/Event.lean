import Workflow.Log

/-!
# Notifications

What a run tells whoever watches it: that it enters a step, says something, leaves the step, and in
the end that it is complete or was cancelled.

* `Progress.record` is what a viewer knows after one more notification, `Progress.ofEvents` what it
  knows after a list of them.
-/

namespace Workflow

/-- A notification of a run. -/
inductive Event where
  | enter (stepId : String)
  | exit (stepId : String)
  | log (line : LogLine)
  | complete
  | cancelled
deriving DecidableEq, Repr

/-- The kinds of notification. -/
inductive EventKind where
  | enter
  | exit
  | log
  | complete
  | cancelled
deriving DecidableEq, Repr

/-- The kind of a notification. -/
def Event.kind : Event → EventKind
  | .enter _ => .enter
  | .exit _ => .exit
  | .log _ => .log
  | .complete => .complete
  | .cancelled => .cancelled

/-- What a viewer of a run knows. -/
structure Progress where
  isRunning : Bool := false
  /-- The step that was entered and not yet left. -/
  current : Option String := none
  logs : List LogLine := []
  /-- The steps in the order in which they were entered. -/
  visited : List String := []
deriving DecidableEq, Repr

namespace Progress

/-- What a viewer knows after one more notification. -/
def record (p : Progress) : Event → Progress
  | .enter id => { p with isRunning := true, current := some id, visited := p.visited ++ [id] }
  | .exit _ => { p with current := none }
  | .log line => { p with isRunning := true, logs := p.logs ++ [line] }
  | .complete | .cancelled => { p with isRunning := false, current := none }

/-- What a viewer knows after some notifications. -/
def ofEvents (events : List Event) : Progress :=
  events.foldl record {}

end Progress
end Workflow
