import Workflow.Run.Plan

/-!
# Runs

A run carries out its plan on a clock that only the pauses of the plan advance.  Before every
notification it looks whether it was cancelled; if so, it notifies of that and of nothing more.  A
pause is never cut short.

* `Cancellation` is when a run is cancelled, if ever.
* `execute` carries out a list of actions, `Setup.run` the plan of a run.
-/

namespace Workflow

/-- A notification with the time of its delivery, in milliseconds from the beginning of the run. -/
structure Timed where
  time : Nat
  event : Event
deriving DecidableEq, Repr

/-- How a run ended. -/
inductive Outcome where
  | completed
  | cancelled
deriving DecidableEq, Repr

/-- The moment at which a run is cancelled. -/
inductive Cancellation where
  | never
  /-- Before the run begins. -/
  | before
  /-- While the notification with this number, from one on, is delivered, of those of one kind if a
  kind is given. -/
  | during (kind : Option EventKind) (count : Nat)
  /-- At this time, while the run pauses. -/
  | at (time : Nat)
deriving DecidableEq, Repr

/-- Whether a run is cancelled at a time, after the given notifications. -/
def Cancellation.hasHappened (c : Cancellation) (delivered : List Event) (time : Nat) : Bool :=
  match c with
  | .never => false
  | .before => true
  | .during kind count =>
    let matching := delivered.filter fun e => kind.all (· == e.kind)
    0 < count && count ≤ matching.length
  | .at moment => moment < time

/-- What there is to tell of a run. -/
structure Execution where
  events : List Timed
  outcome : Outcome
  endTime : Nat
deriving DecidableEq, Repr

/-- Carries out actions from a time on, after the given notifications. -/
def executeFrom (c : Cancellation) (delivered : List Event) (time : Nat) : List Action → Execution
  | [] => ⟨[], .completed, time⟩
  | .pause ms :: rest => executeFrom c delivered (time + ms) rest
  | .notify e :: rest =>
    if c.hasHappened delivered time then ⟨[⟨time, .cancelled⟩], .cancelled, time⟩
    else
      let later := executeFrom c (e :: delivered) time rest
      { later with events := ⟨time, e⟩ :: later.events }

/-- Carries out actions. -/
def execute (c : Cancellation) (actions : List Action) : Execution :=
  executeFrom c [] 0 actions

/-- A run that is cancelled at the given moment. -/
def Setup.run (r : Setup) (c : Cancellation) : Execution :=
  execute c r.plan

end Workflow
