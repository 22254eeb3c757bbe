import Workflow.Run.Basic

/-!
# Several runs at once

A session starts runs and lets time pass.  A run that was started does nothing until the session
first waits; from then on it goes ahead whenever the time of its next action has come.  Cancelling a
run sets a mark that the run sees before its next notification.

* `Task` is a run on its way: what it has still to do, when, and what it has delivered.
* `Task.advance` carries out what is due.
* `Session.start`, `Session.sleep`, `Session.cancel` and `Session.join` are the steps of a session.
-/

namespace Workflow

/-! ## Tasks -/

/-- A run on its way. -/
structure Task where
  /-- The time at which the run was started. -/
  started : Nat
  /-- The time of the next action. -/
  due : Nat
  /-- The actions still to be carried out. -/
  remaining : List Action
  isCancelled : Bool := false
  /-- Whether the run has had a chance to go ahead. -/
  hasBegun : Bool := false
  /-- What was delivered, the latest first. -/
  delivered : List Timed := []
  outcome : Option Outcome := none
deriving DecidableEq, Repr

/-- Where a task stands. -/
inductive TaskStatus where
  | idle
  | running
  | completed
  | cancelled
deriving DecidableEq, Repr

namespace Task

/-- A run of the given actions that is started now. -/
def spawn (now : Nat) (actions : List Action) : Task where
  started := now
  due := now
  remaining := actions

/-- The notifications, in the order of their delivery and timed from the start of the run. -/
def events (t : Task) : List Timed :=
  t.delivered.reverse

/-- Where the task stands. -/
def status (t : Task) : TaskStatus :=
  match t.outcome with
  | some .completed => .completed
  | some .cancelled => .cancelled
  | none => if t.hasBegun then .running else .idle

/-- Whether the run has ended. -/
def isFinished (t : Task) : Bool :=
  t.outcome.isSome

/-- The task after a notification. -/
def deliver (t : Task) (e : Event) : Task :=
  { t with delivered := ⟨t.due - t.started, e⟩ :: t.delivered }

/-- Carries out the given actions as far as they are due; without a limit, all of them. -/
def carryOut (limit : Option Nat) (t : Task) : List Action → Task
  | [] => { t with remaining := [], outcome := some .completed }
  | .pause ms :: rest =>
    let t := { t with due := t.due + ms, remaining := rest }
    if limit.all (t.due ≤ ·) then carryOut limit t rest else t
  | .notify e :: rest =>
    if t.isCancelled then
      { t.deliver .cancelled with remaining := [], outcome := some .cancelled }
    else carryOut limit { t.deliver e with remaining := rest } rest

/-- Lets the run go ahead as far as it is due. -/
def advance (limit : Option Nat) (t : Task) : Task :=
  if t.isFinished then t
  else if limit.all (t.due ≤ ·) then carryOut limit { t with hasBegun := true } t.remaining
  else t

/-- Marks the run as cancelled. -/
def cancel (t : Task) : Task :=
  { t with isCancelled := true }

end Task

/-! ## Sessions -/

/-- The runs of a session by name, in the order of their start, and the time. -/
structure Session where
  now : Nat := 0
  tasks : List (String × Task) := []

namespace Session

/-- The run with a name. -/
def task? (s : Session) (name : String) : Option Task :=
  s.tasks.lookup name

/-- Changes the run with a name. -/
def update (s : Session) (name : String) (f : Task → Task) : Session :=
  { s with tasks := s.tasks.map fun (n, t) => (n, if n = name then f t else t) }

/-- Starts a run. -/
def start (s : Session) (name : String) (actions : List Action) : Session :=
  { s with tasks := s.tasks ++ [(name, .spawn s.now actions)] }

/-- Waits until a time. -/
def waitUntil (s : Session) (time : Nat) : Session where
  now := time
  tasks := s.tasks.map fun (n, t) => (n, t.advance (some time))

/-- Waits for some milliseconds. -/
def sleep (s : Session) (ms : Nat) : Session :=
  s.waitUntil (s.now + ms)

/-- Cancels a run. -/
def cancel (s : Session) (name : String) : Session :=
  s.update name Task.cancel

/-- Waits until a run has ended; not at all if it has ended already. -/
def join (s : Session) (name : String) : Session :=
  match s.task? name with
  | none => s
  | some t => if t.isFinished then s else s.waitUntil (t.advance none).due

end Session
end Workflow
