import Workflow.CommandLine.Preparation

/-!
# Reports

What a command prints, and the code that it exits with.  A run is reported as it goes: in plain style
its notifications with a line or two around them, in JSON style its log entries and nothing else.

* `Event.printed?` is what is printed for a notification.
* `respond` is the whole report of a command, given the files and what tells its log entries apart.
-/

namespace Workflow

/-- The styles of a report. -/
inductive Style where
  | plain
  | json
deriving DecidableEq, Repr

/-- What makes a line of the log an entry, and the offset of local time from universal time, in
minutes. -/
structure Stamp where
  id : String
  timestamp : Instant
  offset : Int := 0

/-- The entry that a line becomes. -/
def LogLine.stamped (l : LogLine) (s : Stamp) : LogEntry :=
  { l with id := s.id, timestamp := s.timestamp }

/-- The mark that a severity is printed with. -/
def Severity.mark : Severity → String
  | .info => " "
  | .success => "+"
  | .warning => "!"
  | .error => "x"

/-- A line of the log in plain style. -/
def LogLine.plainText (l : LogLine) (s : Stamp) : String :=
  let clock := s.timestamp.clockText s.offset
  s!"{clock} {l.severity.mark} [{l.stepLabel}] {l.message}"

/-- The blank space before what is printed without a time of day. -/
def indent : String := String.ofList (List.replicate 14 ' ')

/-- What is printed for a notification, if anything; a line end follows it. -/
def Event.printed? (style : Style) (s : Stamp) (e : Event) : Option String :=
  match style, e with
  | .json, .log line => some (line.stamped s).text
  | .json, _ => none
  | .plain, .enter id => some s!"{indent} >> {id}"
  | .plain, .exit id => some s!"{indent} << {id}"
  | .plain, .log line => some (line.plainText s)
  | .plain, .complete => some "\nRun completed."
  | .plain, .cancelled => some "\nRun cancelled."

/-- What is printed before a run, if anything. -/
def Setup.heading? (style : Style) (name : String) (r : Setup) : Option String :=
  match style with
  | .json => none
  | .plain => some s!"Running workflow '{name}' ({r.graph.steps.length} steps)\n"

/-- What is printed for a list of notifications. -/
def printEvents (style : Style) (stamps : Nat → Stamp) (events : List Event) : List String :=
  events.zipIdx.filterMap fun (e, index) => e.printed? style (stamps index)

/-- What is printed for a valid graph. -/
def validText (name : String) (g : Graph) : String :=
  s!"Workflow '{name}' is valid: {g.steps.length} steps, {g.transitions.length} transitions."

/-- What a command prints, each item followed by a line end, and the code that it exits with.  A
failure is printed apart from the rest. -/
structure Report where
  exitCode : Nat
  output : List String
  failure : Option String := none
deriving DecidableEq, Repr

/-- The exit code for an outcome of a run. -/
def Outcome.exitCode : Outcome → Nat
  | .completed => 0
  | .cancelled => 130

/-- The style that is asked for. -/
def Options.style (o : Options) : Style :=
  if o.isJson then .json else .plain

/-- The report of a command that is neither about help nor about the version. -/
def Options.respond (o : Options) (files : Files) (stamps : Nat → Stamp) : Report :=
  match o.prepare files with
  | .error failure => ⟨1, [], some failure.message⟩
  | .ok (.validated name graph) => ⟨0, [validText name graph], none⟩
  | .ok (.run name setup) =>
    let execution := setup.run .never
    let events := execution.events.map Timed.event
    { exitCode := execution.outcome.exitCode
      output := (setup.heading? o.style name).toList ++ printEvents o.style stamps events }

/-- The report of a command. -/
def respond (arguments : List String) (files : Files) (stamps : Nat → Stamp) : Report :=
  match Arguments.parse? arguments with
  | none => ⟨2, [], none⟩
  | some .help => ⟨0, Arguments.helpLines, none⟩
  | some .version => ⟨0, [Arguments.versionText], none⟩
  | some (.run o) => o.respond files stamps

end Workflow
