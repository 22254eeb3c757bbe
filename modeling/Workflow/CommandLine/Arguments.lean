/-!
# Arguments

What the command line may be asked for.  An argument that begins with a hyphen and goes on is an
option, up to an argument of two hyphens; every other one is a path.  An option with a value has it in
the same argument, after an equals sign or, where the option is a single letter, right after that, or
else in the next argument, which then must not look like an option.  No option may be given twice.

* `Arguments.parse?` reads the arguments, in their order; a request for help or for the version is
  granted at once, whatever comes after it.
-/

namespace Workflow

/-- What a command asks for, apart from help and the version. -/
structure Options where
  /-- The path of the workflow. -/
  workflow : String
  /-- The path of the context, if not the one for demonstrations. -/
  context : Option String := none
  /-- The path of the timings, if not the reference timings. -/
  timings : Option String := none
  /-- Whether to leave out all pauses. -/
  isInstant : Bool := false
  /-- Whether to print log entries as JSON. -/
  isJson : Bool := false
  /-- Whether to look at the structure only. -/
  onlyValidates : Bool := false
deriving DecidableEq, Repr

/-- What a command asks for. -/
inductive Request where
  | help
  | version
  | run (o : Options)
deriving DecidableEq, Repr

namespace Arguments

/-- The options without a value. -/
inductive Switch where
  | instant
  | json
  | validate
deriving DecidableEq, Repr

/-- The options with a value. -/
inductive Setting where
  | context
  | timings
deriving DecidableEq, Repr

/-- What an argument says by itself. -/
inductive Argument where
  | help
  | version
  | switch (s : Switch)
  /-- A setting, whose value may have to be taken from the next argument. -/
  | setting (s : Setting) (value : Option String)
  | separator
  | path (text : String)
  | unknown
deriving DecidableEq, Repr

/-- What an option with a long name says, given what stands after an equals sign. -/
def Argument.ofLong (name : List Char) (value : Option String) : Argument :=
  match String.ofList name, value with
  | "context", value => .setting .context value
  | "timings", value => .setting .timings value
  | "instant", none => .switch .instant
  | "json", none => .switch .json
  | "validate", none => .switch .validate
  | "help", none => .help
  | "version", none => .version
  | _, _ => .unknown

/-- The value in the same argument as a single letter. -/
def attached : List Char → Option String
  | [] => none
  | '=' :: value => some (String.ofList value)
  | value => some (String.ofList value)

/-- What an argument says. -/
def Argument.ofText (text : String) : Argument :=
  match text.toList with
  | ['-', '-'] => .separator
  | '-' :: '-' :: cs =>
    match cs.dropWhile (· != '=') with
    | [] => .ofLong cs none
    | _ :: value => .ofLong (cs.takeWhile (· != '=')) (some (String.ofList value))
  | '-' :: 'h' :: _ => .help
  | '-' :: 'V' :: _ => .version
  | '-' :: 'c' :: rest => .setting .context (attached rest)
  | '-' :: 't' :: rest => .setting .timings (attached rest)
  | '-' :: _ :: _ => .unknown
  | _ => .path text

/-- What the arguments so far have said. -/
structure Draft where
  workflow : Option String := none
  context : Option String := none
  timings : Option String := none
  isInstant : Bool := false
  isJson : Bool := false
  onlyValidates : Bool := false

namespace Draft

/-- Turns on a switch, if it is off. -/
def turnOn (d : Draft) : Switch → Option Draft
  | .instant => if d.isInstant then none else some { d with isInstant := true }
  | .json => if d.isJson then none else some { d with isJson := true }
  | .validate => if d.onlyValidates then none else some { d with onlyValidates := true }

/-- Gives a setting its value, if it has none. -/
def assign (d : Draft) (value : String) : Setting → Option Draft
  | .context => if d.context.isSome then none else some { d with context := some value }
  | .timings => if d.timings.isSome then none else some { d with timings := some value }

/-- Names the workflow, if it has not been named. -/
def name (d : Draft) (path : String) : Option Draft :=
  if d.workflow.isSome then none else some { d with workflow := some path }

/-- What is asked for in the end: the workflow has to be named, and timings are of no use to a run
without pauses. -/
def finish (d : Draft) : Option Request := do
  let workflow ← d.workflow
  if d.timings.isSome && d.isInstant then none
  else
    some (.run ⟨workflow, d.context, d.timings, d.isInstant, d.isJson, d.onlyValidates⟩)

end Draft

/-- Reads the arguments that are left. -/
def parseFrom (d : Draft) : List String → Option Request
  | [] => d.finish
  | argument :: rest =>
    match Argument.ofText argument with
    | .help => some .help
    | .version => some .version
    | .switch s => (d.turnOn s).bind (parseFrom · rest)
    | .setting s (some value) => (d.assign value s).bind (parseFrom · rest)
    | .setting s none =>
      match rest with
      | [] => none
      | next :: rest =>
        match Argument.ofText next with
        | .path value => (d.assign value s).bind (parseFrom · rest)
        | _ => none
    | .separator => (rest.foldlM Draft.name d).bind Draft.finish
    | .path path => (d.name path).bind (parseFrom · rest)
    | .unknown => none

/-- Reads the arguments of a command, if they make sense. -/
def parse? (arguments : List String) : Option Request :=
  parseFrom {} arguments

/-- The help that is given, line by line. -/
def helpLines : List String := [
  "A cancellable, observer-driven interpreter for node-based workflow graphs",
  "",
  "Usage: junro-cli [OPTIONS] <WORKFLOW_PATH>",
  "",
  "Arguments:",
  "  <WORKFLOW_PATH>  Path to the workflow document JSON file",
  "",
  "Options:",
  "  -c, --context <CONTEXT>  " ++
    "Path to a JSON object of context variables (defaults to the demo context)",
  "  -t, --timings <TIMINGS>  Path to a JSON file overriding the simulated timings",
  "      --instant            Skip every simulated pause",
  "      --json               Print log entries as JSON lines",
  "      --validate           Only check the workflow structure, do not run it",
  "  -h, --help               Print help",
  "  -V, --version            Print version"]

/-- The version that is named. -/
def versionText : String := "junro 0.1.0"

end Arguments
end Workflow
