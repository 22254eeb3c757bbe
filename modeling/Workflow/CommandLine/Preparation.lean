import Workflow.CommandLine.Arguments
import Workflow.Document.Conversion
import Workflow.Document.Fault
import Workflow.Run.Basic

/-!
# Preparing a command

A command loads its workflow, converts it to a graph, and then either validates the graph or loads
the context and the timings for a run.  It fails at the first of these steps that cannot be taken;
what comes after that is not looked at.

* `prepare` takes these steps, with the files given as a function from paths to contents.
* `Failure.message` says what went wrong.
-/

namespace Workflow

/-! ## Files -/

/-- Why a file has no contents. -/
inductive FileFault where
  | missing
  | denied
  | notInDirectory
  | isDirectory
  | notText
  | other (message : String)
deriving DecidableEq, Repr

/-- The message for a file that has no contents. -/
def FileFault.message : FileFault → String
  | .missing => "No such file or directory (os error 2)"
  | .denied => "Permission denied (os error 13)"
  | .notInDirectory => "Not a directory (os error 20)"
  | .isDirectory => "Is a directory (os error 21)"
  | .notText => "stream did not contain valid UTF-8"
  | .other message => message

/-- The contents of files by their paths. -/
abbrev Files := String → Except FileFault String

/-- Why nothing was loaded from a file: it has no contents, or not the right ones. -/
inductive LoadFault (ε : Type) where
  | file (fault : FileFault)
  | contents (fault : ε)
deriving DecidableEq, Repr

/-- Loads what a file describes. -/
def load {α ε : Type} (files : Files) (parse : String → Except ε α) (path : String) :
    Except (LoadFault ε) α :=
  match files path with
  | .error fault => .error (.file fault)
  | .ok contents => (parse contents).mapError .contents

/-! ## Failures -/

/-- Why a command fails. -/
inductive Failure where
  | workflow (path : String) (fault : LoadFault Json.Fault)
  | conversion (name : String) (fault : ConversionError)
  | validation (name : String) (fault : GraphError)
  | context (path : String) (fault : LoadFault ContextError)
  | timings (path : String) (fault : LoadFault Json.Fault)
deriving DecidableEq, Repr

namespace Failure

/-- What was wrong with a workflow. -/
def workflowText : LoadFault Json.Fault → String
  | .file fault => "Failed to read workflow file: " ++ fault.message
  | .contents fault => "Failed to parse workflow JSON: " ++ fault.message

/-- What was wrong with a context. -/
def contextText : LoadFault ContextError → String
  | .file fault => "Failed to read context file: " ++ fault.message
  | .contents fault => fault.message

/-- What was wrong with timings. -/
def timingsText : LoadFault Json.Fault → String
  | .file fault => fault.message
  | .contents fault => fault.message

/-- The message for a command that fails. -/
def message : Failure → String
  | .workflow path fault => s!"Failed to load workflow '{path}': " ++ workflowText fault
  | .conversion name fault => s!"Invalid workflow '{name}': " ++ fault.message
  | .validation name fault => s!"Workflow '{name}' is not valid: " ++ fault.message
  | .context path fault => s!"Failed to load context '{path}': " ++ contextText fault
  | .timings path fault => s!"Failed to load timings '{path}': " ++ timingsText fault

end Failure

/-! ## Preparation -/

/-- What a command has come to once nothing can fail any more. -/
inductive Job where
  /-- The workflow with this name and graph is valid. -/
  | validated (name : String) (graph : Graph)
  | run (name : String) (setup : Setup)

namespace Options

/-- The context of a run. -/
def loadContext (o : Options) (files : Files) : Except Failure Context :=
  match o.context with
  | none => .ok .demo
  | some path => (load files Context.parse path).mapError (.context path)

/-- The timings of a run. -/
def loadTimings (o : Options) (files : Files) : Except Failure Timings :=
  if o.isInstant then .ok .instant
  else
    match o.timings with
    | none => .ok .reference
    | some path => (load files Timings.parse path).mapError (.timings path)

/-- The paths of the files that are looked at. -/
def paths (o : Options) : List String :=
  if o.onlyValidates then [o.workflow] else o.workflow :: (o.context.toList ++ o.timings.toList)

/-- Prepares a command. -/
def prepare (o : Options) (files : Files) : Except Failure Job := do
  let document ← (load files Document.parse o.workflow).mapError (.workflow o.workflow)
  let name := document.name
  let graph ← document.toGraph.mapError (.conversion name)
  if o.onlyValidates then
    let _ ← graph.validate.mapError (.validation name)
    return .validated name graph
  else
    let context ← o.loadContext files
    let timings ← o.loadTimings files
    return .run name ⟨graph, context, timings⟩

end Options
end Workflow
