import Workflow.Document.Basic
import Workflow.Graph

/-!
# From documents to graphs

Each node becomes a step and each edge a transition, in the order of the document.  What a node
leaves out gets a default.  A handle counts only on an edge that leaves a condition: it says for
which result the edge is open, and an edge with a handle that says neither is left out.

* `Node.toStep` and `Edge.toTransition?` convert one of a kind.
* `Document.toGraph` converts a document; of several faults it names the first one of a node, else
  of an edge, else of the ids.
-/

namespace Workflow

/-- Why a document is no graph. -/
inductive ConversionError where
  | unknownDurationUnit (stepId unit : String)
  /-- An edge, by its id if it has one, has no source or no target. -/
  | openEdge (id : Option String)
  | graph (fault : GraphError)
deriving DecidableEq, Repr

/-- The message for a fault of a document. -/
def ConversionError.message : ConversionError → String
  | .unknownDurationUnit id unit => s!"Step '{id}' has an unknown duration unit '{unit}'"
  | .openEdge id =>
    let name := id.getD "<unnamed>"
    s!"Invalid workflow data: edge '{name}' must name both a source and a target"
  | .graph fault => fault.message

/-- An optional text, unless it is empty. -/
def nonEmpty (s : Option String) : Option String :=
  s.filter (· ≠ "")

/-- The address that a call goes to by default. -/
def defaultUrl : String := "https://example.com/webhook"

/-- What a call sends by default. -/
def defaultPayload : String := "\x7b\x7d"

/-- What a log step says by default. -/
def defaultMessage : String := "No message"

namespace NodeData

/-- The unit of a wait, seconds if none is given. -/
def unit (d : NodeData) (stepId : String) : Except ConversionError DurationUnit :=
  match nonEmpty d.durationUnit with
  | none => .ok .seconds
  | some name =>
    match DurationUnit.ofName? name with
    | some unit => .ok unit
    | none => .error (.unknownDurationUnit stepId name)

/-- The length of a wait, one if none is given or what is given is zero. -/
def waitDuration (d : NodeData) : Float :=
  (d.duration.filter fun x => x != 0 && !x.isNaN).getD 1

end NodeData

namespace Node

/-- What the step of a node does. -/
def stepKind (n : Node) : Except ConversionError StepKind :=
  match n.kind with
  | "start" | "entry" => .ok .entry
  | "condition" => .ok (.condition (n.data.condition.getD ""))
  | "delay" | "wait" =>
    match n.data.unit n.id with
    | .ok unit => .ok (.wait n.data.waitDuration unit)
    | .error fault => .error fault
  | "webhook" | "call" =>
    .ok (.call ((nonEmpty n.data.url).getD defaultUrl)
      ((nonEmpty n.data.payload).getD defaultPayload))
  | "logger" | "log" => .ok (.log ((nonEmpty n.data.message).getD defaultMessage))
  | "end" | "terminal" => .ok .terminal
  | kind => .ok (.unknown kind)

/-- The step of a node, labelled with the node's type if it has no label of its own. -/
def toStep (n : Node) : Except ConversionError Step :=
  match n.stepKind with
  | .ok kind => .ok ⟨n.id, (nonEmpty n.data.label).getD n.kind, kind⟩
  | .error fault => .error fault

end Node

/-- Whether an id is that of a condition among some steps. -/
def isConditionId (steps : List Step) (id : String) : Bool :=
  steps.any fun s => s.id == id && s.kind.isCondition

namespace Edge

/-- The transition of an edge, or none if the edge is left out. -/
def toTransition? (steps : List Step) (e : Edge) : Except ConversionError (Option Transition) :=
  if e.source = "" ∨ e.target = "" then .error (.openEdge e.id)
  else
    match (nonEmpty e.sourceHandle).filter fun _ => isConditionId steps e.source with
    | none => .ok (some ⟨e.source, e.target, none⟩)
    | some handle =>
      .ok ((Branch.ofName? handle).map fun branch => ⟨e.source, e.target, some branch⟩)

end Edge

/-- Converts the items of a list from left to right, up to the first that cannot be converted. -/
def convertAll {α β : Type} (f : α → Except ConversionError β) :
    List α → Except ConversionError (List β)
  | [] => .ok []
  | a :: rest =>
    match f a with
    | .error fault => .error fault
    | .ok b => (convertAll f rest).map (b :: ·)

/-- The graph of a document. -/
def Document.toGraph (d : Document) : Except ConversionError Graph :=
  match convertAll Node.toStep d.nodes with
  | .error fault => .error fault
  | .ok steps =>
    match convertAll (Edge.toTransition? steps) d.edges with
    | .error fault => .error fault
    | .ok transitions => (Graph.ofLists steps transitions.reduceOption).mapError .graph

end Workflow
