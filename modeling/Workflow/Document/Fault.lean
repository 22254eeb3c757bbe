import Workflow.Document.Basic
import Workflow.Json.Diagnosis

/-!
# Faults of document texts

The shapes of the records that a document is made of, which say what is wrong with a text from which
no document can be read.

* `Document.parse` reads a document or says what is wrong.
-/

namespace Workflow

/-- The shape of an instant. -/
def Instant.shape : Json.Shape :=
  .text "an RFC 3339 formatted date and time string" fun s =>
    match Instant.parse s with
    | .ok _ => none
    | .error fault => some fault.message

/-- The shape of node data. -/
def NodeData.shape : Json.Shape :=
  .ofFields "CanvasNodeData" NodeData.fields
    [(false, .optional .string), (false, .optional .string), (false, .optional .number),
      (false, .optional .string), (false, .optional .string), (false, .optional .string),
      (false, .optional .string)]

/-- The shape of a position. -/
def Position.shape : Json.Shape :=
  .ofFields "CanvasPosition" Position.fields [(true, .number), (true, .number)]

/-- The shape of a node. -/
def Node.shape : Json.Shape :=
  .ofFields "CanvasNode" Node.fields
    [(true, .string), (true, .string), (false, .optional Position.shape), (false, NodeData.shape)]

/-- The shape of an edge. -/
def Edge.shape : Json.Shape :=
  .ofFields "CanvasEdge" Edge.fields
    [(false, .optional .string), (true, .string), (true, .string), (false, .optional .string),
      (false, .optional .string)]

namespace Document

/-- The shape of a document. -/
def shape : Json.Shape :=
  .ofFields "WorkflowDocument" fields
    [(true, .string), (true, .string), (false, .optional .string),
      (false, .optional Instant.shape), (false, .optional Instant.shape),
      (false, .list Node.shape), (false, .list Edge.shape)]

/-- Reads a document. -/
def parse (source : String) : Except Json.Fault Document :=
  match parse? source with
  | some d => .ok d
  | none => .error (Json.faultOf shape source)

end Document
end Workflow
