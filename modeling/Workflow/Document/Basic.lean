import Workflow.Instant
import Workflow.Json.Reader
import Workflow.Json.Record
import Workflow.Json.Writer
import Workflow.Log

/-!
# Documents

A workflow as an editor stores it: nodes placed on a canvas, edges between them, and what is known of
the workflow as a whole.  Nearly everything may be left out.  Four fields go by a second name, which
is read but never written.

* `Document.parse?` reads a document, `Document.text` writes one.

What a document means as a graph is the subject of `Workflow.Document.Conversion`.
-/

namespace Workflow

/-- The contents of a node. -/
structure NodeData where
  label : Option String := none
  condition : Option String := none
  duration : Option Float := none
  durationUnit : Option String := none
  url : Option String := none
  payload : Option String := none
  message : Option String := none
deriving DecidableEq, Repr

/-- A place on the canvas. -/
structure Position where
  x : Float
  y : Float
deriving DecidableEq, Repr

/-- A node of the canvas. -/
structure Node where
  id : String
  kind : String
  position : Option Position := none
  data : NodeData := {}
deriving DecidableEq, Repr

/-- An edge of the canvas.  Its handles are the sides of the nodes that it is fixed to. -/
structure Edge where
  id : Option String := none
  source : String
  target : String
  sourceHandle : Option String := none
  targetHandle : Option String := none
deriving DecidableEq, Repr

/-- A stored workflow. -/
structure Document where
  id : String
  name : String
  description : Option String := none
  createdAt : Option Instant := none
  updatedAt : Option Instant := none
  nodes : List Node := []
  edges : List Edge := []
deriving DecidableEq, Repr

/-! ## Node data -/

namespace NodeData

/-- The names of the fields, in order. -/
def fields : List Json.FieldNames :=
  [["label"], ["condition"], ["duration"], ["duration_unit", "durationUnit"], ["url"], ["payload"],
    ["message"]]

/-- Reads node data from a JSON value. -/
def ofJson? (j : Json) : Option NodeData :=
  let text := Json.optional Json.string?
  match j.slots? fields with
  | some [label, condition, duration, unit, url, payload, message] => do
    return {
      label := ← text label
      condition := ← text condition
      duration := ← Json.optional Json.float? duration
      durationUnit := ← text unit
      url := ← text url
      payload := ← text payload
      message := ← text message }
  | _ => none

/-- Node data as a JSON value. -/
def toJson (d : NodeData) : Json :=
  .object (
    Json.optionalMember "label" .string d.label ++
    Json.optionalMember "condition" .string d.condition ++
    Json.optionalMember "duration" Json.ofFloat d.duration ++
    Json.optionalMember "duration_unit" .string d.durationUnit ++
    Json.optionalMember "url" .string d.url ++
    Json.optionalMember "payload" .string d.payload ++
    Json.optionalMember "message" .string d.message)

end NodeData

/-! ## Nodes -/

namespace Position

/-- The names of the fields, in order. -/
def fields : List Json.FieldNames :=
  [["x"], ["y"]]

/-- Reads a position from a JSON value. -/
def ofJson? (j : Json) : Option Position :=
  match j.slots? fields with
  | some [x, y] => do
    return { x := ← Json.required Json.float? x, y := ← Json.required Json.float? y }
  | _ => none

/-- A position as a JSON value. -/
def toJson (p : Position) : Json :=
  .object [("x", .ofFloat p.x), ("y", .ofFloat p.y)]

end Position

namespace Node

/-- The names of the fields, in order. -/
def fields : List Json.FieldNames :=
  [["id"], ["type"], ["position"], ["data"]]

/-- Reads a node from a JSON value. -/
def ofJson? (j : Json) : Option Node :=
  match j.slots? fields with
  | some [id, kind, position, data] => do
    return {
      id := ← Json.required Json.string? id
      kind := ← Json.required Json.string? kind
      position := ← Json.optional Position.ofJson? position
      data := ← Json.defaulted {} NodeData.ofJson? data }
  | _ => none

/-- A node as a JSON value. -/
def toJson (n : Node) : Json :=
  .object (
    [("id", .string n.id), ("type", .string n.kind)] ++
    Json.optionalMember "position" Position.toJson n.position ++
    [("data", n.data.toJson)])

end Node

/-! ## Edges -/

namespace Edge

/-- The names of the fields, in order. -/
def fields : List Json.FieldNames :=
  [["id"], ["source"], ["target"], ["source_handle", "sourceHandle"],
    ["target_handle", "targetHandle"]]

/-- Reads an edge from a JSON value. -/
def ofJson? (j : Json) : Option Edge :=
  match j.slots? fields with
  | some [id, source, target, sourceHandle, targetHandle] => do
    return {
      id := ← Json.optional Json.string? id
      source := ← Json.required Json.string? source
      target := ← Json.required Json.string? target
      sourceHandle := ← Json.optional Json.string? sourceHandle
      targetHandle := ← Json.optional Json.string? targetHandle }
  | _ => none

/-- An edge as a JSON value. -/
def toJson (e : Edge) : Json :=
  .object (
    Json.optionalMember "id" .string e.id ++
    [("source", .string e.source), ("target", .string e.target)] ++
    Json.optionalMember "source_handle" .string e.sourceHandle ++
    Json.optionalMember "target_handle" .string e.targetHandle)

end Edge

/-! ## Documents -/

namespace Document

/-- The names of the fields, in order. -/
def fields : List Json.FieldNames :=
  [["id"], ["name"], ["description"], ["created_at", "createdAt"], ["updated_at", "updatedAt"],
    ["nodes"], ["edges"]]

/-- Reads a document from a JSON value. -/
def ofJson? (j : Json) : Option Document :=
  match j.slots? fields with
  | some [id, name, description, createdAt, updatedAt, nodes, edges] => do
    return {
      id := ← Json.required Json.string? id
      name := ← Json.required Json.string? name
      description := ← Json.optional Json.string? description
      createdAt := ← Json.optional LogEntry.instant? createdAt
      updatedAt := ← Json.optional LogEntry.instant? updatedAt
      nodes := ← Json.defaulted [] (Json.list? Node.ofJson?) nodes
      edges := ← Json.defaulted [] (Json.list? Edge.ofJson?) edges }
  | _ => none

/-- An instant as a JSON value. -/
def instantJson (i : Instant) : Json :=
  .string i.text

/-- A document as a JSON value.  The nodes and the edges are always given, the rest where known. -/
def toJson (d : Document) : Json :=
  .object (
    [("id", .string d.id), ("name", .string d.name)] ++
    Json.optionalMember "description" .string d.description ++
    Json.optionalMember "created_at" instantJson d.createdAt ++
    Json.optionalMember "updated_at" instantJson d.updatedAt ++
    [("nodes", .array (d.nodes.map Node.toJson)), ("edges", .array (d.edges.map Edge.toJson))])

/-- Reads a document. -/
def parse? (source : String) : Option Document :=
  (Json.parse? source).bind ofJson?

/-- The JSON text of a document. -/
def text (d : Document) : String :=
  d.toJson.text

end Document
end Workflow
