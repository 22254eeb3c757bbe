import Workflow.Document.Conversion
import Workflow.Document.Fault
import Workflow.Proofs.InstantText
import Workflow.Proofs.Records

/-!
# Documents are read back

A document that has been read, in whatever form it came, is the same document when it is written and
read again.

* `Document.IsFinite` is what a document needs to have a text that says everything, and
  `Document.isFinite_of_ofJson?` says that what has been read has it.
* `Document.parse?_text` says that such a document is read back.
* `Document.parse_text_eq_ok` is the law of documents.
-/

namespace Workflow

open Json

/-! ## Node data -/

namespace NodeData

/-- What is written for the fields. -/
def items (d : NodeData) : List (Option Json) :=
  [d.label.map .string, d.condition.map .string, d.duration.map ofFloat,
    d.durationUnit.map .string, d.url.map .string, d.payload.map .string, d.message.map .string]

theorem toJson_eq (d : NodeData) : d.toJson = .object (written (fields.zip d.items)) := by
  simp only [toJson, optionalMember_eq, fields, items, List.zip_cons_cons, written_cons,
    List.append_assoc]
  simp [written]

/-- Whether the numbers in node data are finite. -/
def IsFinite (d : NodeData) : Prop :=
  ∀ x ∈ d.duration, x.isFinite = true

theorem ofJson?_toJson {d : NodeData} (h : d.IsFinite) : ofJson? d.toJson = some d := by
  rw [ofJson?, slots?_eq_some d.toJson_eq rfl (by decide) (by decide)]
  simp only [items, optional_string, optional_float h]
  rfl

theorem isFinite_of_ofJson? {j : Json} {d : NodeData} (h : ofJson? j = some d) : d.IsFinite := by
  unfold ofJson? at h
  split at h
  · simp only [bind, pure, Option.bind_eq_some_iff, Option.some.injEq] at h
    obtain ⟨_, -, _, -, duration, hduration, _, -, _, -, _, -, _, -, rfl⟩ := h
    intro x hx
    obtain ⟨item, hitem⟩ := exists_of_optional hduration x hx
    exact isFinite_of_float? hitem
  · cases h

theorem isUsableAt_toJson (d : NodeData) (depth : Nat) :
    d.toJson.isUsableAt (depth + 1) = true := by
  refine isUsableAt_written (toJson_eq _) ?_
  simp [items, isUsableAt, isUsableAt_ofFloat]

end NodeData

/-! ## Nodes -/

namespace Position

/-- What is written for the fields. -/
def items (p : Position) : List (Option Json) :=
  [some (.ofFloat p.x), some (.ofFloat p.y)]

theorem toJson_eq (p : Position) : p.toJson = .object (written (fields.zip p.items)) :=
  rfl

/-- Whether both numbers of a position are finite. -/
def IsFinite (p : Position) : Prop :=
  p.x.isFinite = true ∧ p.y.isFinite = true

theorem ofJson?_toJson {p : Position} (h : p.IsFinite) : ofJson? p.toJson = some p := by
  rw [ofJson?, slots?_eq_some p.toJson_eq rfl (by decide) (by decide)]
  simp only [items, required, Option.bind_some, float?_ofFloat h.1, float?_ofFloat h.2]
  rfl

theorem isFinite_of_ofJson? {j : Json} {p : Position} (h : ofJson? j = some p) : p.IsFinite := by
  unfold ofJson? at h
  split at h
  · simp only [bind, pure, required, Option.bind_eq_some_iff, Option.some.injEq] at h
    obtain ⟨_, ⟨_, -, hx⟩, _, ⟨_, -, hy⟩, rfl⟩ := h
    exact ⟨isFinite_of_float? hx, isFinite_of_float? hy⟩
  · cases h

theorem isUsableAt_toJson (p : Position) (depth : Nat) :
    p.toJson.isUsableAt (depth + 1) = true := by
  refine isUsableAt_written (toJson_eq _) ?_
  simp [items, isUsableAt_ofFloat]

end Position

namespace Node

/-- What is written for the fields. -/
def items (n : Node) : List (Option Json) :=
  [some (.string n.id), some (.string n.kind), n.position.map Position.toJson, some n.data.toJson]

theorem toJson_eq (n : Node) : n.toJson = .object (written (fields.zip n.items)) := by
  simp only [toJson, optionalMember_eq, fields, items, List.zip_cons_cons, written_cons,
    List.append_assoc]
  rfl

/-- Whether the numbers of a node are finite. -/
def IsFinite (n : Node) : Prop :=
  (∀ p ∈ n.position, p.IsFinite) ∧ n.data.IsFinite

theorem ofJson?_toJson {n : Node} (h : n.IsFinite) : ofJson? n.toJson = some n := by
  have hposition : optional Position.ofJson? (n.position.map Position.toJson) = some n.position :=
    optional_map fun p hp => ⟨nofun, Position.ofJson?_toJson (h.1 p hp)⟩
  rw [ofJson?, slots?_eq_some n.toJson_eq rfl (by decide) (by decide)]
  simp only [items, required, string?, Option.bind_some, hposition, defaulted,
    NodeData.ofJson?_toJson h.2]
  rfl

theorem isFinite_of_ofJson? {j : Json} {n : Node} (h : ofJson? j = some n) : n.IsFinite := by
  unfold ofJson? at h
  split at h
  · simp only [bind, pure, Option.bind_eq_some_iff, Option.some.injEq] at h
    obtain ⟨_, -, _, -, position, hposition, data, hdata, rfl⟩ := h
    refine ⟨fun p hp => ?_, ?_⟩
    · obtain ⟨item, hitem⟩ := exists_of_optional hposition p hp
      exact Position.isFinite_of_ofJson? hitem
    · rcases eq_or_exists_of_defaulted hdata with rfl | ⟨item, hitem⟩
      · nofun
      · exact NodeData.isFinite_of_ofJson? hitem
  · cases h

theorem isUsableAt_toJson (n : Node) (depth : Nat) :
    n.toJson.isUsableAt (depth + 2) = true := by
  refine isUsableAt_written (toJson_eq _) ?_
  simp [items, isUsableAt, Position.isUsableAt_toJson, NodeData.isUsableAt_toJson]

end Node

/-! ## Edges -/

namespace Edge

/-- What is written for the fields. -/
def items (e : Edge) : List (Option Json) :=
  [e.id.map .string, some (.string e.source), some (.string e.target),
    e.sourceHandle.map .string, e.targetHandle.map .string]

theorem toJson_eq (e : Edge) : e.toJson = .object (written (fields.zip e.items)) := by
  simp only [toJson, optionalMember_eq, fields, items, List.zip_cons_cons, written_cons,
    List.append_assoc]
  simp [written]

theorem ofJson?_toJson (e : Edge) : ofJson? e.toJson = some e := by
  rw [ofJson?, slots?_eq_some e.toJson_eq rfl (by decide) (by decide)]
  simp only [items, optional_string, required, string?, Option.bind_some]
  rfl

theorem isUsableAt_toJson (e : Edge) (depth : Nat) : e.toJson.isUsableAt (depth + 1) = true := by
  refine isUsableAt_written (toJson_eq _) ?_
  simp [items, isUsableAt]

end Edge

/-! ## Documents -/

/-- An instant is read back from its text. -/
theorem LogEntry.instant?_text (i : Instant) : instant? (.string i.text) = some i := by
  rw [instant?, string?, Option.bind_some, Instant.parse_text]
  rfl

namespace Document

/-- What is written for the fields. -/
def items (d : Document) : List (Option Json) :=
  [some (.string d.id), some (.string d.name), d.description.map .string,
    d.createdAt.map instantJson, d.updatedAt.map instantJson,
    some (.array (d.nodes.map Node.toJson)), some (.array (d.edges.map Edge.toJson))]

theorem toJson_eq (d : Document) : d.toJson = .object (written (fields.zip d.items)) := by
  simp only [toJson, optionalMember_eq, fields, items, List.zip_cons_cons, written_cons,
    List.append_assoc]
  rfl

/-- Whether the numbers of a document are finite. -/
def IsFinite (d : Document) : Prop :=
  ∀ n ∈ d.nodes, n.IsFinite

theorem optional_instant (i? : Option Instant) :
    optional LogEntry.instant? (i?.map instantJson) = some i? :=
  optional_map fun i _ => ⟨nofun, LogEntry.instant?_text i⟩

theorem ofJson?_toJson {d : Document} (h : d.IsFinite) : ofJson? d.toJson = some d := by
  have hnodes : list? Node.ofJson? (.array (d.nodes.map Node.toJson)) = some d.nodes :=
    list?_map fun n hn => Node.ofJson?_toJson (h n hn)
  have hedges : list? Edge.ofJson? (.array (d.edges.map Edge.toJson)) = some d.edges :=
    list?_map fun e _ => e.ofJson?_toJson
  rw [ofJson?, slots?_eq_some d.toJson_eq rfl (by decide) (by decide)]
  simp only [items, required, string?, Option.bind_some, optional_string, optional_instant,
    defaulted, hnodes, hedges]
  rfl

theorem isFinite_of_ofJson? {j : Json} {d : Document} (h : ofJson? j = some d) : d.IsFinite := by
  unfold ofJson? at h
  split at h
  · simp only [bind, pure, Option.bind_eq_some_iff, Option.some.injEq] at h
    obtain ⟨_, -, _, -, _, -, _, -, _, -, nodes, hnodes, _, -, rfl⟩ := h
    intro n hn
    rcases eq_or_exists_of_defaulted hnodes with rfl | ⟨array, harray⟩
    · cases hn
    · obtain ⟨item, hitem⟩ := exists_of_list? harray n hn
      exact Node.isFinite_of_ofJson? hitem
  · cases h

theorem isUsableAt_toJson (d : Document) (depth : Nat) :
    d.toJson.isUsableAt (depth + 4) = true := by
  refine isUsableAt_written (toJson_eq _) ?_
  simp [items, instantJson, isUsableAt, areUsableItems_iff, Node.isUsableAt_toJson,
    Edge.isUsableAt_toJson]

/-- A document with finite numbers is read back from its text. -/
theorem parse?_text {d : Document} (h : d.IsFinite) : parse? d.text = some d := by
  rw [parse?, text, Json.parse?_text (d.isUsableAt_toJson 0), Option.bind_some, ofJson?_toJson h]

theorem parse_eq_ok_iff {source : String} {d : Document} :
    parse source = .ok d ↔ parse? source = some d := by
  rw [parse]
  cases parse? source <;> simp

/-- **Documents are read back.**  Whatever text a document was read from, the text that is written
for it is read as the same document.  So what is written no longer changes, nor does the graph that
the document describes or what is reported instead of it. -/
theorem parse_text_eq_ok {source : String} {d : Document} (h : parse source = .ok d) :
    parse d.text = .ok d ∧ (parse d.text).map text = .ok d.text ∧
      (parse d.text).map toGraph = .ok d.toGraph := by
  rw [parse_eq_ok_iff, parse?, Option.bind_eq_some_iff] at h
  obtain ⟨j, -, hj⟩ := h
  have hparse : parse d.text = .ok d := parse_eq_ok_iff.2 (parse?_text (isFinite_of_ofJson? hj))
  rw [hparse]
  exact ⟨rfl, rfl, rfl⟩

/-- A text in which the document, its node and the place of the node are arrays, fields go by their
second names, and nulls, a member of no field and an offset stand where others would leave them
out. -/
def looseText : String :=
  "[\"w\", \"W\", null, \"2025-01-10T10:00:00.5+02:00\", null, " ++
    "[[\"a\", \"delay\", [10, -2.50], " ++
      "\x7b\"durationUnit\": \"ms\", \"duration\": 1e3, \"colour\": 1e999\x7d]], " ++
    "[\x7b\"source\": \"a\", \"target\": \"a\", \"sourceHandle\": \"true\"\x7d]]"

/-- The document of that text. -/
def loose : Document where
  id := "w"
  name := "W"
  createdAt := some ⟨⟨2025, 1, 10, by decide, by decide⟩, 8, 0, 0, 500000000, by decide⟩
  nodes := [{
    id := "a"
    kind := "delay"
    position := some ⟨10, -2.5⟩
    data := { duration := some 1000, durationUnit := some "ms" } }]
  edges := [{ source := "a", target := "a", sourceHandle := some "true" }]

theorem parse_looseText : parse looseText = .ok loose :=
  parse_eq_ok_iff.2 (by decide +kernel)

theorem parse_text_loose :
    parse looseText = .ok loose ∧ parse loose.text = .ok loose ∧
      (parse loose.text).map text = .ok loose.text ∧
      (parse loose.text).map toGraph = .ok loose.toGraph :=
  ⟨parse_looseText, parse_text_eq_ok parse_looseText⟩

end Document

end Workflow
