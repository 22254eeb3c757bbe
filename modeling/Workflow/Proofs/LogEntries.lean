import Workflow.Proofs.Commands
import Workflow.Proofs.Notifications

/-!
# The log is read back line by line

In JSON style a command prints nothing but the entries of the log.  Whoever reads the output cuts it
at its line ends, and gets every entry back: a JSON text holds no control character, whatever is in
the strings that it is written for.

* `Json.IsPrintable` is what is said of a text without control characters, and
  `Json.isPrintable_write` says it of all JSON texts.
* `LogEntry.parse?_text` says that an entry is read back from its text.
* `Report.lines` is the output of a command, cut at its line ends, and `entries` are the entries that
  some notifications deliver.
* `respond_json` is the law of logs.
-/

namespace Workflow

namespace Json

/-! ## Texts without control characters -/

/-- Whether there is no control character in a text. -/
def IsPrintable (cs : List Char) : Prop :=
  ∀ c ∈ cs, 0x20 ≤ c.toNat

instance (cs : List Char) : Decidable (IsPrintable cs) :=
  decidable_of_iff (cs.all (0x20 ≤ Char.toNat ·) = true) (by simp [IsPrintable])

theorem isPrintable_append {cs ds : List Char} :
    IsPrintable (cs ++ ds) ↔ IsPrintable cs ∧ IsPrintable ds :=
  List.forall_mem_append

theorem isPrintable_cons {c : Char} {cs : List Char} :
    IsPrintable (c :: cs) ↔ 0x20 ≤ c.toNat ∧ IsPrintable cs :=
  List.forall_mem_cons

theorem isPrintable_nil : IsPrintable [] :=
  nofun

theorem IsPrintable.not_mem_newline {cs : List Char} (h : IsPrintable cs) : '\n' ∉ cs :=
  fun hmem => absurd (h '\n' hmem) (by decide)

theorem isPrintable_numeral (n : Numeral) : IsPrintable n.text := by
  have hmarks : IsPrintable ['.', 'e', 'E', '+', '-'] := by decide
  intro c hc
  rcases Numeral.mem_text hc with hdigit | hmark
  · have := isDigit_iff.1 hdigit
    omega
  · exact hmarks c hmark

theorem isPrintable_number (n : JsonNumber) : IsPrintable n.text := by
  obtain ⟨numeral, htext, -⟩ := n.exists_text_eq
  rw [htext, isPrintable_append]
  refine ⟨?_, isPrintable_numeral numeral⟩
  cases n.isNegative <;> decide

theorem isPrintable_hexEscape : ∀ code < 0x20,
    IsPrintable ['\\', 'u', '0', '0', Nat.digitChar (code / 16), Nat.digitChar (code % 16)] := by
  decide

/-- Whatever a character is, what it becomes in a string is printable. -/
theorem isPrintable_escape (c : Char) : IsPrintable (escape c) := by
  unfold escape
  iterate 7
    split
    · decide
  split
  · rename_i hlt
    exact isPrintable_hexEscape c.toNat hlt
  · rename_i hle
    exact isPrintable_cons.2 ⟨not_lt.1 hle, isPrintable_nil⟩

theorem isPrintable_quote (s : String) : IsPrintable (quote s) := by
  rw [quote, isPrintable_append, isPrintable_cons]
  refine ⟨⟨by decide, fun c hc => ?_⟩, by decide⟩
  obtain ⟨d, -, hd⟩ := List.mem_flatMap.1 hc
  exact isPrintable_escape d c hd

mutual

/-- JSON texts are printable. -/
theorem isPrintable_write : ∀ j : Json, IsPrintable j.write
  | .null | .unusable => by decide
  | .bool b => by cases b <;> decide
  | .number n => isPrintable_number n
  | .string s => isPrintable_quote s
  | .array items => by
    rw [write, isPrintable_append, isPrintable_cons]
    exact ⟨⟨by decide, isPrintable_writeItems items⟩, by decide⟩
  | .object members => by
    rw [write, isPrintable_append, isPrintable_cons]
    exact ⟨⟨by decide, isPrintable_writeMembers members⟩, by decide⟩

theorem isPrintable_writeItems : ∀ items : List Json, IsPrintable (writeItems items)
  | [] => isPrintable_nil
  | [item] => isPrintable_write item
  | item :: item' :: items => by
    rw [writeItems_cons_cons, isPrintable_append, isPrintable_cons]
    exact ⟨isPrintable_write item, by decide, isPrintable_writeItems (item' :: items)⟩

theorem isPrintable_writeMembers : ∀ members : List (String × Json),
    IsPrintable (writeMembers members)
  | [] => isPrintable_nil
  | [(name, item)] => by
    rw [writeMembers, isPrintable_append, isPrintable_cons]
    exact ⟨isPrintable_quote name, by decide, isPrintable_write item⟩
  | (name, item) :: member :: members => by
    rw [writeMembers_cons_cons, isPrintable_append, isPrintable_append, isPrintable_cons,
      isPrintable_cons]
    exact ⟨⟨isPrintable_quote name, by decide, isPrintable_write item⟩, by decide,
      isPrintable_writeMembers (member :: members)⟩

end

end Json

/-! ## Entries -/

/-- A severity is found again by its name. -/
theorem Severity.lookup_name (s : Severity) : names.lookup s.name = some s := by
  cases s <;> rfl

namespace LogEntry

open Json

/-- What is written for the fields. -/
def items (e : LogEntry) : List (Option Json) :=
  [e.id, e.timestamp.text, e.stepId, e.stepKind, e.stepLabel, e.message, e.severity.name].map
    (some ∘ .string)

theorem toJson_eq (e : LogEntry) :
    e.toJson = .object (written ((fieldNames.map ([·])).zip e.items)) :=
  rfl

theorem ofJson?_toJson (e : LogEntry) : ofJson? e.toJson = some e := by
  rw [ofJson?, slots?_eq_some e.toJson_eq rfl (by decide) (by decide)]
  simp only [items, List.map_cons, List.map_nil, Function.comp_apply, required, Option.bind_some,
    string?, instant?_text, choice?, Severity.lookup_name]
  rfl

theorem isUsableAt_toJson (e : LogEntry) (depth : Nat) : e.toJson.isUsableAt (depth + 1) = true := by
  refine isUsableAt_written e.toJson_eq ?_
  simp [items, isUsableAt]

/-- An entry is read back from its text. -/
theorem parse?_text (e : LogEntry) : parse? e.text = some e := by
  rw [parse?, text, Json.parse?_text (e.isUsableAt_toJson 0), Option.bind_some, ofJson?_toJson]

/-- The text of an entry is a single line. -/
theorem newline_not_mem_text (e : LogEntry) : '\n' ∉ e.text.toList := by
  rw [text, Json.text, String.toList_ofList]
  exact (isPrintable_write e.toJson).not_mem_newline

end LogEntry

/-! ## Lines -/

/-- What a command writes, each item of its output with a line end. -/
def Report.written (r : Report) : List Char :=
  r.output.flatMap fun item => item.toList ++ ['\n']

/-- What a command writes, cut at the line ends.  The last piece is what no line end follows. -/
def Report.lines (r : Report) : List String :=
  (r.written.splitOn '\n').map String.ofList

/-- A text without line ends in front of a line end is cut off as a line. -/
theorem splitOn_append_newline {line : List Char} (h : '\n' ∉ line) (rest : List Char) :
    (line ++ '\n' :: rest).splitOn '\n' = line :: rest.splitOn '\n' := by
  have hcut : (line ++ '\n' :: rest).splitOn '\n' = line.splitOn '\n' ++ rest.splitOn '\n' :=
    List.splitOnP_append_cons line rest (beq_self_eq_true '\n')
  rw [hcut, List.splitOn_eq_singleton h, List.singleton_append]

/-- Items without line ends, each followed by one, are cut apart again. -/
theorem splitOn_flatMap_newline {items : List String} (h : ∀ item ∈ items, '\n' ∉ item.toList) :
    (items.flatMap fun item => item.toList ++ ['\n']).splitOn '\n' =
      items.map String.toList ++ [[]] := by
  induction items with
  | nil => rfl
  | cons item rest ih =>
    obtain ⟨hitem, hrest⟩ := List.forall_mem_cons.1 h
    rw [List.flatMap_cons, List.append_assoc, List.singleton_append, splitOn_append_newline hitem,
      ih hrest, List.map_cons, List.cons_append]

/-- Items without line ends are the lines of a command. -/
theorem Report.lines_eq {r : Report} (h : ∀ item ∈ r.output, '\n' ∉ item.toList) :
    r.lines = r.output ++ [""] := by
  rw [lines, written, splitOn_flatMap_newline h]
  simp [Function.comp_def]

/-! ## What is printed -/

/-- The entries that some notifications deliver, each with the stamp of its place. -/
def entries (stamps : Nat → Stamp) (events : List Event) : List LogEntry :=
  events.zipIdx.filterMap fun (e, index) => e.line?.map (·.stamped (stamps index))

/-- Entries are delivered for the lines of the log, in their order. -/
theorem map_toLogLine_entries (stamps : Nat → Stamp) (events : List Event) :
    (entries stamps events).map LogEntry.toLogLine = events.filterMap Event.line? := by
  have hline : ∀ x : Event × Nat,
      (x.1.line?.map (·.stamped (stamps x.2))).map LogEntry.toLogLine = x.1.line? := by
    rintro ⟨e, index⟩
    cases e.line? <;> rfl
  have hevents : events.filterMap Event.line? =
      events.zipIdx.filterMap (Event.line? ∘ Prod.fst) := by
    rw [← List.filterMap_map, List.zipIdx_map_fst]
  rw [entries, List.map_filterMap, hevents]
  exact List.filterMap_congr fun x _ => hline x

/-- In JSON style the texts of the entries are printed, and nothing else. -/
theorem printEvents_json (stamps : Nat → Stamp) (events : List Event) :
    printEvents .json stamps events = (entries stamps events).map LogEntry.text := by
  rw [printEvents, entries, List.map_filterMap]
  refine List.filterMap_congr ?_
  rintro ⟨e, index⟩ -
  cases e <;> rfl

/-! ## The law -/

/-- **Logs.**  In JSON style, what a run writes is cut into one line for every entry that the run
delivers, in their order, with nothing left after the last line end.  Every line is read back as its
entry, whatever is in the texts of the document and of the context. -/
theorem respond_json {arguments : List String} {o : Options} {files : Files} {d : Document}
    {g : Graph} {c : Context} {t : Timings} (h : Arguments.parse? arguments = some (.run o))
    (hjson : o.isJson = true) (hruns : o.onlyValidates = false) (hgraph : o.LoadsGraph files d g)
    (hcontext : o.HasContext files c) (htimings : o.HasTimings files t) (stamps : Nat → Stamp) :
    let events := ((Setup.mk g c t).run .never).events.map Timed.event
    let delivered := entries stamps events
    delivered.map LogEntry.toLogLine = events.filterMap Event.line? ∧
      ∃ lines, (respond arguments files stamps).lines = lines ++ [""] ∧
        lines.map LogEntry.parse? = delivered.map some := by
  intro events delivered
  refine ⟨map_toLogLine_entries stamps events, delivered.map LogEntry.text, ?lines, ?read⟩
  case lines =>
    have hprepares : o.Prepares files (.run d.name ⟨g, c, t⟩) := .run hgraph hruns hcontext htimings
    have houtput : (respond arguments files stamps).output = delivered.map LogEntry.text := by
      rw [respond_eq h, Options.respond_of_run (Arguments.timings_eq_none h) hprepares,
        Options.style, if_pos hjson, printEvents_json]
      rfl
    rw [Report.lines_eq, houtput]
    rw [houtput]
    intro item hitem
    obtain ⟨e, -, rfl⟩ := List.mem_map.1 hitem
    exact e.newline_not_mem_text
  case read =>
    rw [List.map_map]
    exact List.map_congr_left fun e _ => by rw [Function.comp_apply, e.parse?_text]

/-- A document with a step that says a line end, a quote, a backslash and a control character. -/
def Document.rugged : Document where
  id := "w"
  name := "W"
  nodes := [
    { id := "a", kind := "start" },
    { id := "b", kind := "log", data := { message := some "x\n\"\\\x01" } }]
  edges := [{ source := "a", target := "b" }]

/-- The graph of that document. -/
def Graph.rugged : Graph where
  steps := [⟨"a", "start", .entry⟩, ⟨"b", "log", .log "x\n\"\\\x01"⟩]
  transitions := [⟨"a", "b", none⟩]
  stepIndex := indexSteps _
  transitionIndex := indexTransitions _
  nodup := by decide
  stepIndex_eq := rfl
  transitionIndex_eq := rfl

/-- A context with a line end in its only value. -/
def Context.rugged : Context :=
  OrderedMap.empty.insert "k" (.string "a\nb")

/-- The files of that document and of that context. -/
def ruggedFiles : Files := fun path =>
  if path = "c.json" then .ok "\x7b\"k\": \"a\\nb\"\x7d"
  else if path = "w.json" then
    .ok ("\x7b\"id\": \"w\", \"name\": \"W\", \"nodes\": [" ++
      "\x7b\"id\": \"a\", \"type\": \"start\"\x7d, " ++
      "\x7b\"id\": \"b\", \"type\": \"log\", " ++
        "\"data\": \x7b\"message\": \"x\\n\\\"\\\\\\u0001\"\x7d\x7d], " ++
      "\"edges\": [\x7b\"source\": \"a\", \"target\": \"b\"\x7d]\x7d")
  else .error .missing

theorem load_ruggedFiles : load ruggedFiles Document.parse "w.json" = .ok .rugged := by
  decide +kernel

theorem load_ruggedFiles_context :
    load ruggedFiles Context.parse "c.json" = .ok .rugged := by
  decide +kernel

/-- The command prints lines for a message and a context with line ends. -/
theorem respond_json_rugged :
    let events := ((Setup.mk .rugged .rugged .instant).run .never).events.map Timed.event
    let delivered := entries (fun _ => .epoch) events
    delivered.map LogEntry.toLogLine = events.filterMap Event.line? ∧
      ∃ lines, (respond ["--json", "--instant", "-c", "c.json", "w.json"] ruggedFiles
          fun _ => .epoch).lines = lines ++ [""] ∧
        lines.map LogEntry.parse? = delivered.map some := by
  have hparse : Arguments.parse? ["--json", "--instant", "-c", "c.json", "w.json"] = some (.run {
      workflow := "w.json", context := some "c.json", isInstant := true, isJson := true }) := rfl
  exact respond_json hparse rfl rfl ⟨load_ruggedFiles, rfl⟩ load_ruggedFiles_context rfl _

end Workflow
