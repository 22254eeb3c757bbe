import Mathlib
import Workflow.Proofs.Timeline
import Workflow.Proofs.Visits

/-!
# What a run notifies of

The notifications of a run that nobody cancels: two lines on the run as a whole, a block for every
step in the order of a breadth-first search, and a last line before the run is complete.

* `Prescribes` says what a step of each kind has to say, with which severity.
* `Visit.events` is the block of a visit, in which every line names the step.
* `Setup.events_run_never` is the shape of the whole, and `Setup.entered_run_never` what follows for
  the steps that are entered.
-/

namespace Workflow

/-! ## What a step has to say -/

/-- What a step of a kind has to say in a context, and how severe it is. -/
inductive Prescribes (c : Context) : StepKind → List (String × Severity) → Prop where
  | entry : Prescribes c .entry [("Workflow started", .success)]
  | conditionTrue {expression shown : String}
      (hshown : shown = if expression = "" then "empty" else expression)
      (hresult : conditionResult c expression = true) :
      Prescribes c (.condition expression)
        [("Evaluating: \"" ++ shown ++ "\" → TRUE", .success)]
  | conditionFalse {expression shown : String}
      (hshown : shown = if expression = "" then "empty" else expression)
      (hresult : conditionResult c expression = false) :
      Prescribes c (.condition expression)
        [("Evaluating: \"" ++ shown ++ "\" → FALSE", .warning)]
  | wait (length : Float) (unit : DurationUnit) :
      Prescribes c (.wait length unit)
        [("Waiting " ++ durationText length ++ " " ++ unit.name ++ "... (simulated: " ++
            toString (min (durationMs length unit).toNat 5000) ++ "ms)", .info),
          ("Delay completed", .success)]
  /-- A payload of at most fifty characters is shown whole. -/
  | callShort (url : String) {payload : String} (hpayload : payload.length ≤ 50) :
      Prescribes c (.call url payload)
        [("Calling webhook: " ++ url, .info), ("Payload: " ++ payload, .info),
          ("Webhook called successfully (simulated)", .success)]
  /-- Of a longer payload the first fifty characters are shown. -/
  | callLong (url : String) {payload front back : String} (hpayload : payload = front ++ back)
      (hfront : front.length = 50) (hback : back ≠ "") :
      Prescribes c (.call url payload)
        [("Calling webhook: " ++ url, .info), ("Payload: " ++ front ++ "...", .info),
          ("Webhook called successfully (simulated)", .success)]
  | log (message : String) : Prescribes c (.log message) [("LOG: " ++ message, .info)]
  | terminal : Prescribes c .terminal [("Workflow completed", .success)]
  | unknown (name : String) :
      Prescribes c (.unknown name) [("Unknown node type: " ++ name, .warning)]

/-- How many lines a step of a kind says. -/
def StepKind.lineCount : StepKind → Nat
  | .wait .. => 2
  | .call .. => 3
  | _ => 1

theorem Prescribes.length_eq {c : Context} {kind : StepKind} {lines : List (String × Severity)}
    (h : Prescribes c kind lines) : lines.length = kind.lineCount := by
  cases h <;> rfl

theorem payloadPreview_of_length_le {payload : String} (h : payload.length ≤ 50) :
    payloadPreview payload = payload := by
  rw [payloadPreview, if_neg]
  rw [String.length_toList]
  exact Nat.not_lt.2 h

theorem payloadPreview_append {front back : String} (hfront : front.length = 50)
    (hback : back ≠ "") : payloadPreview (front ++ back) = front ++ "..." := by
  have hpos : 0 < back.length := Nat.pos_of_ne_zero fun h => hback (String.length_eq_zero_iff.1 h)
  have hlong : previewLength < (front ++ back).toList.length := by
    rw [String.length_toList, String.length_append, hfront, previewLength]
    omega
  have htake : (front ++ back).toList.take previewLength = front.toList := by
    rw [String.toList_append]
    exact List.take_left' (by rw [String.length_toList, hfront]; rfl)
  rw [payloadPreview, if_pos hlong, htake, String.ofList_append, String.ofList_toList,
    String.ofList_toList]

/-- A text of more than some number of characters is a front of that many and something more. -/
theorem exists_eq_append_of_lt_length {n : Nat} {s : String} (h : n < s.length) :
    ∃ front back : String, s = front ++ back ∧ front.length = n ∧ back ≠ "" := by
  refine ⟨String.ofList (s.toList.take n), String.ofList (s.toList.drop n), ?_, ?_, ?_⟩
  · rw [← String.ofList_append, List.take_append_drop, String.ofList_toList]
  · rw [String.length_ofList, List.length_take, String.length_toList]
    exact Nat.min_eq_left (Nat.le_of_lt h)
  · intro hempty
    have hlength := congrArg String.length hempty
    rw [String.length_ofList, List.length_drop, String.length_toList, String.length_empty]
      at hlength
    omega

theorem conditionMessage_true (expression : String) :
    conditionMessage expression true =
      "Evaluating: \"" ++ (if expression = "" then "empty" else expression) ++ "\" → TRUE" := by
  rw [conditionMessage, if_pos rfl]
  rw [show ("\" → TRUE" : String) = "\" → " ++ "TRUE" from rfl, ← String.append_assoc]
  rfl

theorem conditionMessage_false (expression : String) :
    conditionMessage expression false =
      "Evaluating: \"" ++ (if expression = "" then "empty" else expression) ++ "\" → FALSE" := by
  rw [conditionMessage, if_neg Bool.false_ne_true]
  rw [show ("\" → FALSE" : String) = "\" → " ++ "FALSE" from rfl, ← String.append_assoc]
  rfl

theorem toNat_min (a b : UInt64) : (min a b).toNat = min a.toNat b.toNat := by
  rw [show min a b = if a ≤ b then a else b from rfl, Nat.min_def]
  simp only [UInt64.le_iff_toNat_le]
  split <;> rfl

theorem toNat_simulatedMs (length : Float) (unit : DurationUnit) :
    (simulatedMs length unit).toNat = min (durationMs length unit).toNat 5000 :=
  toNat_min _ _

/-- What a kind of step says, without the pauses. -/
def StepKind.lines (c : Context) (t : Timings) (kind : StepKind) : List (String × Severity) :=
  (kind.utterances c t).map fun u => (u.message, u.severity)

/-- A step says what its kind prescribes. -/
theorem prescribes_lines (c : Context) (t : Timings) (kind : StepKind) :
    Prescribes c kind (kind.lines c t) := by
  cases kind with
  | entry => exact .entry
  | condition expression =>
      cases h : conditionResult c expression with
      | true =>
          simp only [StepKind.lines, StepKind.utterances, h, conditionMessage_true, List.map_cons,
            List.map_nil, if_true]
          exact .conditionTrue rfl h
      | false =>
          simp only [StepKind.lines, StepKind.utterances, h, conditionMessage_false, List.map_cons,
            List.map_nil, Bool.false_eq_true, if_false]
          exact .conditionFalse rfl h
  | wait length unit =>
      simp only [StepKind.lines, StepKind.utterances, waitMessage, toNat_simulatedMs, List.map_cons,
        List.map_nil]
      exact .wait length unit
  | call url payload =>
      simp only [StepKind.lines, StepKind.utterances, List.map_cons, List.map_nil]
      by_cases h : payload.length ≤ 50
      · rw [payloadPreview_of_length_le h]
        exact .callShort url h
      · obtain ⟨front, back, rfl, hfront, hback⟩ := exists_eq_append_of_lt_length (Nat.not_le.1 h)
        rw [payloadPreview_append hfront hback, ← String.append_assoc]
        exact .callLong url rfl hfront hback
  | log message => exact .log message
  | terminal => exact .terminal
  | unknown name => exact .unknown name

/-- A kind of step prescribes what it says and nothing else. -/
theorem prescribes_iff (c : Context) (t : Timings) (kind : StepKind)
    (lines : List (String × Severity)) :
    Prescribes c kind lines ↔ lines = kind.lines c t := by
  constructor
  · intro h
    cases h with
    | entry => rfl
    | conditionTrue hshown hresult =>
        simp only [StepKind.lines, StepKind.utterances, hresult, hshown, conditionMessage_true,
          List.map_cons, List.map_nil, if_true]
    | conditionFalse hshown hresult =>
        simp only [StepKind.lines, StepKind.utterances, hresult, hshown, conditionMessage_false,
          List.map_cons, List.map_nil, Bool.false_eq_true, if_false]
    | wait length unit =>
        simp only [StepKind.lines, StepKind.utterances, waitMessage, toNat_simulatedMs,
          List.map_cons, List.map_nil]
        rfl
    | callShort url hpayload =>
        simp only [StepKind.lines, StepKind.utterances, payloadPreview_of_length_le hpayload,
          List.map_cons, List.map_nil]
    | callLong url hpayload hfront hback =>
        simp only [StepKind.lines, StepKind.utterances, hpayload,
          payloadPreview_append hfront hback, List.map_cons, List.map_nil, String.append_assoc]
    | log message => rfl
    | terminal => rfl
    | unknown name => rfl
  · rintro rfl
    exact prescribes_lines c t kind

/-! ## Blocks -/

/-- A step that is visited, and what it says. -/
structure Visit where
  step : Step
  lines : List (String × Severity)

/-- The notifications of a visit: the step is entered, says its lines and is left. -/
def Visit.events (v : Visit) : List Event :=
  .enter v.step.id ::
    (v.lines.map fun line => .log {
      stepId := v.step.id
      stepKind := v.step.kind.name
      stepLabel := v.step.label
      message := line.1
      severity := line.2 }) ++ [.exit v.step.id]

/-- A line of the run as a whole. -/
def systemLog (stepKind message : String) (severity : Severity) : Event :=
  .log ⟨"", stepKind, "System", message, severity⟩

namespace Setup

/-- The visit of a step in a run. -/
def visit (r : Setup) (s : Step) : Visit := ⟨s, s.kind.lines r.context r.timings⟩

theorem events_visit (r : Setup) (s : Step) : (r.visit s).events = r.blockEvents s := by
  rw [Visit.events, visit, blockEvents, StepKind.lines, List.map_map]
  rfl

/-- **The shape of a run.**  Without an entry step a run says so and is complete.  Otherwise it says
that it starts and what its variables are; then comes one block for every step in the order of a
breadth-first search, in which the step says exactly what its kind prescribes; and then a last line
and the completion, of which there is one only. -/
theorem events_run_never (r : Setup) :
    let events := (r.run .never).events.map Timed.event
    (match r.graph.entry? with
      | none =>
        events = [systemLog "entry" "No Start node found in workflow" .error, .complete]
      | some start => ∃ visits : List Visit,
          visits.map Visit.step = r.graph.breadthFirst r.context start ∧
          (∀ v ∈ visits, v.lines.length = v.step.kind.lineCount ∧
            ∀ lines, Prescribes r.context v.step.kind lines ↔ lines = v.lines) ∧
          events =
            [systemLog "entry" "Starting workflow execution..." .info,
              systemLog "entry" ("Context variables: " ++ r.context.text) .info] ++
            visits.flatMap Visit.events ++
            [systemLog "terminal" "Execution finished" .success, .complete]) ∧
    events.count .complete = 1 ∧ events.getLast? = some .complete ∧ .cancelled ∉ events ∧
    (r.run .never).outcome = .completed := by
  rw [run_never]
  simp only [map_event_timeline]
  obtain ⟨front, hfront, hcomplete, hcancelled⟩ := r.notifications_plan_eq_append_complete
  refine ⟨?_, ?_, ?_, ?_, trivial⟩
  · split
    · next h => exact notifications_plan_of_entry?_eq_none h
    · next start h =>
        refine ⟨(r.graph.visits r.context).map r.visit, ?_, ?_, ?_⟩
        · rw [List.map_map, ← Graph.visits_eq_breadthFirst r.graph r.context h]
          exact List.map_id' _
        · intro v hv
          obtain ⟨s, -, rfl⟩ := List.mem_map.1 hv
          exact ⟨(prescribes_lines _ _ _).length_eq, prescribes_iff _ _ _⟩
        · rw [notifications_plan h, List.flatMap_map]
          simp only [events_visit]
          rfl
  · rw [hfront, List.count_append, List.count_eq_zero_of_not_mem hcomplete]
    rfl
  · rw [hfront, List.getLast?_concat]
  · rw [hfront, List.mem_append]
    rintro (h | h)
    · exact hcancelled h
    · exact absurd h (by simp)

end Setup

/-! ## The steps that are entered -/

/-- The id of the step that a notification says is entered. -/
def Event.entered? : Event → Option String
  | .enter id => some id
  | _ => none

/-- The line of the log that a notification is of. -/
def Event.line? : Event → Option LogLine
  | .log line => some line
  | _ => none

/-- The ids of the steps that a run enters, in order. -/
def Execution.entered (x : Execution) : List String :=
  x.events.filterMap fun t => t.event.entered?

namespace Setup

/-- At a step only that step is entered. -/
theorem filterMap_entered?_blockEvents (r : Setup) (s : Step) :
    (r.blockEvents s).filterMap Event.entered? = [s.id] := by
  rw [blockEvents, List.filterMap_append, List.filterMap_cons]
  simp only [Event.entered?]
  rw [List.filterMap_map]
  simp [Function.comp_def, Event.entered?]

/-- A run that nobody cancels enters the steps that it visits. -/
theorem entered_eq_map_id_visits {r : Setup} {start : Step} (h : r.graph.entry? = some start) :
    (r.run .never).entered = (r.graph.visits r.context).map Step.id := by
  have hevents : (r.run .never).entered = (notifications r.plan).filterMap Event.entered? := by
    rw [Execution.entered, run_never, ← map_event_timeline r.plan 0, List.filterMap_map]
    rfl
  have hblocks : ((r.graph.visits r.context).flatMap r.blockEvents).filterMap Event.entered? =
      (r.graph.visits r.context).map Step.id := by
    rw [List.filterMap_flatMap, List.map_eq_flatMap]
    simp only [filterMap_entered?_blockEvents]
  rw [hevents, notifications_plan h, List.filterMap_append, List.filterMap_append, hblocks]
  exact List.append_nil _

/-- **The order of a run.**  A run that nobody cancels enters the steps in the order of a
breadth-first search from the first entry step; it enters none twice; and it enters those that can
be reached from that step over the transitions that a run takes, whatever cycles, dead ends and
parallel transitions there are. -/
theorem entered_run_never (r : Setup) (start : Step) (h : r.graph.entry? = some start) :
    (r.run .never).entered = (r.graph.breadthFirst r.context start).map Step.id ∧
      (r.run .never).entered.Nodup ∧
      ∀ id, id ∈ (r.run .never).entered ↔
        ∃ s, Relation.ReflTransGen (r.graph.Leads r.context) start s ∧ s.id = id := by
  rw [entered_eq_map_id_visits h]
  refine ⟨?_, r.graph.nodup_map_id_visits r.context, r.graph.mem_map_id_visits_iff r.context h⟩
  rw [r.graph.visits_eq_breadthFirst r.context h]

/-- A graph with a cycle, a step that leads to itself, parallel transitions, transitions that end
nowhere, a second entry, and a condition that is false in the context that a run has by default. -/
def tangledGraph : Graph where
  steps := [.unlabelled "lost" (.log "not found"), .unlabelled "start" .entry,
    .unlabelled "again" (.log "here"), .unlabelled "branch" (.condition "value < count"),
    .unlabelled "end" .terminal, .unlabelled "late" .entry]
  transitions := [⟨"start", "again", none⟩, ⟨"start", "branch", none⟩, ⟨"start", "again", none⟩,
    ⟨"start", "nowhere", none⟩, ⟨"again", "again", none⟩, ⟨"again", "start", none⟩,
    ⟨"branch", "late", some .whenTrue⟩, ⟨"branch", "nowhere", none⟩,
    ⟨"branch", "end", some .whenFalse⟩, ⟨"branch", "lost", none⟩, ⟨"end", "lost", none⟩,
    ⟨"lost", "start", none⟩]
  stepIndex := _
  transitionIndex := _
  nodup := by decide
  stepIndex_eq := rfl
  transitionIndex_eq := rfl

/-- The condition reads `15 < 3` when its variables are put in. -/
theorem conditionResult_value_lt_count : conditionResult .demo "value < count" = false := by
  have htokens : tokenize "15 < 3" = .ok [.number 15, .symbol .less, .number 3] := by
    decide +kernel
  have hparse : parseExpr "15 < 3" =
      .ok (.binary .less (.literal (.number 15)) (.literal (.number 3))) := by
    rw [parseExpr, htokens]
    cbv
  rw [conditionResult_eq_isTruthy (by decide +kernel) (by decide +kernel) (by decide +kernel)
    hparse]
  decide +kernel

/-- The condition decides against the second entry, which comes first among its transitions. -/
theorem visits_tangledGraph : tangledGraph.visits .demo =
    [.unlabelled "start" .entry, .unlabelled "again" (.log "here"),
      .unlabelled "branch" (.condition "value < count"), .unlabelled "end" .terminal] := by
  have hentry : tangledGraph.entry? = some (.unlabelled "start" .entry) := by decide
  have hstart : tangledGraph.followed .demo (.unlabelled "start" .entry) =
      [.unlabelled "again" (.log "here"), .unlabelled "branch" (.condition "value < count"),
        .unlabelled "again" (.log "here")] := by cbv
  have hagain : tangledGraph.followed .demo (.unlabelled "again" (.log "here")) =
      [.unlabelled "again" (.log "here"), .unlabelled "start" .entry] := by cbv
  have hbranch : tangledGraph.followed .demo (.unlabelled "branch" (.condition "value < count")) =
      [.unlabelled "end" .terminal] := by
    -- The result has to be put in before anything is evaluated: to compute it takes too long.
    rw [Graph.followed_eq_successors, Graph.successors, Graph.taken]
    simp only [Step.unlabelled, conditionResult_value_lt_count]
    cbv
  have hend : tangledGraph.followed .demo (.unlabelled "end" .terminal) = [] := rfl
  rw [Graph.visits_eq_visitsFrom, hentry]
  simp [Graph.visitsFrom_cons, Graph.queued, hstart, hagain, hbranch, hend]

theorem entered_tangledGraph :
    let r : Setup := { graph := tangledGraph }
    tangledGraph.entry? = some (.unlabelled "start" .entry) ∧
      (r.run .never).entered = ["start", "again", "branch", "end"] ∧
      (r.run .never).entered.Nodup ∧
      ∀ id, id ∈ (r.run .never).entered ↔ ∃ s, Relation.ReflTransGen
        (r.graph.Leads r.context) (.unlabelled "start" .entry) s ∧ s.id = id := by
  intro r
  have hentry : tangledGraph.entry? = some (.unlabelled "start" .entry) := by decide
  obtain ⟨horder, hnodup, hreached⟩ := entered_run_never r _ hentry
  refine ⟨hentry, horder.trans ?_, hnodup, hreached⟩
  have hvisits : r.graph.visits r.context = _ := visits_tangledGraph
  rw [← Graph.visits_eq_breadthFirst _ _ hentry, hvisits]
  rfl

end Setup
end Workflow
