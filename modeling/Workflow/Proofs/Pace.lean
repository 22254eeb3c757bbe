import Workflow.Proofs.Notifications

/-!
# The pace of a run

When a run that nobody cancels does what.  The visits follow one another without a gap, and what comes
up in the queue but is not visited takes no time.

* `Timings.span` is the time of a visit; `Timings.own` is what the step itself takes of it, and
  `Timings.moments` says when its lines come.
* `Visit.timed` is the block of a visit in time, and `Setup.timeline_block` says that a run keeps it.
* `Setup.paced_run_never` is the pace of the whole run.
-/

namespace Workflow

/-! ## What a step takes -/

namespace Timings

variable (t : Timings)

/-- How long a step of a kind takes, not counting the pauses of entering and leaving it. -/
def own : StepKind → Nat
  | .entry => t.entry.toNat
  | .condition _ => t.condition.toNat
  | .wait length unit => min (min (durationMs length unit).toNat 5000) t.maxWait.toNat
  | .call .. => t.callRequest.toNat + t.callResponse.toNat
  | .log _ => t.log.toNat
  | .terminal => t.terminal.toNat
  | .unknown _ => 0

/-- When a step of a kind says its lines, counted from the end of the pause of entering it. -/
def moments (kind : StepKind) : List Nat :=
  match kind with
  | .wait .. => [0, t.own kind]
  | .call .. => [0, t.callRequest.toNat, t.callRequest.toNat + t.callResponse.toNat]
  | _ => [0]

/-- How long the visit of a step takes. -/
def span (s : Step) : Nat :=
  t.stepEnter.toNat + t.own s.kind + t.stepExit.toNat

end Timings

/-- The notifications of a visit that begins at a time: the step is entered at once, says its lines
at their moments after the pause of entering, and is left when it has taken its own time. -/
def Visit.timed (t : Timings) (time : Nat) (v : Visit) : List Timed :=
  let settled := time + t.stepEnter.toNat
  List.zipWith Timed.mk
    (time :: (t.moments v.step.kind).map (settled + ·) ++ [settled + t.own v.step.kind]) v.events

/-! ## A visit in time -/

theorem zipWith_time_event (l : List Timed) :
    List.zipWith Timed.mk (l.map Timed.time) (l.map Timed.event) = l := by
  rw [List.zipWith_map, List.zipWith_self]
  exact List.map_id' l

namespace Setup

variable (r : Setup)

/-- The pauses between the lines of a step are the time that the step takes. -/
theorem duration_utterances (s : Step) (kind : StepKind) :
    duration ((kind.utterances r.context r.timings).flatMap (utter s)) = r.timings.own kind := by
  cases kind <;> simp [StepKind.utterances, utter, duration, Timings.own, toNat_min,
    toNat_simulatedMs]

/-- The lines of a step come at the moments of its kind. -/
theorem map_time_timeline_utterances (s : Step) (kind : StepKind) (time : Nat) :
    (timeline time ((kind.utterances r.context r.timings).flatMap (utter s))).map Timed.time =
      (r.timings.moments kind).map (time + ·) := by
  cases kind <;> simp [StepKind.utterances, utter, timeline, Timings.moments, Timings.own, toNat_min,
    toNat_simulatedMs, Nat.add_assoc]

theorem duration_block (s : Step) : duration (r.block s) = r.timings.span s := by
  rw [block, duration_append, duration_append, duration_utterances]
  rfl

/-- A run keeps the times of a visit. -/
theorem timeline_block (s : Step) (time : Nat) :
    timeline time (r.block s) = (r.visit s).timed r.timings time := by
  have htimes : (timeline time (r.block s)).map Timed.time =
      time :: (r.timings.moments s.kind).map (time + r.timings.stepEnter.toNat + ·) ++
        [time + r.timings.stepEnter.toNat + r.timings.own s.kind] := by
    rw [block, timeline_append, timeline_append, duration_append, duration_utterances,
      List.map_append, List.map_append, map_time_timeline_utterances, ← Nat.add_assoc]
    rfl
  rw [← zipWith_time_event (timeline time (r.block s)), htimes, map_event_timeline,
    notifications_block, ← events_visit]
  rfl

end Setup

/-! ## The whole run -/

/-- The time and the id of a step that a notification says is entered. -/
def Timed.entrance? (e : Timed) : Option (Nat × String) :=
  e.event.entered?.map (e.time, ·)

/-- The steps that a run enters, each with the time at which it does. -/
def Execution.entrances (x : Execution) : List (Nat × String) :=
  x.events.filterMap Timed.entrance?

namespace Setup

variable (r : Setup)

/-- The visits of some steps, one after the other, each beginning when those before it have taken
their time. -/
def timedVisits (steps : List Step) : List Timed :=
  steps.zipIdx.flatMap fun (s, k) =>
    (r.visit s).timed r.timings ((steps.take k).map r.timings.span).sum

theorem timeline_flatMap_block (steps : List Step) :
    timeline 0 (steps.flatMap r.block) = r.timedVisits steps := by
  rw [timeline_flatMap]
  simp only [timeline_block, duration_block, Nat.zero_add]
  rfl

theorem duration_flatMap_block (steps : List Step) :
    duration (steps.flatMap r.block) = (steps.map r.timings.span).sum := by
  rw [duration_flatMap]
  simp only [duration_block]

theorem run_never_of_entry?_eq_none (h : r.graph.entry? = none) :
    r.run .never = ⟨[⟨0, .log noEntry⟩, ⟨0, .complete⟩], .completed, 0⟩ := by
  rw [run_never, plan, h]
  rfl

/-- A run that has an entry step is its visits, after two lines at once and before the end. -/
theorem run_never_of_entry?_eq_some {first : Step} (h : r.graph.entry? = some first) :
    let visits := r.graph.visits r.context
    let total := (visits.map r.timings.span).sum
    r.run .never = ⟨r.opening.map (fun line => ⟨0, .log line⟩) ++ r.timedVisits visits ++
      [⟨total, .log closing⟩, ⟨total, .complete⟩], .completed, total⟩ := by
  intro visits total
  have hplan : r.plan = r.opening.map announce ++ visits.flatMap r.block ++
      [announce closing, .notify .complete] := by
    rw [plan, h]
  have hopening : timeline 0 (r.opening.map announce) = r.opening.map (fun line => ⟨0, .log line⟩) ∧
      duration (r.opening.map announce) = 0 := ⟨rfl, rfl⟩
  have hfront : duration (r.opening.map announce ++ visits.flatMap r.block) = total := by
    rw [duration_append, hopening.2, duration_flatMap_block, Nat.zero_add]
  rw [run_never, hplan, timeline_append, timeline_append, duration_append _ [_, _], hfront,
    hopening.1, hopening.2, timeline_flatMap_block, Nat.zero_add]
  rfl

/-- At a visit only its step is entered, and that at once. -/
theorem filterMap_entrance?_timed (s : Step) (time : Nat) :
    ((r.visit s).timed r.timings time).filterMap Timed.entrance? = [(time, s.id)] := by
  have hhead : Timed.entrance? ⟨time, .enter (r.visit s).step.id⟩ = some (time, s.id) := rfl
  rw [Visit.timed, Visit.events, List.cons_append, List.cons_append, List.zipWith_cons_cons,
    List.filterMap_cons_some hhead, List.cons_inj_right, List.filterMap_eq_nil_iff,
    ← List.map_uncurry_zip_eq_zipWith]
  intro x hx
  obtain ⟨⟨time', e⟩, he, rfl⟩ := List.mem_map.1 hx
  rcases List.mem_append.1 (List.of_mem_zip he).2 with he | he
  · obtain ⟨line, -, rfl⟩ := List.mem_map.1 he
    rfl
  · rw [List.mem_singleton.1 he]
    rfl

theorem filterMap_entrance?_timedVisits (steps : List Step) :
    (r.timedVisits steps).filterMap Timed.entrance? =
      steps.zipIdx.map fun (s, k) => (((steps.take k).map r.timings.span).sum, s.id) := by
  rw [timedVisits, List.filterMap_flatMap, List.map_eq_flatMap]
  simp only [filterMap_entrance?_timed]

/-- Every step is entered when the visits before it have taken their time. -/
theorem entrances_run_never :
    (r.run .never).entrances = (r.graph.visits r.context).zipIdx.map fun (s, k) =>
      ((((r.graph.visits r.context).take k).map r.timings.span).sum, s.id) := by
  cases h : r.graph.entry? with
  | none =>
      have hrun : r.run .never = ⟨[⟨0, .log noEntry⟩, ⟨0, .complete⟩], .completed, 0⟩ :=
        r.run_never_of_entry?_eq_none h
      rw [hrun, r.graph.visits_of_entry?_eq_none r.context h]
      rfl
  | some first =>
      have hrun : r.run .never = ⟨_, _, _⟩ := r.run_never_of_entry?_eq_some h
      rw [← filterMap_entrance?_timedVisits, Execution.entrances, hrun, List.filterMap_append,
        List.filterMap_append]
      exact List.append_nil _

/-- **The pace of a run.**  The first visited step is entered at once and every other one when the
visits before it have taken their time; at every visit the step says its lines, and is left, at the
moments of its kind; and the run ends with the last visit, after no time at all if there is no entry
step. -/
theorem paced_run_never :
    let run := r.run .never
    let visits := r.graph.visits r.context
    let start k := ((visits.take k).map r.timings.span).sum
    run.entrances = visits.zipIdx.map (fun (s, k) => (start k, s.id)) ∧
      run.endTime = (visits.map r.timings.span).sum ∧
      (r.graph.entry? = none → run.endTime = 0) ∧
      run.events = match r.graph.entry? with
        | none => [⟨0, .log noEntry⟩, ⟨0, .complete⟩]
        | some _ =>
          r.opening.map (fun line => ⟨0, .log line⟩) ++
            (visits.zipIdx.flatMap fun (s, k) => (r.visit s).timed r.timings (start k)) ++
            [⟨run.endTime, .log closing⟩, ⟨run.endTime, .complete⟩] := by
  intro run visits start
  refine ⟨r.entrances_run_never, ?_⟩
  cases h : r.graph.entry? with
  | none =>
      have hvisits : visits = [] := r.graph.visits_of_entry?_eq_none r.context h
      have hrun : run = ⟨[⟨0, .log noEntry⟩, ⟨0, .complete⟩], .completed, 0⟩ :=
        r.run_never_of_entry?_eq_none h
      rw [hrun, hvisits]
      exact ⟨rfl, fun _ => rfl, rfl⟩
  | some first =>
      have hrun : run = ⟨_, _, _⟩ := r.run_never_of_entry?_eq_some h
      refine ⟨congrArg Execution.endTime hrun, nofun, ?_⟩
      rw [hrun]
      rfl

example : (Setup.run { graph := tangledGraph } .never).entrances =
    [(0, "start"), (1000, "again"), (2000, "branch"), (3300, "end")] := by
  rw [entrances_run_never, visits_tangledGraph]
  rfl

end Setup
end Workflow
