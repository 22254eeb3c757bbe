import Workflow.Run.Basic
import Mathlib.Algebra.GroupWithZero.Nat

/-!
# Timelines

What a run that nobody cancels delivers, and when.  Only pauses take time, so the time of a
notification is the sum of the pauses before it.

* `timeline` is the list of timed notifications of some actions, `notifications` the list without
  the times, and `duration` how long the actions take.
* `timeline_append` cuts a timeline in two, `timeline_flatMap` into the blocks of a list of items, and
  `pairwise_timeline` says that it is in order.
* `Setup.run_never` says that a run that is never cancelled delivers the timeline of its plan.
* `Setup.notifications_plan` is what a plan notifies of, and
  `Setup.notifications_plan_eq_append_complete` that it ends with the completion and has no other.
-/

namespace Workflow

/-! ## Actions in time -/

/-- The notifications of some actions that begin at a time, each with the time of its delivery. -/
def timeline (time : Nat) : List Action → List Timed
  | [] => []
  | .pause ms :: rest => timeline (time + ms) rest
  | .notify e :: rest => ⟨time, e⟩ :: timeline time rest

/-- The notifications among some actions. -/
def notifications : List Action → List Event
  | [] => []
  | .pause _ :: rest => notifications rest
  | .notify e :: rest => e :: notifications rest

/-- How long some actions take. -/
def duration : List Action → Nat
  | [] => 0
  | .pause ms :: rest => ms + duration rest
  | .notify _ :: rest => duration rest

theorem timeline_append : ∀ (first second : List Action) (time : Nat),
    timeline time (first ++ second) =
      timeline time first ++ timeline (time + duration first) second := by
  intro first
  induction first with
  | nil => intro second time; rfl
  | cons a rest ih =>
      intro second time
      cases a with
      | pause ms =>
          rw [List.cons_append, timeline, timeline, duration, ih, Nat.add_assoc]
      | notify e => rw [List.cons_append, timeline, timeline, duration, ih, List.cons_append]

theorem duration_append (first second : List Action) :
    duration (first ++ second) = duration first + duration second := by
  induction first with
  | nil => exact (Nat.zero_add _).symm
  | cons a rest ih =>
      cases a with
      | pause ms => rw [List.cons_append, duration, duration, ih, Nat.add_assoc]
      | notify e => exact ih

theorem duration_flatMap {α : Type} (f : α → List Action) (items : List α) :
    duration (items.flatMap f) = (items.map fun a => duration (f a)).sum := by
  induction items with
  | nil => rfl
  | cons a rest ih => rw [List.flatMap_cons, duration_append, ih, List.map_cons, List.sum_cons]

/-- The actions of an item begin when those of the items before it have taken their time. -/
theorem timeline_flatMap {α : Type} (f : α → List Action) (items : List α) (time : Nat) :
    timeline time (items.flatMap f) = items.zipIdx.flatMap fun (a, k) =>
      timeline (time + ((items.take k).map fun b => duration (f b)).sum) (f a) := by
  induction items generalizing time with
  | nil => rfl
  | cons a rest ih =>
      rw [List.flatMap_cons, timeline_append, ih, List.zipIdx_cons', List.flatMap_cons,
        List.flatMap_map]
      congr 2
      funext x
      simp only [Prod.map_fst, Prod.map_snd, id_eq, List.take_succ_cons, List.map_cons,
        List.sum_cons, Nat.add_assoc]

theorem map_event_timeline : ∀ (actions : List Action) (time : Nat),
    (timeline time actions).map Timed.event = notifications actions := by
  intro actions
  induction actions with
  | nil => intro _; rfl
  | cons a rest ih =>
      intro time
      cases a with
      | pause ms => exact ih (time + ms)
      | notify e => rw [timeline, notifications, List.map_cons, ih]

theorem timeline_ne_nil {actions : List Action} (h : notifications actions ≠ []) (time : Nat) :
    timeline time actions ≠ [] := by
  rwa [Ne, ← List.map_eq_nil_iff (f := Timed.event), map_event_timeline]

theorem le_time_of_mem_timeline : ∀ (actions : List Action) (time : Nat),
    ∀ x ∈ timeline time actions, time ≤ x.time := by
  intro actions
  induction actions with
  | nil => intro time x hx; exact absurd hx List.not_mem_nil
  | cons a rest ih =>
      intro time x hx
      cases a with
      | pause ms => exact Nat.le_trans (Nat.le_add_right _ _) (ih (time + ms) x hx)
      | notify e =>
          rcases List.mem_cons.1 hx with rfl | hx
          · exact Nat.le_refl _
          · exact ih time x hx

/-- A timeline is in the order of time. -/
theorem pairwise_timeline : ∀ (actions : List Action) (time : Nat),
    (timeline time actions).Pairwise fun x y => x.time ≤ y.time := by
  intro actions
  induction actions with
  | nil => intro _; exact List.Pairwise.nil
  | cons a rest ih =>
      intro time
      cases a with
      | pause ms => exact ih (time + ms)
      | notify e =>
          exact List.pairwise_cons.2 ⟨le_time_of_mem_timeline rest time, ih time⟩

theorem notifications_append : ∀ first second : List Action,
    notifications (first ++ second) = notifications first ++ notifications second := by
  intro first
  induction first with
  | nil => intro second; rfl
  | cons a rest ih =>
      intro second
      cases a with
      | pause ms => exact ih second
      | notify e => rw [List.cons_append, notifications, notifications, ih, List.cons_append]

theorem notifications_flatMap {α : Type} (f : α → List Action) : ∀ items : List α,
    notifications (items.flatMap f) = items.flatMap fun a => notifications (f a) := by
  intro items
  induction items with
  | nil => rfl
  | cons a rest ih => rw [List.flatMap_cons, notifications_append, ih, List.flatMap_cons]

/-! ## Runs that nobody cancels -/

theorem executeFrom_never : ∀ (actions : List Action) (delivered : List Event) (time : Nat),
    executeFrom .never delivered time actions =
      ⟨timeline time actions, .completed, time + duration actions⟩ := by
  intro actions
  induction actions with
  | nil => intro _ _; rfl
  | cons a rest ih =>
      intro delivered time
      cases a with
      | pause ms => rw [executeFrom, ih, timeline, duration, Nat.add_assoc]
      | notify e =>
          rw [executeFrom, Cancellation.hasHappened, if_neg Bool.false_ne_true, ih]
          rfl

namespace Setup

/-- A run that nobody cancels delivers the timeline of its plan. -/
theorem run_never (r : Setup) :
    r.run .never = ⟨timeline 0 r.plan, .completed, duration r.plan⟩ := by
  rw [run, execute, executeFrom_never, Nat.zero_add]

/-- What a run notifies of at a step. -/
def blockEvents (r : Setup) (s : Step) : List Event :=
  .enter s.id ::
    ((s.kind.utterances r.context r.timings).map fun u =>
      .log (.ofStep s u.message u.severity)) ++ [.exit s.id]

theorem notifications_block (r : Setup) (s : Step) :
    notifications (r.block s) = r.blockEvents s := by
  have hlines : ∀ us : List Utterance, notifications (us.flatMap (utter s)) =
      us.map fun u => .log (.ofStep s u.message u.severity) := by
    intro us
    rw [notifications_flatMap, List.map_eq_flatMap]
    rfl
  rw [block, notifications_append, notifications_append, hlines]
  rfl

/-- What a plan notifies of when there is no entry step. -/
theorem notifications_plan_of_entry?_eq_none {r : Setup} (h : r.graph.entry? = none) :
    notifications r.plan = [.log noEntry, .complete] := by
  rw [plan, h]
  rfl

/-- What a plan notifies of when there is an entry step. -/
theorem notifications_plan {r : Setup} {start : Step} (h : r.graph.entry? = some start) :
    notifications r.plan =
      r.opening.map .log ++ (r.graph.visits r.context).flatMap r.blockEvents ++
        [.log closing, .complete] := by
  rw [plan, h]
  simp only
  rw [notifications_append, notifications_append, notifications_flatMap]
  simp only [notifications_block]
  rfl

/-! ## The end of a run -/

theorem complete_not_mem_blockEvents (r : Setup) (s : Step) : .complete ∉ r.blockEvents s := by
  simp [blockEvents]

theorem cancelled_not_mem_blockEvents (r : Setup) (s : Step) : .cancelled ∉ r.blockEvents s := by
  simp [blockEvents]

/-- The last notification of a plan is that of completion; there is no other, and none of a
cancellation. -/
theorem notifications_plan_eq_append_complete (r : Setup) :
    ∃ front, notifications r.plan = front ++ [.complete] ∧ .complete ∉ front ∧
      .cancelled ∉ front := by
  cases h : r.graph.entry? with
  | none => exact ⟨[.log noEntry], notifications_plan_of_entry?_eq_none h, by simp, by simp⟩
  | some start =>
      refine ⟨r.opening.map .log ++ (r.graph.visits r.context).flatMap r.blockEvents ++
        [.log closing], ?_, ?_, ?_⟩
      · rw [notifications_plan h, List.append_assoc _ _ [Event.complete]]
        rfl
      · simp [complete_not_mem_blockEvents]
      · simp [cancelled_not_mem_blockEvents]

end Setup
end Workflow
