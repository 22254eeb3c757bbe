import Mathlib.Data.List.Forall2
import Workflow.Proofs.Tasks

/-!
# Sessions

Several runs in one session do not touch each other: whatever a script does, each of its runs shows
what it would show alone, cancelled at the moment at which the script cancels it.

* `Command` is a step of a script, `Session.play` plays a script.
* `Spawned` is what a script has settled about a run, `Session.spawned` collects it.
* `Session.InStep` is what every command keeps, `Session.InStep.perform` says that it does.
* `Session.forall₂_isRun_play` is the law of sessions.
-/

namespace Workflow

/-! ## Scripts -/

/-- A command of a script. -/
inductive Command where
  | start (name : String) (r : Setup)
  | sleep (ms : Nat)
  | cancel (name : String)
  /-- Cancels a run through the token that its handle gives out. -/
  | cancelToken (name : String)
  | join (name : String)

/-- What a script has settled about a run: what it was given, when it was started, and when it is
cancelled on its own clock, which goes from its start. -/
structure Spawned where
  setup : Setup
  started : Nat
  cancellation : Cancellation

namespace Spawned

/-- The run as it would be alone. -/
def execution (run : Spawned) : Execution :=
  run.setup.run run.cancellation

/-- The run is cancelled, after it has delivered some notifications.  The first time counts. -/
def cancel (run : Spawned) (now : Nat) (delivered : List Timed) : Spawned :=
  if run.cancellation = .never then
    { run with cancellation := if delivered = [] then .before else .at (now - run.started) }
  else run

end Spawned

namespace Session

/-- Carries out a command. -/
def perform (s : Session) : Command → Session
  | .start name r => s.start name r.plan
  | .sleep ms => s.sleep ms
  | .cancel name | .cancelToken name => s.cancel name
  | .join name => s.join name

/-- Plays a script. -/
def play (s : Session) (script : List Command) : Session :=
  script.foldl perform s

/-- What is settled about the runs by a command. -/
def settle (s : Session) (runs : List Spawned) : Command → List Spawned
  | .start _ r => runs ++ [⟨r, s.now, .never⟩]
  | .cancel name | .cancelToken name =>
    List.zipWith (fun entry run =>
      if entry.1 = name then run.cancel s.now entry.2.events else run) s.tasks runs
  | .sleep _ | .join _ => runs

/-- What is settled about the runs by a script, in the order of their start. -/
def spawned (s : Session) (runs : List Spawned) : List Command → List Spawned
  | [] => runs
  | command :: rest => spawned (s.perform command) (s.settle runs command) rest

/-! ## What a command keeps -/

theorem forall₂_map_zipWith {α β γ δ : Type} {R : α → β → Prop} {S : γ → δ → Prop} {f : α → γ}
    {g : α → β → δ} (hstep : ∀ a b, R a b → S (f a) (g a b)) {as : List α} {bs : List β}
    (h : List.Forall₂ R as bs) : List.Forall₂ S (as.map f) (List.zipWith g as bs) := by
  induction h with
  | nil => exact .nil
  | cons hab _ ih => exact .cons (hstep _ _ hab) ih

/-- The tasks of a session are those of the runs. -/
def InStep (s : Session) (runs : List Spawned) : Prop :=
  List.Forall₂ (fun entry run => entry.2.started = run.started ∧
    entry.2.Stands run.setup run.cancellation s.now) s.tasks runs

theorem task?_mem {s : Session} {name : String} {t : Task} (h : s.task? name = some t) :
    (name, t) ∈ s.tasks := by
  obtain ⟨before, after, hsplit, -⟩ := List.lookup_eq_some_iff.1 h
  rw [hsplit]
  exact List.mem_append_right _ List.mem_cons_self

theorem task?_waitUntil (s : Session) (time : Nat) (name : String) :
    (s.waitUntil time).task? name = (s.task? name).map (Task.advance (some time)) := by
  rw [task?, task?, waitUntil]
  induction s.tasks with
  | nil => rfl
  | cons entry tasks ih =>
      rw [List.map_cons, List.lookup_cons, List.lookup_cons]
      split
      · rfl
      · exact ih

namespace InStep

variable {s : Session} {runs : List Spawned}

theorem exists_stands (h : s.InStep runs) {entry : String × Task} (hentry : entry ∈ s.tasks) :
    ∃ r c, entry.2.Stands r c s.now := by
  obtain ⟨i, hi, hget⟩ := List.getElem_of_mem hentry
  have hlength := List.Forall₂.length_eq h
  obtain ⟨-, hstands⟩ := List.Forall₂.get h hi (hlength ▸ hi)
  have hentry : s.tasks.get ⟨i, hi⟩ = entry := hget
  rw [hentry] at hstands
  exact ⟨_, _, hstands⟩

theorem start (h : s.InStep runs) (name : String) (r : Setup) :
    (s.start name r.plan).InStep (runs ++ [⟨r, s.now, .never⟩]) :=
  List.rel_append h (.cons ⟨rfl, Task.stands_spawn r s.now⟩ .nil)

theorem waitUntil {time : Nat} (h : s.InStep runs) (htime : s.now ≤ time) :
    (s.waitUntil time).InStep runs := by
  refine List.forall₂_map_left_iff.2 (h.imp ?_)
  rintro ⟨name, t⟩ run ⟨hstarted, hstands⟩
  exact ⟨(Task.started_advance _ t).trans hstarted, hstands.advance htime⟩

theorem cancel (h : s.InStep runs) (name : String) :
    (s.cancel name).InStep (List.zipWith (fun entry run =>
      if entry.1 = name then run.cancel s.now entry.2.events else run) s.tasks runs) := by
  refine forall₂_map_zipWith ?_ h
  rintro ⟨other, t⟩ run ⟨hstarted, hstands⟩
  simp only
  split
  · rw [Spawned.cancel]
    split
    · next hnever =>
        rw [hnever] at hstands
        exact ⟨hstarted, hstarted ▸ hstands.cancel⟩
    · next hne => exact ⟨hstarted, hstands.cancel_of_ne_never hne⟩
  · exact ⟨hstarted, hstands⟩

theorem join (h : s.InStep runs) (name : String) : (s.join name).InStep runs := by
  rw [Session.join]
  split
  · exact h
  · next t htask =>
      split
      · exact h
      · next hfinished =>
          obtain ⟨r, c, hstands⟩ := h.exists_stands (task?_mem htask)
          have hnone := Task.outcome_eq_none (Bool.eq_false_iff.2 hfinished)
          exact h.waitUntil (hstands.due_advance_none hnone).2

/-- Every command keeps the tasks in step with their runs. -/
theorem perform (h : s.InStep runs) (command : Command) :
    (s.perform command).InStep (s.settle runs command) := by
  cases command with
  | start name r => exact h.start name r
  | sleep ms => exact h.waitUntil (Nat.le_add_right _ _)
  | cancel name => exact h.cancel name
  | cancelToken name => exact h.cancel name
  | join name => exact h.join name

/-- A whole script keeps the tasks in step with their runs. -/
theorem play (h : s.InStep runs) (script : List Command) :
    (s.play script).InStep (s.spawned runs script) := by
  induction script generalizing s runs with
  | nil => exact h
  | cons command rest ih => exact ih (h.perform command)

end InStep

/-! ## Runs that have ended -/

/-- A command leaves a run that has ended as it is, but for the mark of a cancellation. -/
theorem getElem?_perform {s : Session} {i : Nat} {name : String} {t : Task}
    (h : s.tasks[i]? = some (name, t)) (hfinished : t.isFinished = true) (command : Command) :
    ∃ t', (s.perform command).tasks[i]? = some (name, t') ∧ t'.events = t.events ∧
      t'.outcome = t.outcome := by
  have hwait : ∀ time, (s.waitUntil time).tasks[i]? = some (name, t) := by
    intro time
    have hsame : t.advance (some time) = t := if_pos hfinished
    rw [waitUntil, List.getElem?_map, h, Option.map_some]
    simp only [hsame]
  have hcancel : ∀ other, ∃ t', (s.cancel other).tasks[i]? = some (name, t') ∧
      t'.events = t.events ∧ t'.outcome = t.outcome := by
    intro other
    rw [Session.cancel, update, List.getElem?_map, h, Option.map_some]
    by_cases hname : name = other
    · exact ⟨t.cancel, by simp only [if_pos hname], rfl, rfl⟩
    · exact ⟨t, by simp only [if_neg hname], rfl, rfl⟩
  cases command with
  | start other r =>
      obtain ⟨hi, -⟩ := List.getElem?_eq_some_iff.1 h
      exact ⟨t, (List.getElem?_append_left hi).trans h, rfl, rfl⟩
  | sleep ms => exact ⟨t, hwait _, rfl, rfl⟩
  | cancel other => exact hcancel other
  | cancelToken other => exact hcancel other
  | join other =>
      refine ⟨t, ?_, rfl, rfl⟩
      rw [perform, Session.join]
      split
      · exact h
      · split
        · exact h
        · exact hwait _

theorem getElem?_play {s : Session} {i : Nat} {name : String} {t : Task}
    (h : s.tasks[i]? = some (name, t)) (hfinished : t.isFinished = true) (script : List Command) :
    ∃ t', (s.play script).tasks[i]? = some (name, t') ∧ t'.events = t.events ∧
      t'.outcome = t.outcome := by
  induction script generalizing s t with
  | nil => exact ⟨t, h, rfl, rfl⟩
  | cons command rest ih =>
      obtain ⟨u, hu, hevents, houtcome⟩ := getElem?_perform h hfinished command
      have hfinishedU : u.isFinished = true := by rwa [Task.isFinished, houtcome]
      obtain ⟨t', ht', hevents', houtcome'⟩ := ih hu hfinishedU
      exact ⟨t', ht', hevents'.trans hevents, houtcome'.trans houtcome⟩

/-! ## The law of sessions -/

/-- Whether a task is what a run shows at a time: nothing if the script has not waited since it was
started, and otherwise what the lone run shows by then on its own clock. -/
structure IsRun (t : Task) (run : Spawned) (now : Nat) : Prop where
  started_eq : t.started = run.started
  started_le : run.started ≤ now
  shows : t.status = .idle ∧ run.started = now ∨ t.Shows run.execution (now - run.started)
  of_isFinished : t.isFinished = true →
    t.events = run.execution.events ∧ t.outcome = some run.execution.outcome

/-- **Runs of one session do not touch each other.**  At every point of every script each run is what
it would be alone, cancelled at the moment at which the script cancels it, and its status can be told
from its notifications.  After any wait it has begun; once it was joined it has ended; and once it has
ended neither its notifications nor its status change any more. -/
theorem forall₂_isRun_play (script : List Command) :
    let s : Session := play {} script
    List.Forall₂ (fun entry run => IsRun entry.2 run s.now) s.tasks (spawned {} [] script) ∧
      (∀ entry ∈ s.tasks, entry.2.status = .ofEvents entry.2.events) ∧
      (∀ ms, ∀ entry ∈ (s.perform (.sleep ms)).tasks, entry.2.status ≠ .idle) ∧
      (∀ name t, s.task? name = some t →
        ∃ t', (s.perform (.join name)).task? name = some t' ∧ t'.isFinished = true) ∧
      ∀ (more : List Command) (i : Nat) (name : String) (t : Task),
        s.tasks[i]? = some (name, t) → t.isFinished = true →
        ∃ t', (s.play more).tasks[i]? = some (name, t') ∧ t'.events = t.events ∧
          t'.status = t.status := by
  intro s
  have hstep : s.InStep (spawned {} [] script) := InStep.play (s := {}) .nil script
  refine ⟨hstep.imp ?_, ?_, ?_, ?_, ?_⟩
  · rintro ⟨name, t⟩ run ⟨hstarted, hstands⟩
    exact ⟨hstarted, hstarted ▸ hstands.started_le, hstarted ▸ hstands.shows,
      hstands.of_isFinished⟩
  · intro entry hentry
    obtain ⟨r, c, hstands⟩ := hstep.exists_stands hentry
    exact hstands.status_eq
  · intro ms entry hentry
    obtain ⟨⟨name, t⟩, hmem, rfl⟩ := List.mem_map.1 hentry
    obtain ⟨r, c, hstands⟩ := hstep.exists_stands hmem
    exact hstands.status_advance_ne_idle (Nat.le_add_right _ _)
  · intro name t htask
    obtain ⟨r, c, hstands⟩ := hstep.exists_stands (task?_mem htask)
    rw [perform, Session.join, htask]
    simp only
    split
    · next hfinished => exact ⟨t, htask, hfinished⟩
    · next hfinished =>
        rw [task?_waitUntil, htask]
        have hnone := Task.outcome_eq_none (Bool.eq_false_iff.2 hfinished)
        exact ⟨_, rfl, hstands.isFinished_advance hnone⟩
  · intro more i name t hget hfinished
    obtain ⟨t', ht', hevents, houtcome⟩ := getElem?_play hget hfinished more
    exact ⟨t', ht', hevents, Task.status_eq_of_outcome_eq hfinished houtcome⟩

end Session

end Workflow
